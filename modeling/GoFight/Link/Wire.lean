import GoFight.Net.Outbound
import GoFight.Net.Streams

/-!
# From one server to another

What one process gives `net_send` another gets from `get_net_msgs`.  Between them is a TCP
connection: what the reader has received is at any time a prefix of what the writer's socket has
taken.  Each process is a net layer of its own, with all its threads.

* `Wire`, `wireSystem` — the two processes and the connection between them;
* `arriving` — what the reader makes of the nodes sent;
* `Carried` — they come out in order, once and unchanged, and all of them when nothing is on its way;
* `carried_of_reach` — in every run.
-/

namespace GoFight.Link

open GoFight.Lib GoFight.Net

variable {Cls Msg : Type*}

/-! ### The bytes -/

section Codec

variable {pb : Protobuf Cls Msg} {reg : Registry Cls} {conn : Addr}

/-- What the processes rely on for one node: its frame fits the length field, and its message is of
the class registered for its type. -/
structure Fits (pb : Protobuf Cls Msg) (reg : Registry Cls) (m : MsgNode Msg) : Prop where
  length : ((encodeNode pb m).length : ℤ) ≤ intMax
  cls : ∀ c, reg m.msgType = some c → c = pb.clsOf m.msgData

/-- The node that comes of `m` at the connection `conn`. -/
def arriving (reg : Registry Cls) (conn : Addr) (m : MsgNode Msg) : Option (MsgNode Msg) :=
  (reg m.msgType).map fun _ => { m with msgConn := conn }

theorem nodeOfFrame_arriving (hpb : pb.Lawful) {m : MsgNode Msg} (h : Fits pb reg m) :
    nodeOfFrame pb reg conn (encodeNode pb m) = arriving reg conn m := by
  cases hreg : reg m.msgType with
  | none =>
    have htype : i32Val ((encodeNode pb m).take 4) = m.msgType := by
      rw [encodeNode, List.append_assoc, List.append_assoc, List.take_left' (by simp),
        i32Val_i32Bytes]
    rw [arriving, hreg, nodeOfFrame_eq_none (by rw [htype, hreg])]
    rfl
  | some c =>
    rw [arriving, hreg, nodeOfFrame_encode reg conn hpb h.length (by rw [hreg, h.cls c hreg])]
    rfl

/-- **The frames of an encoded sequence**, however long it is. -/
theorem split_frames (hpb : pb.Lawful) {r : List UInt8} (hr : r ≠ []) (ms : List (MsgNode Msg))
    (h : ∀ m ∈ ms, Fits pb reg m) : frameRule.split (encodeAll pb ms ++ r) =
      (ms.map (encodeNode pb) ++ (frameRule.split r).1, (frameRule.split r).2) := by
  induction ms with
  | nil => rfl
  | cons m ms ih =>
    have hnext := next_encode hpb (r := encodeAll pb ms ++ r) (h m List.mem_cons_self).length
      (.inr (List.append_ne_nil_of_right_ne_nil _ hr))
    rw [encodeAll_cons, List.append_assoc, frameRule.split_cons hnext,
      ih fun m' hm' => h m' (List.mem_cons_of_mem m hm')]
    rfl

/-- The front of an encoded sequence has no bad header, and its frames are those of the first nodes. -/
theorem split_front (hpb : pb.Lawful) {ms : List (MsgNode Msg)} (h : ∀ m ∈ ms, Fits pb reg m)
    {l : List UInt8} (hl : l <+: encodeAll pb ms) :
    HeadersOk l ∧ (frameRule.split l).1 <+: ms.map (encodeNode pb) := by
  obtain ⟨t, ht⟩ := hl
  have hone : frameRule.split [0] = ([], [0]) := frameRule.split_none rfl
  have hall := split_frames hpb (r := [0]) (by simp) ms h
  rw [hone, List.append_nil, ← ht, List.append_assoc] at hall
  have hok : HeadersOk (l ++ (t ++ [0])) := by
    rw [HeadersOk, hall]
    exact .inl (by simp)
  refine ⟨hok.of_append, ?_⟩
  have hfront := frameRule.split_append l (t ++ [0])
  rw [hall, Prod.mk.injEq] at hfront
  rw [hfront.1]
  exact List.prefix_append _ _

/-- So do its nodes. -/
theorem streamNodes_front (hpb : pb.Lawful) {ms : List (MsgNode Msg)}
    (h : ∀ m ∈ ms, Fits pb reg m) {l : List UInt8} (hl : l <+: encodeAll pb ms) :
    streamNodes pb reg conn l <+: ms.filterMap (arriving reg conn) := by
  have hnodes : (ms.map (encodeNode pb)).filterMap (nodeOfFrame pb reg conn) =
      ms.filterMap (arriving reg conn) := by
    rw [List.filterMap_map]
    exact List.filterMap_congr fun m hm => nodeOfFrame_arriving hpb (h m hm)
  rw [← hnodes]
  exact (split_front hpb h hl).2.filterMap _

/-- A sequence that ends with a body is cut up whole. -/
theorem split_whole (hpb : pb.Lawful) {ms : List (MsgNode Msg)} (h : ∀ m ∈ ms, Fits pb reg m)
    (hlast : ∀ m ∈ ms.getLast?, pb.serializeToArray m.msgData ≠ []) :
    (frameRule.split (encodeAll pb ms)).1 = ms.map (encodeNode pb) := by
  rcases List.eq_nil_or_concat ms with rfl | ⟨init, m, rfl⟩
  · exact congrArg Prod.fst (frameRule.split_none rfl)
  · rw [List.concat_eq_append] at *
    have hbody : pb.serializeToArray m.msgData ≠ [] := hlast m (by simp)
    have hfits : Fits pb reg m := h m (by simp)
    have hnext := next_encode hpb (r := []) hfits.length (.inl hbody)
    have hcut := frameRule.split_cons hnext
    rw [List.append_nil, frameRule.split_none (l := []) rfl] at hcut
    have hne : encodeNode pb m ≠ [] := by
      intro hnil
      rw [encodeNode_eq] at hnil
      exact hbody (List.append_eq_nil_iff.mp hnil).2
    have hall := split_frames hpb hne init fun m' hm' => h m' (List.mem_append_left _ hm')
    have hencode : encodeAll pb (init ++ [m]) = encodeAll pb init ++ encodeNode pb m := by
      simp [encodeAll]
    rw [hencode, hall, hcut, List.map_append]
    rfl

end Codec

/-! ### The system -/

/-- The writing process, the reading one, and what the writer's socket has taken. -/
structure Wire (Cls Msg : Type*) where
  sender : Sending Cls Msg
  receiver : Layer Cls Msg
  taken : List UInt8

/-- A step of one of the processes. -/
inductive WireAct (Cls Msg : Type*)
  | sender (m : SendAct Cls Msg)
  | receiver (a : Act Cls Msg)

namespace Wire

/-- One step, with the writer's connection at `b` and the reader's incarnation `j`: the reader
receives nothing that the writer's socket has not taken. -/
def step (G : Generated Cls Msg) (b : Addr) (j : ℕ) (w : Wire Cls Msg) :
    WireAct Cls Msg → Option (Wire Cls Msg)
  | .sender m =>
      (w.sender.step G m).map fun p =>
        { w with sender := p, taken := ((p.net.heap b).map Connection.sent).getD w.taken }
  | .receiver a =>
      (w.receiver.step G a).bind fun s =>
        if (s.life j).received <+: w.taken then some { w with receiver := s } else none

/-- The writer uses no address twice; the reader registers no further type, and what a read gives and
the read buffer has are at most `INT_MAX` bytes. -/
def Steady (G : Generated Cls Msg) (j : ℕ) (w : Wire Cls Msg) : WireAct Cls Msg → Prop
  | .sender m => w.sender.NoReuse m
  | .receiver a => (∀ msgType init, a ≠ .regist msgType init) ∧
      ∀ s ∈ w.receiver.step G a, ∀ c ∈ w.receiver.heap (w.receiver.life j).addr,
        c.readBuffer.length + (s.life j).received.length ≤
          intMax + (w.receiver.life j).received.length

/-- Whether a step registers no message type. -/
instance decidableNoRegist (a : Act Cls Msg) :
    Decidable (∀ msgType init, a ≠ .regist msgType init) :=
  match a with
  | .regist msgType init => isFalse fun h => h msgType init rfl
  | .worker _ _ | .accept _ | .connect _ | .getMsgs _ | .send _ _ | .close _ | .clock _ =>
      isTrue (by simp)

instance (G : Generated Cls Msg) (j : ℕ) (w : Wire Cls Msg) (x : WireAct Cls Msg) :
    Decidable (w.Steady G j x) :=
  match x with
  | .sender m => inferInstanceAs (Decidable (w.sender.NoReuse m))
  | .receiver a =>
      have : Decidable (∀ s ∈ w.receiver.step G a, ∀ c ∈ w.receiver.heap (w.receiver.life j).addr,
          c.readBuffer.length + (s.life j).received.length ≤
            intMax + (w.receiver.life j).received.length) :=
        Option.decidableForallMem _
      inferInstanceAs (Decidable (_ ∧ _))

end Wire

/-- The runs of the two processes, the reader's from `protocol_init` on. -/
def wireSystem (G : Generated Cls Msg) (b : Addr) (j : ℕ) : Lts (Wire Cls Msg) (WireAct Cls Msg) where
  init w := (sendSystem G).init w.sender ∧ (netSystem G).init w.receiver ∧ w.taken = []
  step w x := w.step G b j x

namespace Wire

variable {G : Generated Cls Msg} {b : Addr} {j : ℕ} {w w' : Wire Cls Msg}

/-- The nodes `net_send` was given for the connection. -/
def given (w : Wire Cls Msg) (b : Addr) : List (MsgNode Msg) :=
  (itemsFor b w.sender.net.pushes).map Item.node

/-- The nodes that came in on the incarnation and were output. -/
def output (w : Wire Cls Msg) (j : ℕ) : List (MsgNode Msg) :=
  ((itemsOf j w.receiver.output).filter fun it => it.src ≠ .notice j).map Item.node

/-- Nothing is on its way: the writer has an open connection with nothing left to write, and the
reader has received what its socket has taken. -/
structure Still (w : Wire Cls Msg) (b : Addr) (j : ℕ) : Prop where
  sender : ∃ c v, w.sender.net.heap b = some c ∧
    b ∈ (w.sender.net.worker v).threadConnections ∧ b ∉ (w.sender.net.worker v).phase.removing ∧
    c.writeBuffer.bytes = [] ∧ c.connWriteMsgs = [] ∧
    itemsFor b (w.sender.net.worker v).tdWriteMsgs = []
  receiver : ∃ c, w.receiver.heap (w.receiver.life j).addr = some c ∧ c.id = j ∧
    (w.receiver.life j).noticed = false ∧ (w.receiver.life j).received = w.taken

/-- What is given on the one side comes out on the other. -/
structure Carried (G : Generated Cls Msg) (b : Addr) (j : ℕ) (w : Wire Cls Msg) : Prop where
  /-- In order, once, and unchanged but for `msg_conn_`. -/
  order : w.output j <+:
    (w.given b).filterMap (arriving w.receiver.registry (w.receiver.life j).addr)
  /-- All of it, once nothing is on its way, unless the last message has no bytes. -/
  complete : w.Still b j → (∀ m ∈ (w.given b).getLast?, G.serializeToArray m.msgData ≠ []) →
    (w.receiver.life j).decoded.map Item.node =
      (w.given b).filterMap (arriving w.receiver.registry (w.receiver.life j).addr)

/-! ### The invariant -/

/-- What lies between the two processes. -/
structure Carries (G : Generated Cls Msg) (b : Addr) (j : ℕ) (w : Wire Cls Msg) : Prop where
  taken : w.taken <+: encodeAll G.toProtobuf (w.given b)
  sent : ∀ c ∈ w.sender.net.heap b, w.taken = c.sent
  received : (w.receiver.life j).received <+: encodeAll G.toProtobuf (w.given b)
  heard : w.receiver.Heard G
  /-- No whole frame is left in the read buffer. -/
  drained : ∀ {a c}, w.receiver.heap a = some c → c.id = j → (w.receiver.life j).noticed = false →
    HeadersOk (w.receiver.life j).received → frameRule.next c.readBuffer.bytes = none

/-- The processes of a run are in runs of their own. -/
theorem parts_of_reach {C : Wire Cls Msg → WireAct Cls Msg → Prop}
    (hC : ∀ w m, C w (.sender m) → w.sender.NoReuse m) (h : (wireSystem G b j).Reach C w) :
    (sendSystem G).Reach Sending.NoReuse w.sender ∧ (netSystem G).Reach Lts.Free w.receiver := by
  induction h with
  | start h₀ => exact ⟨.start h₀.1, .start h₀.2.1⟩
  | @next w w' x _ hc hs ih =>
    cases x with
    | sender m =>
      obtain ⟨p, hp, rfl⟩ := Option.map_eq_some_iff.mp hs
      exact ⟨.next ih.1 (hC _ _ hc) hp, ih.2⟩
    | receiver a =>
      obtain ⟨s, hstep, hs⟩ := Option.bind_eq_some_iff.mp hs
      simp only [Option.ite_none_right_eq_some, Option.some.injEq] at hs
      obtain ⟨-, rfl⟩ := hs
      exact ⟨ih.1, .next ih.2 trivial hstep⟩

/-- What was given stays given. -/
theorem given_of_step {m : SendAct Cls Msg} {p : Sending Cls Msg} (hs : w.sender.step G m = some p) :
    ∃ l, (itemsFor b p.net.pushes).map Item.node = w.given b ++ l := by
  have hpushes : ∃ l, p.net.pushes = w.sender.net.pushes ++ l := by
    cases Sending.step_cases hs with
    | quiet | call => exact ⟨[], (List.append_nil _).symm⟩
    | net _ h | push _ h => exact ⟨_, Layer.step_pushes h⟩
  obtain ⟨l, hl⟩ := hpushes
  refine ⟨(itemsFor b l).map Item.node, ?_⟩
  rw [hl, itemsFor_append, List.map_append]
  rfl

/-- The writer goes on: it may be given more nodes, and its socket may take more. -/
theorem Carries.sender {p : Sending Cls Msg} (h : w.Carries G b j) (hp : p.Streams G)
    {l : List (MsgNode Msg)} (hl : (itemsFor b p.net.pushes).map Item.node = w.given b ++ l) :
    Carries G b j
      { w with sender := p, taken := ((p.net.heap b).map Connection.sent).getD w.taken } := by
  have hmono : encodeAll G.toProtobuf (w.given b) <+:
      encodeAll G.toProtobuf ((itemsFor b p.net.pushes).map Item.node) := by
    rw [hl, encodeAll, encodeAll, List.map_append, List.flatten_append]
    exact List.prefix_append _ _
  refine ⟨?_, ?_, h.received.trans hmono, h.heard, h.drained⟩
  · show ((p.net.heap b).map Connection.sent).getD w.taken <+: _
    cases hb : p.net.heap b with
    | none => exact h.taken.trans hmono
    | some c => exact (hp.intact hb).streamIntact.sent_prefix
  · intro c hc
    show ((p.net.heap b).map Connection.sent).getD w.taken = c.sent
    rw [Option.mem_def.mp hc]
    rfl

/-- The read buffer after a step. -/
theorem Carries.drained_step {a : Act Cls Msg} {s : Layer Cls Msg} (h : w.Carries G b j)
    (hw : w.receiver.WellPlaced) (ho : w.receiver.InOrder) (hs : w.receiver.step G a = some s)
    (hmax : ∀ c ∈ w.receiver.heap (w.receiver.life j).addr,
      c.readBuffer.length + (s.life j).received.length ≤
        intMax + (w.receiver.life j).received.length)
    {d : Addr} {c' : Connection Msg} (hc' : s.heap d = some c') (hid : c'.id = j)
    (hn : (s.life j).noticed = false) (hok : HeadersOk (s.life j).received) :
    frameRule.next c'.readBuffer.bytes = none := by
  cases Layer.step_hears hw ho hs with
  | silent hsilent =>
    have hreceived : (s.life j).received = (w.receiver.life j).received :=
      congrArg Prod.fst (hsilent.input j)
    rw [hreceived] at hok
    rcases hsilent.object hc' (by rwa [hid]) with ⟨c, hc, heq⟩ | ⟨-, hempty⟩
    · have hcid : c.id = j := (congrArg Prod.fst heq).trans hid
      have hbuf : c.readBuffer = c'.readBuffer := congrArg Prod.snd heq
      rw [← hbuf]
      exact h.drained hc hcid (hsilent.noticed hn) hok
    · rw [hempty]
      rfl
  | @read v a c chunk buffer r p hc howner hnc hext hr heq =>
    have hlife : ∀ id, s.life id = if id = c.id then (w.receiver.life id).receive chunk
        (number c.id (w.receiver.life c.id).decoded.length r.2) else w.receiver.life id := by
      intro id
      rw [heq, Layer.goto_life, Layer.modLife_life, Layer.modConn_life]
    rw [heq, Layer.goto_heap, Layer.modLife_heap, Layer.modConn_heap] at hc'
    split at hc'
    · next hd =>
      -- the connection that is read
      rw [hd, hc, Option.map_some, Option.some.injEq] at hc'
      have hcid : c.id = j := by rw [← hid, ← hc']; rfl
      rw [hlife, if_pos hcid.symm] at hok
      change HeadersOk ((w.receiver.life j).received ++ chunk) at hok
      have hlive := h.heard.live hc hnc
      rw [hcid] at hlive
      cases hlive with
      | bad hbad => exact absurd hok.of_append hbad
      | good hcut =>
        have hbuf : HeadersOk buffer.bytes := by
          rw [hext]
          exact (headersOk_of_cut (hcut.append chunk)).mp hok
        have hlen : c.readBuffer.length + chunk.length = buffer.length := by
          rw [Evbuffer.length, Evbuffer.length, hext, List.length_append]
        have hbound := hmax c (by rw [← hcid, hw.addr hc]; exact hc)
        rw [hlife, if_pos hcid.symm] at hbound
        change (c.readBuffer.length : ℤ) + (((w.receiver.life j).received ++ chunk).length : ℕ) ≤ _
          at hbound
        rw [List.length_append] at hbound
        have hall : ∃ b', messageFormat G.toProtobuf w.receiver.registry a buffer
            ⟨c.readBuffer.length, chunk.length, 0⟩ = some (b', (frameRule.split
              buffer.bytes).1.filterMap (nodeOfFrame G.toProtobuf w.receiver.registry a)) ∧
            b'.bytes = (frameRule.split buffer.bytes).2 :=
          messageFormat_all _ _ _ hlen (by omega) hbuf
        obtain ⟨b', hrun, hb'⟩ := hall
        rw [hr, Option.some.injEq] at hrun
        rw [← hc']
        show frameRule.next r.1.bytes = none
        rw [hrun, hb']
        exact frameRule.next_split_rest _
    · next hd =>
      have hne : j ≠ c.id := fun hjc => hd (hw.id_inj hc' hc (hid.trans hjc))
      rw [hlife, if_neg hne] at hok hn
      exact h.drained hc' hid hn hok

/-- The reader takes a step. -/
theorem Carries.receiver {a : Act Cls Msg} {s : Layer Cls Msg} (h : w.Carries G b j)
    (hw : w.receiver.WellPlaced) (ho : w.receiver.InOrder) (hc : w.Steady G j (.receiver a))
    (hs : w.receiver.step G a = some s) (hreceived : (s.life j).received <+: w.taken) :
    Carries G b j { w with receiver := s } where
  taken := h.taken
  sent := h.sent
  received := hreceived.trans h.taken
  heard := h.heard.step hw ho hs hc.1
  drained := h.drained_step hw ho hs (hc.2 s hs)

/-- Nothing has happened yet. -/
theorem carries_start (hsender : (netSystem G).init w.sender.net)
    (hreceiver : (netSystem G).init w.receiver) (htaken : w.taken = []) : w.Carries G b j := by
  obtain ⟨n, reg, clock, hnet⟩ := hsender
  obtain ⟨n', reg', clock', hrecv⟩ := hreceiver
  refine ⟨?_, ?_, ?_, ?_, ?_⟩
  · rw [htaken]
    exact List.nil_prefix
  · rw [hnet]
    simp [Layer.start]
  · rw [hrecv]
    exact List.nil_prefix
  · rw [hrecv]
    exact Layer.heard_start _ _ _
  · rw [hrecv]
    intro a c hc
    cases hc

theorem carries_of_reach (h : (wireSystem G b j).Reach (Steady G j) w) : w.Carries G b j := by
  refine h.invariant_of (P := Carries G b j) ?_ fun w x w' hr hi hc hs => ?_
  · intro w hinit
    exact carries_start hinit.1.1 hinit.2.1 hinit.2.2
  · obtain ⟨hsender, hreceiver⟩ := parts_of_reach (fun _ _ hc => hc) hr
    obtain ⟨hw, -, ho⟩ := inOrder_of_reach hreceiver
    cases x with
    | sender m =>
      obtain ⟨p, hp, rfl⟩ := Option.map_eq_some_iff.mp hs
      obtain ⟨l, hl⟩ := given_of_step (b := b) hp
      exact hi.sender (Sending.streams_of_reach (.next hsender hc hp)) hl
    | receiver a =>
      obtain ⟨s, hstep, hs⟩ := Option.bind_eq_some_iff.mp hs
      simp only [Option.ite_none_right_eq_some, Option.some.injEq] at hs
      obtain ⟨hreceived, rfl⟩ := hs
      exact hi.receiver hw ho hc hstep hreceived

/-! ### The result -/

/-- What was output is a front of what was decoded. -/
theorem output_front (ho : w.receiver.InOrder) (j : ℕ) :
    w.output j <+: (w.receiver.life j).decoded.map Item.node := by
  have hwire : ∀ it ∈ (w.receiver.life j).decoded, it.src ≠ .notice j := by
    intro it hit hsrc
    obtain ⟨k, hk⟩ := ho.src_of_mem hit
    rw [hk] at hsrc
    cases hsrc
  have hkeep : ∀ {l}, l <+: (w.receiver.life j).decoded →
      (l.filter fun it => it.src ≠ .notice j) = l := by
    intro l hl
    refine List.filter_eq_self.mpr fun it hit => ?_
    simpa using hwire it (hl.subset hit)
  unfold output
  rcases (ho.outputOrder j).order with hp | ⟨p, it, heq, hp, hnotice, -⟩
  · rw [hkeep hp]
    exact hp.map _
  · have hdrop : ([it].filter fun it => it.src ≠ .notice j) = [] := by simp [hnotice.1]
    rw [heq, List.filter_append, hkeep hp, hdrop, List.append_nil]
    exact hp.map _

theorem Carries.carried (h : w.Carries G b j) (hpb : G.toProtobuf.Lawful)
    (ho : w.receiver.InOrder) (hsender : w.sender.Streams G)
    (hfits : ∀ m ∈ w.given b, Fits G.toProtobuf w.receiver.registry m) : w.Carried G b j := by
  have hok := (split_front hpb hfits h.received).1
  refine ⟨?_, fun hstill hlast => ?_⟩
  · have hstream : (w.receiver.life j).decoded.map Item.node <+:
        streamNodes G.toProtobuf w.receiver.registry (w.receiver.life j).addr
          (w.receiver.life j).received := by
      rcases h.heard.decoded j with hp | ⟨hbad, -⟩
      · exact hp
      · exact absurd hok hbad
    exact ((output_front ho j).trans hstream).trans (streamNodes_front hpb hfits h.received)
  · obtain ⟨⟨c, v, hc, hmem, hrem, hbuf, hqueue, htd⟩, ⟨d, hd, hid, hn, hreceived⟩⟩ := hstill
    have hwhole := (hsender.intact hc).streamIntact.whole v hmem hrem
    rw [hbuf, hqueue, htd, List.append_nil] at hwhole
    have hall : (w.receiver.life j).received = encodeAll G.toProtobuf (w.given b) := by
      rw [hreceived, h.sent c hc]
      simpa [frames, encodeAll, given] using hwhole
    have hdrained := h.drained hd hid hn hok
    have hlive := h.heard.live hd (by rwa [hid])
    rw [hid] at hlive
    cases hlive with
    | bad hbad => exact absurd hok hbad
    | @good fs hcut hms =>
      have hcuts : (frameRule.split (w.receiver.life j).received).1 = fs := by
        rw [hcut, frameRule.split_none hdrained]
        exact List.append_nil fs
      rw [hall, split_whole hpb hfits hlast] at hcuts
      rw [hms, ← hcuts, List.filterMap_map]
      exact List.filterMap_congr fun m hm => nodeOfFrame_arriving hpb (hfits m hm)

end Wire

/-- **End to end.**  In every run of the two processes, whatever their threads do, the nodes that come
in on the reader's connection are those given to `net_send` for the writer's, in order, once and
unchanged, as far as their types are registered; and none is missing when nothing is on its way. -/
theorem carried_of_reach {G : Generated Cls Msg} {b : Addr} {j : ℕ} {w : Wire Cls Msg}
    (hpb : G.toProtobuf.Lawful) (h : (wireSystem G b j).Reach (Wire.Steady G j) w)
    (hfits : ∀ m ∈ w.given b, Fits G.toProtobuf w.receiver.registry m) : w.Carried G b j := by
  obtain ⟨hsender, hreceiver⟩ := Wire.parts_of_reach (fun _ _ hc => hc) h
  obtain ⟨-, -, ho⟩ := inOrder_of_reach hreceiver
  exact (Wire.carries_of_reach h).carried hpb ho (Sending.streams_of_reach hsender) hfits

/-- Steps of the writer's worker. -/
def writes (es : List WorkerAct) : List (WireAct Protocol.MsgClass Protocol.Message) :=
  es.map fun e => .sender (.net (.worker 0 e))

/-- Steps of the reader's worker. -/
def reads (es : List WorkerAct) : List (WireAct Protocol.MsgClass Protocol.Message) :=
  es.map fun e => .receiver (.worker 0 e)

/-- A node goes over in two pieces, cut inside its header. -/
def twoPieces : List (WireAct Protocol.MsgClass Protocol.Message) :=
  let frame := encodeNode Protocol.protobuf registNode
  let front := frame.take 5
  let back := frame.drop 5
  fiveBytes.map .sender ++ [.receiver (.accept true)] ++
    reads (List.replicate 5 .go ++
      [.notified true 48, .readEvent 48, .read (.data front ⟨[front]⟩)]) ++
    writes (List.replicate 13 .go ++ [.write (.wrote 13)]) ++
    reads (List.replicate 12 .go ++ [.read (.data back ⟨[front, back]⟩)] ++ List.replicate 10 .go) ++
    [.receiver (.getMsgs 0)]

theorem carried_twoPieces : ∃ w,
    (wireSystem Protocol.generated 16 0).exec
        ⟨⟨.start 1 Protocol.registry 0, []⟩, .start 1 Protocol.registry 0, []⟩ twoPieces = some w ∧
      w.output 0 = [{ registNode with msgConn := 48 }] ∧ w.Carried Protocol.generated 16 0 := by
  obtain ⟨w, hw, hout, hfits, hlen⟩ : ∃ w ∈ (wireSystem Protocol.generated 16 0).exec
      ⟨⟨.start 1 Protocol.registry 0, []⟩, .start 1 Protocol.registry 0, []⟩ twoPieces,
      w.output 0 = [{ registNode with msgConn := 48 }] ∧
        (∀ m ∈ w.given 16, w.receiver.registry m.msgType =
          some (Protocol.protobuf.clsOf m.msgData)) ∧
        ∀ m ∈ w.given 16, ((encodeNode Protocol.protobuf m).length : ℤ) ≤ intMax := by
    decide +kernel
  have hsteps : (wireSystem Protocol.generated 16 0).AllSteps (Wire.Steady Protocol.generated 0)
      ⟨⟨.start 1 Protocol.registry 0, []⟩, .start 1 Protocol.registry 0, []⟩ twoPieces := by
    decide +kernel
  have hr : (wireSystem Protocol.generated 16 0).Reach (Wire.Steady Protocol.generated 0) w := by
    refine .of_exec (.start ⟨⟨⟨1, Protocol.registry, 0, rfl⟩, rfl⟩, ?_, rfl⟩) hsteps hw
    exact ⟨1, Protocol.registry, 0, rfl⟩
  refine ⟨w, hw, hout, carried_of_reach Protocol.protobuf_lawful hr fun m hm => ?_⟩
  refine ⟨hlen m hm, fun c hc => ?_⟩
  rw [hfits m hm, Option.some.injEq] at hc
  exact hc.symm

end GoFight.Link
