import GoFight.Net.Fate

/-!
# The frames of a byte stream and the nodes decoded on it

Every read gives `message_format` the buffer of a connection in the middle of its stream.  Whatever
comes in, the nodes it queues are those of the frames of the stream, one by one, until a bad header
comes up.

* `registeredFrames` — the frames of registered types in a stream;
* `DecoderAt`, `DecoderAt.read` — how far the decoder has come, and one chunk more;
* `DecodedAs` — what stays true when the buffer is gone;
* `Silent`, `step_hears` — what a step does to the streams;
* `Heard`, `Heard.step` — the invariant, while no type is registered.
-/

namespace GoFight.Net

open GoFight.Lib

variable {Cls Msg : Type*}

/-! ### A decoder in the middle of a stream -/

section Decoder

variable (pb : Protobuf Cls Msg) (reg : Registry Cls) (conn : Addr)

/-- The frames of registered types. -/
def registeredFrames (l : List UInt8) : List (List UInt8) :=
  (frameRule.split l).1.filter (Registered reg)

/-- Their nodes. -/
def streamNodes (l : List UInt8) : List (MsgNode Msg) :=
  (frameRule.split l).1.filterMap (nodeOfFrame pb reg conn)

/-- The nodes `ms` were decoded from the stream `l`, of which `b` is in the buffer. -/
inductive DecoderAt (l b : List UInt8) (ms : List (MsgNode Msg)) : Prop
  | good {fs} (hcut : frameRule.Cut l fs b) (hms : ms = fs.filterMap (nodeOfFrame pb reg conn))
  | bad (hbad : ¬ HeadersOk l) (hms : streamNodes pb reg conn l <+: ms)

/-- The nodes `ms` were decoded from the stream `l`. -/
def DecodedAs (l : List UInt8) (ms : List (MsgNode Msg)) : Prop :=
  ms <+: streamNodes pb reg conn l ∨ ¬ HeadersOk l ∧ streamNodes pb reg conn l <+: ms

variable {pb reg conn}

theorem DecoderAt.nil : DecoderAt pb reg conn [] [] [] := .good (Framing.Cut.nil []) rfl

theorem DecodedAs.nil (l : List UInt8) : DecodedAs pb reg conn l [] := .inl List.nil_prefix

/-- The loop takes the frames of what it sees first. -/
theorem messageFormatLoop_prefix (fuel : ℕ) :
    ∀ {b : Evbuffer} {s : ℤ} {r : Evbuffer × List (MsgNode Msg)}, s ≤ b.length → s ≤ intMax →
      messageFormatLoop pb reg conn fuel b s = some r →
        streamNodes pb reg conn (visible b s) <+: r.2 := by
  induction fuel with
  | zero => exact nofun
  | succ fuel ih =>
    intro b s r hs hmax hr
    cases hnext : frameRule.next (visible b s) with
    | none =>
      rw [streamNodes, frameRule.split_none hnext]
      exact List.nil_prefix
    | some n =>
      have t := TakesFrame.of_next hs hmax hnext
      rw [messageFormatLoop, t.formatPass] at hr
      obtain ⟨r', hr', rfl⟩ := Option.map_eq_some_iff.mp hr
      have hrest := ih (t.pass_le_length pb reg conn) (t.pass_le_max pb reg conn) hr'
      rw [t.pass_visible, streamNodes] at hrest
      rw [streamNodes, frameRule.split_some hnext, List.filterMap_cons, t.pass_node]
      cases nodeOfFrame pb reg conn ((visible b s).take n) with
      | none => exact hrest
      | some m => exact List.cons_prefix_cons.mpr ⟨rfl, hrest⟩

/-- A bad header stays where it is, and no frame is cut off behind it. -/
theorem split_append_of_not_headersOk {l : List UInt8} (h : ¬ HeadersOk l) (r : List UInt8) :
    (frameRule.split (l ++ r)).1 = (frameRule.split l).1 := by
  rw [frameRule.split_append l r, frameRule.split_none (next_of_not_headersOk h r), List.append_nil]

theorem headersOk_of_cut {l b : List UInt8} {fs : List (List UInt8)} (h : frameRule.Cut l fs b) :
    HeadersOk l ↔ HeadersOk b := by
  rw [HeadersOk, HeadersOk, h]

/-- **One chunk more.** -/
theorem DecoderAt.read {l b chunk : List UInt8} {ms : List (MsgNode Msg)} {buffer : Evbuffer}
    {orig added : ℕ} {r : Evbuffer × List (MsgNode Msg)} (h : DecoderAt pb reg conn l b ms)
    (hbytes : buffer.bytes = b ++ chunk) (hlen : orig + added = buffer.length)
    (hr : messageFormat pb reg conn buffer ⟨orig, added, 0⟩ = some r) :
    DecoderAt pb reg conn (l ++ chunk) r.1.bytes (ms ++ r.2) := by
  cases h with
  | bad hbad hms =>
    refine .bad (fun hok => hbad hok.of_append) ?_
    rw [streamNodes, split_append_of_not_headersOk hbad]
    exact hms.trans (List.prefix_append _ _)
  | @good fs hcut hms =>
    have hsplit : visible buffer (cint buffer.length) ++
        buffer.bytes.drop (cint buffer.length).toNat = b ++ chunk := by
      rw [← hbytes]
      exact List.take_append_drop _ _
    have hcut' := hcut.append chunk
    rw [← hsplit] at hcut'
    by_cases hok : HeadersOk (visible buffer (cint buffer.length))
    · obtain ⟨b', hrun, hb'⟩ := messageFormat_spec pb reg conn hlen hok
      rw [hr, Option.some.injEq] at hrun
      subst hrun
      rw [hb', hms]
      exact .good hcut'.front List.filterMap_append.symm
    · have hbad := fun hall => hok ((headersOk_of_cut hcut').mp hall).of_append
      refine .bad hbad ?_
      have hloop := hr
      rw [messageFormat, if_neg (lt_irrefl 0), ← Nat.cast_add, hlen] at hloop
      have hpre := messageFormatLoop_prefix _ (cint_natCast_le _) (cint_le _) hloop
      rw [streamNodes, hcut', split_append_of_not_headersOk hok, List.filterMap_append, hms]
      exact List.prefix_append_right_inj _ |>.mpr hpre

theorem DecoderAt.decodedAs {l b : List UInt8} {ms : List (MsgNode Msg)}
    (h : DecoderAt pb reg conn l b ms) : DecodedAs pb reg conn l ms := by
  cases h with
  | good hcut hms =>
    rw [hms]
    exact .inl (hcut.prefix_frames.filterMap _)
  | bad hbad hms => exact .inr ⟨hbad, hms⟩

theorem exists_nodeOfFrame {f : List UInt8} (h : Registered reg f) :
    ∃ m, nodeOfFrame pb reg conn f = some m := by
  obtain ⟨c, hc⟩ := Option.isSome_iff_exists.mp h
  exact ⟨_, congrArg (Option.map _) hc⟩

/-- The nodes of the frames of registered types stand in the same order. -/
theorem filterMap_nodeOfFrame (fs : List (List UInt8)) :
    (fs.filterMap (nodeOfFrame pb reg conn)).map some =
      (fs.filter (Registered reg)).map (nodeOfFrame pb reg conn) := by
  induction fs with
  | nil => rfl
  | cons f fs ih =>
    by_cases hf : Registered reg f
    · obtain ⟨m, hm⟩ : ∃ m, nodeOfFrame pb reg conn f = some m := exists_nodeOfFrame hf
      rw [List.filterMap_cons_some hm, List.filter_cons_of_pos hf, List.map_cons, List.map_cons, hm,
        ih]
    · have hnone : nodeOfFrame pb reg conn f = none :=
        nodeOfFrame_eq_none (Option.not_isSome_iff_eq_none.mp hf)
      rw [List.filterMap_cons_none hnone, List.filter_cons_of_neg hf, ih]

/-- **The `k`-th node is that of the `k`-th frame.** -/
theorem DecodedAs.node {l f : List UInt8} {ms : List (MsgNode Msg)} {m : MsgNode Msg} {k : ℕ}
    (h : DecodedAs pb reg conn l ms) (hf : (registeredFrames reg l)[k]? = some f)
    (hm : ms[k]? = some m) : nodeOfFrame pb reg conn f = some m := by
  have hframe : ((streamNodes pb reg conn l).map some)[k]? = some (nodeOfFrame pb reg conn f) := by
    rw [streamNodes, filterMap_nodeOfFrame, List.getElem?_map]
    exact congrArg (Option.map _) hf
  rw [List.getElem?_map] at hframe
  obtain ⟨m', hm', heq⟩ := Option.map_eq_some_iff.mp hframe
  obtain ⟨hlt, hget⟩ := List.getElem?_eq_some_iff.mp hm
  obtain ⟨hlt', hget'⟩ := List.getElem?_eq_some_iff.mp hm'
  rw [← heq, ← hget, ← hget']
  rcases h with h | ⟨-, h⟩
  · exact congrArg some (h.getElem hlt).symm
  · exact congrArg some (h.getElem hlt')

/-- A frame whose node was decoded is a frame of what had come in by then. -/
theorem DecodedAs.frame_of_append {l r f : List UInt8} {ms : List (MsgNode Msg)} {k : ℕ}
    (h : DecodedAs pb reg conn l ms) (hk : k < ms.length)
    (hf : (registeredFrames reg (l ++ r))[k]? = some f) : (registeredFrames reg l)[k]? = some f := by
  rcases h with h | ⟨hbad, -⟩
  · have hlen : (streamNodes pb reg conn l).length = (registeredFrames reg l).length := by
      have heq : ((streamNodes pb reg conn l).map some).length = _ :=
        congrArg List.length (filterMap_nodeOfFrame (frameRule.split l).1)
      rwa [List.length_map, List.length_map] at heq
    have happ : registeredFrames reg (l ++ r) = registeredFrames reg l ++
        (frameRule.split ((frameRule.split l).2 ++ r)).1.filter (Registered reg) := by
      rw [registeredFrames, frameRule.split_append l r, List.filter_append]
      rfl
    rwa [happ, List.getElem?_append_left (hlen ▸ hk.trans_le h.length_le)] at hf
  · rwa [registeredFrames, split_append_of_not_headersOk hbad] at hf

end Decoder

/-! ### What a step does to the streams -/

/-- The incarnation and its read buffer. -/
def Connection.input (c : Connection Msg) : ℕ × Evbuffer := (c.id, c.readBuffer)

/-- What came in on an incarnation. -/
def Life.input (l : Life Msg) : List UInt8 × List (Item Msg) := (l.received, l.decoded)

theorem number_node (id k : ℕ) (ms : List (MsgNode Msg)) : (number id k ms).map Item.node = ms := by
  induction ms generalizing k with
  | nil => rfl
  | cons m ms ih => rw [number, List.map_cons, ih]

/-- Items left out that are from elsewhere do not count. -/
theorem count_src_filter {l : List (Item Msg)} {p : Item Msg → Bool} {x : Source}
    (hp : ∀ it : Item Msg, it.src = x → p it) :
    ((l.filter p).map Item.src).count x = (l.map Item.src).count x := by
  rw [List.count_eq_countP, List.count_eq_countP, List.countP_map, List.countP_map,
    List.countP_filter]
  apply List.countP_congr
  intro it _
  simp only [Function.comp_apply, beq_iff_eq, Bool.and_eq_true]
  exact ⟨And.left, fun heq => ⟨heq, hp it heq⟩⟩

namespace Layer

variable {G : Generated Cls Msg} {s s' s'' : Layer Cls Msg}

/-- Nothing is read. -/
structure Silent (s s' : Layer Cls Msg) : Prop where
  /-- A read buffer stays, but for that of a new object; of one on its way out nothing is said. -/
  object : ∀ {b c'}, s'.heap b = some c' → (s'.life c'.id).noticed = false →
    (∃ c, s.heap b = some c ∧ c.input = c'.input) ∨
      (s.life c'.id).owner = none ∧ c'.readBuffer = .empty
  input : ∀ id, (s'.life id).input = (s.life id).input
  owner : ∀ {id}, (s'.life id).owner = none → (s.life id).owner = none
  noticed : ∀ {id}, (s'.life id).noticed = false → (s.life id).noticed = false

namespace Silent

theorem of_kept (hk : Kept Connection.input s s') (hl : s'.life = s.life) : Silent s s' where
  object hc _ := .inl (hk.exists_of_some hc)
  input _ := by rw [hl]
  owner ho := hl ▸ ho
  noticed hn := hl ▸ hn

theorem refl (s : Layer Cls Msg) : Silent s s := of_kept (.refl s) rfl

theorem trans (h : Silent s s') (h' : Silent s' s'') : Silent s s'' where
  object {b c''} hc hn := by
    rcases h'.object hc hn with ⟨c', hc', heq⟩ | ⟨ho, hempty⟩
    · have hid : c'.id = c''.id := congrArg Prod.fst heq
      rcases h.object hc' (hid ▸ h'.noticed hn) with ⟨c, hc, heq'⟩ | ⟨ho, hempty⟩
      · exact .inl ⟨c, hc, heq'.trans heq⟩
      · exact .inr ⟨hid ▸ ho, (congrArg Prod.snd heq).symm.trans hempty⟩
    · exact .inr ⟨h.owner ho, hempty⟩
  input id := (h'.input id).trans (h.input id)
  owner ho := h.owner (h'.owner ho)
  noticed hn := h.noticed (h'.noticed hn)

theorem modConn (s : Layer Cls Msg) (a : Addr) {f : Connection Msg → Connection Msg}
    (hf : ∀ c, (f c).input = c.input) : Silent s (s.modConn a f) :=
  of_kept (Kept.modConn s a hf) rfl

theorem modWorker (s : Layer Cls Msg) (w : ℕ) (g : ThreadData Msg → ThreadData Msg) :
    Silent s (s.modWorker w g) :=
  of_kept (.refl s) rfl

theorem goto (s : Layer Cls Msg) (w : ℕ) (p : Phase) : Silent s (s.goto w p) := modWorker s w _

theorem modLife (s : Layer Cls Msg) (id : ℕ) {f : Life Msg → Life Msg}
    (hi : ∀ l, (f l).input = l.input) (ho : ∀ l, (f l).owner = none → l.owner = none)
    (hn : ∀ l, (f l).noticed = false → l.noticed = false) : Silent s (s.modLife id f) where
  object hc _ := .inl ⟨_, hc, rfl⟩
  input v := by
    rw [modLife_life]
    split
    · exact hi _
    · rfl
  owner {v} h := by
    rw [modLife_life] at h
    split at h
    · exact ho _ h
    · exact h
  noticed {v} h := by
    rw [modLife_life] at h
    split at h
    · exact hn _ h
    · exact h

theorem connClose (s : Layer Cls Msg) (a : Addr) : Silent s (s.connClose a) := by
  unfold Layer.connClose
  split
  · exact refl s
  · split
    · exact refl s
    · apply (modConn s a _).trans (modLife _ _ _ _ _)
      · exact fun _ => rfl
      · exact fun _ => rfl
      · exact fun _ h => h
      · exact fun _ h => h

theorem free (s : Layer Cls Msg) (a : Addr) : Silent s (s.free a) := by
  unfold Layer.free
  split
  · exact refl s
  · next c hc =>
    have hgone : Silent s { s with heap := Function.update s.heap a none } := by
      refine ⟨fun {b c'} hb _ => .inl ⟨c', ?_, rfl⟩, fun _ => rfl, id, id⟩
      change Function.update s.heap a none b = some c' at hb
      by_cases hba : b = a
      · rw [hba, Function.update_self] at hb
        cases hb
      · rwa [Function.update_of_ne hba] at hb
    exact hgone.trans (modLife _ _ (fun _ => rfl) (fun _ h => h) fun _ h => h)

/-- A new object has an empty read buffer, and its history begins. -/
theorem alloc {a : Addr} (hn : s.life s.nextId = .new 0 false) (p : Place) (k : Bool) :
    Silent s (s.alloc a p k) := by
  have hlife : ∀ id, (s.alloc a p k).life id = s.life id ∨
      id = s.nextId ∧ (s.alloc a p k).life id = .new a k := by
    intro id
    rw [alloc_life]
    split
    · next hid => exact .inr ⟨hid, rfl⟩
    · exact .inl rfl
  refine ⟨fun {b c'} hc _ => ?_, fun id => ?_, fun {id} ho => ?_, fun {id} hno => ?_⟩
  · rw [alloc_heap] at hc
    split at hc
    · cases hc
      exact .inr ⟨congrArg Life.owner hn, rfl⟩
    · exact .inl ⟨c', hc, rfl⟩
  · rcases hlife id with heq | ⟨hid, heq⟩
    · rw [heq]
    · rw [heq, hid, hn]
      rfl
  · rcases hlife id with heq | ⟨hid, heq⟩
    · rwa [heq] at ho
    · rw [hid, hn]
      rfl
  · rcases hlife id with heq | ⟨hid, heq⟩
    · rwa [heq] at hno
    · rw [hid, hn]
      rfl

/-- `create_conn` makes the read buffer. -/
theorem registerConn (s : Layer Cls Msg) (w : ℕ) {a : Addr} {c : Connection Msg}
    (hc : s.heap a = some c) (ho : (s.life c.id).owner = none) (st : ConnState) :
    Silent s (s.registerConn w a c.id st) := by
  have hconn : Silent s (s.modConn a (initConn w st)) := by
    refine ⟨fun {b c'} hc' _ => ?_, fun _ => rfl, id, id⟩
    rw [modConn_heap] at hc'
    split at hc'
    · next hb =>
      rw [hb, hc, Option.map_some, Option.some.injEq] at hc'
      rw [← hc']
      exact .inr ⟨ho, rfl⟩
    · exact .inl ⟨c', hc', rfl⟩
  have hlife : Silent (s.modConn a (initConn w st))
      ((s.modConn a (initConn w st)).modLife c.id (.setOwner w)) :=
    modLife _ _ (fun _ => rfl) (fun _ => nofun) fun _ h => h
  exact (hconn.trans hlife).trans (modWorker _ w _)

theorem giveWorker (s : Layer Cls Msg) (ci : ConnInfo) (written : Bool) :
    Silent s (s.giveWorker ci written) :=
  of_kept (.refl s) rfl

/-- `conn_internal_close` frees the read buffer of a connection whose notice is queued. -/
theorem closing {a : Addr} (hn : ∀ c, s.heap a = some c → (s.life c.id).noticed = true) :
    Silent s (s.modConn a connInternalClose) := by
  refine ⟨fun {b c'} hc hno => ?_, fun _ => rfl, id, id⟩
  rw [modConn_heap] at hc
  split at hc
  · next hb =>
    obtain ⟨c, ha, rfl⟩ := Option.map_eq_some_iff.mp hc
    rw [hb] at ha
    exact absurd ((hn c ha).symm.trans hno) nofun
  · exact .inl ⟨c', hc, rfl⟩

theorem noticeStep (s : Layer Cls Msg) (w : ℕ) (a : Addr) (id : ℕ) (todo removeIds : List Addr)
    (junk : UInt64) : Silent s (s.noticeStep G w a id todo removeIds junk) := by
  unfold Layer.noticeStep
  split
  · exact refl s
  · have hlife : Silent s (s.modLife id .notice) := by
      apply modLife
      · exact fun _ => rfl
      · exact fun _ h => h
      · exact fun _ => nofun
    exact (hlife.trans (modWorker _ w _)).trans (goto _ w _)

end Silent

theorem Writes.input {f : Connection Msg → Connection Msg} (hf : Writes G f) (c : Connection Msg) :
    (f c).input = c.input :=
  congrArg (fun d => (d.id, d.readBuffer)) (hf.readSide c)

/-- What a step does to the streams: a read, or nothing. -/
inductive Hears (G : Generated Cls Msg) (s s' : Layer Cls Msg) : Prop
  | silent (h : Silent s s')
  | read {w a c chunk buffer r p} (hc : s.heap a = some c) (ho : (s.life c.id).owner = some w)
      (hn : (s.life c.id).noticed = false) (hext : c.readBuffer.Extends chunk buffer)
      (hr : messageFormat G.toProtobuf s.registry a buffer
        ⟨c.readBuffer.length, chunk.length, 0⟩ = some r)
      (h : s' = ((s.modConn a (.receive r.1 (number c.id (s.life c.id).decoded.length r.2))).modLife
        c.id (.receive chunk (number c.id (s.life c.id).decoded.length r.2))).goto w p)

theorem hears_workerStep {w : ℕ} {e : WorkerAct} (hw : s.WellPlaced) (ho : s.InOrder)
    (hs : WorkerStep G s w e s') : Hears G s s' := by
  cases hs with
  | top | transferEnd | transferSkip | connectorsEnd | passEnd | passSkip | passVisit | readStart
  | readSkip | writeStart | writeSkip | pollEnd | callbackOk | sweepEnd | sweepSkip | deleteEnd
  | dropped => exact .silent (.modWorker s w _)
  | drain => exact .silent (.of_kept (Kept.drainStep s w fun _ _ => rfl) rfl)
  | @transferMove a todo c it rest =>
    have hmove : Silent s (s.modConn a (.setRead rest)) := .modConn s a fun _ => rfl
    exact .silent (hmove.trans (.modWorker _ w _))
  | @push a rest written =>
    have hplace : Silent s ((s.setConnectors rest).setPlace a (.handed s.nextThread)) :=
      .of_kept (Kept.modConn s a fun _ => by rfl) rfl
    exact .silent (hplace.trans (.giveWorker _ _ _))
  | @read a back c s₁ hp hc hr =>
    have hat : s.placeAt a = some (.registered w) := hw.in_hand hp List.mem_cons_self
    cases hr with
    | data hne hext hr =>
      have hn : (s.life c.id).noticed = false := by
        apply ho.not_noticed hc (not_left_of_registered hc hat _)
        rw [hp]
        exact List.not_mem_nil
      exact .read hc (hw.owner_eq hc hat) hn hext hr rfl
    | again =>
      have hwait : Silent s (s.modConn a (.waitRead true)) := .modConn s a fun _ => rfl
      exact .silent (hwait.trans (.goto _ w _))
    | shut =>
      have hstop : Silent s (s.modConn a .stopRead) := .modConn s a fun _ => rfl
      exact .silent ((hstop.trans (.connClose _ a)).trans (.goto _ w _))
    | failed =>
      have hwait : Silent s (s.modConn a (.waitRead false)) := .modConn s a fun _ => rfl
      exact .silent ((hwait.trans (.connClose _ a)).trans (.goto _ w _))
  | @write a back c r s₁ hp hc he hr =>
    cases hr with
    | quiet hf => exact .silent ((Silent.modConn s a hf.input).trans (.goto _ w _))
    | failed _ hf =>
      exact .silent (((Silent.modConn s a hf.input).trans (.connClose _ a)).trans (.goto _ w _))
  | @readEvent a c =>
    have hfired : Silent s (s.modConn a .readFired) := .modConn s a fun _ => rfl
    exact .silent (hfired.trans (.goto _ w _))
  | @writeEvent a c =>
    have hfired : Silent s (s.modConn a .writeFired) := .modConn s a fun _ => rfl
    exact .silent (hfired.trans (.goto _ w _))
  | @accepted n st rest a hp hq ha =>
    have htake : Silent s (s.modWorker w (.take n rest)) := .modWorker s w _
    have hfresh : s.life s.nextId = .new 0 false := hw.fresh le_rfl
    have halloc : Silent (s.modWorker w (.take n rest))
        ((s.modWorker w (.take n rest)).alloc a .connecting false) :=
      .alloc (s := s.modWorker w (.take n rest)) hfresh _ _
    have hreg : Silent ((s.modWorker w (.take n rest)).alloc a .connecting false)
        (((s.modWorker w (.take n rest)).alloc a .connecting false).registerConn w a s.nextId st) := by
      apply Silent.registerConn _ w (c := .new s.nextId .connecting)
      · rw [alloc_heap, if_pos rfl]
        rfl
      · show ((alloc _ a .connecting false).life s.nextId).owner = none
        rw [alloc_life, modWorker_nextId, if_pos rfl]
        rfl
    exact .silent ((htake.trans halloc).trans hreg)
  | @refused n st rest a =>
    have htake : Silent s (s.modWorker w (.take n rest)) := .modWorker s w _
    have hplace : Silent (s.modWorker w (.take n rest))
        ((s.modWorker w (.take n rest)).setPlace a (.refused w)) := .modConn _ a fun _ => rfl
    exact .silent ((htake.trans hplace).trans (.goto _ w _))
  | @connected n st rest a c hp hq hc =>
    have htake : Silent s (s.modWorker w (.take n rest)) := .modWorker s w _
    have howner : (s.life c.id).owner = none := hw.owner_eq hc (hw.handed_of_cons hq)
    have hreg : Silent (s.modWorker w (.take n rest))
        ((s.modWorker w (.take n rest)).registerConn w a c.id st) :=
      .registerConn (s.modWorker w (.take n rest)) w hc howner st
    exact .silent ((htake.trans hreg).trans (.goto _ w _))
  | @callbackFail a => exact .silent ((Silent.free s a).trans (.goto _ w _))
  | notice => exact .silent (.noticeStep s w _ _ _ _ _)
  | @closing a todo removeIds c hp hc =>
    have hat : s.placeAt a = some (.registered w) := hw.in_hand hp List.mem_cons_self
    have hclose : Silent s (s.modConn a connInternalClose) := by
      apply Silent.closing
      intro d hd
      rw [ho.left hd]
      rw [placeAt, hd, Option.map_some, Option.some.injEq] at hat
      refine ⟨w, .inr ⟨hat, ?_⟩⟩
      rw [hp]
      exact List.mem_cons_self
    exact .silent (hclose.trans (.modWorker _ w _))
  | @erase removeIds =>
    have hretire : Silent s { s with heap := s.retire w removeIds } :=
      .of_kept (Kept.retire s w removeIds fun _ => by rfl) rfl
    exact .silent (hretire.trans (.modWorker _ w _))
  | @deleteFree t a rest => exact .silent ((Silent.free s a).trans (.modWorker _ w _))

/-- **What a step does to the streams.** -/
theorem step_hears {a : Act Cls Msg} (hw : s.WellPlaced) (ho : s.InOrder)
    (hs : s.step G a = some s') : Hears G s s' := by
  cases a with
  | worker w e =>
    simp only [Layer.step, Option.ite_none_right_eq_some] at hs
    exact hears_workerStep hw ho (workerStep_cases hs.2)
  | connect a =>
    simp only [Layer.step, Option.ite_none_right_eq_some, Option.some.injEq] at hs
    obtain ⟨-, rfl⟩ := hs
    have halloc : Silent s (s.alloc a .connecting true) := .alloc (hw.fresh le_rfl) _ _
    exact .silent (halloc.trans (.of_kept (fun _ => rfl) rfl))
  | close a =>
    obtain ⟨c, -, hs⟩ := Option.bind_eq_some_iff.mp hs
    simp only [Option.ite_none_right_eq_some, Option.some.injEq] at hs
    obtain ⟨-, rfl⟩ := hs
    exact .silent (.connClose s a)
  | accept written | getMsgs i | send w it =>
    simp only [Layer.step, Option.ite_none_right_eq_some, Option.some.injEq] at hs
    obtain ⟨-, rfl⟩ := hs
    exact .silent (.of_kept (fun _ => rfl) rfl)
  | clock t | regist msgType init =>
    cases hs
    exact .silent (.of_kept (fun _ => rfl) rfl)

/-! ### The invariant -/

/-- **What was decoded on an incarnation are the frames of what it received.** -/
structure Heard (G : Generated Cls Msg) (s : Layer Cls Msg) : Prop where
  live : ∀ {a c}, s.heap a = some c → (s.life c.id).noticed = false →
    DecoderAt G.toProtobuf s.registry (s.life c.id).addr (s.life c.id).received c.readBuffer.bytes
      ((s.life c.id).decoded.map Item.node)
  unowned : ∀ {id}, (s.life id).owner = none → (s.life id).received = []
  decoded : ∀ id, DecodedAs G.toProtobuf s.registry (s.life id).addr (s.life id).received
    ((s.life id).decoded.map Item.node)

namespace Heard

/-- Nothing is read. -/
theorem silent (h : s.Heard G) (hw : s.WellPlaced) (ho : s.InOrder) (hs : Silent s s')
    (hreg : s'.registry = s.registry)
    (haddr : ∀ {id}, id < s.nextId → (s'.life id).addr = (s.life id).addr) : s'.Heard G := by
  have hreceived : ∀ id, (s'.life id).received = (s.life id).received :=
    fun id => congrArg Prod.fst (hs.input id)
  have hdecoded : ∀ id, (s'.life id).decoded = (s.life id).decoded :=
    fun id => congrArg Prod.snd (hs.input id)
  refine ⟨fun {a c'} hc hn => ?_, fun {id} hid => ?_, fun id => ?_⟩
  · rw [hreg, hreceived, hdecoded]
    rcases hs.object hc hn with ⟨c, hc, heq⟩ | ⟨hid, hempty⟩
    · have hid : c.id = c'.id := congrArg Prod.fst heq
      have hbuf : c.readBuffer = c'.readBuffer := congrArg Prod.snd heq
      have hlive := h.live hc (hid ▸ hs.noticed hn)
      rwa [hbuf, hid, ← haddr (hid ▸ hw.id_lt hc)] at hlive
    · rw [hempty, h.unowned hid, (ho.unowned hid).1]
      exact .nil
  · rw [hreceived]
    exact h.unowned (hs.owner hid)
  · rw [hreg, hreceived, hdecoded]
    rcases lt_or_ge id s.nextId with hlt | hge
    · rw [haddr hlt]
      exact h.decoded id
    · rw [hw.fresh hge]
      exact .nil []

/-- `on_read` gives the decoder one chunk more. -/
theorem read (h : s.Heard G) (hw : s.WellPlaced) {w : ℕ} {a : Addr} {c : Connection Msg}
    {chunk : List UInt8} {buffer : Evbuffer} {r : Evbuffer × List (MsgNode Msg)}
    (hc : s.heap a = some c) (ho : (s.life c.id).owner = some w) (hn : (s.life c.id).noticed = false)
    (hext : c.readBuffer.Extends chunk buffer)
    (hr : messageFormat G.toProtobuf s.registry a buffer ⟨c.readBuffer.length, chunk.length, 0⟩ =
      some r) :
    ((s.modConn a (.receive r.1 (number c.id (s.life c.id).decoded.length r.2))).modLife c.id
      (.receive chunk (number c.id (s.life c.id).decoded.length r.2))).Heard G := by
  generalize hits : number c.id (s.life c.id).decoded.length r.2 = items
  have hnodes : items.map Item.node = r.2 := by rw [← hits, number_node]
  have hlife : ∀ id, ((s.modConn a (.receive r.1 items)).modLife c.id (.receive chunk items)).life id =
      if id = c.id then (s.life id).receive chunk items else s.life id := by
    intro id
    rw [modLife_life, modConn_life]
  have hlen : c.readBuffer.length + chunk.length = buffer.length := by
    rw [Evbuffer.length, Evbuffer.length, hext, List.length_append]
  have hat := hw.addr hc
  have hnow := (h.live hc hn).read hext hlen (hat.symm ▸ hr)
  rw [← hnodes, ← List.map_append] at hnow
  refine ⟨fun {b d} hd hnd => ?_, fun {id} hid => ?_, fun id => ?_⟩
  · rw [modLife_heap, modConn_heap] at hd
    rw [hlife] at hnd ⊢
    split at hd
    · next hb =>
      rw [hb, hc, Option.map_some, Option.some.injEq] at hd
      rw [← hd, show (c.receive r.1 items).id = c.id from rfl, if_pos rfl]
      exact hnow
    · next hb =>
      have hne : d.id ≠ c.id := fun hid => hb (hw.id_inj hd hc hid)
      rw [if_neg hne] at hnd ⊢
      exact h.live hd hnd
  · rw [hlife] at hid ⊢
    split at hid
    · next hid' =>
      change (s.life id).owner = none at hid
      rw [hid', ho] at hid
      cases hid
    · next hne =>
      rw [if_neg hne]
      exact h.unowned hid
  · rw [hlife]
    split
    · next hid =>
      rw [hid]
      exact hnow.decodedAs
    · exact h.decoded id

/-- **Every step that registers no type.** -/
theorem step {a : Act Cls Msg} (h : s.Heard G) (hw : s.WellPlaced) (ho : s.InOrder)
    (hs : s.step G a = some s') (ha : ∀ msgType init, a ≠ .regist msgType init) : s'.Heard G := by
  cases step_hears hw ho hs with
  | silent hsilent => exact h.silent hw ho hsilent (step_registry hs ha) fun hid => step_addr hw hs hid
  | read hc howner hn hext hr heq =>
    have hread := h.read hw hc howner hn hext hr
    rw [heq]
    exact ⟨hread.live, hread.unowned, hread.decoded⟩

end Heard

theorem heard_start (threadNum : ℕ) (registry : Registry Cls) (clock : ℕ) :
    (start threadNum registry clock : Layer Cls Msg).Heard G where
  live := nofun
  unowned _ := rfl
  decoded _ := .nil []

/-- What came in stays. -/
theorem step_received {a : Act Cls Msg} (hw : s.WellPlaced) (ho : s.InOrder)
    (hs : s.step G a = some s') (id : ℕ) :
    ∃ chunk, (s'.life id).received = (s.life id).received ++ chunk := by
  cases step_hears hw ho hs with
  | silent hsilent =>
    have hsame : (s'.life id).received = (s.life id).received := congrArg Prod.fst (hsilent.input id)
    exact ⟨[], by rw [hsame, List.append_nil]⟩
  | @read w b c chunk _ _ _ _ _ _ _ _ heq =>
    rw [heq, goto_life, modLife_life, modConn_life]
    split
    · exact ⟨chunk, rfl⟩
    · exact ⟨[], (List.append_nil _).symm⟩

/-! ### What is output -/

/-- The item with number `k` in the output is the `k`-th that was decoded. -/
theorem InOrder.decoded_of_output (h : s.InOrder) {it : Item Msg} {id k : ℕ} (hit : it ∈ s.output)
    (hsrc : it.src = .wire id k) : (s.life id).decoded[k]? = some it := by
  have hmem : it ∈ itemsOf id s.output := mem_itemsOf.mpr ⟨hit, by rw [hsrc]; rfl⟩
  have hdecoded : it ∈ (s.life id).decoded := by
    rcases (h.outputOrder id).order with hp | ⟨p, jt, heq, hp, hj, -⟩
    · exact hp.subset hmem
    · rw [heq] at hmem
      rcases List.mem_append.mp hmem with hmem | hmem
      · exact hp.subset hmem
      · rw [List.mem_singleton.mp hmem, hj.1] at hsrc
        cases hsrc
  obtain ⟨n, hn, hget⟩ := List.mem_iff_getElem.mp hdecoded
  have hnum : ((s.life id).decoded.map Item.src)[n]? = some (.wire id n) := by
    rw [h.src, List.getElem?_map, List.getElem?_range hn]
    rfl
  rw [List.getElem?_map, List.getElem?_eq_getElem hn, hget, Option.map_some, hsrc, Option.some.injEq,
    Source.wire.injEq] at hnum
  rw [hnum.2, List.getElem?_eq_getElem hn, hget]

/-- No item is output twice. -/
theorem InOrder.count_output (h : s.InOrder) (id k : ℕ) :
    (s.output.map Item.src).count (.wire id k) ≤ 1 := by
  have hits : ((itemsOf id s.output).map Item.src).count (.wire id k) =
      (s.output.map Item.src).count (.wire id k) := by
    apply count_src_filter
    intro it heq
    rw [heq]
    exact decide_eq_true rfl
  have hdecoded : ((s.life id).decoded.map Item.src).count (.wire id k) ≤ 1 := by
    rw [h.src]
    apply List.nodup_iff_count_le_one.mp
    exact List.nodup_range.map fun i j hij => (Source.wire.inj hij).2
  rw [← hits]
  rcases (h.outputOrder id).order with hp | ⟨p, jt, heq, hp, hj, -⟩
  · exact ((hp.map _).sublist.count_le _).trans hdecoded
  · have hne : [jt.src].count (.wire id k) = 0 := by
      rw [hj.1, List.count_singleton]
      rfl
    rw [heq, List.map_append, List.count_append, List.map_singleton, hne, Nat.add_zero]
    exact ((hp.map _).sublist.count_le _).trans hdecoded

end Layer

end GoFight.Net
