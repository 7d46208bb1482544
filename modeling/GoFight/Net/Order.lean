import GoFight.Net.Closing

/-!
# The order of a connection's messages

The nodes of a connection go from `conn_read_msgs_` to its worker's `td_read_msgs_` and from there
to the output of `get_net_msgs`; the disconnect notice enters at the second queue.

* `stream` — what has left `conn_read_msgs_` of an incarnation, in order;
* `InOrder` — the invariant: stream and queue together are what `message_format` decoded, until the
  notice closes the stream;
* `InOrder.step`, `inOrder_of_reach` — over every run;
* `output_order` — what `get_net_msgs` has output for a connection is a prefix of what was decoded
  on it, then perhaps its notice, and nothing after that.
-/

namespace GoFight.Net

open GoFight.Lib

variable {Cls Msg : Type*}

/-- The connections of an iteration whose notice is queued. -/
def Phase.swept : Phase → List Addr
  | .sweep _ removeIds => removeIds
  | .closing a _ removeIds => a :: removeIds
  | .erase removeIds => removeIds
  | _ => []

/-- What the order of messages depends on in an object. -/
def Connection.queue (c : Connection Msg) : ℕ × List (Item Msg) := (c.id, c.connReadMsgs)

/-- What it depends on in a history. -/
def Life.queue (l : Life Msg) : Addr × Option ℕ × List (Item Msg) × Bool :=
  (l.addr, l.owner, l.decoded, l.noticed)

/-! ### Items of one incarnation -/

section Items

variable (id : ℕ) (l l' : List (Item Msg)) (it : Item Msg)

@[simp] theorem itemsOf_nil : itemsOf id ([] : List (Item Msg)) = [] := rfl

@[simp] theorem itemsOf_append : itemsOf id (l ++ l') = itemsOf id l ++ itemsOf id l' :=
  List.filter_append ..

variable {id l it}

theorem itemsOf_singleton_self (h : it.src.conn = some id) : itemsOf id [it] = [it] := by
  simp [itemsOf, h]

theorem itemsOf_singleton_of_ne (h : it.src.conn ≠ some id) : itemsOf id [it] = [] := by
  simp [itemsOf, h]

theorem itemsOf_eq_nil (h : ∀ it ∈ l, it.src.conn ≠ some id) : itemsOf id l = [] := by
  simpa [itemsOf] using h

theorem mem_itemsOf : it ∈ itemsOf id l ↔ it ∈ l ∧ it.src.conn = some id := by
  simp [itemsOf]

end Items

theorem number_length (id k : ℕ) (ms : List (MsgNode Msg)) : (number id k ms).length = ms.length := by
  induction ms generalizing k with
  | nil => rfl
  | cons m ms ih => rw [number, List.length_cons, List.length_cons, ih]

theorem number_src (id k : ℕ) (ms : List (MsgNode Msg)) :
    (number id k ms).map Item.src = (List.range' k ms.length).map (.wire id) := by
  induction ms generalizing k with
  | nil => rfl
  | cons m ms ih => rw [number, List.map_cons, ih, List.length_cons, List.range'_succ, List.map_cons]

theorem mem_number {id k : ℕ} {ms : List (MsgNode Msg)} {it : Item Msg} (h : it ∈ number id k ms) :
    it.node ∈ ms := by
  induction ms generalizing k with
  | nil => cases h
  | cons m ms ih =>
    rcases List.mem_cons.mp h with rfl | h
    · exact List.mem_cons_self
    · exact List.mem_cons_of_mem m (ih h)

/-- Every node `message_format` queues is that of a frame. -/
theorem messageFormatLoop_frameNode {pb : Protobuf Cls Msg} {reg : Registry Cls} {conn : Addr}
    (fuel : ℕ) : ∀ {b : Evbuffer} {n : ℤ} {r : Evbuffer × List (MsgNode Msg)},
      messageFormatLoop pb reg conn fuel b n = some r →
        ∀ m ∈ r.2, ∃ block len, frameNode pb reg conn block len = some m := by
  induction fuel with
  | zero => exact nofun
  | succ fuel ih =>
    intro b n r h m hm
    rw [messageFormatLoop] at h
    split at h
    · cases h
      cases hm
    · next p hp =>
      obtain ⟨r', hr', rfl⟩ := Option.map_eq_some_iff.mp h
      rcases List.mem_append.mp hm with hm | hm
      · obtain ⟨-, -, -, rfl⟩ := formatPass_some pb reg conn hp
        exact ⟨_, _, by simpa [passOf] using hm⟩
      · exact ih hr' m hm

theorem messageFormat_frameNode {pb : Protobuf Cls Msg} {reg : Registry Cls} {conn : Addr}
    {b : Evbuffer} {info : EvbufferCbInfo} {r : Evbuffer × List (MsgNode Msg)}
    (h : messageFormat pb reg conn b info = some r) :
    ∀ m ∈ r.2, ∃ block len, frameNode pb reg conn block len = some m := by
  rw [messageFormat] at h
  split at h
  · cases h
    simp
  · exact messageFormatLoop_frameNode _ h

/-- `message_format` puts every node on the connection of the buffer. -/
theorem messageFormat_msgConn {pb : Protobuf Cls Msg} {reg : Registry Cls} {conn : Addr}
    {b : Evbuffer} {info : EvbufferCbInfo} {r : Evbuffer × List (MsgNode Msg)}
    (h : messageFormat pb reg conn b info = some r) : ∀ m ∈ r.2, m.msgConn = conn := by
  intro m hm
  obtain ⟨block, len, hnode⟩ := messageFormat_frameNode h m hm
  obtain ⟨c, -, rfl⟩ := Option.map_eq_some_iff.mp hnode
  rfl

/-- `message_format` queues no node of a type without a processer. -/
theorem messageFormat_registered {pb : Protobuf Cls Msg} {reg : Registry Cls} {conn : Addr}
    {b : Evbuffer} {info : EvbufferCbInfo} {r : Evbuffer × List (MsgNode Msg)}
    (h : messageFormat pb reg conn b info = some r) : ∀ m ∈ r.2, (reg m.msgType).isSome := by
  intro m hm
  obtain ⟨block, len, hnode⟩ := messageFormat_frameNode h m hm
  obtain ⟨c, hc, rfl⟩ := Option.map_eq_some_iff.mp hnode
  exact Option.isSome_iff_exists.mpr ⟨c, hc⟩

namespace Layer

/-- What has left `conn_read_msgs_` of an incarnation: output, or in its worker's queue. -/
def stream (s : Layer Cls Msg) (id : ℕ) : List (Item Msg) :=
  match (s.life id).owner with
  | none => []
  | some w => itemsOf id (s.output ++ (s.worker w).tdReadMsgs)

/-- The disconnect notice of an incarnation, as the worker makes it. -/
def IsNotice (s : Layer Cls Msg) (id : ℕ) (it : Item Msg) : Prop :=
  it.src = .notice id ∧ it.node.msgType = 0 ∧ it.node.msgConn = (s.life id).addr

theorem isNotice_congr {s s' : Layer Cls Msg} {id : ℕ}
    (h : (s'.life id).addr = (s.life id).addr) : s'.IsNotice id = s.IsNotice id := by
  funext it
  rw [IsNotice, IsNotice, h]

/-- Nothing is left to come for an incarnation: its object is behind `thread_connections_`, or on
its way out of it. -/
def Left (s : Layer Cls Msg) (a : Addr) (p : Place) : Prop :=
  ∃ w, p = .retired w ∨ p = .registered w ∧ a ∈ (s.worker w).phase.swept

/-- The order invariant. -/
structure InOrder (s : Layer Cls Msg) : Prop where
  live : ∀ {a c}, s.heap a = some c → (s.life c.id).noticed = false →
    s.stream c.id ++ c.connReadMsgs = (s.life c.id).decoded
  done : ∀ {id}, (s.life id).noticed = true → ∃ p it, s.stream id = p ++ [it] ∧
    p <+: (s.life id).decoded ∧ s.IsNotice id it ∧ (s.life id).closed.isSome
  left : ∀ {a c}, s.heap a = some c → ((s.life c.id).noticed = true ↔ s.Left a c.place)
  alive : ∀ {id w}, (s.life id).owner = some w → (s.life id).noticed = false →
    ∃ c, s.heap (s.life id).addr = some c ∧ c.id = id
  unowned : ∀ {id}, (s.life id).owner = none →
    (s.life id).decoded = [] ∧ (s.life id).noticed = false
  src : ∀ id, (s.life id).decoded.map Item.src =
    (List.range (s.life id).decoded.length).map (.wire id)
  conn : ∀ {id it}, it ∈ (s.life id).decoded → it.node.msgConn = (s.life id).addr
  owned : ∀ {w it}, it ∈ (s.worker w).tdReadMsgs →
    ∃ id, it.src.conn = some id ∧ (s.life id).owner = some w
  out : ∀ {it}, it ∈ s.output → ∃ id w, it.src.conn = some id ∧ (s.life id).owner = some w

variable {G : Generated Cls Msg} {s s' : Layer Cls Msg}

theorem InOrder.src_of_mem (h : s.InOrder) {id : ℕ} {it : Item Msg}
    (hit : it ∈ (s.life id).decoded) : ∃ k, it.src = .wire id k := by
  have hmem : it.src ∈ (s.life id).decoded.map Item.src := List.mem_map_of_mem hit
  rw [h.src] at hmem
  obtain ⟨k, -, hk⟩ := List.mem_map.mp hmem
  exact ⟨k, hk.symm⟩

/-! ### Steps that move no message -/

/-- The queues and their histories are the same. -/
structure SameQueues (s s' : Layer Cls Msg) : Prop where
  heap : ∀ {a c'}, s'.heap a = some c' → ∃ c, s.heap a = some c ∧ c.queue = c'.queue
  stays : ∀ {a c w}, s.heap a = some c → (s.life c.id).owner = some w →
    (s.life c.id).noticed = false → ∃ c', s'.heap a = some c' ∧ c'.id = c.id
  life : ∀ id, (s'.life id).queue = (s.life id).queue
  closed : ∀ id, (s.life id).closed.isSome → (s'.life id).closed.isSome
  tdReadMsgs : ∀ w, (s'.worker w).tdReadMsgs = (s.worker w).tdReadMsgs
  output : s'.output = s.output

namespace SameQueues

/-- No object comes or goes. -/
theorem of_kept (heap : Kept Connection.queue s s')
    (life : ∀ id, (s'.life id).queue = (s.life id).queue)
    (closed : ∀ id, (s.life id).closed.isSome → (s'.life id).closed.isSome)
    (tdReadMsgs : ∀ w, (s'.worker w).tdReadMsgs = (s.worker w).tdReadMsgs)
    (output : s'.output = s.output) : SameQueues s s' where
  heap hc := heap.exists_of_some hc
  stays hc _ _ := by
    obtain ⟨c', hc', hq⟩ := heap.symm.exists_of_some hc
    exact ⟨c', hc', congrArg Prod.fst hq⟩
  life := life
  closed := closed
  tdReadMsgs := tdReadMsgs
  output := output

theorem addr (k : SameQueues s s') (id : ℕ) : (s'.life id).addr = (s.life id).addr :=
  congrArg Prod.fst (k.life id)

theorem owner (k : SameQueues s s') (id : ℕ) : (s'.life id).owner = (s.life id).owner :=
  congrArg (fun q => q.2.1) (k.life id)

theorem decoded (k : SameQueues s s') (id : ℕ) : (s'.life id).decoded = (s.life id).decoded :=
  congrArg (fun q => q.2.2.1) (k.life id)

theorem noticed (k : SameQueues s s') (id : ℕ) : (s'.life id).noticed = (s.life id).noticed :=
  congrArg (fun q => q.2.2.2) (k.life id)

theorem stream (k : SameQueues s s') (id : ℕ) : s'.stream id = s.stream id := by
  rw [Layer.stream, Layer.stream, k.owner, k.output]
  cases (s.life id).owner with
  | none => rfl
  | some w =>
    dsimp only
    rw [k.tdReadMsgs]

end SameQueues

theorem InOrder.of_same (h : s.InOrder) (k : SameQueues s s')
    (hleft : ∀ {a c}, s'.heap a = some c → ((s.life c.id).noticed = true ↔ s'.Left a c.place)) :
    s'.InOrder where
  live hc hn := by
    obtain ⟨c, hc, hq⟩ := k.heap hc
    simp only [Connection.queue, Prod.mk.injEq] at hq
    obtain ⟨hid, hmsgs⟩ := hq
    rw [← hid, ← hmsgs, k.stream, k.decoded]
    rw [← hid, k.noticed] at hn
    exact h.live hc hn
  done {id} hn := by
    rw [k.noticed] at hn
    obtain ⟨p, it, hst, hp, hit, hcl⟩ := h.done hn
    refine ⟨p, it, by rw [k.stream, hst], by rw [k.decoded]; exact hp, ?_, k.closed _ hcl⟩
    rw [isNotice_congr (k.addr id)]
    exact hit
  left hc := by
    rw [k.noticed]
    exact hleft hc
  alive {id w} ho hn := by
    rw [k.owner] at ho
    rw [k.noticed] at hn
    obtain ⟨c, hc, hid⟩ := h.alive ho hn
    obtain ⟨c', hc', hid'⟩ := k.stays hc (hid ▸ ho) (hid ▸ hn)
    exact ⟨c', by rw [k.addr, hc'], hid'.trans hid⟩
  unowned ho := by
    rw [k.owner] at ho
    rw [k.decoded, k.noticed]
    exact h.unowned ho
  src id := by
    rw [k.decoded]
    exact h.src id
  conn hit := by
    rw [k.decoded] at hit
    rw [k.addr]
    exact h.conn hit
  owned hit := by
    rw [k.tdReadMsgs] at hit
    obtain ⟨id, hsrc, ho⟩ := h.owned hit
    exact ⟨id, hsrc, by rw [k.owner, ho]⟩
  out hit := by
    rw [k.output] at hit
    obtain ⟨id, w, hsrc, ho⟩ := h.out hit
    exact ⟨id, w, hsrc, by rw [k.owner, ho]⟩

/-- Objects stay where they are, and what is swept stays so. -/
theorem InOrder.left_of_kept {t : Layer Cls Msg} (h : s.InOrder)
    (hk : Kept (fun c => (c.id, c.place)) s t)
    (hph : ∀ w a, a ∈ (t.worker w).phase.swept ↔ a ∈ (s.worker w).phase.swept) {a : Addr}
    {c : Connection Msg} (hc : t.heap a = some c) :
    (s.life c.id).noticed = true ↔ t.Left a c.place := by
  obtain ⟨d, hd, hkey⟩ := hk.exists_of_some hc
  simp only [Prod.mk.injEq] at hkey
  obtain ⟨hid, hplace⟩ := hkey
  rw [← hid, ← hplace, h.left hd]
  simp only [Left, hph]

/-- One worker goes on, and what is swept stays so. -/
theorem InOrder.modWorker (h : s.InOrder) (w : ℕ) {g : ThreadData Msg → ThreadData Msg}
    (hg : (g (s.worker w)).tdReadMsgs = (s.worker w).tdReadMsgs)
    (hsw : ∀ a, a ∈ (g (s.worker w)).phase.swept ↔ a ∈ (s.worker w).phase.swept) :
    (s.modWorker w g).InOrder := by
  refine h.of_same (.of_kept (fun _ => rfl) (fun _ => rfl) (fun _ hcl => hcl) (fun v => ?_) rfl)
    fun {b c} hc =>
    h.left_of_kept (t := s.modWorker w g) (fun _ => rfl) (fun v b => ?_) hc
  · rw [modWorker_worker]
    split
    · next hv => rw [hv, hg]
    · rfl
  · rw [modWorker_worker]
    split
    · next hv => rw [hv, hsw]
    · rfl

theorem InOrder.goto (h : s.InOrder) {w : ℕ} {p q : Phase} (hp : (s.worker w).phase = p)
    (hsw : q.swept = p.swept) : (s.goto w q).InOrder := by
  refine h.modWorker w rfl fun a => ?_
  rw [hp, ← hsw]
  rfl

/-- An object changes, but neither its queue nor its place. -/
theorem InOrder.modConn (h : s.InOrder) (a : Addr) {f : Connection Msg → Connection Msg}
    (hq : ∀ c, (f c).queue = c.queue) (hp : ∀ c, (f c).place = c.place) :
    (s.modConn a f).InOrder := by
  refine h.of_same (.of_kept (Kept.modConn s a hq) (fun _ => rfl) (fun _ hcl => hcl)
    (fun _ => rfl) rfl) fun {b c} hc => h.left_of_kept (Kept.modConn s a fun c => ?_) (fun _ _ => .rfl) hc
  rw [hp, show (f c).id = c.id from congrArg Prod.fst (hq c)]

theorem InOrder.connClose (h : s.InOrder) (a : Addr) : (s.connClose a).InOrder := by
  cases hc : s.heap a with
  | none =>
    rwa [connClose_of_close fun d hd => by rw [hc] at hd; cases hd]
  | some c =>
    refine h.of_same (.of_kept (Kept.connClose s a fun _ _ => rfl) (fun id => ?_)
      (fun id hcl => ?_) (fun w => ?_) (connClose_output s a)) fun {b d} hd =>
        h.left_of_kept (Kept.connClose s a fun _ _ => rfl) (fun w b => ?_) hd
    · rw [connClose_life hc]
      split <;> rfl
    · rw [connClose_life hc]
      split
      · rfl
      · exact hcl
    · rw [connClose_worker]
    · rw [connClose_worker]

/-- An unregistered object goes to another list of such objects. -/
theorem InOrder.setPlace (h : s.InOrder) {a : Addr} {p q : Place} (ha : s.placeAt a = some p)
    (hp : ∀ w, p ≠ .retired w ∧ p ≠ .registered w) (hq : ∀ w, q ≠ .retired w ∧ q ≠ .registered w) :
    (s.setPlace a q).InOrder := by
  refine h.of_same (.of_kept (Kept.modConn s a fun _ => rfl) (fun _ => rfl) (fun _ hcl => hcl)
    (fun _ => rfl) rfl) fun {b d} hd => ?_
  rw [Layer.setPlace, modConn_heap] at hd
  split at hd
  · next hb =>
    obtain ⟨c, hc, rfl⟩ := Option.map_eq_some_iff.mp hd
    rw [hb, placeAt] at *
    rw [hc, Option.map_some, Option.some.injEq] at ha
    have hiff := h.left hc
    rw [ha] at hiff
    refine hiff.trans ⟨?_, ?_⟩
    · rintro ⟨w, hw | ⟨hw, -⟩⟩
      · exact absurd hw (hp w).1
      · exact absurd hw (hp w).2
    · rintro ⟨w, hw | ⟨hw, -⟩⟩
      · exact absurd hw (hq w).1
      · exact absurd hw (hq w).2
  · exact h.left hd

/-! ### Steps that move messages -/

/-- An object that is not on its way out has no notice. -/
theorem InOrder.not_noticed (h : s.InOrder) {a : Addr} {c : Connection Msg}
    (hc : s.heap a = some c) (hl : ¬ s.Left a c.place) : (s.life c.id).noticed = false := by
  rw [← Bool.not_eq_true, h.left hc]
  exact hl

/-- A registered object in a phase that does not sweep it. -/
theorem not_left_of_registered {w : ℕ} {a : Addr} {c : Connection Msg}
    (hc : s.heap a = some c) (ha : s.placeAt a = some (.registered w))
    (hsw : a ∉ (s.worker w).phase.swept) : ¬ s.Left a c.place := by
  rw [placeAt, hc, Option.map_some, Option.some.injEq] at ha
  rw [ha]
  rintro ⟨v, hv | ⟨hv, hmem⟩⟩
  · cases hv
  · cases hv
    exact hsw hmem

/-- The owner of a registered object. -/
theorem WellPlaced.owner_eq (hw : s.WellPlaced) {p : Place} {a : Addr} {c : Connection Msg}
    (hc : s.heap a = some c) (ha : s.placeAt a = some p) : (s.life c.id).owner = p.td := by
  rw [hw.owner hc, hw.td_of_place ha hc]

theorem stream_of_owner {id w : ℕ} (ho : (s.life id).owner = some w) :
    s.stream id = itemsOf id (s.output ++ (s.worker w).tdReadMsgs) := by
  rw [stream, ho]

theorem stream_congr {id : ℕ} (ho : (s'.life id).owner = (s.life id).owner)
    (hout : s'.output = s.output) (hworker : s'.worker = s.worker) : s'.stream id = s.stream id := by
  rw [stream, stream, ho, hout, hworker]

/-- Another item at the end of a worker's queue. -/
theorem stream_queueRead {w id v : ℕ} {it : Item Msg} (hit : it.src.conn = some id)
    (ho : (s.life id).owner = some w) :
    (s.modWorker w (.queueRead it)).stream v =
      if v = id then s.stream v ++ [it] else s.stream v := by
  split
  · next hv =>
    subst hv
    rw [stream_of_owner ho, stream_of_owner (s := s.modWorker w _) ho, modWorker_worker_self,
      ThreadData.queueRead, modWorker_output, ← List.append_assoc, itemsOf_append,
      itemsOf_singleton_self hit]
  · next hv =>
    cases hov : (s.life v).owner with
    | none => rw [stream, stream, modWorker_life, hov]
    | some u =>
      rw [stream_of_owner hov, stream_of_owner (s := s.modWorker w _) hov, modWorker_output,
        modWorker_worker]
      split
      · next hu =>
        have hne : it.src.conn ≠ some v := fun heq => hv (Option.some.inj (heq.symm.trans hit))
        rw [ThreadData.queueRead, ← List.append_assoc, itemsOf_append,
          itemsOf_singleton_of_ne hne, List.append_nil]
      · rfl

theorem InOrder.owned_queueRead (h : s.InOrder) {w id : ℕ} {it : Item Msg}
    (hit : it.src.conn = some id) (ho : (s.life id).owner = some w) {v : ℕ} {jt : Item Msg}
    (hj : jt ∈ ((s.modWorker w (.queueRead it)).worker v).tdReadMsgs) :
    ∃ id, jt.src.conn = some id ∧ (s.life id).owner = some v := by
  rw [modWorker_worker] at hj
  split at hj
  · next hv =>
    subst hv
    rcases List.mem_append.mp hj with hj | hj
    · exact h.owned hj
    · exact ⟨id, List.mem_singleton.mp hj ▸ hit, ho⟩
  · exact h.owned hj

/-- The first node of an object goes to its worker's queue. -/
theorem InOrder.transferMove (h : s.InOrder) (hw : s.WellPlaced) {w : ℕ} {a : Addr}
    {c : Connection Msg} (hc : s.heap a = some c) (ha : s.placeAt a = some (.registered w))
    (hsw : a ∉ (s.worker w).phase.swept) {it : Item Msg} {rest : List (Item Msg)}
    (hmsgs : c.connReadMsgs = it :: rest) :
    ((s.modConn a (.setRead rest)).modWorker w (.queueRead it)).InOrder := by
  have hn : (s.life c.id).noticed = false := h.not_noticed hc (not_left_of_registered hc ha hsw)
  have ho : (s.life c.id).owner = some w := hw.owner_eq hc ha
  have hlive := h.live hc hn
  have hmem : it ∈ (s.life c.id).decoded := by
    rw [← hlive, hmsgs]
    exact List.mem_append_right _ List.mem_cons_self
  obtain ⟨k, hk⟩ := h.src_of_mem hmem
  have hit : it.src.conn = some c.id := by rw [hk]; rfl
  have hstream : ∀ v, ((s.modConn a (.setRead rest)).modWorker w (.queueRead it)).stream v =
      if v = c.id then s.stream v ++ [it] else s.stream v :=
    fun v => stream_queueRead (s := s.modConn a (.setRead rest)) hit ho
  have hph : ∀ v, (((s.modConn a (.setRead rest)).modWorker w (.queueRead it)).worker v).phase =
      (s.worker v).phase := by
    intro v
    rw [modWorker_worker]
    split <;> rfl
  refine ⟨?_, ?_, ?_, ?_, h.unowned, h.src, h.conn, h.owned_queueRead hit ho, h.out⟩
  · intro b d hd hdn
    rw [modWorker_heap, modConn_heap] at hd
    rw [hstream]
    split at hd
    · next hb =>
      rw [hb, hc, Option.map_some, Option.some.injEq] at hd
      subst hd
      show (if c.id = c.id then s.stream c.id ++ [it] else s.stream c.id) ++ rest = _
      rw [if_pos rfl, List.append_assoc, List.singleton_append, ← hmsgs]
      exact hlive
    · next hb =>
      rw [if_neg fun hid => hb (hw.id_inj hd hc hid)]
      exact h.live hd hdn
  · intro id hid
    have hne : id ≠ c.id := by
      rintro rfl
      rw [modWorker_life, modConn_life, hn] at hid
      cases hid
    rw [hstream, if_neg hne]
    exact h.done hid
  · intro b d hd
    refine h.left_of_kept (t := (s.modConn a (.setRead rest)).modWorker w (.queueRead it)) ?_
      (fun v b => by rw [hph]) hd
    exact Kept.modConn s a fun _ => rfl
  · intro id v ho hid
    obtain ⟨d, hd, hdid⟩ := h.alive ho hid
    obtain ⟨d', hd', hkey⟩ := (Kept.modConn (K := Connection.id) s a
      (f := .setRead rest) fun _ => rfl).symm.exists_of_some hd
    exact ⟨d', hd', hkey.trans hdid⟩

/-- `on_read` queues what it decoded. -/
theorem InOrder.read (h : s.InOrder) (hw : s.WellPlaced) {w : ℕ} {a : Addr}
    {c : Connection Msg} (hc : s.heap a = some c) (ha : s.placeAt a = some (.registered w))
    (hsw : a ∉ (s.worker w).phase.swept) {chunk : List UInt8} {buffer : Evbuffer}
    {ms : List (MsgNode Msg)} (hms : ∀ m ∈ ms, m.msgConn = a) :
    ((s.modConn a (.receive buffer (number c.id (s.life c.id).decoded.length ms))).modLife c.id
      (.receive chunk (number c.id (s.life c.id).decoded.length ms))).InOrder := by
  have hn : (s.life c.id).noticed = false := h.not_noticed hc (not_left_of_registered hc ha hsw)
  have ho : (s.life c.id).owner = some w := hw.owner_eq hc ha
  generalize hits : number c.id (s.life c.id).decoded.length ms = items
  generalize hs' : (s.modConn a (.receive buffer items)).modLife c.id (.receive chunk items) = s'
  have hlife : ∀ id, s'.life id =
      if id = c.id then (s.life id).receive chunk items else s.life id := by
    intro id
    rw [← hs', modLife_life, modConn_life]
  have haddr : ∀ id, (s'.life id).addr = (s.life id).addr := by
    intro id
    rw [hlife]
    split <;> rfl
  have howner : ∀ id, (s'.life id).owner = (s.life id).owner := by
    intro id
    rw [hlife]
    split <;> rfl
  have hnoticed : ∀ id, (s'.life id).noticed = (s.life id).noticed := by
    intro id
    rw [hlife]
    split <;> rfl
  have hworker : s'.worker = s.worker := hs' ▸ rfl
  have hout : s'.output = s.output := hs' ▸ rfl
  have hstream : ∀ id, s'.stream id = s.stream id :=
    fun id => stream_congr (howner id) hout hworker
  have hheap : ∀ b, s'.heap b =
      if b = a then (s.heap b).map (.receive buffer items) else s.heap b := by
    intro b
    rw [← hs', modLife_heap, modConn_heap]
  refine ⟨?_, ?_, ?_, ?_, ?_, ?_, ?_, ?_, ?_⟩
  · intro b d hd hdn
    rw [hheap] at hd
    rw [hstream, hlife]
    split at hd
    · next hb =>
      rw [hb, hc, Option.map_some, Option.some.injEq] at hd
      subst hd
      have hid : (c.receive buffer items).id = c.id := rfl
      rw [hid, if_pos rfl]
      show s.stream c.id ++ (c.connReadMsgs ++ items) = (s.life c.id).decoded ++ items
      rw [← List.append_assoc, h.live hc hn]
    · next hb =>
      rw [if_neg fun hid => hb (hw.id_inj hd hc hid)]
      rw [hnoticed] at hdn
      exact h.live hd hdn
  · intro id hid
    rw [hnoticed] at hid
    have hne : id ≠ c.id := by
      rintro rfl
      rw [hn] at hid
      cases hid
    rw [hstream, isNotice_congr (haddr id), hlife, if_neg hne]
    exact h.done hid
  · intro b d hd
    rw [hnoticed]
    refine h.left_of_kept (t := s') ?_ (fun v b => by rw [hworker]) hd
    subst hs'
    exact Kept.modConn s a fun _ => rfl
  · intro id v hov hid
    rw [howner] at hov
    rw [hnoticed] at hid
    obtain ⟨d, hd, hdid⟩ := h.alive hov hid
    have hkept : Kept Connection.id s s' := by
      subst hs'
      exact Kept.modConn s a fun _ => rfl
    obtain ⟨d', hd', hkey⟩ := hkept.symm.exists_of_some hd
    exact ⟨d', by rw [haddr, hd'], hkey.trans hdid⟩
  · intro id hov
    rw [howner] at hov
    have hne : id ≠ c.id := by
      rintro rfl
      rw [ho] at hov
      cases hov
    rw [hlife, if_neg hne]
    exact h.unowned hov
  · intro id
    rw [hlife]
    split
    · next hid =>
      subst hid
      show ((s.life c.id).decoded ++ items).map Item.src = _
      rw [List.map_append, h.src, ← hits, number_src]
      show _ = (List.range ((s.life c.id).decoded ++ number c.id _ ms).length).map _
      rw [List.length_append, number_length, List.range_eq_range', List.range_eq_range',
        ← List.map_append, ← List.range'_append_1, Nat.zero_add]
    · exact h.src id
  · intro id it hit
    rw [haddr]
    rw [hlife] at hit
    split at hit
    · next hid =>
      subst hid
      rcases List.mem_append.mp hit with hit | hit
      · exact h.conn hit
      · rw [hw.addr hc]
        exact hms _ (mem_number (hits ▸ hit))
    · exact h.conn hit
  · intro v it hit
    rw [hworker] at hit
    obtain ⟨id, hsrc, hov⟩ := h.owned hit
    exact ⟨id, hsrc, by rw [howner, hov]⟩
  · intro it hit
    rw [hout] at hit
    obtain ⟨id, v, hsrc, hov⟩ := h.out hit
    exact ⟨id, v, hsrc, by rw [howner, hov]⟩

/-- A connection the sweep has still to visit has no notice. -/
theorem InOrder.not_noticed_of_sweep (h : s.InOrder) (hw : s.WellPlaced) {w : ℕ} {a : Addr}
    {c : Connection Msg} {todo removeIds : List Addr}
    (hp : (s.worker w).phase = .sweep (a :: todo) removeIds) (hc : s.heap a = some c) :
    (s.life c.id).noticed = false := by
  refine h.not_noticed hc (not_left_of_registered hc (hw.in_hand hp List.mem_cons_self) ?_)
  have hnd := (hw.phase w).nodup
  rw [hp] at hnd ⊢
  exact fun hmem => (List.nodup_cons.mp hnd).1 (List.mem_append_right _ hmem)

/-- The sweep queues the notice of a closed connection. -/
theorem InOrder.noticeStep (h : s.InOrder) (hw : s.WellPlaced) (hst : s.Stamped) {w : ℕ} {a : Addr}
    {c : Connection Msg} {todo removeIds : List Addr} {junk : UInt64}
    (hp : (s.worker w).phase = .sweep (a :: todo) removeIds) (hc : s.heap a = some c)
    (hclose : c.state = .close) : (s.noticeStep G w a c.id todo removeIds junk).InOrder := by
  have ha : s.placeAt a = some (.registered w) := hw.in_hand hp List.mem_cons_self
  have hn : (s.life c.id).noticed = false := h.not_noticed_of_sweep hw hp hc
  have ho : (s.life c.id).owner = some w := hw.owner_eq hc ha
  rw [Layer.noticeStep]
  split
  · exact h
  next node hnode =>
  dsimp only
  generalize hnt : (⟨{ node with
    msgData := G.setCode node.msgData 0, msgType := 0, msgConn := a }, .notice c.id, .request⟩ :
      Item Msg) = it
  have hit : it.src.conn = some c.id := by rw [← hnt]; rfl
  generalize hs' : ((s.modLife c.id .notice).modWorker w (.queueRead it)).goto w
    (.closing a todo removeIds) = s'
  have hlife : ∀ id, s'.life id = if id = c.id then (s.life id).notice else s.life id := by
    intro id
    rw [← hs', goto_life, modWorker_life, modLife_life]
  have haddr : ∀ id, (s'.life id).addr = (s.life id).addr := by
    intro id
    rw [hlife]
    split <;> rfl
  have howner : ∀ id, (s'.life id).owner = (s.life id).owner := by
    intro id
    rw [hlife]
    split <;> rfl
  have hdecoded : ∀ id, (s'.life id).decoded = (s.life id).decoded := by
    intro id
    rw [hlife]
    split <;> rfl
  have hclosed : ∀ id, (s'.life id).closed = (s.life id).closed := by
    intro id
    rw [hlife]
    split <;> rfl
  have hheap : s'.heap = s.heap := hs' ▸ rfl
  have hstream : ∀ v, s'.stream v = if v = c.id then s.stream v ++ [it] else s.stream v := by
    intro v
    rw [← stream_queueRead (w := w) hit ho, stream, stream, howner, modWorker_life]
    cases (s.life v).owner with
    | none => rfl
    | some u =>
      dsimp only
      rw [← hs', goto_worker]
      split <;> rfl
  have htd : ∀ v, (s'.worker v).tdReadMsgs =
      ((s.modWorker w (.queueRead it)).worker v).tdReadMsgs := by
    intro v
    rw [← hs', goto_worker]
    split <;> rfl
  refine ⟨?_, ?_, ?_, ?_, ?_, ?_, ?_, ?_, ?_⟩
  · intro b d hd hdn
    rw [hheap] at hd
    have hne : d.id ≠ c.id := by
      intro hid
      rw [hlife, if_pos hid] at hdn
      cases hdn
    rw [hlife, if_neg hne] at hdn ⊢
    rw [hstream, if_neg hne]
    exact h.live hd hdn
  · intro id hid
    rw [hstream, hdecoded, isNotice_congr (haddr id), hclosed]
    by_cases hne : id = c.id
    · subst hne
      rw [if_pos rfl]
      refine ⟨_, it, rfl, ⟨c.connReadMsgs, h.live hc hn⟩, ⟨?_, ?_, ?_⟩, ?_⟩
      · rw [← hnt]
      · rw [← hnt]
      · rw [← hnt, hw.addr hc]
      · have hcl := hst.closed hc
        rw [if_pos hclose] at hcl
        rw [← Option.isSome_map (f := Prod.fst), hcl]
        rfl
    · rw [hlife, if_neg hne] at hid
      rw [if_neg hne]
      exact h.done hid
  · intro b d hd
    rw [hheap] at hd
    have hphase : ∀ v, (s'.worker v).phase =
        if v = w then .closing a todo removeIds else (s.worker v).phase := by
      intro v
      rw [← hs', goto_worker, modWorker_worker]
      split <;> rfl
    have hleft : s'.Left b d.place ↔ s.Left b d.place ∨ b = a ∧ d.place = .registered w := by
      constructor
      · rintro ⟨v, hv | ⟨hv, hmem⟩⟩
        · exact .inl ⟨v, .inl hv⟩
        · rw [hphase] at hmem
          split at hmem
          · next hvw =>
            subst hvw
            rcases List.mem_cons.mp hmem with hb | hmem
            · exact .inr ⟨hb, hv⟩
            · exact .inl ⟨v, .inr ⟨hv, by rw [hp]; exact hmem⟩⟩
          · exact .inl ⟨v, .inr ⟨hv, hmem⟩⟩
      · rintro (⟨v, hv | ⟨hv, hmem⟩⟩ | ⟨rfl, hv⟩)
        · exact ⟨v, .inl hv⟩
        · refine ⟨v, .inr ⟨hv, ?_⟩⟩
          rw [hphase]
          split
          · next hvw =>
            rw [hvw, hp] at hmem
            exact List.mem_cons_of_mem _ hmem
          · exact hmem
        · refine ⟨w, .inr ⟨hv, ?_⟩⟩
          rw [hphase, if_pos rfl]
          exact List.mem_cons_self
    rw [hleft, ← h.left hd, hlife]
    by_cases hb : b = a
    · subst hb
      rw [hc, Option.some.injEq] at hd
      subst hd
      rw [placeAt, hc, Option.map_some, Option.some.injEq] at ha
      rw [if_pos rfl]
      exact ⟨fun _ => .inr ⟨rfl, ha⟩, fun _ => rfl⟩
    · rw [if_neg fun hid => hb (hw.id_inj hd hc hid)]
      exact ⟨.inl, fun hor => hor.resolve_right fun hand => hb hand.1⟩
  · intro id v hov hid
    rw [howner] at hov
    rw [hheap, haddr]
    refine h.alive hov ?_
    rw [hlife] at hid
    split at hid
    · cases hid
    · exact hid
  · intro id hov
    rw [howner] at hov
    have hne : id ≠ c.id := by
      rintro rfl
      rw [ho] at hov
      cases hov
    rw [hlife, if_neg hne]
    exact h.unowned hov
  · intro id
    rw [hdecoded]
    exact h.src id
  · intro id jt hjt
    rw [hdecoded] at hjt
    rw [haddr]
    exact h.conn hjt
  · intro v jt hjt
    rw [htd] at hjt
    obtain ⟨id, hsrc, hov⟩ := h.owned_queueRead hit ho hjt
    exact ⟨id, hsrc, by rw [howner, hov]⟩
  · intro jt hjt
    have hjt : jt ∈ s.output := by
      rw [← hs'] at hjt
      exact hjt
    obtain ⟨id, v, hsrc, hov⟩ := h.out hjt
    exact ⟨id, v, hsrc, by rw [howner, hov]⟩

/-! ### Objects that come and go -/

/-- A new object, in the queue of the connectors. -/
theorem InOrder.alloc (h : s.InOrder) (hw : s.Objects) {a : Addr} (ha : s.heap a = none)
    (k : Bool) : (s.alloc a .connecting k).InOrder := by
  have hfresh : s.life s.nextId = .new 0 false := hw.fresh le_rfl
  have hlife : ∀ id, (s.alloc a .connecting k).life id =
      if id = s.nextId then .new a k else s.life id := alloc_life s a .connecting k
  have howner : ∀ id, ((s.alloc a .connecting k).life id).owner = (s.life id).owner := by
    intro id
    rw [hlife]
    split
    · next hid => rw [hid, hfresh]; rfl
    · rfl
  have hdecoded : ∀ id, ((s.alloc a .connecting k).life id).decoded = (s.life id).decoded := by
    intro id
    rw [hlife]
    split
    · next hid => rw [hid, hfresh]; rfl
    · rfl
  have hnoticed : ∀ id, ((s.alloc a .connecting k).life id).noticed = (s.life id).noticed := by
    intro id
    rw [hlife]
    split
    · next hid => rw [hid, hfresh]; rfl
    · rfl
  have hstream : ∀ id, (s.alloc a .connecting k).stream id = s.stream id :=
    fun id => stream_congr (howner id) rfl rfl
  have hne : ∀ {id}, (s.life id).owner ≠ none → id ≠ s.nextId := by
    rintro id hov rfl
    exact hov (by rw [hfresh]; rfl)
  refine ⟨?_, ?_, ?_, ?_, ?_, ?_, ?_, ?_, ?_⟩
  · intro b d hd hdn
    rw [hstream, hdecoded]
    rw [hnoticed] at hdn
    rw [alloc_heap] at hd
    split at hd
    · cases hd
      show s.stream s.nextId ++ [] = (s.life s.nextId).decoded
      rw [stream, hfresh]
      rfl
    · exact h.live hd hdn
  · intro id hid
    rw [hnoticed] at hid
    have hid' : id ≠ s.nextId := by
      rintro rfl
      rw [hfresh] at hid
      cases hid
    have haddr : ((s.alloc a .connecting k).life id).addr = (s.life id).addr := by
      rw [hlife, if_neg hid']
    rw [hstream, isNotice_congr haddr, hlife, if_neg hid']
    exact h.done hid
  · intro b d hd
    rw [hnoticed]
    rw [alloc_heap] at hd
    split at hd
    · cases hd
      show (s.life s.nextId).noticed = true ↔ _
      rw [hfresh]
      refine ⟨nofun, ?_⟩
      rintro ⟨w, hw | ⟨hw, -⟩⟩ <;> cases hw
    · exact h.left hd
  · intro id v hov hid
    rw [howner] at hov
    rw [hnoticed] at hid
    obtain ⟨d, hd, hdid⟩ := h.alive hov hid
    rw [hlife, if_neg (hne (by rw [hov]; exact Option.some_ne_none v)), alloc_heap, if_neg]
    · exact ⟨d, hd, hdid⟩
    · rintro hb
      rw [hb, ha] at hd
      cases hd
  · intro id hov
    rw [howner] at hov
    rw [hdecoded, hnoticed]
    exact h.unowned hov
  · intro id
    rw [hdecoded]
    exact h.src id
  · intro id it hit
    rw [hdecoded] at hit
    rw [hlife]
    split
    · next hid =>
      rw [hid, hfresh] at hit
      cases hit
    · exact h.conn hit
  · intro v it hit
    obtain ⟨id, hsrc, hov⟩ := h.owned hit
    exact ⟨id, hsrc, by rw [howner, hov]⟩
  · intro it hit
    obtain ⟨id, v, hsrc, hov⟩ := h.out hit
    exact ⟨id, v, hsrc, by rw [howner, hov]⟩

/-- A worker registers an object no worker had. -/
theorem InOrder.registerConn (h : s.InOrder) (hw : s.Objects) {w : ℕ} {a : Addr}
    {c : Connection Msg} (hc : s.heap a = some c) (htd : c.td = none) (st : ConnState)
    (hsw : (s.worker w).phase.swept = []) : (s.registerConn w a c.id st).InOrder := by
  have ho : (s.life c.id).owner = none := by rw [hw.owner hc, htd]
  obtain ⟨hdec, hn⟩ := h.unowned ho
  have hlife : ∀ id, (s.registerConn w a c.id st).life id =
      if id = c.id then (s.life id).setOwner w else s.life id := registerConn_life s w a c.id st
  have haddr : ∀ id, ((s.registerConn w a c.id st).life id).addr = (s.life id).addr := by
    intro id
    rw [hlife]
    split <;> rfl
  have hdecoded : ∀ id, ((s.registerConn w a c.id st).life id).decoded = (s.life id).decoded := by
    intro id
    rw [hlife]
    split <;> rfl
  have hnoticed : ∀ id, ((s.registerConn w a c.id st).life id).noticed = (s.life id).noticed := by
    intro id
    rw [hlife]
    split <;> rfl
  have htd' : ∀ v, ((s.registerConn w a c.id st).worker v).tdReadMsgs = (s.worker v).tdReadMsgs ∧
      ((s.registerConn w a c.id st).worker v).phase = (s.worker v).phase := by
    intro v
    rw [Layer.registerConn, modWorker_worker]
    split <;> exact ⟨rfl, rfl⟩
  -- nothing of an incarnation without owner is on its way
  have hnone : itemsOf c.id (s.output ++ (s.worker w).tdReadMsgs) = [] := by
    refine itemsOf_eq_nil fun it hit hsrc => ?_
    rcases List.mem_append.mp hit with hit | hit
    · obtain ⟨id, v, hid, hov⟩ := h.out hit
      rw [hid, Option.some.injEq] at hsrc
      rw [hsrc, ho] at hov
      cases hov
    · obtain ⟨id, hid, hov⟩ := h.owned hit
      rw [hid, Option.some.injEq] at hsrc
      rw [hsrc, ho] at hov
      cases hov
  have hstream : ∀ id, (s.registerConn w a c.id st).stream id = s.stream id := by
    intro id
    by_cases hid : id = c.id
    · have hov : ((s.registerConn w a c.id st).life id).owner = some w := by
        rw [hlife, if_pos hid]
        rfl
      rw [stream_of_owner hov, (htd' w).1, stream, hid, ho]
      exact hnone
    · rw [stream, stream, hlife, if_neg hid]
      cases (s.life id).owner with
      | none => rfl
      | some v =>
        show itemsOf id (s.output ++ ((s.registerConn w a c.id st).worker v).tdReadMsgs) = _
        rw [(htd' v).1]
  have howner : ∀ {id v}, (s.life id).owner = some v →
      ((s.registerConn w a c.id st).life id).owner = some v := by
    intro id v hov
    have hne : id ≠ c.id := by
      rintro rfl
      rw [ho] at hov
      cases hov
    rw [hlife, if_neg hne, hov]
  have hkept : Kept Connection.queue s (s.registerConn w a c.id st) := by
    intro b
    rw [registerConn_heap]
    split
    · rw [Option.map_map]
      rfl
    · rfl
  refine ⟨?_, ?_, ?_, ?_, ?_, ?_, ?_, ?_, ?_⟩
  · intro b d hd hdn
    obtain ⟨e, he, hq⟩ := hkept.exists_of_some hd
    simp only [Connection.queue, Prod.mk.injEq] at hq
    rw [hnoticed, ← hq.1] at hdn
    rw [hstream, hdecoded, ← hq.1, ← hq.2]
    exact h.live he hdn
  · intro id hid
    rw [hnoticed] at hid
    have hne : id ≠ c.id := by
      rintro rfl
      rw [hn] at hid
      cases hid
    rw [hstream, isNotice_congr (haddr id), hlife, if_neg hne]
    exact h.done hid
  · intro b d hd
    rw [hnoticed]
    have hleft : (s.registerConn w a c.id st).Left b d.place ↔ s.Left b d.place := by
      simp only [Left, (htd' _).2]
    rw [hleft]
    rw [registerConn_heap] at hd
    split at hd
    · next hb =>
      rw [hb, hc, Option.map_some, Option.some.injEq] at hd
      subst hd
      show (s.life c.id).noticed = true ↔ s.Left b (.registered w)
      rw [hn]
      refine ⟨by simp, ?_⟩
      rintro ⟨v, hv | ⟨hv, hmem⟩⟩
      · cases hv
      · cases hv
        rw [hsw] at hmem
        cases hmem
    · exact h.left hd
  · intro id v hov hid
    rw [hnoticed] at hid
    rw [haddr]
    by_cases hne : id = c.id
    · obtain ⟨c', hc', hkey⟩ := hkept.symm.exists_of_some hc
      exact ⟨c', by rw [hne, hw.addr hc, hc'], by rw [hne]; exact congrArg Prod.fst hkey⟩
    · rw [hlife, if_neg hne] at hov
      obtain ⟨d, hd, hdid⟩ := h.alive hov hid
      obtain ⟨d', hd', hkey⟩ := hkept.symm.exists_of_some hd
      exact ⟨d', hd', (congrArg Prod.fst hkey).trans hdid⟩
  · intro id hov
    rw [hdecoded, hnoticed]
    refine h.unowned ?_
    rw [hlife] at hov
    split at hov
    · cases hov
    · exact hov
  · intro id
    rw [hdecoded]
    exact h.src id
  · intro id it hit
    rw [hdecoded] at hit
    rw [haddr]
    exact h.conn hit
  · intro v it hit
    rw [(htd' v).1] at hit
    obtain ⟨id, hsrc, hov⟩ := h.owned hit
    exact ⟨id, hsrc, howner hov⟩
  · intro it hit
    obtain ⟨id, v, hsrc, hov⟩ := h.out hit
    exact ⟨id, v, hsrc, howner hov⟩

/-- An object is deleted that no worker had, or whose notice is queued. -/
theorem InOrder.free (h : s.InOrder) {a : Addr}
    (ha : ∀ c, s.heap a = some c → (s.life c.id).owner = none ∨ (s.life c.id).noticed = true) :
    (s.free a).InOrder := by
  cases hc : s.heap a with
  | none =>
    have hsame : s.free a = s := by
      unfold Layer.free
      rw [hc]
    rwa [hsame]
  | some c =>
    have hlife : ∀ id, ((s.free a).life id).queue = (s.life id).queue ∧
        ((s.free a).life id).closed = (s.life id).closed := by
      intro id
      rw [free_life hc]
      split <;> exact ⟨rfl, rfl⟩
    have hheap : ∀ {b d}, (s.free a).heap b = some d → s.heap b = some d := by
      intro b d hd
      rw [free_heap] at hd
      split at hd
      · cases hd
      · exact hd
    refine h.of_same ⟨fun {b d} hd => ⟨d, hheap hd, rfl⟩, fun {b d w} hd hov hn => ?_,
      fun id => (hlife id).1, fun id hcl => by rw [(hlife id).2]; exact hcl,
      fun w => by rw [free_worker], by rw [Layer.free, hc]; rfl⟩ fun {b d} hd => ?_
    · refine ⟨d, ?_, rfl⟩
      rw [free_heap, if_neg, hd]
      rintro rfl
      rcases ha d hd with hnone | hdone
      · rw [hov] at hnone
        cases hnone
      · rw [hn] at hdone
        cases hdone
    · have hleft : (s.free a).Left b d.place ↔ s.Left b d.place := by
        simp only [Left, free_worker]
      rw [hleft]
      exact h.left (hheap hd)

/-- The swept objects leave `thread_connections_`. -/
theorem InOrder.eraseStep (h : s.InOrder) (hw : s.WellPlaced) {w : ℕ} {removeIds : List Addr}
    (hp : (s.worker w).phase = .erase removeIds) : (s.eraseStep w removeIds).InOrder := by
  refine h.of_same (.of_kept (Kept.retire s w _ fun _ => rfl) (fun _ => rfl) (fun _ hcl => hcl)
    (fun v => ?_) rfl) fun {b d} hd => ?_
  · rw [Layer.eraseStep, modWorker_worker]
    split <;> rfl
  · have hswept : ∀ v, v ≠ w →
        ((s.eraseStep w removeIds).worker v).phase = (s.worker v).phase := by
      intro v hv
      rw [Layer.eraseStep, modWorker_worker, if_neg hv]
    have hnone : ((s.eraseStep w removeIds).worker w).phase.swept = [] := by
      rw [Layer.eraseStep, modWorker_worker_self]
      rfl
    change s.retire w removeIds b = some d at hd
    rw [retire] at hd
    split at hd
    · next hb =>
      obtain ⟨c, hc, rfl⟩ := Option.map_eq_some_iff.mp hd
      have hat : s.placeAt b = some (.registered w) := hw.in_hand hp hb
      rw [placeAt, hc, Option.map_some, Option.some.injEq] at hat
      show (s.life c.id).noticed = true ↔ (s.eraseStep w removeIds).Left b (.retired w)
      rw [h.left hc, hat]
      exact ⟨fun _ => ⟨w, .inl rfl⟩, fun _ => ⟨w, .inr ⟨rfl, by rw [hp]; exact hb⟩⟩⟩
    · next hb =>
      rw [h.left hd]
      constructor
      · rintro ⟨v, hv | ⟨hv, hmem⟩⟩
        · exact ⟨v, .inl hv⟩
        · have hvw : v ≠ w := by
            rintro rfl
            rw [hp] at hmem
            exact hb hmem
          exact ⟨v, .inr ⟨hv, by rw [hswept v hvw]; exact hmem⟩⟩
      · rintro ⟨v, hv | ⟨hv, hmem⟩⟩
        · exact ⟨v, .inl hv⟩
        · have hvw : v ≠ w := by
            rintro rfl
            rw [hnone] at hmem
            cases hmem
          exact ⟨v, .inr ⟨hv, by rw [← hswept v hvw]; exact hmem⟩⟩

/-- A round of `get_net_msgs` moves messages within the streams. -/
theorem InOrder.stream_getNetMsgs (h : s.InOrder) (i id : ℕ) :
    (s.getNetMsgs i).stream id = s.stream id := by
  have hout : (s.getNetMsgs i).output = s.output ++ (s.worker i).tdReadMsgs := rfl
  cases hov : (s.life id).owner with
  | none =>
    rw [stream, stream, hov]
    show (match (s.life id).owner with | none => [] | some w => _) = []
    rw [hov]
  | some v =>
    rw [stream_of_owner hov, stream_of_owner (s := s.getNetMsgs i) hov, hout, Layer.getNetMsgs,
      modWorker_worker]
    split
    · next hv => rw [hv, List.append_nil]
    · next hv =>
      -- what another worker holds is not of this connection
      have hnone : itemsOf id (s.worker i).tdReadMsgs = [] := by
        refine itemsOf_eq_nil fun it hit hsrc => ?_
        obtain ⟨id', hid', hov'⟩ := h.owned hit
        rw [hid', Option.some.injEq] at hsrc
        rw [hsrc, hov, Option.some.injEq] at hov'
        exact hv hov'
      simp only [itemsOf_append, hnone, List.append_nil]

/-- One round of `get_net_msgs`. -/
theorem InOrder.getNetMsgs (h : s.InOrder) (i : ℕ) : (s.getNetMsgs i).InOrder := by
  have hworker : ∀ v, ((s.getNetMsgs i).worker v).tdReadMsgs =
      if v = i then [] else (s.worker v).tdReadMsgs := by
    intro v
    rw [Layer.getNetMsgs, modWorker_worker]
    split <;> rfl
  have hstream := h.stream_getNetMsgs i
  refine ⟨?_, ?_, ?_, h.alive, h.unowned, h.src, h.conn, ?_, ?_⟩
  · intro b d hd hdn
    rw [hstream]
    exact h.live hd hdn
  · intro id hid
    rw [hstream]
    exact h.done hid
  · intro b d hd
    refine h.left_of_kept (t := s.getNetMsgs i) (fun _ => rfl) (fun v b => ?_) hd
    rw [Layer.getNetMsgs, modWorker_worker]
    split <;> rfl
  · intro v it hit
    rw [hworker] at hit
    split at hit
    · cases hit
    · exact h.owned hit
  · intro it hit
    rcases List.mem_append.mp hit with hit | hit
    · exact h.out hit
    · obtain ⟨id, hid, hov⟩ := h.owned hit
      exact ⟨id, i, hid, hov⟩

/-! ### Every step -/

theorem InOrder.readStep (h : s.InOrder) (hw : s.WellPlaced) {w : ℕ} {a : Addr}
    {c : Connection Msg} (hc : s.heap a = some c) (ha : s.placeAt a = some (.registered w))
    (hsw : a ∉ (s.worker w).phase.swept) (hr : ReadStep G s a c s') : s'.InOrder := by
  cases hr with
  | data hne hext hr => exact h.read hw hc ha hsw (messageFormat_msgConn hr)
  | again => exact h.modConn a (fun _ => rfl) fun _ => rfl
  | shut | failed =>
    refine .connClose (.modConn h a ?_ ?_) a
    · exact fun _ => rfl
    · exact fun _ => rfl

theorem Writes.queue_eq {f : Connection Msg → Connection Msg} (hf : Writes G f)
    (c : Connection Msg) : (f c).queue = c.queue ∧ (f c).place = c.place := by
  show (f c).readSide.queue = c.readSide.queue ∧ (f c).readSide.place = c.readSide.place
  rw [hf.readSide]
  exact ⟨rfl, rfl⟩

theorem InOrder.writeStep (h : s.InOrder) {a : Addr} {r : WriteResult} (hr : WriteStep G s a r s') : s'.InOrder := by
  cases hr with
  | quiet hf => exact h.modConn a (fun c => (hf.queue_eq c).1) fun c => (hf.queue_eq c).2
  | failed _ hf =>
    exact (h.modConn a (fun c => (hf.queue_eq c).1) fun c => (hf.queue_eq c).2).connClose a

theorem InOrder.giveWorker (h : s.InOrder) (ci : ConnInfo) (written : Bool) :
    (s.giveWorker ci written).InOrder := by
  have hlast : { s with lastThreadId := UInt64.ofNat s.nextThread }.InOrder :=
    h.of_same (.of_kept (fun _ => rfl) (fun _ => rfl) (fun _ hcl => hcl) (fun _ => rfl) rfl) h.left
  exact hlast.modWorker _ rfl fun _ => .rfl

theorem InOrder.setConnectors (h : s.InOrder) (l : List Addr) : (s.setConnectors l).InOrder :=
  h.of_same (.of_kept (fun _ => rfl) (fun _ => rfl) (fun _ hcl => hcl) (fun _ => rfl) rfl) h.left

theorem InOrder.workerStep {w : ℕ} {e : WorkerAct} (h : s.InOrder) (hw : s.WellPlaced) (hst : s.Stamped)
    (hs : WorkerStep G s w e s') : s'.InOrder := by
  cases hs with
  | top hp =>
    refine h.modWorker w rfl fun a => ?_
    rw [hp]
    exact .rfl
  | drain hp =>
    have hworker : ∀ v, ((s.drainStep w).worker v).tdReadMsgs = (s.worker v).tdReadMsgs ∧
        ((s.drainStep w).worker v).phase.swept = (s.worker v).phase.swept := by
      intro v
      rw [drainStep, modWorker_worker]
      split
      · next hv =>
        rw [hv, hp]
        exact ⟨rfl, rfl⟩
      · exact ⟨rfl, rfl⟩
    refine h.of_same (.of_kept (Kept.drainStep s w fun _ _ => rfl) (fun _ => rfl)
      (fun _ hcl => hcl) (fun v => (hworker v).1) rfl) fun {b d} hd =>
        h.left_of_kept (Kept.drainStep s w fun _ _ => rfl) (fun v b => by rw [(hworker v).2]) hd
  | transferEnd hp | transferSkip hp | connectorsEnd hp | passEnd hp | passSkip hp | passVisit hp
  | readStart hp | readSkip hp | writeStart hp | writeSkip hp | pollEnd hp | callbackOk hp
  | sweepEnd hp | sweepSkip hp | deleteEnd hp => exact h.goto hp rfl
  | transferMove hp hc hmsgs =>
    refine h.transferMove hw hc (hw.in_hand hp List.mem_cons_self) ?_ hmsgs
    rw [hp]
    exact List.not_mem_nil
  | @push a rest written hp hq =>
    have hat : s.placeAt a = some .connecting := by
      refine hw.placed (p := .connecting) ?_
      show a ∈ s.connectConns
      rw [hq]
      exact List.mem_cons_self
    have hset : (s.setConnectors rest).InOrder := h.setConnectors rest
    refine InOrder.giveWorker (hset.setPlace (p := .connecting) hat ?_ ?_) _ _
    · exact fun w => ⟨by simp, by simp⟩
    · exact fun w => ⟨by simp, by simp⟩
  | @read a back c s₁ hp hc hr =>
    have hsw : a ∉ (s.worker w).phase.swept := by
      rw [hp]
      exact List.not_mem_nil
    have hread := h.readStep hw hc (hw.in_hand hp List.mem_cons_self) hsw hr
    have hworker := (SameKeys.readStep hw hc hr).2
    refine hread.goto (p := .reading a back) (by rw [hworker, hp]) ?_
    cases back <;> rfl
  | @write a back c r s₁ hp hc he hr =>
    have hworker := (SameKeys.writeStep hw hr).2
    refine (h.writeStep hr).goto (p := .writing a back) (by rw [hworker, hp]) ?_
    cases back <;> rfl
  | @readEvent a c hp ha hc hev =>
    refine .goto (p := .poll) (.modConn h a ?_ ?_) hp ?_
    · exact fun _ => rfl
    · exact fun _ => rfl
    · split <;> rfl
  | @writeEvent a c hp ha hc =>
    refine .goto (p := .poll) (.modConn h a ?_ ?_) hp ?_
    · exact fun _ => rfl
    · exact fun _ => rfl
    · split <;> rfl
  | dropped hp hq => exact h.modWorker w rfl fun _ => .rfl
  | @accepted n st rest a hp hq ha =>
    have htake : (s.modWorker w (.take n rest)).InOrder := h.modWorker w rfl fun _ => .rfl
    have hobj : (s.modWorker w (.take n rest)).Objects := hw.toObjects.congr rfl rfl rfl
    refine (htake.alloc hobj ha.1 false).registerConn (hobj.alloc a false rfl)
      (c := .new s.nextId .connecting) ?_ rfl st ?_
    · rw [alloc_heap, if_pos rfl]
      rfl
    · show ((s.modWorker w (.take n rest)).worker w).phase.swept = []
      rw [modWorker_worker_self, ThreadData.take, hp]
      rfl
  | @refused n st rest a hp hq =>
    have hat : s.placeAt a = some (.handed w) := hw.handed_of_cons hq
    have htake : (s.modWorker w (.take n rest)).InOrder := h.modWorker w rfl fun _ => .rfl
    refine .goto (p := .poll) (htake.setPlace (p := .handed w) hat ?_ ?_) ?_ rfl
    · exact fun w => ⟨by simp, by simp⟩
    · exact fun w => ⟨by simp, by simp⟩
    · show ((s.modWorker w (.take n rest)).worker w).phase = .poll
      rw [modWorker_worker_self, ThreadData.take, hp]
  | @connected n st rest a c hp hq hc =>
    have hat : s.placeAt a = some (.handed w) := hw.handed_of_cons hq
    have hphase : ((s.modWorker w (.take n rest)).worker w).phase = .poll := by
      rw [modWorker_worker_self, ThreadData.take, hp]
    have htake : (s.modWorker w (.take n rest)).InOrder := h.modWorker w rfl fun _ => .rfl
    have hobj : (s.modWorker w (.take n rest)).Objects := hw.toObjects.congr rfl rfl rfl
    refine .goto (p := .poll) (htake.registerConn hobj hc (hw.td_of_place hat hc) st ?_) ?_ rfl
    · rw [hphase]
      rfl
    · rw [Layer.registerConn, modWorker_worker_self, ThreadData.register]
      exact hphase
  | @callbackFail a hp =>
    have hat : s.placeAt a = some (.refused w) := by
      refine hw.placed (p := .refused w) ?_
      show a ∈ (s.worker w).phase.refusing
      rw [hp]
      exact List.mem_singleton_self a
    refine .goto (p := .callback a false) (h.free fun c hc => .inl (hw.owner_eq hc hat)) ?_ rfl
    rw [free_worker, hp]
  | notice hp hc hclose => exact h.noticeStep hw hst hp hc hclose
  | @closing a todo removeIds c hp hc =>
    refine .modWorker (.modConn h a ?_ ?_) w rfl fun b => ?_
    · exact fun _ => rfl
    · exact fun _ => rfl
    · show b ∈ removeIds ++ [a] ↔ b ∈ (s.worker w).phase.swept
      rw [hp, List.mem_append, List.mem_singleton, or_comm, Phase.swept, List.mem_cons]
  | erase hp => exact h.eraseStep hw hp
  | @deleteFree t a rest c hp hq hc htime =>
    have hat : s.placeAt a = some (.retired w) := by
      refine hw.placed (p := .retired w) ?_
      show a ∈ ((s.worker w).forDelete.map Prod.snd).filter (· ∉ (s.worker w).phase.removing)
      rw [hp, hq, List.map_cons, List.filter_cons_of_pos (by simp [Phase.removing])]
      exact List.mem_cons_self
    have hfree : (s.free a).InOrder := by
      refine h.free fun d hd => .inr ?_
      rw [placeAt, hd, Option.map_some, Option.some.injEq] at hat
      rw [h.left hd, hat]
      exact ⟨w, .inl rfl⟩
    exact hfree.modWorker w rfl fun _ => .rfl

theorem InOrder.step {a : Act Cls Msg} (h : s.InOrder) (hw : s.WellPlaced) (hst : s.Stamped)
    (hs : s.step G a = some s') : s'.InOrder := by
  cases a with
  | worker w e =>
    simp only [Layer.step, Option.ite_none_right_eq_some] at hs
    exact h.workerStep hw hst (workerStep_cases hs.2)
  | accept written =>
    simp only [Layer.step, Option.ite_none_right_eq_some, Option.some.injEq] at hs
    obtain ⟨-, rfl⟩ := hs
    exact h.giveWorker _ written
  | connect a =>
    simp only [Layer.step, Option.ite_none_right_eq_some, Option.some.injEq] at hs
    obtain ⟨ha, rfl⟩ := hs
    exact (h.alloc hw.toObjects ha.1 true).setConnectors _
  | getMsgs i =>
    simp only [Layer.step, Option.ite_none_right_eq_some, Option.some.injEq] at hs
    obtain ⟨-, rfl⟩ := hs
    exact h.getNetMsgs i
  | send w it =>
    simp only [Layer.step, Option.ite_none_right_eq_some, Option.some.injEq] at hs
    obtain ⟨-, rfl⟩ := hs
    have hpush : { s with pushes := s.pushes ++ [it] }.InOrder :=
      h.of_same (.of_kept (fun _ => rfl) (fun _ => rfl) (fun _ hcl => hcl) (fun _ => rfl) rfl) h.left
    exact hpush.modWorker w rfl fun _ => .rfl
  | close a =>
    obtain ⟨c, hc, hs⟩ := Option.bind_eq_some_iff.mp hs
    simp only [Option.ite_none_right_eq_some, Option.some.injEq] at hs
    obtain ⟨-, rfl⟩ := hs
    exact h.connClose a
  | clock t =>
    cases hs
    exact h.of_same (.of_kept (fun _ => rfl) (fun _ => rfl) (fun _ hcl => hcl) (fun _ => rfl) rfl)
      h.left
  | regist msgType init =>
    cases hs
    exact h.of_same (.of_kept (fun _ => rfl) (fun _ => rfl) (fun _ hcl => hcl) (fun _ => rfl) rfl)
      h.left

theorem inOrder_start (threadNum : ℕ) (registry : Registry Cls) (clock : ℕ) :
    (Layer.start threadNum registry clock : Layer Cls Msg).InOrder where
  live := nofun
  done := nofun
  left := nofun
  alive := nofun
  unowned _ := ⟨rfl, rfl⟩
  src _ := rfl
  conn := nofun
  owned := nofun
  out := nofun

end Layer

/-- What a reachable state satisfies. -/
theorem inOrder_of_reach {G : Generated Cls Msg} {C : Layer Cls Msg → Act Cls Msg → Prop}
    {s : Layer Cls Msg} (h : (netSystem G).Reach C s) :
    s.WellPlaced ∧ s.Stamped ∧ s.InOrder := by
  refine h.invariant (P := fun s => s.WellPlaced ∧ s.Stamped ∧ s.InOrder) ?_ ?_
  · rintro s ⟨threadNum, registry, clock, rfl⟩
    exact ⟨Layer.wellPlaced_start .., ⟨nofun, nofun, nofun⟩, Layer.inOrder_start ..⟩
  · exact fun s a s' hs _ hstep =>
      ⟨hs.1.step hstep, hs.2.1.step hs.1 hstep, hs.2.2.step hs.1 hs.2.1 hstep⟩

/-! ### What `get_net_msgs` outputs -/

/-- What has been output for an incarnation: first nodes as `message_format` decoded them, each once
and in order, then perhaps the notice, and that only of a closed connection. -/
structure Layer.OutputOrder (s : Layer Cls Msg) (id : ℕ) : Prop where
  order : itemsOf id s.output <+: (s.life id).decoded ∨
    ∃ p it, itemsOf id s.output = p ++ [it] ∧ p <+: (s.life id).decoded ∧ s.IsNotice id it ∧
      (s.life id).closed.isSome
  once : (s.life id).decoded.map Item.src =
    (List.range (s.life id).decoded.length).map (.wire id)
  last : ∀ {p it q}, itemsOf id s.output = p ++ it :: q → it.src = .notice id → q = []
  conn : ∀ {it}, it ∈ itemsOf id s.output → it.node.msgConn = (s.life id).addr

/-- The output of an incarnation is a prefix of its stream. -/
theorem Layer.itemsOf_output_prefix {s : Layer Cls Msg} (h : s.InOrder) (id : ℕ) :
    itemsOf id s.output <+: s.stream id := by
  cases hov : (s.life id).owner with
  | none =>
    rw [itemsOf_eq_nil]
    · exact List.nil_prefix
    · intro it hit hsrc
      obtain ⟨id', w, hid', hov'⟩ := h.out hit
      rw [hid', Option.some.injEq] at hsrc
      rw [hsrc, hov] at hov'
      cases hov'
  | some w =>
    rw [stream_of_owner hov, itemsOf_append]
    exact List.prefix_append _ _

/-- A prefix of a list with one more item is one of the list, or it is all of it. -/
theorem prefix_concat_cases {α : Type*} {l p : List α} {x : α} (h : l <+: p ++ [x]) :
    l <+: p ∨ l = p ++ [x] := by
  obtain ⟨t, ht⟩ := h
  rcases List.eq_nil_or_concat t with rfl | ⟨t', y, rfl⟩
  · exact .inr (by rw [← ht, List.append_nil])
  · rw [List.concat_eq_append, ← List.append_assoc] at ht
    exact .inl ⟨t', (List.append_inj_left' ht rfl)⟩

/-- Before the notice the stream is a prefix of what was decoded. -/
theorem Layer.InOrder.stream_prefix {s : Layer Cls Msg} (h : s.InOrder) {id : ℕ}
    (hn : (s.life id).noticed = false) : s.stream id <+: (s.life id).decoded := by
  cases hov : (s.life id).owner with
  | none =>
    rw [stream, hov]
    exact List.nil_prefix
  | some w =>
    obtain ⟨c, hc, hid⟩ := h.alive hov hn
    subst hid
    rw [← h.live hc hn]
    exact List.prefix_append _ _

theorem Layer.InOrder.outputOrder {s : Layer Cls Msg} (h : s.InOrder)
    (id : ℕ) : s.OutputOrder id := by
  have hpre := itemsOf_output_prefix h id
  have horder : itemsOf id s.output <+: (s.life id).decoded ∨
      ∃ p it, itemsOf id s.output = p ++ [it] ∧ p <+: (s.life id).decoded ∧ s.IsNotice id it ∧
        (s.life id).closed.isSome := by
    cases hn : (s.life id).noticed with
    | true =>
      obtain ⟨p, it, hst, hp, hit, hcl⟩ := h.done hn
      rw [hst] at hpre
      rcases prefix_concat_cases hpre with hpre | heq
      · exact .inl (hpre.trans hp)
      · exact .inr ⟨p, it, heq, hp, hit, hcl⟩
    | false => exact .inl (hpre.trans (h.stream_prefix hn))
  have hwire : ∀ {it}, it ∈ (s.life id).decoded → it.src ≠ .notice id := by
    intro it hit hsrc
    obtain ⟨k, hk⟩ := h.src_of_mem hit
    rw [hk] at hsrc
    cases hsrc
  refine ⟨horder, h.src id, ?_, ?_⟩
  · intro p it q heq hsrc
    rcases horder with hp | ⟨p', it', heq', hp', -, -⟩
    · refine absurd hsrc (hwire (hp.subset ?_))
      rw [heq]
      exact List.mem_append_right _ List.mem_cons_self
    · rcases List.eq_nil_or_concat q with rfl | ⟨q', y, rfl⟩
      · rfl
      · rw [heq', List.concat_eq_append, ← List.cons_append, ← List.append_assoc] at heq
        have hp'' := List.append_inj_left' heq rfl
        refine absurd hsrc (hwire (hp'.subset ?_))
        rw [hp'']
        exact List.mem_append_right _ List.mem_cons_self
  · intro it hit
    rcases horder with hp | ⟨p, jt, heq, hp, hj, -⟩
    · exact h.conn (hp.subset hit)
    · rw [heq] at hit
      rcases List.mem_append.mp hit with hit | hit
      · exact h.conn (hp.subset hit)
      · rw [List.mem_singleton.mp hit]
        exact hj.2.2

/-- A notice in the output is what the sweep made, for a closed connection. -/
theorem Layer.InOrder.isNotice {s : Layer Cls Msg} (h : s.InOrder) {id : ℕ} {it : Item Msg}
    (hit : it ∈ s.output) (hsrc : it.src = .notice id) :
    s.IsNotice id it ∧ (s.life id).closed.isSome := by
  have hmem : it ∈ itemsOf id s.output := mem_itemsOf.mpr ⟨hit, by rw [hsrc]; rfl⟩
  have hdecoded : it ∉ (s.life id).decoded := by
    intro hd
    obtain ⟨k, hk⟩ := h.src_of_mem hd
    rw [hk] at hsrc
    cases hsrc
  rcases (h.outputOrder id).order with hp | ⟨p, jt, heq, hp, hj, hcl⟩
  · exact absurd (hp.subset hmem) hdecoded
  · rw [heq] at hmem
    rcases List.mem_append.mp hmem with hmem | hmem
    · exact absurd (hp.subset hmem) hdecoded
    · rw [List.mem_singleton.mp hmem]
      exact ⟨hj, hcl⟩

/-- Nothing of a connection is output after its notice. -/
theorem Layer.InOrder.notice_last {s : Layer Cls Msg} (h : s.InOrder) {id : ℕ}
    {p q : List (Item Msg)} {it : Item Msg} (hout : s.output = p ++ it :: q)
    (hsrc : it.src = .notice id) : ∀ jt ∈ q, jt.src.conn ≠ some id := by
  intro jt hjt hconn
  have hself : itemsOf id [it] = [it] := itemsOf_singleton_self (by rw [hsrc]; rfl)
  have hits : itemsOf id s.output = itemsOf id p ++ it :: itemsOf id q := by
    rw [hout, itemsOf_append, ← List.singleton_append, itemsOf_append, hself]
    rfl
  have hnil := (h.outputOrder id).last hits hsrc
  have hmem : jt ∈ itemsOf id q := mem_itemsOf.mpr ⟨hjt, hconn⟩
  rw [hnil] at hmem
  cases hmem

/-- **Order, no duplicates, the notice last.**  In every reachable state this holds of the output
of each connection, and everything output belongs to one. -/
theorem output_order {G : Generated Cls Msg} {s : Layer Cls Msg} (h : (netSystem G).Reach Lts.Free s) :
    (∀ id, s.OutputOrder id) ∧ ∀ it ∈ s.output, ∃ id, it.src.conn = some id := by
  obtain ⟨-, -, ho⟩ := inOrder_of_reach h
  refine ⟨fun id => ho.outputOrder id, fun it hit => ?_⟩
  obtain ⟨id, -, hsrc, -⟩ := ho.out hit
  exact ⟨id, hsrc⟩

/-- A client sends one frame and hangs up, and both reach the logic thread. -/
def oneClient : List (Act Protocol.MsgClass Protocol.Message) :=
  let frame := encodeNode Protocol.protobuf registNode
  .accept true ::
    ([.go, .go, .go, .go, .go, .notified true 16, .readEvent 16, .read (.data frame ⟨[frame]⟩),
      .go, .go, .go, .go, .go, .go, .go, .go, .go, .go,
      .go, .go, .go, .read .eof, .go, .go, .go, .notice 0, .go, .go, .go].map (.worker 0)) ++
    [.getMsgs 0]

theorem output_order_oneClient : ∃ s,
    (netSystem Protocol.generated).exec (.start 1 Protocol.registry 0) oneClient = some s ∧
      s.output.map Item.src = [.wire 0 0, .notice 0] ∧ s.OutputOrder 0 := by
  obtain ⟨s, hs, hout⟩ : ∃ s,
      (netSystem Protocol.generated).exec (.start 1 Protocol.registry 0) oneClient = some s ∧
        s.output.map Item.src = [.wire 0 0, .notice 0] := by
    refine Option.map_eq_some_iff.mp ?_
    decide +kernel
  have hreach : (netSystem Protocol.generated).Reach Lts.Free s :=
    .of_exec (.start ⟨1, Protocol.registry, 0, rfl⟩) (Lts.allSteps_free _ _) hs
  exact ⟨s, hs, hout, (output_order hreach).1 0⟩

end GoFight.Net
