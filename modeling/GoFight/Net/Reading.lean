import GoFight.Net.Order

/-!
# When a connection is read

A worker that has read data does not call `on_read` for that connection again before it has moved
`conn_read_msgs_`: the event is gone, and the pass is past the connection.

* `Phase.MayHold` — where a worker may be while an open connection of its has nodes queued;
* `Calm` — the invariant: such a connection has no read event, and its worker is at one of these
  places;
* `Calm.step` — every step keeps it, `Calm.queue_empty` — so what `on_read` closes has no nodes queued.
-/

namespace GoFight.Net

open GoFight.Lib

variable {Cls Msg : Type*}

/-! ### Reading, worker by worker -/

/-- Whether an open connection at `a` may have nodes queued in this phase of its worker. -/
def Phase.MayHold (a : Addr) : Phase → Prop
  | .transfer todo => a ∈ todo
  | .connectors => False
  | .pass todo => a ∉ todo
  | .tryRead b todo => a ∉ b :: todo
  | .tryWrite _ todo => a ∉ todo
  | .reading b back => a ∉ b :: back.getD []
  | .writing _ back => a ∉ back.getD []
  | _ => True

/-- `c'` is `c` after a step that neither reads nor waits for data. -/
structure Connection.Quieter (c c' : Connection Msg) : Prop where
  place : ∀ {w}, c'.place = .registered w → c.place = .registered w
  readEvent : c'.readEvent = true → c.readEvent = true
  canRead : c'.canRead = true → c.canRead = true
  state : c'.state ≠ .close → c.state ≠ .close
  queue : c'.connReadMsgs ≠ [] → c.connReadMsgs ≠ []

theorem Connection.Quieter.refl (c : Connection Msg) : c.Quieter c :=
  ⟨fun h => h, fun h => h, fun h => h, fun h => h, fun h => h⟩

namespace Layer

/-- The two facts about one object: readable or waiting for data, never both; and nodes queued only
where `MayHold` says so, without a read event. -/
structure CalmAt (s : Layer Cls Msg) (a : Addr) (c : Connection Msg) : Prop where
  edge : c.canRead = true → c.readEvent = false
  held : ∀ {w}, c.place = .registered w → c.state ≠ .close → c.connReadMsgs ≠ [] →
    c.readEvent = false ∧ (s.worker w).phase.MayHold a

/-- The reading invariant. -/
structure Calm (s : Layer Cls Msg) : Prop where
  listed : ∀ {a c w}, s.heap a = some c → c.place = .registered w →
    a ∈ (s.worker w).threadConnections
  reading : ∀ {w a back c}, (s.worker w).phase = .reading a back → s.heap a = some c →
    c.readEvent = false
  object : ∀ {a c}, s.heap a = some c → s.CalmAt a c

variable {G : Generated Cls Msg} {s s' : Layer Cls Msg}

theorem Writes.quieter {f : Connection Msg → Connection Msg} (hf : Writes G f)
    (c : Connection Msg) : c.Quieter (f c) := by
  have hside := hf.readSide c
  have hplace : (f c).place = c.place :=
    show (f c).readSide.place = c.readSide.place by rw [hside]
  have hevent : (f c).readEvent = c.readEvent :=
    show (f c).readSide.readEvent = c.readSide.readEvent by rw [hside]
  have hread : (f c).canRead = c.canRead :=
    show (f c).readSide.canRead = c.readSide.canRead by rw [hside]
  have hstate : (f c).state = c.state :=
    show (f c).readSide.state = c.readSide.state by rw [hside]
  have hqueue : (f c).connReadMsgs = c.connReadMsgs :=
    show (f c).readSide.connReadMsgs = c.readSide.connReadMsgs by rw [hside]
  exact ⟨fun h => hplace ▸ h, fun h => hevent ▸ h, fun h => hread ▸ h, fun h => hstate ▸ h,
    fun h => hqueue ▸ h⟩

theorem CalmAt.mono {a : Addr} {c c' : Connection Msg} (h : s.CalmAt a c) (q : c.Quieter c')
    (hphase : ∀ {w}, c.place = .registered w → c.connReadMsgs ≠ [] →
      (s.worker w).phase.MayHold a → (s'.worker w).phase.MayHold a) : s'.CalmAt a c' where
  edge hr := by
    have hfalse := h.edge (q.canRead hr)
    rw [← Bool.not_eq_true] at hfalse ⊢
    exact fun hev => hfalse (q.readEvent hev)
  held hp hst hq := by
    obtain ⟨hev, hmay⟩ := h.held (q.place hp) (q.state hst) (q.queue hq)
    rw [← Bool.not_eq_true] at hev ⊢
    exact ⟨fun hev' => hev (q.readEvent hev'), hphase (q.place hp) (q.queue hq) hmay⟩

/-- An object without nodes that is not readable. -/
theorem CalmAt.of_empty {a : Addr} {c : Connection Msg} (hr : c.canRead = false)
    (hq : c.connReadMsgs = []) : s.CalmAt a c where
  edge h := by
    rw [hr] at h
    cases h
  held _ _ h := absurd hq h

/-- No worker reads or visits more than before. -/
theorem Calm.of_quieter (h : s.Calm)
    (hheap : ∀ {a : Addr} {c' : Connection Msg}, s'.heap a = some c' →
      ∃ c : Connection Msg, s.heap a = some c ∧ c.Quieter c')
    (hconns : ∀ {w a c'}, s'.heap a = some c' → c'.place = .registered w →
      a ∈ (s.worker w).threadConnections → a ∈ (s'.worker w).threadConnections)
    (hphase : ∀ w, (s'.worker w).phase = (s.worker w).phase) : s'.Calm where
  listed hc hp := by
    obtain ⟨c, hc', q⟩ := hheap hc
    exact hconns hc hp (h.listed hc' (q.place hp))
  reading hp hc := by
    obtain ⟨c, hc', q⟩ := hheap hc
    rw [hphase] at hp
    have hfalse := h.reading hp hc'
    rw [← Bool.not_eq_true] at hfalse ⊢
    exact fun hev => hfalse (q.readEvent hev)
  object hc := by
    obtain ⟨c, hc', q⟩ := hheap hc
    refine (h.object hc').mono q fun _ _ hmay => ?_
    rw [hphase]
    exact hmay

theorem Calm.congr (h : s.Calm) (hheap : s'.heap = s.heap) (hworker : s'.worker = s.worker) :
    s'.Calm :=
  h.of_quieter (fun {_ d} hd => ⟨d, hheap ▸ hd, .refl d⟩) (fun _ _ hmem => hworker ▸ hmem)
    fun _ => by rw [hworker]

theorem Calm.modConn (h : s.Calm) (a : Addr) {f : Connection Msg → Connection Msg}
    (hf : ∀ c : Connection Msg, s.heap a = some c → c.Quieter (f c)) : (s.modConn a f).Calm := by
  refine h.of_quieter (fun {b d} hd => ?_) (fun _ _ hmem => hmem) fun _ => rfl
  rw [modConn_heap] at hd
  split at hd
  · next hb =>
    obtain ⟨c, hc, rfl⟩ := Option.map_eq_some_iff.mp hd
    exact ⟨c, hc, hf c (hb ▸ hc)⟩
  · exact ⟨d, hd, .refl d⟩

/-- A worker changes, but neither its phase nor its connections. -/
theorem Calm.modWorker (h : s.Calm) (w : ℕ) {g : ThreadData Msg → ThreadData Msg}
    (hc : (g (s.worker w)).threadConnections = (s.worker w).threadConnections)
    (hp : (g (s.worker w)).phase = (s.worker w).phase) : (s.modWorker w g).Calm := by
  refine h.of_quieter (fun {b d} hd => ⟨d, hd, .refl d⟩) (fun {v b d} _ _ hmem => ?_) fun v => ?_
  · rw [modWorker_worker]
    split
    · next hv =>
      rw [hv, hc, ← hv]
      exact hmem
    · exact hmem
  · rw [modWorker_worker]
    split
    · next hv => rw [hv, hp]
    · rfl

/-- A worker goes on, with its connections as they were. -/
theorem Calm.advance (h : s.Calm) {w : ℕ} {g : ThreadData Msg → ThreadData Msg} {p q : Phase}
    (hp : (s.worker w).phase = p) (hq : (g (s.worker w)).phase = q)
    (hconns : (g (s.worker w)).threadConnections = (s.worker w).threadConnections)
    (hheld : ∀ {a c}, s.heap a = some c → c.place = .registered w → c.connReadMsgs ≠ [] →
      p.MayHold a → q.MayHold a)
    (hread : ∀ {a back c}, q = .reading a back → s.heap a = some c → c.readEvent = false) :
    (s.modWorker w g).Calm where
  listed {a c v} hc hpl := by
    have hmem := h.listed hc hpl
    rw [modWorker_worker]
    split
    · next hv =>
      rw [hv] at hmem
      rwa [hv, hconns]
    · exact hmem
  reading {v a back c} hv hc := by
    rw [modWorker_worker] at hv
    split at hv
    · next hvw =>
      rw [hvw, hq] at hv
      exact hread hv hc
    · exact h.reading hv hc
  object {a c} hc := by
    refine (h.object hc).mono (.refl c) fun {v} hpl hne hmay => ?_
    rw [modWorker_worker]
    split
    · next hv =>
      subst hv
      rw [hp] at hmay
      rw [hq]
      exact hheld hc hpl hne hmay
    · exact hmay

/-- A worker goes on to a phase that restricts nothing more. -/
theorem Calm.goto_of_imp (h : s.Calm) {w : ℕ} {p q : Phase} (hp : (s.worker w).phase = p)
    (hheld : ∀ a, p.MayHold a → q.MayHold a) (hread : ∀ a back, q ≠ .reading a back) :
    (s.goto w q).Calm :=
  h.advance hp rfl rfl (fun _ _ _ => hheld _) fun hq => absurd hq (hread _ _)

theorem Calm.connClose (h : s.Calm) (a : Addr) : (s.connClose a).Calm := by
  refine h.of_quieter (fun {b d} hd => ?_) (fun {v b d} _ _ hmem => ?_) fun v => ?_
  · rw [connClose_heap] at hd
    split at hd
    · obtain ⟨c, hc, rfl⟩ := Option.map_eq_some_iff.mp hd
      refine ⟨c, hc, ?_⟩
      split
      · exact .refl c
      · exact ⟨fun h => h, fun h => h, fun h => h, fun h => absurd rfl h, fun h => h⟩
    · exact ⟨d, hd, .refl d⟩
  · rwa [connClose_worker]
  · rw [connClose_worker]

theorem Calm.free (h : s.Calm) (a : Addr) : (s.free a).Calm := by
  refine h.of_quieter (fun {b d} hd => ?_) (fun {v b d} _ _ hmem => ?_) fun v => ?_
  · rw [free_heap] at hd
    split at hd
    · cases hd
    · exact ⟨d, hd, .refl d⟩
  · rwa [free_worker]
  · rw [free_worker]

theorem Calm.alloc (h : s.Calm) (a : Addr) (k : Bool) : (s.alloc a .connecting k).Calm where
  listed hc hp := by
    rw [alloc_heap] at hc
    split at hc
    · cases hc
      cases hp
    · exact h.listed hc hp
  reading hp hc := by
    rw [alloc_heap] at hc
    split at hc
    · cases hc
      rfl
    · exact h.reading hp hc
  object hc := by
    rw [alloc_heap] at hc
    split at hc
    · cases hc
      exact .of_empty rfl rfl
    · exact ⟨(h.object hc).edge, (h.object hc).held⟩

/-- A worker registers an object that nobody reads. -/
theorem Calm.registerConn (h : s.Calm) {w : ℕ} {a : Addr} {c : Connection Msg}
    (hc : s.heap a = some c) (hread : ∀ v back, (s.worker v).phase ≠ .reading a back)
    (hq : c.connReadMsgs = []) (st : ConnState) : (s.registerConn w a c.id st).Calm := by
  have hphase : ∀ v, ((s.registerConn w a c.id st).worker v).phase = (s.worker v).phase := by
    intro v
    rw [Layer.registerConn, modWorker_worker]
    split <;> rfl
  have hconns : ∀ v b, b ∈ ((s.registerConn w a c.id st).worker v).threadConnections ↔
      b ∈ (s.worker v).threadConnections ∨ v = w ∧ b = a := by
    intro v b
    rw [Layer.registerConn, modWorker_worker]
    split
    · next hv =>
      show b ∈ List.orderedInsert _ _ _ ↔ _
      rw [List.mem_orderedInsert]
      exact ⟨fun hor => hor.elim (fun hb => .inr ⟨hv, hb⟩) .inl,
        fun hor => hor.elim .inr fun hand => .inl hand.2⟩
    · next hv => exact ⟨.inl, fun hor => hor.resolve_right fun hand => hv hand.1⟩
  constructor
  · intro b d v hd hp
    rw [registerConn_heap] at hd
    rw [hconns]
    split at hd
    · next hb =>
      obtain ⟨e, -, rfl⟩ := Option.map_eq_some_iff.mp hd
      cases hp
      exact .inr ⟨rfl, hb⟩
    · exact .inl (h.listed hd hp)
  · intro v b back d hp hd
    rw [hphase] at hp
    rw [registerConn_heap] at hd
    split at hd
    · next hb => exact absurd (hb ▸ hp) (hread v back)
    · exact h.reading hp hd
  · intro b d hd
    rw [registerConn_heap] at hd
    split at hd
    · next hb =>
      rw [hb, hc, Option.map_some, Option.some.injEq] at hd
      subst hd
      exact .of_empty rfl hq
    · refine (h.object hd).mono (.refl d) fun _ _ hmay => ?_
      rw [hphase]
      exact hmay

/-- The swept objects leave `thread_connections_`. -/
theorem Calm.eraseStep (h : s.Calm) {w : ℕ} {removeIds : List Addr}
    (hp : (s.worker w).phase = .erase removeIds) : (s.eraseStep w removeIds).Calm := by
  have hheap : ∀ {b d}, (s.eraseStep w removeIds).heap b = some d →
      ∃ c : Connection Msg, s.heap b = some c ∧ c.Quieter d ∧
        (∀ v, d.place = .registered v → b ∉ removeIds) := by
    intro b d hd
    change s.retire w removeIds b = some d at hd
    rw [retire] at hd
    split at hd
    · obtain ⟨c, hc, rfl⟩ := Option.map_eq_some_iff.mp hd
      exact ⟨c, hc, ⟨(fun hr => by cases hr), fun h => h, fun h => h, fun h => h, fun h => h⟩,
        fun v hr => by cases hr⟩
    · next hb => exact ⟨d, hd, .refl d, fun _ _ => hb⟩
  have hworker : ∀ v, v ≠ w → (s.eraseStep w removeIds).worker v = s.worker v := by
    intro v hv
    rw [Layer.eraseStep, modWorker_worker, if_neg hv]
  have hself : (s.eraseStep w removeIds).worker w = { s.worker w with
      threadConnections := (s.worker w).threadConnections.filter (· ∉ removeIds)
      phase := .delete } := by
    rw [Layer.eraseStep, modWorker_worker_self]
  constructor
  · intro b d v hd hpl
    obtain ⟨c, hc, q, hout⟩ := hheap hd
    have hmem := h.listed hc (q.place hpl)
    by_cases hv : v = w
    · subst hv
      rw [hself]
      exact List.mem_filter.mpr ⟨hmem, by simpa using hout v hpl⟩
    · rw [hworker v hv]
      exact hmem
  · intro v b back d hv hd
    obtain ⟨c, hc, q, -⟩ := hheap hd
    by_cases hvw : v = w
    · rw [hvw, hself] at hv
      cases hv
    · rw [hworker v hvw] at hv
      have hfalse := h.reading hv hc
      rw [← Bool.not_eq_true] at hfalse ⊢
      exact fun hev => hfalse (q.readEvent hev)
  · intro b d hd
    obtain ⟨c, hc, q, -⟩ := hheap hd
    refine (h.object hc).mono q fun {v} _ _ hmay => ?_
    by_cases hv : v = w
    · rw [hv, hself]
      exact trivial
    · rwa [hworker v hv]

/-! ### Reading -/

/-- What a visit to `on_read` finds: an open connection has no nodes queued. -/
theorem Calm.queue_empty (h : s.Calm) {w : ℕ} {a : Addr} {back : Option (List Addr)}
    (hp : (s.worker w).phase = .reading a back) {c : Connection Msg} (hc : s.heap a = some c)
    (hpl : c.place = .registered w) : c.state = .close ∨ c.connReadMsgs = [] := by
  by_contra hor
  obtain ⟨hst, hq⟩ := not_or.mp hor
  have hmay := ((h.object hc).held hpl hst hq).2
  rw [hp] at hmay
  exact hmay List.mem_cons_self

/-- What `on_read` leaves behind: a connection that is readable again or waits for data. -/
theorem Calm.readDone (h : s.Calm) (hw : s.WellPlaced) {w : ℕ} {a : Addr}
    {back : Option (List Addr)} (hp : (s.worker w).phase = .reading a back)
    {f : Connection Msg → Connection Msg} (hplace : ∀ c, (f c).place = c.place)
    (hf : ∀ c, s.heap a = some c → (f c).readEvent = false ∨
      (f c).canRead = false ∧ ((f c).state ≠ .close → (f c).connReadMsgs = [])) :
    ((s.modConn a f).goto w (readReturn a back)).Calm := by
  have hat : s.placeAt a = some (.registered w) := hw.in_hand hp List.mem_cons_self
  have hnd : (a :: back.getD []).Nodup := by
    have hnd := (hw.phase w).nodup
    rw [hp] at hnd
    exact hnd
  have hreturn : ∀ {b}, (readReturn a back).MayHold b ↔ b ∉ back.getD [] := by
    intro b
    cases back with
    | none => exact ⟨fun _ => List.not_mem_nil, fun _ => trivial⟩
    | some todo => exact .rfl
  have hphase : ∀ v, ((s.modConn a f).goto w (readReturn a back) |>.worker v).phase =
      if v = w then readReturn a back else (s.worker v).phase := by
    intro v
    rw [goto_worker]
    split <;> rfl
  constructor
  · intro b d v hd hpl
    rw [goto_heap, modConn_heap] at hd
    have hmem : b ∈ (s.worker v).threadConnections := by
      split at hd
      · obtain ⟨c, hc, rfl⟩ := Option.map_eq_some_iff.mp hd
        exact h.listed hc (hplace c ▸ hpl)
      · exact h.listed hd hpl
    rw [goto_worker]
    split <;> exact hmem
  · intro v b back' d hv hd
    rw [hphase] at hv
    split at hv
    · cases back <;> cases hv
    · next hvw =>
      rw [goto_heap, modConn_heap] at hd
      split at hd
      · next hb =>
        have hat' := hw.in_hand hv List.mem_cons_self
        rw [hb, hat] at hat'
        cases hat'
        exact absurd rfl hvw
      · exact h.reading hv hd
  · intro b d hd
    rw [goto_heap, modConn_heap] at hd
    split at hd
    · next hb =>
      subst hb
      obtain ⟨c, hc, rfl⟩ := Option.map_eq_some_iff.mp hd
      constructor
      · intro hr
        rcases hf c hc with hev | ⟨hread, -⟩
        · exact hev
        · rw [hread] at hr
          cases hr
      · intro v hpl hst hq
        rcases hf c hc with hev | ⟨-, hempty⟩
        · refine ⟨hev, ?_⟩
          rw [hplace] at hpl
          rw [hphase]
          split
          · exact hreturn.mpr (List.nodup_cons.mp hnd).1
          · next hvw =>
            rw [placeAt, hc, Option.map_some, hpl] at hat
            cases hat
            exact absurd rfl hvw
        · exact absurd (hempty hst) hq
    · next hb =>
      refine (h.object hd).mono (.refl d) fun {v} _ _ hmay => ?_
      rw [hphase]
      split
      · next hv =>
        rw [hv, hp] at hmay
        exact hreturn.mpr fun hmem => hmay (List.mem_cons_of_mem _ hmem)
      · exact hmay

theorem Calm.readStep (h : s.Calm) (hw : s.WellPlaced) {w : ℕ} {a : Addr}
    {back : Option (List Addr)} (hp : (s.worker w).phase = .reading a back) {c : Connection Msg}
    (hr : ReadStep G s a c s') :
    (s'.goto w (readReturn a back)).Calm := by
  have hmay : ∀ b, (Phase.reading a back).MayHold b → (readReturn a back).MayHold b := by
    intro b hb
    cases back with
    | none => exact trivial
    | some todo => exact fun hmem => hb (List.mem_cons_of_mem _ hmem)
  have hnot : ∀ b back', readReturn a back ≠ .reading b back' := by
    intro b back'
    cases back <;> simp [readReturn]
  have hclose : ∀ f : Connection Msg → Connection Msg, (∀ c : Connection Msg, c.Quieter (f c)) →
      (((s.modConn a f).connClose a).goto w (readReturn a back)).Calm := by
    intro f hf
    refine ((h.modConn a fun c _ => hf c).connClose a).goto_of_imp (p := .reading a back) ?_ hmay hnot
    rw [connClose_worker, modConn_worker, hp]
  cases hr with
  | data hne hext hr =>
    refine (h.readDone hw hp (f := .receive _ _) (fun _ => rfl) fun d hd => .inl ?_).congr rfl rfl
    show d.readEvent = false
    exact h.reading hp hd
  | again =>
    refine h.readDone hw hp (fun _ => rfl) fun d hd => .inr ⟨rfl, fun hst => ?_⟩
    have hat : s.placeAt a = some (.registered w) := hw.in_hand hp List.mem_cons_self
    rw [placeAt, hd, Option.map_some, Option.some.injEq] at hat
    exact (h.queue_empty hp hd hat).resolve_left hst
  | shut => exact hclose _ fun c => ⟨fun h => h, fun h => h, (fun hr => by cases hr), fun h => h, fun h => h⟩
  | failed => exact hclose _ fun c => ⟨fun h => h, (fun hr => by cases hr), (fun hr => by cases hr), fun h => h, fun h => h⟩

theorem Calm.writeStep (h : s.Calm) {a : Addr} {r : WriteResult} (hr : WriteStep G s a r s') :
    s'.Calm := by
  cases hr with
  | quiet hf => exact h.modConn a fun c _ => hf.quieter c
  | failed _ hf => exact (h.modConn a fun c _ => hf.quieter c).connClose a

theorem Calm.giveWorker (h : s.Calm) (ci : ConnInfo) (written : Bool) :
    (s.giveWorker ci written).Calm := by
  have hlast : { s with lastThreadId := UInt64.ofNat s.nextThread }.Calm := h.congr rfl rfl
  exact hlast.modWorker _ rfl rfl

/-- An unregistered object goes to another such place. -/
theorem Calm.setPlace (h : s.Calm) (a : Addr) {p : Place} (hp : ∀ w, p ≠ .registered w) :
    (s.setPlace a p).Calm :=
  h.modConn a fun _ _ => ⟨fun hpl => absurd hpl (hp _), fun h => h, fun h => h, fun h => h, fun h => h⟩

theorem Calm.noticeStep (h : s.Calm) {w id : ℕ} {a : Addr} {todo removeIds : List Addr}
    {junk : UInt64} (hp : (s.worker w).phase = .sweep (a :: todo) removeIds) :
    (s.noticeStep G w a id todo removeIds junk).Calm := by
  rw [Layer.noticeStep]
  split
  · exact h
  · refine Calm.goto_of_imp (p := .sweep (a :: todo) removeIds)
      (Calm.modWorker (s := s.modLife id .notice) (h.congr rfl rfl) w ?_ ?_) ?_ (fun _ _ => trivial) ?_
    · rfl
    · rfl
    · rw [modWorker_worker_self]
      exact hp
    · simp

theorem Calm.workerStep {w : ℕ} {e : WorkerAct} (h : s.Calm) (hw : s.WellPlaced)
    (ho : s.InOrder) (hs : WorkerStep G s w e s') : s'.Calm := by
  cases hs with
  | top hp => exact h.advance hp rfl rfl (fun _ _ _ _ => trivial) fun hq => by cases hq
  | drain hp =>
    have hquiet : ∀ {b : Addr} {d : Connection Msg}, (s.drainStep w).heap b = some d →
        ∃ c : Connection Msg, s.heap b = some c ∧ c.Quieter d := by
      intro b d hd
      have hkept : Kept (fun c => (c.place, c.state, c.canRead, c.readEvent, c.connReadMsgs)) s
          (s.drainStep w) := Kept.drainStep s w fun _ _ => rfl
      obtain ⟨c, hc, hkey⟩ := hkept.exists_of_some hd
      simp only [Prod.mk.injEq] at hkey
      obtain ⟨hplace, hst, hread, hev, hq⟩ := hkey
      exact ⟨c, hc, fun h => hplace ▸ h, fun h => hev ▸ h, fun h => hread ▸ h, fun h => hst ▸ h,
        fun h => hq ▸ h⟩
    have hback : { s.drainStep w with worker := s.worker }.Calm :=
      h.of_quieter hquiet (fun _ _ hmem => hmem) fun _ => rfl
    refine hback.advance (p := .drain) (q := .transfer (s.worker w).threadConnections)
      (g := fun t => { t with tdWriteMsgs := [], phase := .transfer (s.worker w).threadConnections })
      hp rfl rfl (fun hd hpl _ _ => ?_) fun hq => by cases hq
    obtain ⟨c, hc, q⟩ := hquiet hd
    exact h.listed hc (q.place hpl)
  | transferEnd hp => exact h.goto_of_imp hp (fun _ hmem => absurd hmem List.not_mem_nil) (by simp)
  | @transferSkip a todo c hp hc hmsgs =>
    refine h.advance hp rfl rfl (fun {b d} hd _ hne hmay => ?_) fun hq => by cases hq
    rcases List.mem_cons.mp hmay with rfl | hmay
    · rw [hc, Option.some.injEq] at hd
      exact absurd (hd ▸ hmsgs) hne
    · exact hmay
  | @transferMove a todo c it rest hp hc hmsgs =>
    have hset : (s.modConn a (.setRead rest)).Calm := by
      refine h.modConn a fun d hd => ⟨fun h => h, fun h => h, fun h => h, fun h => h, fun _ => ?_⟩
      rw [hc, Option.some.injEq] at hd
      rw [← hd, hmsgs]
      exact List.cons_ne_nil it rest
    exact hset.modWorker w rfl rfl
  | @push a rest written hp hq =>
    have hset : (s.setConnectors rest).Calm := h.congr rfl rfl
    exact (hset.setPlace a fun _ hpl => by cases hpl).giveWorker _ _
  | connectorsEnd hp => exact h.goto_of_imp hp (fun _ hmay => hmay.elim) (by simp)
  | passEnd hp => exact h.goto_of_imp hp (fun _ _ => trivial) (by simp)
  | passSkip hp => exact h.goto_of_imp hp (fun _ hmay hmem => hmay (List.mem_cons_of_mem _ hmem)) (by simp)
  | passVisit hp => exact h.goto_of_imp hp (fun _ hmay => hmay) (by simp)
  | @readStart a todo c hp hc hread hst =>
    refine h.advance hp rfl rfl (fun _ _ _ hmay => hmay) fun {b back d} hq hd => ?_
    cases hq
    rw [hc, Option.some.injEq] at hd
    exact hd ▸ (h.object hc).edge hread
  | readSkip hp => exact h.goto_of_imp hp (fun _ hmay hmem => hmay (List.mem_cons_of_mem _ hmem)) (by simp)
  | writeStart hp => exact h.goto_of_imp hp (fun _ hmay => hmay) (by simp)
  | writeSkip hp => exact h.goto_of_imp hp (fun _ hmay => hmay) (by simp)
  | read hp hc hr => exact h.readStep hw hp hr
  | @write a back c r s₁ hp hc he hr =>
    refine (h.writeStep hr).goto_of_imp (p := .writing a back) ?_ (fun b hmay => ?_) ?_
    · rw [(SameKeys.writeStep hw hr).2, hp]
    · cases back with
      | none => exact trivial
      | some todo => exact hmay
    · intro b back'
      cases back <;> simp [writeReturn]
  | @readEvent a c hp ha hc hev =>
    have hfired : (s.modConn a .readFired).Calm :=
      h.modConn a fun _ _ => ⟨fun h => h, (fun hr => by cases hr), fun h => h, fun h => h, fun h => h⟩
    refine hfired.advance (p := .poll) hp rfl rfl (fun {b d} hd hpl hne _ => ?_) fun {b back d} hq hd => ?_
    · split
      · exact trivial
      · next hst =>
        -- an open connection with nodes queued has no read event
        intro hmem
        rw [List.mem_singleton.mp hmem, modConn_heap, if_pos rfl, hc, Option.map_some,
          Option.some.injEq] at hd
        subst hd
        have hev' := ((h.object hc).held hpl hst hne).1
        rw [hev] at hev'
        cases hev'
    · split at hq
      · cases hq
      · cases hq
        rw [modConn_heap, if_pos rfl, hc, Option.map_some, Option.some.injEq] at hd
        exact hd ▸ rfl
  | @writeEvent a c hp ha hc =>
    have hfired : (s.modConn a .writeFired).Calm := h.modConn a fun _ _ =>
      ⟨fun h => h, fun h => h, fun h => h, fun h => h, fun h => h⟩
    refine hfired.goto_of_imp (p := .poll) hp (fun b _ => ?_) fun b back => ?_
    · split
      · exact trivial
      · exact List.not_mem_nil
    · split <;> simp
  | dropped hp hq => exact h.modWorker w rfl rfl
  | @accepted n st rest a hp hq ha =>
    have htake : (s.modWorker w (.take n rest)).Calm := h.modWorker w rfl rfl
    refine (htake.alloc a false).registerConn (c := .new s.nextId .connecting) ?_ ?_ rfl st
    · rw [alloc_heap, if_pos rfl]
      rfl
    · intro v back hv
      have hv : (s.worker v).phase = .reading a back := by
        rw [← hv]
        show _ = ((s.modWorker w (.take n rest)).worker v).phase
        rw [modWorker_worker]
        split <;> rfl
      obtain ⟨c, hc, -⟩ := Option.map_eq_some_iff.mp (hw.in_hand hv List.mem_cons_self)
      rw [ha.1] at hc
      cases hc
  | @refused n st rest a hp hq =>
    have htake : (s.modWorker w (.take n rest)).Calm := h.modWorker w rfl rfl
    refine (htake.setPlace a fun _ hpl => by cases hpl).goto_of_imp (p := .poll) ?_ (fun _ _ => trivial) (by simp)
    show ((s.modWorker w (.take n rest)).worker w).phase = .poll
    rw [modWorker_worker_self, ThreadData.take, hp]
  | @connected n st rest a c hp hq hc =>
    have htake : (s.modWorker w (.take n rest)).Calm := h.modWorker w rfl rfl
    have hat : s.placeAt a = some (.handed w) := hw.handed_of_cons hq
    have howner : (s.life c.id).owner = none := hw.owner_eq hc hat
    have hempty : c.connReadMsgs = [] := by
      obtain ⟨hdec, hn⟩ := ho.unowned howner
      have hlive := ho.live hc hn
      rw [stream, howner, hdec] at hlive
      exact hlive
    have hphase : ∀ v, ((s.modWorker w (.take n rest)).worker v).phase = (s.worker v).phase := by
      intro v
      rw [modWorker_worker]
      split <;> rfl
    refine (htake.registerConn hc ?_ hempty st).goto_of_imp (p := .poll) ?_ (fun _ _ => trivial) (by simp)
    · intro v back hv
      rw [hphase] at hv
      have hat' := hw.in_hand hv List.mem_cons_self
      rw [hat] at hat'
      cases hat'
    · rw [Layer.registerConn, modWorker_worker_self, ThreadData.register]
      exact (hphase w).trans hp
  | pollEnd hp => exact h.goto_of_imp hp (fun _ _ => trivial) (by simp)
  | callbackOk hp => exact h.goto_of_imp hp (fun _ _ => trivial) (by simp)
  | @callbackFail a hp =>
    refine (h.free a).goto_of_imp (p := .callback a false) ?_ (fun _ _ => trivial) (by simp)
    rw [free_worker, hp]
  | sweepEnd hp => exact h.goto_of_imp hp (fun _ _ => trivial) (by simp)
  | sweepSkip hp => exact h.goto_of_imp hp (fun _ _ => trivial) (by simp)
  | notice hp hc hst => exact h.noticeStep hp
  | @closing a todo removeIds c hp hc =>
    have hclosed : (s.modConn a connInternalClose).Calm :=
      h.modConn a fun _ _ => ⟨fun h => h, (fun hr => by cases hr), fun h => h, fun h => h, fun h => h⟩
    exact hclosed.advance hp rfl rfl (fun _ _ _ _ => trivial) (by simp)
  | erase hp => exact h.eraseStep hp
  | deleteEnd hp => exact h.goto_of_imp hp (fun _ _ => trivial) (by simp)
  | deleteFree hp hq hc htime => exact (h.free _).modWorker w rfl rfl

theorem Calm.step {a : Act Cls Msg} (h : s.Calm) (hw : s.WellPlaced) (ho : s.InOrder)
    (hs : s.step G a = some s') : s'.Calm := by
  cases a with
  | worker w e =>
    simp only [Layer.step, Option.ite_none_right_eq_some] at hs
    exact h.workerStep hw ho (workerStep_cases hs.2)
  | accept written =>
    simp only [Layer.step, Option.ite_none_right_eq_some, Option.some.injEq] at hs
    obtain ⟨-, rfl⟩ := hs
    exact h.giveWorker _ written
  | connect a =>
    simp only [Layer.step, Option.ite_none_right_eq_some, Option.some.injEq] at hs
    obtain ⟨-, rfl⟩ := hs
    exact (h.alloc a true).congr rfl rfl
  | getMsgs i =>
    simp only [Layer.step, Option.ite_none_right_eq_some, Option.some.injEq] at hs
    obtain ⟨-, rfl⟩ := hs
    have hout : { s with output := s.output ++ (s.worker i).tdReadMsgs }.Calm := h.congr rfl rfl
    exact hout.modWorker i rfl rfl
  | send w it =>
    simp only [Layer.step, Option.ite_none_right_eq_some, Option.some.injEq] at hs
    obtain ⟨-, rfl⟩ := hs
    have hpush : { s with pushes := s.pushes ++ [it] }.Calm := h.congr rfl rfl
    exact hpush.modWorker w rfl rfl
  | close a =>
    obtain ⟨c, -, hs⟩ := Option.bind_eq_some_iff.mp hs
    simp only [Option.ite_none_right_eq_some, Option.some.injEq] at hs
    obtain ⟨-, rfl⟩ := hs
    exact h.connClose a
  | clock t =>
    cases hs
    exact h.congr rfl rfl
  | regist msgType init =>
    cases hs
    exact h.congr rfl rfl

end Layer

end GoFight.Net
