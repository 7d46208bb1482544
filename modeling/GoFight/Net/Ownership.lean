import GoFight.Net.Frames

/-!
# Who holds a connection

An object on the heap is in one place at a time: a queue of new connections, a worker's
`thread_connections_`, or behind it.  `WellPlaced` says so for a whole state: every address a list
holds is that of an object whose history puts it there, no list holds an address twice, and what an
iteration has still to visit is in `thread_connections_`.

* `SameKeys` — an update that leaves places, histories of places and lists alone; most are;
* `Moves` — an update that takes one address from the list of its place to that of another.

So no step finds an address without an object, an object is deleted once, and it is deleted only
when no list of the layer holds it any more.
-/

namespace GoFight.Net

open GoFight.Lib

/-- The worker of an object in this place, once there is one. -/
def Place.td : Place → Option ℕ
  | .registered w => some w
  | .retired w => some w
  | _ => none

/-- The worker whose lists hold objects in this place. -/
def Place.worker : Place → Option ℕ
  | .connecting => none
  | .handed w => some w
  | .refused w => some w
  | .registered w => some w
  | .retired w => some w

/-- What an iteration of the phase has in hand: visited now, or still to visit or erase. -/
def Phase.addrs : Phase → List Addr
  | .transfer todo => todo
  | .pass todo => todo
  | .tryRead a todo => a :: todo
  | .tryWrite a todo => a :: todo
  | .reading a back => a :: back.getD []
  | .writing a back => a :: back.getD []
  | .sweep todo removeIds => todo ++ removeIds
  | .closing a todo removeIds => a :: (todo ++ removeIds)
  | .erase removeIds => removeIds
  | _ => []

/-- What the sweep has moved to `for_delete_connections_`, and not yet erased. -/
def Phase.removing : Phase → List Addr
  | .sweep _ removeIds => removeIds
  | .closing _ _ removeIds => removeIds
  | .erase removeIds => removeIds
  | _ => []

/-- The object whose failure a callback reports. -/
def Phase.refusing : Phase → List Addr
  | .callback a false => [a]
  | _ => []

/-- A phase `p'` that may come after `p` with the connections `conns`. -/
structure Phase.Fits (p p' : Phase) (conns : List Addr) : Prop where
  subset : p'.addrs ⊆ conns
  nodup : p'.addrs.Nodup
  removing : p.removing ⊆ p'.removing
  refusing : p'.refusing = []

variable {Cls Msg : Type*}

/-- What an object's place and history say. -/
def Connection.key (c : Connection Msg) : ℕ × Place × Option ℕ := (c.id, c.place, c.td)

/-- What a history says about the object itself. -/
def Life.key (l : Life Msg) : Addr × Option ℕ × Bool := (l.addr, l.owner, l.deleted)

/-- The pre-allocated connections in `new_connections_`. -/
def ThreadData.handed (t : ThreadData Msg) : List Addr := t.newConnections.filterMap ConnInfo.preNew

/-- The lists of a worker that hold addresses. -/
def ThreadData.key (t : ThreadData Msg) : List Addr × List Addr × List (ℕ × Addr) :=
  (t.handed, t.threadConnections, t.forDelete)

/-- The addresses a worker's lists hold for a place of that worker. -/
def ThreadData.holds (t : ThreadData Msg) : Place → List Addr
  | .connecting => []
  | .handed _ => t.handed
  | .refused _ => t.phase.refusing
  | .registered _ => t.threadConnections
  | .retired _ => (t.forDelete.map Prod.snd).filter (· ∉ t.phase.removing)

namespace Layer

/-- The place of the object at an address. -/
def placeAt (s : Layer Cls Msg) (a : Addr) : Option Place := (s.heap a).map Connection.place

/-- The addresses a place holds. -/
def holds (s : Layer Cls Msg) (p : Place) : List Addr :=
  match p.worker with
  | none => s.connectConns
  | some w => (s.worker w).holds p

/-- Objects and histories agree. -/
structure Objects (s : Layer Cls Msg) : Prop where
  id_lt : ∀ {a c}, s.heap a = some c → c.id < s.nextId
  addr : ∀ {a c}, s.heap a = some c → (s.life c.id).addr = a
  not_deleted : ∀ {a c}, s.heap a = some c → (s.life c.id).deleted = false
  owner : ∀ {a c}, s.heap a = some c → (s.life c.id).owner = c.td
  td : ∀ {a c}, s.heap a = some c → c.td = c.place.td
  fresh : ∀ {id}, s.nextId ≤ id → s.life id = .new 0 false

/-- What an iteration has in hand is registered, and is there once. -/
structure PhaseOk (t : ThreadData Msg) : Prop where
  subset : t.phase.addrs ⊆ t.threadConnections
  nodup : t.phase.addrs.Nodup

/-- The ownership invariant. -/
structure WellPlaced (s : Layer Cls Msg) : Prop extends Objects s where
  placed : ∀ {p a}, a ∈ s.holds p → s.placeAt a = some p
  nodup : ∀ p, (s.holds p).Nodup
  phase : ∀ w, PhaseOk (s.worker w)
  deletable_nodup : ∀ w, ((s.worker w).forDelete.map Prod.snd).Nodup

theorem Objects.id_inj {s : Layer Cls Msg} (h : s.Objects) {a b : Addr} {c d : Connection Msg}
    (hc : s.heap a = some c) (hd : s.heap b = some d) (hid : c.id = d.id) : a = b := by
  rw [← h.addr hc, ← h.addr hd, hid]

/-- What a phase has in hand is registered with its worker. -/
theorem WellPlaced.in_hand {s : Layer Cls Msg} (h : s.WellPlaced) {w : ℕ} {p : Phase} {a : Addr}
    (hp : (s.worker w).phase = p) (ha : a ∈ p.addrs) : s.placeAt a = some (.registered w) :=
  h.placed (p := .registered w) ((h.phase w).subset (hp ▸ ha))

/-! ### Moving one object -/

/-- One address leaves the list of its place for that of another; `none` is no place at all. -/
structure Moves (s s' : Layer Cls Msg) (a : Addr) (p q : Option Place) : Prop where
  before : s.placeAt a = p
  place : ∀ b, s'.placeAt b = if b = a then q else s.placeAt b
  rest : ∀ r, some r ≠ p → some r ≠ q → s'.holds r = s.holds r
  source : ∀ r, some r = p → (a :: s'.holds r).Perm (s.holds r)
  target : ∀ r, some r = q → (s'.holds r).Perm (a :: s.holds r)

variable {s s' : Layer Cls Msg}

theorem Moves.not_mem {a : Addr} {p q : Option Place} (m : Moves s s' a p q)
    (h : s.WellPlaced) {r : Place} (hr : some r ≠ p) : a ∉ s.holds r := by
  intro hmem
  exact hr ((h.placed hmem).symm.trans m.before)

theorem Moves.placed {a : Addr} {p q : Option Place} (m : Moves s s' a p q) (h : s.WellPlaced)
    {r : Place} {b : Addr} (hb : b ∈ s'.holds r) : s'.placeAt b = some r := by
  rw [m.place]
  by_cases hp : some r = p
  · -- the source has lost `a`
    have hperm := m.source r hp
    have hnd := hperm.nodup_iff.mpr (h.nodup r)
    have hne : b ≠ a := fun hba => (List.nodup_cons.mp hnd).1 (hba ▸ hb)
    rw [if_neg hne]
    exact h.placed (hperm.subset (List.mem_cons_of_mem a hb))
  · by_cases hq : some r = q
    · rcases List.mem_cons.mp ((m.target r hq).subset hb) with hba | hb
      · rw [if_pos hba, hq]
      · rw [if_neg fun hba : b = a => m.not_mem h hp (hba ▸ hb)]
        exact h.placed hb
    · rw [m.rest r hp hq] at hb
      rw [if_neg fun hba : b = a => m.not_mem h hp (hba ▸ hb)]
      exact h.placed hb

theorem Moves.nodup {a : Addr} {p q : Option Place} (m : Moves s s' a p q) (h : s.WellPlaced)
    (r : Place) : (s'.holds r).Nodup := by
  by_cases hp : some r = p
  · exact (List.nodup_cons.mp ((m.source r hp).nodup_iff.mpr (h.nodup r))).2
  · by_cases hq : some r = q
    · exact (m.target r hq).nodup_iff.mpr (List.nodup_cons.mpr ⟨m.not_mem h hp, h.nodup r⟩)
    · rw [m.rest r hp hq]
      exact h.nodup r

/-! ### Updates that move nothing -/

/-- `s'` has the objects, places and lists of `s`. -/
structure SameKeys (s s' : Layer Cls Msg) : Prop where
  heap : Kept Connection.key s s'
  life : ∀ id, (s'.life id).key = (s.life id).key
  fresh : ∀ id, s.nextId ≤ id → s'.life id = s.life id
  worker : ∀ w, (s'.worker w).key = (s.worker w).key
  connectConns : s'.connectConns = s.connectConns
  nextId : s'.nextId = s.nextId

namespace SameKeys

variable {s s' s'' : Layer Cls Msg}

theorem refl (s : Layer Cls Msg) : SameKeys s s :=
  ⟨fun _ => rfl, fun _ => rfl, fun _ _ => rfl, fun _ => rfl, rfl, rfl⟩

theorem trans (h₁ : SameKeys s s') (h₂ : SameKeys s' s'') : SameKeys s s'' where
  heap a := (h₂.heap a).trans (h₁.heap a)
  life id := (h₂.life id).trans (h₁.life id)
  fresh id hid := (h₂.fresh id (h₁.nextId.symm ▸ hid)).trans (h₁.fresh id hid)
  worker w := (h₂.worker w).trans (h₁.worker w)
  connectConns := h₂.connectConns.trans h₁.connectConns
  nextId := h₂.nextId.trans h₁.nextId

theorem modConn (s : Layer Cls Msg) (a : Addr) {f : Connection Msg → Connection Msg}
    (hf : ∀ c, (f c).key = c.key) : SameKeys s (s.modConn a f) where
  heap := Kept.modConn s a hf
  life _ := rfl
  fresh _ _ := rfl
  worker _ := rfl
  connectConns := rfl
  nextId := rfl

theorem modWorker (s : Layer Cls Msg) (w : ℕ) {g : ThreadData Msg → ThreadData Msg}
    (hg : (g (s.worker w)).key = (s.worker w).key) : SameKeys s (s.modWorker w g) where
  heap _ := rfl
  life _ := rfl
  fresh _ _ := rfl
  worker v := by
    rw [modWorker_worker]
    split
    · next hv => rw [hv, hg]
    · rfl
  connectConns := rfl
  nextId := rfl

theorem goto (s : Layer Cls Msg) (w : ℕ) (p : Phase) : SameKeys s (s.goto w p) :=
  modWorker s w rfl

theorem modLife (s : Layer Cls Msg) {id : ℕ} {h : Life Msg → Life Msg} (hid : id < s.nextId)
    (hh : ∀ l, (h l).key = l.key) : SameKeys s (s.modLife id h) where
  heap _ := rfl
  life v := by
    rw [modLife_life]
    split
    · exact hh _
    · rfl
  fresh v hv := by
    rw [modLife_life, if_neg (by omega)]
  worker _ := rfl
  connectConns := rfl
  nextId := rfl

theorem connClose (h : s.WellPlaced) (a : Addr) : SameKeys s (s.connClose a) := by
  unfold Layer.connClose
  split
  · exact refl s
  · next c hc =>
    split
    · exact refl s
    · refine .trans (modConn s a ?_) (modLife _ (h.id_lt hc) ?_)
      · exact fun _ => rfl
      · exact fun _ => rfl

/-- What the ownership invariant says of an object, it says of the same object afterwards. -/
theorem heap_some (h : SameKeys s s') {a : Addr} {c' : Connection Msg} (hc : s'.heap a = some c') :
    ∃ c, s.heap a = some c ∧ c.id = c'.id ∧ c.place = c'.place ∧ c.td = c'.td := by
  obtain ⟨c, hs, hkey⟩ := h.heap.exists_of_some hc
  simp only [Connection.key, Prod.mk.injEq] at hkey
  exact ⟨c, hs, hkey⟩

theorem placeAt (h : SameKeys s s') (a : Addr) : s'.placeAt a = s.placeAt a := by
  have hk := congrArg (Option.map fun k : ℕ × Place × Option ℕ => k.2.1) (h.heap a)
  rwa [Option.map_map, Option.map_map] at hk

theorem handed (h : SameKeys s s') (w : ℕ) : (s'.worker w).handed = (s.worker w).handed :=
  congrArg Prod.fst (h.worker w)

theorem conns (h : SameKeys s s') (w : ℕ) :
    (s'.worker w).threadConnections = (s.worker w).threadConnections :=
  congrArg (fun k => k.2.1) (h.worker w)

theorem forDelete (h : SameKeys s s') (w : ℕ) :
    (s'.worker w).forDelete = (s.worker w).forDelete :=
  congrArg (fun k => k.2.2) (h.worker w)

end SameKeys

theorem SameKeys.objects {s s' : Layer Cls Msg} (k : SameKeys s s') (h : s.Objects) :
    s'.Objects where
  id_lt hc := by
    obtain ⟨c, hc, hid, -⟩ := k.heap_some hc
    rw [← hid, k.nextId]
    exact h.id_lt hc
  addr hc := by
    obtain ⟨c, hc, hid, -⟩ := k.heap_some hc
    rw [← hid, ← h.addr hc]
    exact congrArg Prod.fst (k.life c.id)
  not_deleted hc := by
    obtain ⟨c, hc, hid, -⟩ := k.heap_some hc
    rw [← hid, ← h.not_deleted hc]
    exact congrArg (fun l => l.2.2) (k.life c.id)
  owner hc := by
    obtain ⟨c, hc, hid, -, htd⟩ := k.heap_some hc
    rw [← hid, ← htd, ← h.owner hc]
    exact congrArg (fun l => l.2.1) (k.life c.id)
  td hc := by
    obtain ⟨c, hc, -, hplace, htd⟩ := k.heap_some hc
    rw [← hplace, ← htd, h.td hc]
  fresh hid := by
    rw [k.nextId] at hid
    rw [k.fresh _ hid, h.fresh hid]

/-- With the lists as they were and phases that fit, every place holds at most what it held. -/
theorem SameKeys.holds_sublist {s s' : Layer Cls Msg} (k : SameKeys s s')
    (hphase : ∀ w, (s'.worker w).phase = (s.worker w).phase ∨
      (s.worker w).phase.Fits (s'.worker w).phase (s.worker w).threadConnections) (p : Place) :
    (s'.holds p).Sublist (s.holds p) := by
  cases p with
  | connecting =>
    show s'.connectConns.Sublist s.connectConns
    rw [k.connectConns]
  | handed w =>
    show (s'.worker w).handed.Sublist (s.worker w).handed
    rw [k.handed]
  | registered w =>
    show (s'.worker w).threadConnections.Sublist (s.worker w).threadConnections
    rw [k.conns]
  | refused w =>
    show ((s'.worker w).phase.refusing).Sublist (s.worker w).phase.refusing
    rcases hphase w with hw | hw
    · rw [hw]
    · rw [hw.refusing]
      exact List.nil_sublist _
  | retired w =>
    show (((s'.worker w).forDelete.map Prod.snd).filter _).Sublist
      (((s.worker w).forDelete.map Prod.snd).filter _)
    rw [k.forDelete]
    rcases hphase w with hw | hw
    · rw [hw]
    · refine List.monotone_filter_right _ fun a ha => ?_
      simp only [decide_eq_true_eq] at ha ⊢
      exact fun hmem => ha (hw.removing hmem)

/-- Such an update keeps the invariant. -/
theorem WellPlaced.of_same {s s' : Layer Cls Msg} (h : s.WellPlaced) (k : SameKeys s s')
    (hphase : ∀ w, (s'.worker w).phase = (s.worker w).phase ∨
      (s.worker w).phase.Fits (s'.worker w).phase (s.worker w).threadConnections) :
    s'.WellPlaced where
  toObjects := k.objects h.toObjects
  placed hb := by
    rw [k.placeAt]
    exact h.placed ((k.holds_sublist hphase _).subset hb)
  nodup p := (h.nodup p).sublist (k.holds_sublist hphase p)
  phase w := by
    rcases hphase w with hw | hw
    · exact ⟨by rw [hw, k.conns]; exact (h.phase w).subset, by rw [hw]; exact (h.phase w).nodup⟩
    · exact ⟨by rw [k.conns]; exact hw.subset, hw.nodup⟩
  deletable_nodup w := by
    rw [k.forDelete]
    exact h.deletable_nodup w

/-- Only one worker goes on, and its new phase fits. -/
theorem WellPlaced.goto {s : Layer Cls Msg} (h : s.WellPlaced) {w : ℕ} {p : Phase}
    (hp : (s.worker w).phase.Fits p (s.worker w).threadConnections) : (s.goto w p).WellPlaced := by
  refine h.of_same (SameKeys.goto s w p) fun v => ?_
  by_cases hv : v = w
  · subst hv
    exact .inr (by rw [goto_worker, if_pos rfl]; exact hp)
  · exact .inl (by rw [goto_worker, if_neg hv])

theorem WellPlaced.modConn {s : Layer Cls Msg} (h : s.WellPlaced) (a : Addr)
    {f : Connection Msg → Connection Msg} (hf : ∀ c, (f c).key = c.key) :
    (s.modConn a f).WellPlaced :=
  h.of_same (SameKeys.modConn s a hf) fun _ => .inl rfl

/-! ### The handlers and the queues of messages -/

theorem SameKeys.modConn_connClose {s : Layer Cls Msg} (h : s.WellPlaced) (a : Addr)
    {f : Connection Msg → Connection Msg} (hf : ∀ c, (f c).key = c.key) :
    SameKeys s ((s.modConn a f).connClose a) :=
  (modConn s a hf).trans (connClose (h.modConn a hf) a)

theorem SameKeys.readStep {s s' : Layer Cls Msg} (h : s.WellPlaced) {G : Generated Cls Msg}
    {a : Addr} {c : Connection Msg} (hc : s.heap a = some c) (hr : ReadStep G s a c s') :
    SameKeys s s' ∧ s'.worker = s.worker := by
  cases hr with
  | data hne hext hr =>
    refine ⟨.trans (modConn s a ?_) (modLife _ (h.id_lt hc) ?_), rfl⟩
    · exact fun _ => rfl
    · exact fun _ => rfl
  | again => exact ⟨modConn s a fun _ => rfl, rfl⟩
  | shut => exact ⟨modConn_connClose h a fun _ => rfl, connClose_worker _ a⟩
  | failed => exact ⟨modConn_connClose h a fun _ => rfl, connClose_worker _ a⟩

theorem Writes.key {f : Connection Msg → Connection Msg} (hf : Writes G f) (c : Connection Msg) :
    (f c).key = c.key := by
  show (f c).readSide.key = c.readSide.key
  rw [hf.readSide]

theorem SameKeys.writeStep {s s' : Layer Cls Msg} (h : s.WellPlaced) {a : Addr}
    {r : WriteResult} (hr : WriteStep G s a r s') : SameKeys s s' ∧ s'.worker = s.worker := by
  cases hr with
  | quiet hf => exact ⟨modConn s a hf.key, rfl⟩
  | failed _ hf => exact ⟨modConn_connClose h a hf.key, connClose_worker _ a⟩

theorem SameKeys.drainStep (s : Layer Cls Msg) (w : ℕ) : SameKeys s (s.drainStep w) := by
  have hheap : SameKeys s { s with
      heap := (drainWrites (s.worker w).threadConnections s.heap (s.worker w).tdWriteMsgs) } :=
    ⟨Kept.drainWrites (fun _ _ => rfl) _ _ s.heap, fun _ => rfl, fun _ _ => rfl, fun _ => rfl, rfl, rfl⟩
  unfold Layer.drainStep
  refine hheap.trans (modWorker _ w ?_)
  rfl

theorem SameKeys.noticeStep {s : Layer Cls Msg} (h : s.WellPlaced) (G : Generated Cls Msg) (w : ℕ)
    {a : Addr} {c : Connection Msg} (hc : s.heap a = some c) (todo removeIds : List Addr)
    (junk : UInt64) : SameKeys s (s.noticeStep G w a c.id todo removeIds junk) := by
  unfold Layer.noticeStep
  split
  · exact refl s
  · refine .trans (modLife s (h.id_lt hc) ?_) (.trans (modWorker _ w ?_) (goto _ w _))
    · exact fun _ => rfl
    · rfl

end Layer

end GoFight.Net
