import GoFight.Net.Ownership

/-!
# The ownership invariant over runs

What each update of the layer does to the lists and the objects, and from it that every step keeps
`WellPlaced`:

* `WellPlaced.push`, `.refuse`, `.registerPre`, `.registerNew`, `.connect`, `.freeRefused`,
  `.freeRetired` — the moves of one object;
* `WellPlaced.closing`, `WellPlaced.erase` — the two steps of the sweep that touch lists;
* `WellPlaced.step` — the step lemma, `wellPlaced_of_reach` — the run lemma.
-/

namespace GoFight.Net

open GoFight.Lib

variable {Cls Msg : Type*}

namespace Layer

/-! ### Updates and the lists -/

theorem WellPlaced.of_moves {s s' : Layer Cls Msg} (h : s.WellPlaced) {a : Addr}
    {p q : Option Place} (m : Moves s s' a p q) (hobj : s'.Objects)
    (hphase : ∀ w, PhaseOk (s'.worker w))
    (hdel : ∀ w, ((s'.worker w).forDelete.map Prod.snd).Nodup) : s'.WellPlaced where
  toObjects := hobj
  placed := m.placed h
  nodup := m.nodup h
  phase := hphase
  deletable_nodup := hdel

/-- The worker's lists are those of `t`, and it is in a phase that holds nothing. -/
theorem PhaseOk.of_nil {t : ThreadData Msg} (h : t.phase.addrs = []) : PhaseOk t :=
  ⟨by rw [h]; exact List.nil_subset _, by rw [h]; exact List.nodup_nil⟩

theorem PhaseOk.of_eq {t t' : ThreadData Msg} (h : PhaseOk t) (hp : t'.phase = t.phase)
    (hc : t.threadConnections ⊆ t'.threadConnections) : PhaseOk t' :=
  ⟨by rw [hp]; exact fun _ ha => hc (h.subset ha), by rw [hp]; exact h.nodup⟩

/-! ### The lists after an update -/

@[simp] theorem holds_modConn (s : Layer Cls Msg) (a : Addr) (f : Connection Msg → Connection Msg) :
    (s.modConn a f).holds = s.holds := rfl

@[simp] theorem holds_setPlace (s : Layer Cls Msg) (a : Addr) (p : Place) :
    (s.setPlace a p).holds = s.holds := rfl

@[simp] theorem holds_modLife (s : Layer Cls Msg) (id : ℕ) (h : Life Msg → Life Msg) :
    (s.modLife id h).holds = s.holds := rfl

@[simp] theorem holds_alloc (s : Layer Cls Msg) (a : Addr) (p : Place) (b : Bool) :
    (s.alloc a p b).holds = s.holds := rfl

@[simp] theorem holds_free (s : Layer Cls Msg) (a : Addr) : (s.free a).holds = s.holds := by
  unfold free
  split <;> rfl

theorem holds_modWorker (s : Layer Cls Msg) (w : ℕ) (g : ThreadData Msg → ThreadData Msg)
    (p : Place) : (s.modWorker w g).holds p =
      if p.worker = some w then (g (s.worker w)).holds p else s.holds p := by
  unfold holds
  split
  · next hp => simp [hp]
  · next v hp =>
    rw [hp, modWorker_worker]
    by_cases hv : v = w
    · simp [hv]
    · simp [hv]

theorem holds_setConnectors (s : Layer Cls Msg) (l : List Addr) (p : Place) :
    (s.setConnectors l).holds p = if p = .connecting then l else s.holds p := by
  cases p <;> rfl

theorem holds_modWorker_of_eq {s : Layer Cls Msg} {w : ℕ} {g : ThreadData Msg → ThreadData Msg}
    {p : Place} (h : p.worker = some w) :
    (s.modWorker w g).holds p = (g (s.worker w)).holds p := by
  rw [holds_modWorker, if_pos h]

/-- A worker's list changes for one place only. -/
theorem holds_modWorker_of_ne {s : Layer Cls Msg} {w : ℕ} {g : ThreadData Msg → ThreadData Msg}
    {p : Place} (h : p.worker = some w → (g (s.worker w)).holds p = (s.worker w).holds p) :
    (s.modWorker w g).holds p = s.holds p := by
  rw [holds_modWorker]
  split
  · next hp => rw [h hp, holds, hp]
  · rfl

theorem holds_giveWorker_some (s : Layer Cls Msg) (a : Addr) (st : ConnState) (written : Bool)
    (p : Place) : (s.giveWorker ⟨some a, st⟩ written).holds p =
      if p = .handed s.nextThread then s.holds p ++ [a] else s.holds p := by
  rw [giveWorker]
  split
  · next hp =>
    subst hp
    refine (holds_modWorker_of_eq rfl).trans ?_
    simp [holds, Place.worker, ThreadData.holds, ThreadData.handed, ThreadData.give]
  · next hp =>
    refine holds_modWorker_of_ne fun hw => ?_
    cases p with
    | handed v => exact absurd (congrArg Place.handed (Option.some.inj hw)) hp
    | connecting | refused v | registered v | retired v => rfl

theorem holds_take (s : Layer Cls Msg) (w n : ℕ) (rest : List ConnInfo) (p : Place) :
    (s.modWorker w (.take n rest)).holds p =
      if p = .handed w then rest.filterMap ConnInfo.preNew else s.holds p := by
  split
  · next hp =>
    subst hp
    exact holds_modWorker_of_eq rfl
  · next hp =>
    refine holds_modWorker_of_ne fun hw => ?_
    cases p with
    | handed v => exact absurd (congrArg Place.handed (Option.some.inj hw)) hp
    | connecting | refused v | registered v | retired v => rfl

theorem holds_registerConn (s : Layer Cls Msg) (w : ℕ) (a : Addr) (id : ℕ) (st : ConnState)
    (p : Place) : (s.registerConn w a id st).holds p =
      if p = .registered w then insertConn a (s.holds p) else s.holds p := by
  rw [registerConn]
  split
  · next hp =>
    subst hp
    exact holds_modWorker_of_eq rfl
  · next hp =>
    refine holds_modWorker_of_ne fun hw => ?_
    cases p with
    | registered v => exact absurd (congrArg Place.registered (Option.some.inj hw)) hp
    | connecting | refused v | handed v | retired v => rfl

/-- Another phase changes what is refused; nothing is being removed before and after. -/
theorem holds_goto (s : Layer Cls Msg) (w : ℕ) (q : Phase)
    (hq : q.removing = (s.worker w).phase.removing) (p : Place) :
    (s.goto w q).holds p = if p = .refused w then q.refusing else s.holds p := by
  rw [goto]
  split
  · next hp =>
    subst hp
    exact holds_modWorker_of_eq rfl
  · next hp =>
    refine holds_modWorker_of_ne fun hw => ?_
    cases p with
    | refused v => exact absurd (congrArg Place.refused (Option.some.inj hw)) hp
    | retired v =>
      show ((s.worker w).forDelete.map Prod.snd).filter (· ∉ q.removing) = _
      rw [hq]
      rfl
    | connecting | registered v | handed v => rfl

/-! ### The objects after an update -/

theorem Objects.congr {s s' : Layer Cls Msg} (h : s.Objects) (hheap : s'.heap = s.heap)
    (hlife : s'.life = s.life) (hid : s'.nextId = s.nextId) : s'.Objects where
  id_lt hc := hid ▸ h.id_lt (hheap ▸ hc)
  addr hc := hlife ▸ h.addr (hheap ▸ hc)
  not_deleted hc := hlife ▸ h.not_deleted (hheap ▸ hc)
  owner hc := hlife ▸ h.owner (hheap ▸ hc)
  td hc := h.td (hheap ▸ hc)
  fresh hn := hlife ▸ h.fresh (hid ▸ hn)

/-- Objects that keep their incarnation and `td_`, in places that fit it. -/
theorem Objects.of_heap {s s' : Layer Cls Msg} (h : s.Objects) (hlife : s'.life = s.life)
    (hnext : s'.nextId = s.nextId) (hheap : ∀ b d, s'.heap b = some d →
      ∃ c, s.heap b = some c ∧ c.id = d.id ∧ c.td = d.td ∧ d.td = d.place.td) : s'.Objects := by
  constructor
  · intro b d hd
    obtain ⟨c, hc, hid, -⟩ := hheap b d hd
    rw [hnext, ← hid]
    exact h.id_lt hc
  · intro b d hd
    obtain ⟨c, hc, hid, -⟩ := hheap b d hd
    rw [hlife, ← hid]
    exact h.addr hc
  · intro b d hd
    obtain ⟨c, hc, hid, -⟩ := hheap b d hd
    rw [hlife, ← hid]
    exact h.not_deleted hc
  · intro b d hd
    obtain ⟨c, hc, hid, htd, -⟩ := hheap b d hd
    rw [hlife, ← hid, ← htd]
    exact h.owner hc
  · intro b d hd
    obtain ⟨-, -, -, -, hplace⟩ := hheap b d hd
    exact hplace
  · intro id hid
    rw [hlife]
    exact h.fresh (hnext ▸ hid)

/-- A change of place within the same worker or none keeps objects and histories together. -/
theorem Objects.setPlace {s : Layer Cls Msg} (h : s.Objects) (a : Addr) {p : Place}
    (hp : ∀ c, s.heap a = some c → c.td = p.td) : (s.setPlace a p).Objects := by
  refine h.of_heap rfl rfl fun b d hd => ?_
  rw [Layer.setPlace, modConn_heap] at hd
  split at hd
  · next hb =>
    subst hb
    obtain ⟨c, hc, rfl⟩ := Option.map_eq_some_iff.mp hd
    exact ⟨c, hc, rfl, rfl, hp c hc⟩
  · exact ⟨d, hd, rfl, rfl, h.td hd⟩

theorem placeAt_setPlace (s : Layer Cls Msg) {a : Addr} {p q : Place}
    (ha : s.placeAt a = some p) (b : Addr) :
    (s.setPlace a q).placeAt b = if b = a then some q else s.placeAt b := by
  rw [placeAt, Layer.setPlace, modConn_heap]
  split
  · next hb =>
    obtain ⟨c, hc, -⟩ := Option.map_eq_some_iff.mp ha
    rw [hb, hc]
    rfl
  · rfl

/-- The `td_` of an object whose place is known. -/
theorem Objects.td_of_place {s : Layer Cls Msg} (h : s.Objects) {a : Addr} {p : Place}
    (ha : s.placeAt a = some p) {c : Connection Msg} (hc : s.heap a = some c) : c.td = p.td := by
  rw [placeAt, hc, Option.map_some, Option.some.injEq] at ha
  rw [h.td hc, ha]

/-- Registering an object. -/
theorem Objects.register {s : Layer Cls Msg} (h : s.Objects) {w : ℕ} {a : Addr}
    {c : Connection Msg} (hc : s.heap a = some c) (st : ConnState) :
    (s.registerConn w a c.id st).Objects := by
  have hcases : ∀ {b d}, (s.registerConn w a c.id st).heap b = some d →
      (b = a ∧ d.id = c.id ∧ d.td = some w ∧ d.place = .registered w) ∨
        (s.heap b = some d ∧ d.id ≠ c.id) := by
    intro b d hd
    rw [registerConn_heap] at hd
    split at hd
    · next hb =>
      subst hb
      rw [hc, Option.map_some, Option.some.injEq] at hd
      subst hd
      exact .inl ⟨rfl, rfl, rfl, rfl⟩
    · next hb => exact .inr ⟨hd, fun hid => hb (h.id_inj hd hc hid)⟩
  constructor
  · intro b d hd
    rcases hcases hd with ⟨-, hid, -⟩ | ⟨hd, -⟩
    · show d.id < s.nextId
      rw [hid]
      exact h.id_lt hc
    · exact h.id_lt hd
  · intro b d hd
    rw [registerConn_life]
    rcases hcases hd with ⟨rfl, hid, -⟩ | ⟨hd, hid⟩
    · rw [if_pos hid, hid]
      exact h.addr hc
    · rw [if_neg hid]
      exact h.addr hd
  · intro b d hd
    rw [registerConn_life]
    rcases hcases hd with ⟨-, hid, -⟩ | ⟨hd, hid⟩
    · rw [if_pos hid, hid]
      exact h.not_deleted hc
    · rw [if_neg hid]
      exact h.not_deleted hd
  · intro b d hd
    rw [registerConn_life]
    rcases hcases hd with ⟨-, hid, htd, -⟩ | ⟨hd, hid⟩
    · rw [if_pos hid, htd]
      rfl
    · rw [if_neg hid]
      exact h.owner hd
  · intro b d hd
    rcases hcases hd with ⟨-, -, htd, hplace⟩ | ⟨hd, -⟩
    · rw [htd, hplace]
      rfl
    · exact h.td hd
  · intro id hid
    have hlt := h.id_lt hc
    have hid : s.nextId ≤ id := hid
    rw [registerConn_life, if_neg (by omega)]
    exact h.fresh hid

/-- A new object without `td_`. -/
theorem Objects.alloc {s : Layer Cls Msg} (h : s.Objects) (a : Addr) {p : Place} (k : Bool)
    (hp : p.td = none) : (s.alloc a p k).Objects := by
  have hcases : ∀ {b d}, (s.alloc a p k).heap b = some d →
      (b = a ∧ d.id = s.nextId ∧ d.td = none ∧ d.place = p) ∨
        (s.heap b = some d ∧ d.id ≠ s.nextId) := by
    intro b d hd
    rw [alloc_heap] at hd
    split at hd
    · next hb =>
      obtain rfl := Option.some.inj hd
      exact .inl ⟨hb, rfl, rfl, rfl⟩
    · exact .inr ⟨hd, Nat.ne_of_lt (h.id_lt hd)⟩
  constructor
  · intro b d hd
    show d.id < s.nextId + 1
    rcases hcases hd with ⟨-, hid, -⟩ | ⟨hd, -⟩
    · omega
    · exact Nat.lt_succ_of_lt (h.id_lt hd)
  · intro b d hd
    rw [alloc_life]
    rcases hcases hd with ⟨rfl, hid, -⟩ | ⟨hd, hid⟩
    · rw [if_pos hid]
      rfl
    · rw [if_neg hid]
      exact h.addr hd
  · intro b d hd
    rw [alloc_life]
    rcases hcases hd with ⟨-, hid, -⟩ | ⟨hd, hid⟩
    · rw [if_pos hid]
      rfl
    · rw [if_neg hid]
      exact h.not_deleted hd
  · intro b d hd
    rw [alloc_life]
    rcases hcases hd with ⟨-, hid, htd, -⟩ | ⟨hd, hid⟩
    · rw [if_pos hid, htd]
      rfl
    · rw [if_neg hid]
      exact h.owner hd
  · intro b d hd
    rcases hcases hd with ⟨-, -, htd, hplace⟩ | ⟨hd, -⟩
    · rw [htd, hplace, hp]
    · exact h.td hd
  · intro id hid
    have hid : s.nextId + 1 ≤ id := hid
    rw [alloc_life, if_neg (by omega)]
    exact h.fresh (by omega)

/-- Deleting an object. -/
theorem Objects.free {s : Layer Cls Msg} (h : s.Objects) (a : Addr) : (s.free a).Objects := by
  cases hc : s.heap a with
  | none =>
    have hsame : s.free a = s := by
      unfold Layer.free
      rw [hc]
    rwa [hsame]
  | some c =>
    have hcases : ∀ {b d}, (s.free a).heap b = some d → s.heap b = some d ∧ d.id ≠ c.id := by
      intro b d hd
      rw [free_heap] at hd
      split at hd
      · cases hd
      · next hb => exact ⟨hd, fun hid => hb (h.id_inj hd hc hid)⟩
    have hnext : (s.free a).nextId = s.nextId := by
      unfold Layer.free
      rw [hc]
      rfl
    constructor
    · intro b d hd
      rw [hnext]
      exact h.id_lt (hcases hd).1
    · intro b d hd
      rw [free_life hc, if_neg (hcases hd).2]
      exact h.addr (hcases hd).1
    · intro b d hd
      rw [free_life hc, if_neg (hcases hd).2]
      exact h.not_deleted (hcases hd).1
    · intro b d hd
      rw [free_life hc, if_neg (hcases hd).2]
      exact h.owner (hcases hd).1
    · intro b d hd
      exact h.td (hcases hd).1
    · intro id hid
      have hlt := h.id_lt hc
      rw [hnext] at hid
      rw [free_life hc, if_neg (by omega)]
      exact h.fresh hid

/-! ### The moves -/

/-- An update of one worker, whose phase stays in order. -/
theorem phaseOk_modWorker {s : Layer Cls Msg} {w : ℕ} {g : ThreadData Msg → ThreadData Msg}
    (h : ∀ v, PhaseOk (s.worker v)) (hg : PhaseOk (g (s.worker w))) (v : ℕ) :
    PhaseOk ((s.modWorker w g).worker v) := by
  rw [modWorker_worker]
  split
  · next hv => exact hv ▸ hg
  · exact h v

/-- An update of one worker, which leaves `for_delete_connections_` without duplicates. -/
theorem deletable_modWorker {s : Layer Cls Msg} {w : ℕ} {g : ThreadData Msg → ThreadData Msg}
    (h : ∀ v, ((s.worker v).forDelete.map Prod.snd).Nodup)
    (hg : ((g (s.worker w)).forDelete.map Prod.snd).Nodup) (v : ℕ) :
    (((s.modWorker w g).worker v).forDelete.map Prod.snd).Nodup := by
  rw [modWorker_worker]
  split
  · next hv => exact hv ▸ hg
  · exact h v

/-- `push_worker_new_conn`. -/
theorem WellPlaced.push {s : Layer Cls Msg} (h : s.WellPlaced) {a : Addr} {rest : List Addr}
    (hq : s.connectConns = a :: rest) (written : Bool) :
    (((s.setConnectors rest).setPlace a (.handed s.nextThread)).giveWorker ⟨some a, .connect⟩
        written).WellPlaced := by
  have hlist : s.holds .connecting = a :: rest := hq
  have hat : s.placeAt a = some .connecting := h.placed (hlist ▸ List.mem_cons_self)
  have hnext : ((s.setConnectors rest).setPlace a (.handed s.nextThread)).nextThread
      = s.nextThread := rfl
  have hholds : ∀ r, (((s.setConnectors rest).setPlace a (.handed s.nextThread)).giveWorker
      ⟨some a, .connect⟩ written).holds r =
        if r = .handed s.nextThread then s.holds r ++ [a]
        else if r = .connecting then rest else s.holds r := by
    intro r
    rw [holds_giveWorker_some, hnext, holds_setPlace, holds_setConnectors]
    split
    · next hr => rw [hr, if_neg (by simp)]
    · rfl
  refine h.of_moves (a := a) (p := some .connecting) (q := some (.handed s.nextThread))
    ⟨hat, placeAt_setPlace (s.setConnectors rest) hat, ?_, ?_, ?_⟩ ?_ ?_ ?_
  · intro r h₁ h₂
    rw [hholds, if_neg fun hr => h₂ (congrArg some hr), if_neg fun hr => h₁ (congrArg some hr)]
  · intro r hr
    cases hr
    rw [hholds, if_neg (by simp), if_pos rfl, hlist]
  · intro r hr
    cases hr
    rw [hholds, if_pos rfl]
    exact List.perm_append_singleton a _
  · have hobj : (s.setPlace a (.handed s.nextThread)).Objects :=
      h.toObjects.setPlace a fun c hc => h.td_of_place hat hc
    exact hobj.congr rfl rfl rfl
  · exact phaseOk_modWorker h.phase ((h.phase _).of_eq rfl fun _ ha => ha)
  · exact deletable_modWorker h.deletable_nodup (h.deletable_nodup _)

/-- The first `ConnInfo` of the queue is popped, and `create_conn` fails. -/
theorem WellPlaced.refuse {s : Layer Cls Msg} (h : s.WellPlaced) {w n : ℕ} {a : Addr}
    {st : ConnState} {rest : List ConnInfo} (hp : (s.worker w).phase = .poll)
    (hq : (s.worker w).newConnections = ⟨some a, st⟩ :: rest) :
    (((s.modWorker w (.take n rest)).setPlace a (.refused w)).goto w
      (.callback a false)).WellPlaced := by
  have hlist : s.holds (.handed w) = a :: rest.filterMap ConnInfo.preNew := by
    show (s.worker w).handed = _
    rw [ThreadData.handed, hq]
    rfl
  have hat : s.placeAt a = some (.handed w) := h.placed (hlist ▸ List.mem_cons_self)
  have hphase : ((s.modWorker w (.take n rest)).setPlace a (.refused w)).worker w
      = ((s.worker w).take n rest) := modWorker_worker_self ..
  have hholds : ∀ r, (((s.modWorker w (.take n rest)).setPlace a (.refused w)).goto w
      (.callback a false)).holds r =
        if r = .refused w then [a]
        else if r = .handed w then rest.filterMap ConnInfo.preNew else s.holds r := by
    intro r
    rw [holds_goto _ _ _ (by rw [hphase]; show _ = (s.worker w).phase.removing; rw [hp]; rfl),
      holds_setPlace, holds_take]
    rfl
  refine h.of_moves (a := a) (p := some (.handed w)) (q := some (.refused w))
    ⟨hat, placeAt_setPlace (s.modWorker w (.take n rest)) hat, ?_, ?_, ?_⟩ ?_ ?_ ?_
  · intro r h₁ h₂
    rw [hholds, if_neg fun hr => h₂ (congrArg some hr), if_neg fun hr => h₁ (congrArg some hr)]
  · intro r hr
    cases hr
    rw [hholds, if_neg (by simp), if_pos rfl, hlist]
  · intro r hr
    cases hr
    have hnone : s.holds (.refused w) = [] := by
      show (s.worker w).phase.refusing = []
      rw [hp]
      rfl
    rw [hholds, if_pos rfl, hnone]
  · have hobj : (s.setPlace a (.refused w)).Objects :=
      h.toObjects.setPlace a fun c hc => h.td_of_place hat hc
    exact hobj.congr rfl rfl rfl
  · exact phaseOk_modWorker (phaseOk_modWorker h.phase (.of_nil (by
      show (s.worker w).phase.addrs = []
      rw [hp]; rfl))) (.of_nil rfl)
  · refine deletable_modWorker (deletable_modWorker h.deletable_nodup (h.deletable_nodup w)) ?_
    show ((((s.modWorker w (.take n rest)).worker w)).forDelete.map Prod.snd).Nodup
    rw [modWorker_worker_self]
    exact h.deletable_nodup w

theorem placeAt_registerConn {s : Layer Cls Msg} {a : Addr} {c : Connection Msg}
    (hc : s.heap a = some c) (w id : ℕ) (st : ConnState) (b : Addr) :
    (s.registerConn w a id st).placeAt b =
      if b = a then some (.registered w) else s.placeAt b := by
  rw [placeAt, registerConn_heap]
  split
  · next hb =>
    rw [hb, hc]
    rfl
  · rfl

theorem insertConn_perm (a : Addr) (l : List Addr) : (insertConn a l).Perm (a :: l) :=
  List.perm_orderedInsert _ a l

theorem subset_insertConn (a : Addr) (l : List Addr) : l ⊆ insertConn a l := fun _ hb =>
  (insertConn_perm a l).symm.subset (List.mem_cons_of_mem a hb)

/-- `create_conn` succeeds for a connector. -/
theorem WellPlaced.registerPre {s : Layer Cls Msg} (h : s.WellPlaced) {w n : ℕ} {a : Addr}
    {st : ConnState} {rest : List ConnInfo} {c : Connection Msg}
    (hp : (s.worker w).phase = .poll)
    (hq : (s.worker w).newConnections = ⟨some a, st⟩ :: rest) (hc : s.heap a = some c) :
    (((s.modWorker w (.take n rest)).registerConn w a c.id st).goto w
      (.callback a true)).WellPlaced := by
  have hlist : s.holds (.handed w) = a :: rest.filterMap ConnInfo.preNew := by
    show (s.worker w).handed = _
    rw [ThreadData.handed, hq]
    rfl
  have hat : s.placeAt a = some (.handed w) := h.placed (hlist ▸ List.mem_cons_self)
  have hworker : ((s.modWorker w (.take n rest)).registerConn w a c.id st).worker w
      = ((s.worker w).take n rest).register a := by
    rw [registerConn, modWorker_worker_self, modLife_worker, modConn_worker,
      modWorker_worker_self]
  have hholds : ∀ r, (((s.modWorker w (.take n rest)).registerConn w a c.id st).goto w
      (.callback a true)).holds r =
        if r = .refused w then []
        else if r = .registered w then insertConn a (s.holds r)
        else if r = .handed w then rest.filterMap ConnInfo.preNew else s.holds r := by
    intro r
    rw [holds_goto _ _ _ (by rw [hworker]; show _ = (s.worker w).phase.removing; rw [hp]; rfl),
      holds_registerConn, holds_take]
    split
    · rfl
    · split
      · next hr => rw [hr, if_neg (by simp)]
      · rfl
  have hnone : s.holds (.refused w) = [] := by
    show (s.worker w).phase.refusing = []
    rw [hp]
    rfl
  refine h.of_moves (a := a) (p := some (.handed w)) (q := some (.registered w))
    ⟨hat, placeAt_registerConn hc w c.id st, ?_, ?_, ?_⟩ ?_ ?_ ?_
  · intro r h₁ h₂
    rw [hholds, if_neg fun hr => h₂ (congrArg some hr), if_neg fun hr => h₁ (congrArg some hr)]
    split
    · next hr => rw [hr, hnone]
    · rfl
  · intro r hr
    cases hr
    rw [hholds, if_neg (by simp), if_neg (by simp), if_pos rfl, hlist]
  · intro r hr
    cases hr
    rw [hholds, if_neg (by simp), if_pos rfl]
    exact insertConn_perm a _
  · have hobj : (s.registerConn w a c.id st).Objects := h.toObjects.register hc st
    exact hobj.congr rfl rfl rfl
  · refine phaseOk_modWorker (phaseOk_modWorker (phaseOk_modWorker h.phase ?_) ?_) (.of_nil rfl)
    · exact .of_eq (h.phase w) rfl fun _ ha => ha
    · refine .of_nil ?_
      show (((s.modWorker w (.take n rest)).worker w)).phase.addrs = []
      rw [modWorker_worker_self]
      show (s.worker w).phase.addrs = []
      rw [hp]
      rfl
  · have hdel : ∀ v, (((s.modWorker w (.take n rest)).worker v).forDelete.map Prod.snd).Nodup :=
      deletable_modWorker h.deletable_nodup (h.deletable_nodup w)
    exact deletable_modWorker (deletable_modWorker hdel (hdel w)) (by
      show ((((s.modWorker w (.take n rest)).registerConn w a c.id st).worker w).forDelete.map
        Prod.snd).Nodup
      rw [hworker]
      exact h.deletable_nodup w)

/-- `create_conn` succeeds for an accepted connection. -/
theorem WellPlaced.registerNew {s : Layer Cls Msg} (h : s.WellPlaced) {w n : ℕ} {a : Addr}
    {st : ConnState} {rest : List ConnInfo}
    (hq : (s.worker w).newConnections = ⟨none, st⟩ :: rest) (ha : s.heap a = none) :
    (((s.modWorker w (.take n rest)).alloc a .connecting false).registerConn w a s.nextId
      st).WellPlaced := by
  have hlist : s.holds (.handed w) = rest.filterMap ConnInfo.preNew := by
    show (s.worker w).handed = _
    rw [ThreadData.handed, hq]
    rfl
  have hat : s.placeAt a = none := by rw [placeAt, ha]; rfl
  have hholds : ∀ r, (((s.modWorker w (.take n rest)).alloc a .connecting false).registerConn w a
      s.nextId st).holds r = if r = .registered w then insertConn a (s.holds r) else s.holds r := by
    intro r
    have htake : (s.modWorker w (.take n rest)).holds r = s.holds r := by
      rw [holds_take]
      split
      · next hr => rw [hr, hlist]
      · rfl
    rw [holds_registerConn, holds_alloc, htake]
  have hnew : ((s.modWorker w (.take n rest)).alloc a .connecting false).heap a
      = some (.new s.nextId .connecting) := by
    rw [alloc_heap, if_pos rfl]
    rfl
  refine h.of_moves (a := a) (p := none) (q := some (.registered w)) ⟨hat, ?_, ?_, ?_, ?_⟩ ?_ ?_ ?_
  · intro b
    rw [placeAt_registerConn hnew]
    split
    · rfl
    · next hb =>
      rw [placeAt, alloc_heap, if_neg hb]
      rfl
  · intro r _ h₂
    rw [hholds, if_neg fun hr => h₂ (congrArg some hr)]
  · exact fun r hr => nomatch hr
  · intro r hr
    cases hr
    rw [hholds, if_pos rfl]
    exact insertConn_perm a _
  · have hobj : ((s.alloc a .connecting false).registerConn w a s.nextId st).Objects :=
      (h.toObjects.alloc a (p := .connecting) false rfl).register
        (c := .new s.nextId .connecting) (by rw [alloc_heap, if_pos rfl]) st
    exact hobj.congr rfl rfl rfl
  · have hph : ∀ v, PhaseOk ((s.modWorker w (.take n rest)).worker v) :=
      phaseOk_modWorker h.phase (.of_eq (h.phase w) rfl fun _ hb => hb)
    exact phaseOk_modWorker hph (.of_eq (hph w) rfl (subset_insertConn a _))
  · have hdel : ∀ v, (((s.modWorker w (.take n rest)).worker v).forDelete.map Prod.snd).Nodup :=
      deletable_modWorker h.deletable_nodup (h.deletable_nodup w)
    exact deletable_modWorker hdel (hdel w)

/-- `net_connect`. -/
theorem WellPlaced.connect {s : Layer Cls Msg} (h : s.WellPlaced) {a : Addr}
    (ha : s.heap a = none) : (s.netConnect a).WellPlaced := by
  have hat : s.placeAt a = none := by rw [placeAt, ha]; rfl
  have hholds : ∀ r, (s.netConnect a).holds r =
      if r = .connecting then s.connectConns ++ [a] else s.holds r := by
    intro r
    rw [netConnect, holds_setConnectors, holds_alloc]
  refine h.of_moves (a := a) (p := none) (q := some .connecting) ⟨hat, ?_, ?_, ?_, ?_⟩ ?_ ?_ ?_
  · intro b
    rw [placeAt]
    show ((s.alloc a .connecting true).heap b).map _ = _
    rw [alloc_heap]
    split <;> rfl
  · intro r _ h₂
    rw [hholds, if_neg fun hr => h₂ (congrArg some hr)]
  · exact fun r hr => nomatch hr
  · intro r hr
    cases hr
    rw [hholds, if_pos rfl]
    exact List.perm_append_singleton a _
  · exact (h.toObjects.alloc a (p := .connecting) true rfl).congr rfl rfl rfl
  · exact h.phase
  · exact h.deletable_nodup

theorem placeAt_free (s : Layer Cls Msg) (a b : Addr) :
    (s.free a).placeAt b = if b = a then none else s.placeAt b := by
  rw [placeAt, free_heap]
  split <;> rfl

/-- The deletion behind a callback that reported a failure. -/
theorem WellPlaced.freeRefused {s : Layer Cls Msg} (h : s.WellPlaced) {w : ℕ} {a : Addr}
    (hp : (s.worker w).phase = .callback a false) : ((s.free a).goto w .poll).WellPlaced := by
  have hlist : s.holds (.refused w) = [a] := by
    show (s.worker w).phase.refusing = [a]
    rw [hp]
    rfl
  have hat : s.placeAt a = some (.refused w) := h.placed (hlist ▸ List.mem_singleton_self a)
  have hholds : ∀ r, ((s.free a).goto w .poll).holds r =
      if r = .refused w then [] else s.holds r := by
    intro r
    rw [holds_goto _ _ _ (by rw [free_worker, hp]; rfl), holds_free]
    rfl
  refine h.of_moves (a := a) (p := some (.refused w)) (q := none) ⟨hat, ?_, ?_, ?_, ?_⟩ ?_ ?_ ?_
  · exact placeAt_free s a
  · intro r h₁ _
    rw [hholds, if_neg fun hr => h₁ (congrArg some hr)]
  · intro r hr
    cases hr
    rw [hholds, if_pos rfl, hlist]
  · exact fun r hr => nomatch hr
  · exact (h.toObjects.free a).congr rfl rfl rfl
  · exact phaseOk_modWorker (by rw [free_worker]; exact h.phase) (.of_nil rfl)
  · refine deletable_modWorker (by rw [free_worker]; exact h.deletable_nodup) ?_
    rw [free_worker]
    exact h.deletable_nodup w

/-- The deletion of a swept object. -/
theorem WellPlaced.freeRetired {s : Layer Cls Msg} (h : s.WellPlaced) {w t : ℕ} {a : Addr}
    {rest : List (ℕ × Addr)} (hp : (s.worker w).phase = .delete)
    (hq : (s.worker w).forDelete = (t, a) :: rest) :
    ((s.free a).modWorker w fun t => { t with forDelete := rest }).WellPlaced := by
  have hall : ∀ l : List Addr, l.filter (· ∉ (s.worker w).phase.removing) = l := by
    intro l
    rw [hp]
    simp [Phase.removing]
  have hlist : s.holds (.retired w) = a :: rest.map Prod.snd := by
    show ((s.worker w).forDelete.map Prod.snd).filter _ = _
    rw [hall, hq]
    rfl
  have hat : s.placeAt a = some (.retired w) := h.placed (hlist ▸ List.mem_cons_self)
  have hholds : ∀ r, ((s.free a).modWorker w fun t => { t with forDelete := rest }).holds r =
      if r = .retired w then rest.map Prod.snd else s.holds r := by
    intro r
    split
    · next hr =>
      subst hr
      refine (holds_modWorker_of_eq rfl).trans ?_
      rw [free_worker]
      exact hall _
    · next hr =>
      refine (holds_modWorker_of_ne fun hw => ?_).trans (congrFun (holds_free s a) r)
      cases r with
      | retired v => exact absurd (congrArg Place.retired (Option.some.inj hw)) hr
      | connecting | refused v | handed v | registered v => rfl
  refine h.of_moves (a := a) (p := some (.retired w)) (q := none) ⟨hat, ?_, ?_, ?_, ?_⟩ ?_ ?_ ?_
  · exact placeAt_free s a
  · intro r h₁ _
    rw [hholds, if_neg fun hr => h₁ (congrArg some hr)]
  · intro r hr
    cases hr
    rw [hholds, if_pos rfl, hlist]
  · exact fun r hr => nomatch hr
  · exact (h.toObjects.free a).congr rfl rfl rfl
  · refine phaseOk_modWorker (by rw [free_worker]; exact h.phase) ?_
    rw [free_worker]
    exact .of_eq (h.phase w) rfl fun _ hb => hb
  · refine deletable_modWorker (by rw [free_worker]; exact h.deletable_nodup) ?_
    have hnd := h.deletable_nodup w
    rw [hq, List.map_cons, List.nodup_cons] at hnd
    exact hnd.2

theorem mem_insertTime {t : ℕ} {a : Addr} {l : List (ℕ × Addr)} {e : ℕ × Addr}
    (h : e ∈ insertTime t a l) : e = (t, a) ∨ e ∈ l := by
  induction l with
  | nil => exact .inl (List.mem_singleton.mp h)
  | cons d l ih =>
    obtain ⟨u, b⟩ := d
    rw [insertTime] at h
    split at h
    · exact List.mem_cons.mp h
    · split at h
      · exact (List.mem_cons.mp h).imp_right (List.mem_cons_of_mem _)
      · rcases List.mem_cons.mp h with he | he
        · exact .inr (he ▸ List.mem_cons_self)
        · exact (ih he).imp_right (List.mem_cons_of_mem _)

theorem insertTime_nodup {t : ℕ} {a : Addr} {l : List (ℕ × Addr)} (ha : a ∉ l.map Prod.snd)
    (hl : (l.map Prod.snd).Nodup) : ((insertTime t a l).map Prod.snd).Nodup := by
  induction l with
  | nil => simp [insertTime]
  | cons d l ih =>
    obtain ⟨u, b⟩ := d
    rw [List.map_cons, List.mem_cons, not_or] at ha
    have hcons := List.nodup_cons.mp hl
    rw [insertTime]
    split
    · exact List.nodup_cons.mpr ⟨by simpa using ha, hl⟩
    · split
      · exact List.nodup_cons.mpr ⟨ha.2, hcons.2⟩
      · refine List.nodup_cons.mpr ⟨fun hb => ?_, ih ha.2 hcons.2⟩
        obtain ⟨e, he, hsnd⟩ := List.mem_map.mp hb
        rcases mem_insertTime he with rfl | he
        · exact ha.1 hsnd
        · exact hcons.1 (List.mem_map.mpr ⟨e, he, hsnd⟩)

/-- What the sweep has in hand is not in `for_delete_connections_`, what it has moved there
apart. -/
theorem WellPlaced.not_deletable {s : Layer Cls Msg} (h : s.WellPlaced) {w : ℕ} {a : Addr}
    (ha : a ∈ (s.worker w).threadConnections) (hr : a ∉ (s.worker w).phase.removing) :
    a ∉ (s.worker w).forDelete.map Prod.snd := by
  intro hmem
  have hret : s.placeAt a = some (.retired w) :=
    h.placed (p := .retired w) (List.mem_filter.mpr ⟨hmem, by simpa using hr⟩)
  have hreg : s.placeAt a = some (.registered w) := h.placed (p := .registered w) ha
  rw [hret] at hreg
  cases hreg

/-- `conn_internal_close`, and the entry in `for_delete_connections_`. -/
theorem WellPlaced.closing {s : Layer Cls Msg} (h : s.WellPlaced) {w t : ℕ} {a : Addr}
    {todo removeIds : List Addr} (hp : (s.worker w).phase = .closing a todo removeIds) :
    (s.closingStep w a t todo removeIds).WellPlaced := by
  have hsub : a :: (todo ++ removeIds) ⊆ (s.worker w).threadConnections := by
    have hs := (h.phase w).subset
    rwa [hp] at hs
  have hnd : (a :: (todo ++ removeIds)).Nodup := by
    have hn := (h.phase w).nodup
    rwa [hp] at hn
  have hrem : (s.worker w).phase.removing = removeIds := by rw [hp]; rfl
  have hnot : a ∉ (s.worker w).forDelete.map Prod.snd := by
    refine h.not_deletable (hsub List.mem_cons_self) ?_
    rw [hrem]
    exact fun hmem => (List.nodup_cons.mp hnd).1 (List.mem_append_right _ hmem)
  have hdel : ((insertTime t a (s.worker w).forDelete).map Prod.snd).Nodup :=
    insertTime_nodup hnot (h.deletable_nodup w)
  have hother : ∀ r, r ≠ .retired w → (s.closingStep w a t todo removeIds).holds r = s.holds r := by
    intro r hr
    refine holds_modWorker_of_ne fun hw => ?_
    cases r with
    | retired v => exact absurd (congrArg Place.retired (Option.some.inj hw)) hr
    | refused v =>
      cases hw
      show [] = (s.worker w).phase.refusing
      rw [hp]
      rfl
    | connecting | handed v | registered v => rfl
  have hretired : (s.closingStep w a t todo removeIds).holds (.retired w) =
      ((insertTime t a (s.worker w).forDelete).map Prod.snd).filter (· ∉ removeIds ++ [a]) :=
    holds_modWorker_of_eq rfl
  have hkeys : SameKeys s (s.modConn a connInternalClose) := .modConn s a fun _ => rfl
  have hplace : ∀ b, (s.closingStep w a t todo removeIds).placeAt b = s.placeAt b := hkeys.placeAt
  refine ⟨(hkeys.objects h.toObjects).congr rfl rfl rfl, ?_, ?_, ?_, ?_⟩
  · intro r b hb
    rw [hplace]
    by_cases hr : r = .retired w
    · subst hr
      rw [hretired] at hb
      obtain ⟨hmem, hnew⟩ := List.mem_filter.mp hb
      simp only [List.mem_append, List.mem_singleton, not_or, decide_eq_true_eq] at hnew
      obtain ⟨e, he, rfl⟩ := List.mem_map.mp hmem
      rcases mem_insertTime he with rfl | he
      · exact absurd rfl hnew.2
      · refine h.placed (p := .retired w) (List.mem_filter.mpr ⟨List.mem_map_of_mem he, ?_⟩)
        rw [hrem]
        simpa using hnew.1
    · exact h.placed (hother r hr ▸ hb)
  · intro r
    by_cases hr : r = .retired w
    · rw [hr, hretired]
      exact hdel.filter _
    · rw [hother r hr]
      exact h.nodup r
  · refine phaseOk_modWorker (by exact h.phase) ⟨?_, ?_⟩
    · show todo ++ (removeIds ++ [a]) ⊆ (s.worker w).threadConnections
      intro b hb
      apply hsub
      simp only [List.mem_append, List.mem_cons] at hb ⊢
      tauto
    · show (todo ++ (removeIds ++ [a])).Nodup
      rw [← List.append_assoc]
      exact (List.perm_append_singleton a _).nodup_iff.mpr hnd
  · exact deletable_modWorker (by exact h.deletable_nodup) hdel

/-- `thread_connections_.erase` of everything swept. -/
theorem WellPlaced.erase {s : Layer Cls Msg} (h : s.WellPlaced) {w : ℕ} {removeIds : List Addr}
    (hp : (s.worker w).phase = .erase removeIds) : (s.eraseStep w removeIds).WellPlaced := by
  have hsub : removeIds ⊆ (s.worker w).threadConnections := by
    have hs := (h.phase w).subset
    rwa [hp] at hs
  have hrem : (s.worker w).phase.removing = removeIds := by rw [hp]; rfl
  have hat : ∀ b ∈ removeIds, s.placeAt b = some (.registered w) := fun b hb =>
    h.placed (p := .registered w) (hsub hb)
  have hplace : ∀ b, (s.eraseStep w removeIds).placeAt b =
      if b ∈ removeIds then some (.retired w) else s.placeAt b := by
    intro b
    show (s.retire w removeIds b).map Connection.place = _
    rw [retire]
    split
    · next hb =>
      obtain ⟨c, hc, -⟩ := Option.map_eq_some_iff.mp (hat b hb)
      rw [hc]
      rfl
    · rfl
  have hregistered : (s.eraseStep w removeIds).holds (.registered w) =
      (s.worker w).threadConnections.filter (· ∉ removeIds) := holds_modWorker_of_eq rfl
  have hretired : (s.eraseStep w removeIds).holds (.retired w) =
      (s.worker w).forDelete.map Prod.snd :=
    (holds_modWorker_of_eq rfl).trans (List.filter_eq_self.mpr (by simp [Phase.removing]))
  have hother : ∀ r, r ≠ .registered w → r ≠ .retired w →
      (s.eraseStep w removeIds).holds r = s.holds r := by
    intro r h₁ h₂
    refine holds_modWorker_of_ne fun hw => ?_
    cases r with
    | registered v => exact absurd (congrArg Place.registered (Option.some.inj hw)) h₁
    | retired v => exact absurd (congrArg Place.retired (Option.some.inj hw)) h₂
    | refused v =>
      cases hw
      show [] = (s.worker w).phase.refusing
      rw [hp]
      rfl
    | connecting | handed v => rfl
  refine ⟨h.toObjects.of_heap rfl rfl ?_, ?_, ?_, ?_, ?_⟩
  · intro b d hd
    have hd : s.retire w removeIds b = some d := hd
    rw [retire] at hd
    split at hd
    · next hb =>
      obtain ⟨c, hc, rfl⟩ := Option.map_eq_some_iff.mp hd
      have htd : c.td = some w := h.td_of_place (hat b hb) hc
      exact ⟨c, hc, rfl, rfl, htd⟩
    · exact ⟨d, hd, rfl, rfl, h.td hd⟩
  · intro r b hb
    rw [hplace]
    by_cases h₁ : r = .registered w
    · subst h₁
      rw [hregistered] at hb
      obtain ⟨hmem, hnot⟩ := List.mem_filter.mp hb
      rw [if_neg (by simpa using hnot)]
      exact h.placed (p := .registered w) hmem
    · by_cases h₂ : r = .retired w
      · subst h₂
        rw [hretired] at hb
        split
        · rfl
        · next hnot =>
          exact h.placed (p := .retired w) (List.mem_filter.mpr ⟨hb, by rw [hrem]; simpa using hnot⟩)
      · rw [hother r h₁ h₂] at hb
        have hrb := h.placed hb
        rw [if_neg fun hmem => h₁ (Option.some.inj (hrb.symm.trans (hat b hmem)))]
        exact hrb
  · intro r
    by_cases h₁ : r = .registered w
    · rw [h₁, hregistered]
      exact (h.nodup (.registered w)).filter _
    · by_cases h₂ : r = .retired w
      · rw [h₂, hretired]
        exact h.deletable_nodup w
      · rw [hother r h₁ h₂]
        exact h.nodup r
  · exact phaseOk_modWorker (by exact h.phase) (.of_nil rfl)
  · exact deletable_modWorker (by exact h.deletable_nodup) (h.deletable_nodup w)

/-! ### Every step -/

/-- Nothing moves, and worker `w` goes on to a phase that has in hand no more than before. -/
theorem WellPlaced.after {s s' : Layer Cls Msg} (h : s.WellPlaced) (hk : SameKeys s s') {w : ℕ}
    {p q : Phase} (hne : ∀ v, v ≠ w → (s'.worker v).phase = (s.worker v).phase)
    (hp : (s.worker w).phase = p) (hq : (s'.worker w).phase = q)
    (hsub : q.addrs.Sublist p.addrs) (hr : p.removing ⊆ q.removing) (hf : q.refusing = []) :
    s'.WellPlaced := by
  refine h.of_same hk fun v => ?_
  by_cases hv : v = w
  · subst hv
    rw [hp, hq]
    have hold := h.phase v
    exact .inr ⟨fun _ ha => hold.subset (hp ▸ hsub.subset ha), (hp ▸ hold.nodup).sublist hsub, hr, hf⟩
  · exact .inl (hne v hv)

theorem WellPlaced.goto_sublist {s : Layer Cls Msg} (h : s.WellPlaced) {w : ℕ} {p q : Phase}
    (hp : (s.worker w).phase = p) (hsub : q.addrs.Sublist p.addrs)
    (hr : p.removing ⊆ q.removing) (hf : q.refusing = []) : (s.goto w q).WellPlaced := by
  refine h.after (SameKeys.goto s w q) (fun v hv => ?_) hp ?_ hsub hr hf
  · rw [goto_worker, if_neg hv]
  · rw [goto_worker, if_pos rfl]
    rfl

/-- A new iteration over `thread_connections_`. -/
theorem WellPlaced.goto_all {s : Layer Cls Msg} (h : s.WellPlaced) {w : ℕ} {p q : Phase}
    (hp : (s.worker w).phase = p) (hq : q.addrs = (s.worker w).threadConnections)
    (hr : p.removing = []) (hf : q.refusing = []) : (s.goto w q).WellPlaced := by
  subst hp
  exact h.goto ⟨by rw [hq]; exact fun _ ha => ha, by rw [hq]; exact h.nodup (.registered w),
    by rw [hr]; exact List.nil_subset _, hf⟩

/-- What a handler does moves nothing. -/
theorem WellPlaced.handler {s s₁ : Layer Cls Msg} (h : s.WellPlaced)
    (hk : SameKeys s s₁ ∧ s₁.worker = s.worker) : s₁.WellPlaced :=
  h.of_same hk.1 fun v => .inl (by rw [hk.2])

/-- An event of a connection fires: its bit goes, and its handler starts or returns. -/
theorem WellPlaced.event {s : Layer Cls Msg} (h : s.WellPlaced) {w : ℕ} {a : Addr}
    {f : Connection Msg → Connection Msg} (hf : ∀ c, (f c).key = c.key) {q : Phase}
    (hp : (s.worker w).phase = .poll) (ha : a ∈ (s.worker w).threadConnections)
    (hq : q = .poll ∨ q.addrs = [a] ∧ q.refusing = []) :
    ((s.modConn a f).goto w q).WellPlaced := by
  refine (h.modConn a hf).goto ?_
  rw [modConn_worker, hp]
  rcases hq with rfl | ⟨hq, hrefuse⟩
  · exact ⟨List.nil_subset _, List.nodup_nil, List.nil_subset _, rfl⟩
  · refine ⟨?_, ?_, List.nil_subset _, hrefuse⟩
    · rw [hq]
      exact fun b hb => List.mem_singleton.mp hb ▸ ha
    · rw [hq]
      exact List.nodup_singleton a

/-- The visit of the sweep to a closed connection. -/
theorem WellPlaced.notice {s : Layer Cls Msg} (h : s.WellPlaced) (G : Generated Cls Msg) {w : ℕ}
    {a : Addr} {todo removeIds : List Addr} {c : Connection Msg} {junk : UInt64}
    (hp : (s.worker w).phase = .sweep (a :: todo) removeIds) (hc : s.heap a = some c) :
    (s.noticeStep G w a c.id todo removeIds junk).WellPlaced := by
  have hk := SameKeys.noticeStep h G w hc todo removeIds junk
  unfold Layer.noticeStep at hk ⊢
  split
  · exact h
  · next node hnode =>
    rw [hnode] at hk
    refine h.after (q := .closing a todo removeIds) hk (fun v hv => ?_) hp ?_ (List.Sublist.refl _)
      (fun _ ha => ha) rfl
    · rw [goto_worker, if_neg hv, modWorker_worker, if_neg hv]
      rfl
    · rw [goto_worker, if_pos rfl]
      rfl

/-- The queues of messages of a worker hold no addresses. -/
theorem WellPlaced.modWorker {s : Layer Cls Msg} (h : s.WellPlaced) (w : ℕ)
    {g : ThreadData Msg → ThreadData Msg} (hg : (g (s.worker w)).key = (s.worker w).key)
    (hp : (g (s.worker w)).phase = (s.worker w).phase) : (s.modWorker w g).WellPlaced := by
  refine h.of_same (SameKeys.modWorker s w hg) fun v => .inl ?_
  rw [modWorker_worker]
  split
  · next hv => rw [hv, hp]
  · rfl

/-- **Every step of a worker keeps the ownership invariant.** -/
theorem WellPlaced.workerStep {G : Generated Cls Msg} {s s' : Layer Cls Msg} {w : ℕ} {e : WorkerAct}
    (h : s.WellPlaced) (hs : WorkerStep G s w e s') : s'.WellPlaced := by
  cases hs with
  | top hp =>
    refine h.after (q := .drain) (SameKeys.modWorker s w rfl) (fun v hv => ?_) hp ?_
      (List.Sublist.refl _) (List.nil_subset _) rfl
    · rw [modWorker_worker, if_neg hv]
    · rw [modWorker_worker_self]
  | drain hp =>
    refine h.of_same (SameKeys.drainStep s w) fun v => ?_
    rw [drainStep, modWorker_worker]
    split
    · next hv =>
      subst hv
      rw [hp]
      exact .inr ⟨fun _ ha => ha, h.nodup (.registered v), List.nil_subset _, rfl⟩
    · exact .inl rfl
  | transferEnd hp => exact h.goto_sublist hp (List.Sublist.refl _) (List.nil_subset _) rfl
  | transferSkip hp hc hmsgs =>
    exact h.goto_sublist hp (List.sublist_cons_self _ _) (List.nil_subset _) rfl
  | @transferMove a todo c it rest hp hc hmsgs =>
    have hconn : (s.modConn a (.setRead rest)).WellPlaced :=
      h.modConn a fun _ => rfl
    exact hconn.modWorker w rfl rfl
  | push hp hq => exact h.push hq _
  | connectorsEnd hp hq => exact h.goto_all hp rfl rfl rfl
  | passEnd hp => exact h.goto_sublist hp (List.Sublist.refl _) (List.nil_subset _) rfl
  | passSkip hp hc hst =>
    exact h.goto_sublist hp (List.sublist_cons_self _ _) (List.nil_subset _) rfl
  | passVisit hp hc hst => exact h.goto_sublist hp (List.Sublist.refl _) (List.nil_subset _) rfl
  | readStart hp hc hread hst =>
    exact h.goto_sublist hp (List.Sublist.refl _) (List.nil_subset _) rfl
  | readSkip hp => exact h.goto_sublist hp (List.Sublist.refl _) (List.nil_subset _) rfl
  | writeStart hp => exact h.goto_sublist hp (List.Sublist.refl _) (List.nil_subset _) rfl
  | writeSkip hp => exact h.goto_sublist hp (List.sublist_cons_self _ _) (List.nil_subset _) rfl
  | @read a back c s₁ hp hc hr =>
    have hk := SameKeys.readStep h hc hr
    rw [← hk.2] at hp
    cases back with
    | none => exact (h.handler hk).goto_sublist hp (List.nil_sublist _) (List.nil_subset _) rfl
    | some todo =>
      exact (h.handler hk).goto_sublist hp (List.Sublist.refl _) (List.nil_subset _) rfl
  | @write a back c r s₁ hp hc he hr =>
    have hk := SameKeys.writeStep h hr
    rw [← hk.2] at hp
    cases back with
    | none => exact (h.handler hk).goto_sublist hp (List.nil_sublist _) (List.nil_subset _) rfl
    | some todo =>
      exact (h.handler hk).goto_sublist hp (List.sublist_cons_self _ _) (List.nil_subset _) rfl
  | readEvent hp ha hc hev =>
    refine h.event ?_ hp ha ?_
    · exact fun _ => rfl
    · split
      · exact .inl rfl
      · exact .inr ⟨rfl, rfl⟩
  | writeEvent hp ha hc =>
    refine h.event ?_ hp ha ?_
    · exact fun _ => rfl
    · split
      · exact .inl rfl
      · exact .inr ⟨rfl, rfl⟩
  | @dropped n st rest hp hq =>
    exact h.modWorker w (by simp [ThreadData.key, ThreadData.handed, ThreadData.take, hq]) rfl
  | accepted hp hq ha => exact h.registerNew hq ha.1
  | refused hp hq => exact h.refuse hp hq
  | connected hp hq hc => exact h.registerPre hp hq hc
  | pollEnd hp => exact h.goto_all hp (List.append_nil _) rfl rfl
  | callbackOk hp => exact h.goto_sublist hp (List.Sublist.refl _) (List.nil_subset _) rfl
  | callbackFail hp => exact h.freeRefused hp
  | sweepEnd hp => exact h.goto_sublist hp (List.Sublist.refl _) (fun _ ha => ha) rfl
  | sweepSkip hp hc hst =>
    exact h.goto_sublist hp (List.sublist_cons_self _ _) (fun _ ha => ha) rfl
  | notice hp hc hst => exact h.notice G hp hc
  | closing hp hc => exact h.closing hp
  | erase hp => exact h.erase hp
  | deleteEnd hp => exact h.goto_sublist hp (List.Sublist.refl _) (List.nil_subset _) rfl
  | deleteFree hp hq hc htime => exact h.freeRetired hp hq

/-- **Every step keeps the ownership invariant.** -/
theorem WellPlaced.step {G : Generated Cls Msg} {s s' : Layer Cls Msg} {a : Act Cls Msg}
    (h : s.WellPlaced) (hs : s.step G a = some s') : s'.WellPlaced := by
  cases a with
  | worker w e =>
    simp only [Layer.step, Option.ite_none_right_eq_some] at hs
    exact h.workerStep (workerStep_cases hs.2)
  | accept written =>
    simp only [Layer.step, Option.ite_none_right_eq_some, Option.some.injEq] at hs
    obtain ⟨-, rfl⟩ := hs
    have hlast : ({ s with lastThreadId := UInt64.ofNat s.nextThread } : Layer Cls Msg).WellPlaced :=
      h.handler ⟨⟨fun _ => rfl, fun _ => rfl, fun _ _ => rfl, fun _ => rfl, rfl, rfl⟩, rfl⟩
    exact hlast.modWorker _ (by simp [ThreadData.key, ThreadData.handed, ThreadData.give]) rfl
  | connect a =>
    simp only [Layer.step, Option.ite_none_right_eq_some, Option.some.injEq] at hs
    obtain ⟨ha, rfl⟩ := hs
    exact h.connect ha.1
  | getMsgs i =>
    simp only [Layer.step, Option.ite_none_right_eq_some, Option.some.injEq] at hs
    obtain ⟨-, rfl⟩ := hs
    have hout : ({ s with output := s.output ++ (s.worker i).tdReadMsgs } :
        Layer Cls Msg).WellPlaced :=
      h.handler ⟨⟨fun _ => rfl, fun _ => rfl, fun _ _ => rfl, fun _ => rfl, rfl, rfl⟩, rfl⟩
    exact hout.modWorker i rfl rfl
  | send w it =>
    simp only [Layer.step, Option.ite_none_right_eq_some, Option.some.injEq] at hs
    obtain ⟨-, rfl⟩ := hs
    have hpush : ({ s with pushes := s.pushes ++ [it] } : Layer Cls Msg).WellPlaced :=
      h.handler ⟨⟨fun _ => rfl, fun _ => rfl, fun _ _ => rfl, fun _ => rfl, rfl, rfl⟩, rfl⟩
    exact hpush.modWorker w rfl rfl
  | close a =>
    obtain ⟨c, hc, hs⟩ := Option.bind_eq_some_iff.mp hs
    simp only [Option.ite_none_right_eq_some, Option.some.injEq] at hs
    obtain ⟨-, rfl⟩ := hs
    exact h.handler ⟨SameKeys.connClose h a, connClose_worker s a⟩
  | clock t =>
    cases hs
    exact h.handler ⟨⟨fun _ => rfl, fun _ => rfl, fun _ _ => rfl, fun _ => rfl, rfl, rfl⟩, rfl⟩
  | regist msgType init =>
    cases hs
    exact h.handler ⟨⟨fun _ => rfl, fun _ => rfl, fun _ _ => rfl, fun _ => rfl, rfl, rfl⟩, rfl⟩

theorem wellPlaced_start (threadNum : ℕ) (registry : Registry Cls) (clock : ℕ) :
    (start threadNum registry clock : Layer Cls Msg).WellPlaced := by
  have hheap : ∀ {a c}, (start threadNum registry clock : Layer Cls Msg).heap a ≠ some c :=
    fun hc => nomatch hc
  have hholds : ∀ p, (start threadNum registry clock : Layer Cls Msg).holds p = [] := by
    intro p
    cases p <;> rfl
  refine ⟨⟨fun hc => absurd hc hheap, fun hc => absurd hc hheap, fun hc => absurd hc hheap,
    fun hc => absurd hc hheap, fun hc => absurd hc hheap, fun _ => rfl⟩, ?_, ?_, ?_, ?_⟩
  · intro p a ha
    rw [hholds] at ha
    cases ha
  · intro p
    rw [hholds]
    exact List.nodup_nil
  · exact fun _ => .of_nil rfl
  · exact fun _ => List.nodup_nil

end Layer

/-- **In every reachable state each object is in one place.** -/
theorem wellPlaced_of_reach {G : Generated Cls Msg} {C : Layer Cls Msg → Act Cls Msg → Prop}
    {s : Layer Cls Msg} (h : (netSystem G).Reach C s) : s.WellPlaced := by
  refine h.invariant ?_ ?_
  · rintro s ⟨threadNum, registry, clock, rfl⟩
    exact Layer.wellPlaced_start threadNum registry clock
  · exact fun s a s' hs _ hstep => hs.step hstep

end GoFight.Net
