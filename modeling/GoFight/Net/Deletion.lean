import GoFight.Net.Order

/-!
# Deferred deletion

What the sweep takes out of `thread_connections_` stays on the heap until 120 seconds after it was
closed; `for_delete_connections_` maps close times to these objects.

* `DeletionExact` — a swept object is in the map until it is deleted, is deleted by the first
  iteration whose `now` is more than 120 seconds after its close time, and not before;
* `ClosesApart` — the condition on a step: the clock does not go back, and when the sweep writes an
  entry the map has none with the same time, which would be overwritten;
* `Listed` — the invariant; `Spares` — an update that leaves alone what has been swept: most do;
* `deletionExact_of_reach` — the run theorem.
-/

namespace GoFight.Net

open GoFight.Lib

/-! ### The map from close times -/

section InsertTime

variable {t : ℕ} {a : Addr} {l : List (ℕ × Addr)} {e : ℕ × Addr}

theorem mem_insertTime_self (t : ℕ) (a : Addr) (l : List (ℕ × Addr)) : (t, a) ∈ insertTime t a l := by
  induction l with
  | nil => exact List.mem_singleton_self _
  | cons d l ih =>
    obtain ⟨u, b⟩ := d
    rw [insertTime]
    split
    · exact List.mem_cons_self
    · split
      · exact List.mem_cons_self
      · exact List.mem_cons_of_mem _ ih

/-- An entry with another time stays. -/
theorem mem_insertTime_of_mem (he : e ∈ l) (ht : e.1 ≠ t) : e ∈ insertTime t a l := by
  induction l with
  | nil => cases he
  | cons d l ih =>
    obtain ⟨u, b⟩ := d
    rw [insertTime]
    split
    · exact List.mem_cons_of_mem _ he
    · split
      · next hu =>
        rcases List.mem_cons.mp he with rfl | he
        · exact absurd hu.symm ht
        · exact List.mem_cons_of_mem _ he
      · rcases List.mem_cons.mp he with rfl | he
        · exact List.mem_cons_self
        · exact List.mem_cons_of_mem _ (ih he)

theorem insertTime_pairwise (hl : l.Pairwise fun d e => d.1 < e.1) :
    (insertTime t a l).Pairwise fun d e => d.1 < e.1 := by
  induction l with
  | nil => simp [insertTime]
  | cons d l ih =>
    obtain ⟨u, b⟩ := d
    obtain ⟨hhead, htail⟩ := List.pairwise_cons.mp hl
    rw [insertTime]
    split
    · next htu =>
      refine List.pairwise_cons.mpr ⟨fun e he => ?_, hl⟩
      rcases List.mem_cons.mp he with rfl | he
      · exact htu
      · exact htu.trans (hhead e he)
    · split
      · next htu => exact List.pairwise_cons.mpr ⟨fun e he => htu ▸ hhead e he, htail⟩
      · refine List.pairwise_cons.mpr ⟨fun e he => ?_, ih htail⟩
        rcases Layer.mem_insertTime he with rfl | he
        · show u < t
          omega
        · exact hhead e he

end InsertTime

variable {Cls Msg : Type*}

/-- The part of an object the invariant reads. -/
def Connection.age (c : Connection Msg) : Place × ConnState × ℕ := (c.place, c.state, c.closeTime)

theorem Phase.removing_subset_addrs (p : Phase) : p.removing ⊆ p.addrs := by
  cases p with
  | sweep todo removeIds => exact List.subset_append_right _ _
  | closing a todo removeIds => exact fun _ h => List.mem_cons_of_mem _ (List.mem_append_right _ h)
  | erase removeIds => exact List.Subset.refl _
  | _ => exact List.nil_subset _

namespace Layer

/-- What the deletion of swept objects of worker `w` comes to. -/
structure DeletionExact (s : Layer Cls Msg) (w : ℕ) : Prop where
  /-- Until it is deleted, a swept object is in `for_delete_connections_`. -/
  listed : ∀ {a c}, s.heap a = some c → c.place = .retired w →
    (c.closeTime, a) ∈ (s.worker w).forDelete
  /-- The deletion loop finds a swept object at each entry, and none twice. -/
  once : (s.worker w).phase = .delete → ((s.worker w).forDelete.map Prod.snd).Nodup ∧
    ∀ a ∈ (s.worker w).forDelete.map Prod.snd, s.placeAt a = some (.retired w)
  /-- At the end of an iteration every object that was due has been deleted. -/
  due : (s.worker w).phase = .top → ∀ {a c}, s.heap a = some c → c.place = .retired w →
    (s.worker w).now ≤ c.closeTime + 2 * 60
  /-- What has been deleted was due. -/
  late : ∀ {id}, (s.life id).deleted = true → (s.life id).owner = some w →
    ∃ t n, (s.life id).closed = some (t, n) ∧ t + 2 * 60 < (s.worker w).now

/-- No entry of `for_delete_connections_` is overwritten in the step, and the clock does not go
back. -/
def ClosesApart (s : Layer Cls Msg) : Act Cls Msg → Prop
  | .worker w _ =>
      match (s.worker w).phase with
      | .closing a _ _ =>
          ∀ e ∈ (s.worker w).forDelete, some e.1 ≠ (s.heap a).map Connection.closeTime
      | _ => True
  | .clock t => s.clock ≤ t
  | _ => True

instance (s : Layer Cls Msg) (a : Act Cls Msg) : Decidable (s.ClosesApart a) := by
  unfold ClosesApart
  split
  · split <;> infer_instance
  · infer_instance
  · infer_instance

/-! ### The invariant -/

/-- The invariant: what has been swept is in the map under its close time, and the map is in order. -/
structure Listed (s : Layer Cls Msg) : Prop where
  sorted : ∀ w, (s.worker w).forDelete.Pairwise fun d e => d.1 < e.1
  entry : ∀ {w t a}, (t, a) ∈ (s.worker w).forDelete →
    ∃ c, s.heap a = some c ∧ c.state = .close ∧ c.closeTime = t
  retired : ∀ {w a c}, s.heap a = some c → c.place = .retired w →
    a ∈ (s.worker w).forDelete.map Prod.snd
  removing : ∀ {w a}, a ∈ (s.worker w).phase.removing → a ∈ (s.worker w).forDelete.map Prod.snd
  due : ∀ {w}, (s.worker w).phase = .top → ∀ e ∈ (s.worker w).forDelete,
    (s.worker w).now ≤ e.1 + 2 * 60
  now_le : ∀ w, (s.worker w).now ≤ s.clock
  late : ∀ {id w}, (s.life id).deleted = true → (s.life id).owner = some w →
    ∃ t n, (s.life id).closed = some (t, n) ∧ t + 2 * 60 < (s.worker w).now

variable {G : Generated Cls Msg} {s s' s'' : Layer Cls Msg}

theorem Listed.deletionExact (h : s.Listed) (hw : s.WellPlaced) (w : ℕ) : s.DeletionExact w := by
  have hlisted : ∀ {a c}, s.heap a = some c → c.place = .retired w →
      (c.closeTime, a) ∈ (s.worker w).forDelete := by
    intro a c hc hp
    obtain ⟨⟨t, b⟩, he, rfl⟩ := List.mem_map.mp (h.retired hc hp)
    obtain ⟨d, hd, -, rfl⟩ := h.entry he
    rw [hc, Option.some.injEq] at hd
    exact hd ▸ he
  refine ⟨hlisted, fun hp => ⟨hw.deletable_nodup w, fun a ha => ?_⟩, fun hp a c hc hr => ?_,
    fun hd ho => h.late hd ho⟩
  · refine hw.placed (p := .retired w) (List.mem_filter.mpr ⟨ha, ?_⟩)
    rw [hp]
    rfl
  · exact h.due hp _ (hlisted hc hr)

/-! ### Updates that leave what has been swept alone -/

/-- Closed objects stay closed, nothing is swept or deleted that was registered, and the maps stay. -/
structure Spares (s s' : Layer Cls Msg) : Prop where
  closed : ∀ {a c}, s.heap a = some c → c.state = .close →
    ∃ c', s'.heap a = some c' ∧ c'.state = .close ∧ c'.closeTime = c.closeTime
  retired : ∀ {a c' w}, s'.heap a = some c' → c'.place = .retired w →
    ∃ c, s.heap a = some c ∧ c.place = .retired w
  gone : ∀ {id w}, (s'.life id).deleted = true → (s'.life id).owner = some w →
    (s.life id).deleted = true ∧ (s.life id).owner = some w ∧ (s'.life id).closed = (s.life id).closed
  forDelete : ∀ w, (s'.worker w).forDelete = (s.worker w).forDelete
  removing : ∀ w, (s'.worker w).phase.removing ⊆ (s.worker w).phase.removing
  top : ∀ w, (s'.worker w).phase = .top → (s.worker w).phase = .top
  now : ∀ w, (s'.worker w).now = (s.worker w).now
  clock : s.clock ≤ s'.clock

theorem Listed.of_spares (h : s.Listed) (k : Spares s s') : s'.Listed where
  sorted w := by
    rw [k.forDelete]
    exact h.sorted w
  entry he := by
    rw [k.forDelete] at he
    obtain ⟨c, hc, hst, ht⟩ := h.entry he
    obtain ⟨c', hc', hst', ht'⟩ := k.closed hc hst
    exact ⟨c', hc', hst', ht'.trans ht⟩
  retired hc hp := by
    obtain ⟨c, hc, hp⟩ := k.retired hc hp
    rw [k.forDelete]
    exact h.retired hc hp
  removing ha := by
    rw [k.forDelete]
    exact h.removing (k.removing _ ha)
  due hp e he := by
    rw [k.forDelete] at he
    rw [k.now]
    exact h.due (k.top _ hp) e he
  now_le w := by
    rw [k.now]
    exact (h.now_le w).trans k.clock
  late hd ho := by
    obtain ⟨hd, ho, hcl⟩ := k.gone hd ho
    rw [hcl, k.now]
    exact h.late hd ho

theorem Writes.age {f : Connection Msg → Connection Msg} (hf : Writes G f) (c : Connection Msg) :
    (f c).age = c.age := by
  show (f c).readSide.age = c.readSide.age
  rw [hf.readSide]

namespace Spares

theorem trans (h₁ : Spares s s') (h₂ : Spares s' s'') : Spares s s'' where
  closed hc hst := by
    obtain ⟨c', hc', hst', ht'⟩ := h₁.closed hc hst
    obtain ⟨c'', hc'', hst'', ht''⟩ := h₂.closed hc' hst'
    exact ⟨c'', hc'', hst'', ht''.trans ht'⟩
  retired hc hp := by
    obtain ⟨c', hc', hp'⟩ := h₂.retired hc hp
    exact h₁.retired hc' hp'
  gone hd ho := by
    obtain ⟨hd', ho', hcl'⟩ := h₂.gone hd ho
    obtain ⟨hd, ho, hcl⟩ := h₁.gone hd' ho'
    exact ⟨hd, ho, hcl'.trans hcl⟩
  forDelete w := (h₂.forDelete w).trans (h₁.forDelete w)
  removing w _ ha := h₁.removing w (h₂.removing w ha)
  top w hp := h₁.top w (h₂.top w hp)
  now w := (h₂.now w).trans (h₁.now w)
  clock := h₁.clock.trans h₂.clock

/-- The objects keep their places and close times, and nothing else that matters changes. -/
theorem of_kept (hk : Kept Connection.age s s') (hlife : s'.life = s.life)
    (hworker : s'.worker = s.worker) (hclock : s'.clock = s.clock) : Spares s s' where
  closed hc hst := by
    obtain ⟨c', hc', hage⟩ := hk.symm.exists_of_some hc
    simp only [Connection.age, Prod.mk.injEq] at hage
    exact ⟨c', hc', hage.2.1.trans hst, hage.2.2⟩
  retired hc hp := by
    obtain ⟨c, hc, hage⟩ := hk.exists_of_some hc
    simp only [Connection.age, Prod.mk.injEq] at hage
    exact ⟨c, hc, hage.1.trans hp⟩
  gone hd ho := by
    rw [hlife] at hd ho
    exact ⟨hd, ho, by rw [hlife]⟩
  forDelete w := by rw [hworker]
  removing w := by
    rw [hworker]
    exact List.Subset.refl _
  top w hp := by rwa [hworker] at hp
  now w := by rw [hworker]
  clock := hclock.ge

theorem refl (s : Layer Cls Msg) : Spares s s := of_kept (.refl s) rfl rfl rfl

/-- The object at `a` is in no map yet, and is put in none. -/
theorem modConn (s : Layer Cls Msg) (a : Addr) {f : Connection Msg → Connection Msg}
    (hst : ∀ c, s.heap a = some c → c.state = .close →
      (f c).state = .close ∧ (f c).closeTime = c.closeTime)
    (hp : ∀ c w, s.heap a = some c → (f c).place = .retired w → c.place = .retired w) :
    Spares s (s.modConn a f) := by
  constructor
  · intro b c hc hclose
    rw [modConn_heap]
    split
    · next hb =>
      rw [hb] at hc ⊢
      exact ⟨f c, by rw [hc, Option.map_some], hst c hc hclose⟩
    · exact ⟨c, hc, hclose, rfl⟩
  · intro b c' w hc' hret
    rw [modConn_heap] at hc'
    split at hc'
    · next hb =>
      rw [hb] at hc' ⊢
      obtain ⟨c, hc, rfl⟩ := Option.map_eq_some_iff.mp hc'
      exact ⟨c, hc, hp c w hc hret⟩
    · exact ⟨c', hc', hret⟩
  · exact fun hd ho => ⟨hd, ho, rfl⟩
  · exact fun _ => rfl
  · exact fun _ _ ha => ha
  · exact fun _ hp => hp
  · exact fun _ => rfl
  · exact le_rfl

theorem modWorker (s : Layer Cls Msg) (w : ℕ) {g : ThreadData Msg → ThreadData Msg}
    (hdel : (g (s.worker w)).forDelete = (s.worker w).forDelete)
    (hrem : (g (s.worker w)).phase.removing ⊆ (s.worker w).phase.removing)
    (htop : (g (s.worker w)).phase = .top → (s.worker w).phase = .top)
    (hnow : (g (s.worker w)).now = (s.worker w).now) : Spares s (s.modWorker w g) := by
  refine ⟨fun hc hst => ⟨_, hc, hst, rfl⟩, fun hc hp => ⟨_, hc, hp⟩, fun hd ho => ⟨hd, ho, rfl⟩,
    fun v => ?_, fun v => ?_, fun v => ?_, fun v => ?_, le_rfl⟩
  all_goals
    rw [modWorker_worker]
    by_cases hv : v = w
  · rw [if_pos hv, hv, hdel]
  · rw [if_neg hv]
  · rw [if_pos hv, hv]
    exact hrem
  · rw [if_neg hv]
    exact List.Subset.refl _
  · rw [if_pos hv, hv]
    exact htop
  · rw [if_neg hv]
    exact id
  · rw [if_pos hv, hv, hnow]
  · rw [if_neg hv]

/-- A worker goes on to a phase that sweeps no more than the last, and is not at the end. -/
theorem goto (s : Layer Cls Msg) {w : ℕ} {p q : Phase} (hp : (s.worker w).phase = p)
    (hr : q.removing ⊆ p.removing) (ht : q ≠ .top) : Spares s (s.goto w q) :=
  modWorker s w rfl (by rw [hp]; exact hr) (fun h => absurd h ht) rfl

/-- The history of an object that is still there. -/
theorem modLife (s : Layer Cls Msg) {id : ℕ} {h : Life Msg → Life Msg}
    (hid : (s.life id).deleted = false) (hh : ∀ l, (h l).deleted = l.deleted) :
    Spares s (s.modLife id h) := by
  refine ⟨fun hc hst => ⟨_, hc, hst, rfl⟩, fun hc hp => ⟨_, hc, hp⟩, fun {v w} hd ho => ?_,
    fun _ => rfl, fun _ _ ha => ha, fun _ hp => hp, fun _ => rfl, le_rfl⟩
  rw [modLife_life] at hd ho ⊢
  by_cases hv : v = id
  · rw [if_pos hv, hh, hv, hid] at hd
    cases hd
  · rw [if_neg hv] at hd ho ⊢
    exact ⟨hd, ho, rfl⟩

theorem connClose (hw : s.Objects) (a : Addr) : Spares s (s.connClose a) := by
  unfold Layer.connClose
  split
  · exact refl s
  · next c hc =>
    split
    · exact refl s
    · next hst =>
      refine .trans (modConn s a (f := .shut s.clock) (fun d hd hclose => ?_) fun _ _ _ hp => hp)
        (modLife _ (hw.not_deleted hc) fun _ => by rfl)
      rw [hc, Option.some.injEq] at hd
      exact absurd (hd ▸ hclose) hst

/-- A part of an object that matters to no map. -/
theorem modConn_age (s : Layer Cls Msg) (a : Addr) {f : Connection Msg → Connection Msg}
    (hf : ∀ c, (f c).age = c.age) : Spares s (s.modConn a f) :=
  of_kept (Kept.modConn s a hf) rfl rfl rfl

theorem alloc (s : Layer Cls Msg) {a : Addr} (ha : s.heap a = none) {p : Place}
    (hp : ∀ w, p ≠ .retired w) (k : Bool) : Spares s (s.alloc a p k) := by
  refine ⟨fun {b c} hc hst => ?_, fun {b c' w} hc hret => ?_, fun {id w} hd ho => ?_,
    fun _ => rfl, fun _ _ ha => ha, fun _ hp => hp, fun _ => rfl, le_rfl⟩
  · have hb : b ≠ a := fun hb => by
      rw [hb, ha] at hc
      cases hc
    exact ⟨c, by rw [alloc_heap, if_neg hb, hc], hst, rfl⟩
  · rw [alloc_heap] at hc
    split at hc
    · cases hc
      exact absurd hret (hp w)
    · exact ⟨c', hc, hret⟩
  · rw [alloc_life] at hd ho ⊢
    split at hd
    · cases hd
    · next hid =>
      rw [if_neg hid] at ho ⊢
      exact ⟨hd, ho, rfl⟩

/-- The deletion of an object that was never registered. -/
theorem free (hw : s.Objects) (hst : s.Stamped) {a : Addr}
    (ha : ∀ c, s.heap a = some c → c.td = none) : Spares s (s.free a) := by
  cases hc : s.heap a with
  | none =>
    have hsame : s.free a = s := by
      unfold Layer.free
      rw [hc]
    rw [hsame]
    exact refl s
  | some c =>
    have htd : c.td = none := ha c hc
    refine ⟨fun {b d} hd hclose => ?_, fun {b d w} hd hret => ?_, fun {id w} hd ho => ?_,
      fun w => ?_, fun w => ?_, fun w => ?_, fun w => ?_, ?_⟩
    · have hb : b ≠ a := fun hb => by
        rw [hb, hc, Option.some.injEq] at hd
        exact hst.unregistered hc htd (hd ▸ hclose)
      exact ⟨d, by rw [free_heap, if_neg hb, hd], hclose, rfl⟩
    · rw [free_heap] at hd
      split at hd
      · cases hd
      · exact ⟨d, hd, hret⟩
    · rw [free_life hc] at hd ho ⊢
      by_cases hid : id = c.id
      · rw [if_pos hid, hid] at ho
        have hnone : (s.life c.id).owner = none := (hw.owner hc).trans htd
        have hsome : (s.life c.id).owner = some w := ho
        rw [hnone] at hsome
        cases hsome
      · rw [if_neg hid] at hd ho ⊢
        exact ⟨hd, ho, rfl⟩
    · rw [free_worker]
    · rw [free_worker]
      exact List.Subset.refl _
    · rw [free_worker]
      exact id
    · rw [free_worker]
    · unfold Layer.free
      rw [hc]
      exact le_rfl

theorem setPlace (s : Layer Cls Msg) (a : Addr) {p : Place} (hp : ∀ w, p ≠ .retired w) :
    Spares s (s.setPlace a p) :=
  modConn s a (f := .setPlace p) (fun _ _ hst => ⟨hst, rfl⟩) fun _ w _ h => absurd h (hp w)

theorem giveWorker (s : Layer Cls Msg) (ci : ConnInfo) (written : Bool) :
    Spares s (s.giveWorker ci written) := by
  have hlast : Spares s { s with lastThreadId := UInt64.ofNat s.nextThread } :=
    of_kept (.refl s) rfl rfl rfl
  exact hlast.trans (modWorker _ _ rfl (List.Subset.refl _) id rfl)

/-- A queue of `Connection`s or messages of a worker changes, and its phase stays. -/
theorem queue (s : Layer Cls Msg) (w : ℕ) {g : ThreadData Msg → ThreadData Msg}
    (hdel : ∀ t, (g t).forDelete = t.forDelete) (hphase : ∀ t, (g t).phase = t.phase)
    (hnow : ∀ t, (g t).now = t.now) : Spares s (s.modWorker w g) := by
  apply modWorker s w (hdel _)
  · rw [hphase]
    exact List.Subset.refl _
  · rw [hphase]
    exact id
  · exact hnow _

theorem registerConn (hw : s.Objects) (hst : s.Stamped) {w : ℕ} {a : Addr} {c : Connection Msg}
    (hc : s.heap a = some c) (htd : c.td = none) (st : ConnState) :
    Spares s (s.registerConn w a c.id st) := by
  rw [Layer.registerConn]
  refine .trans (modConn s a (f := initConn w st) (fun d hd hclose => ?_)
    fun _ _ _ hp => by cases hp) (.trans (modLife _ ?_ fun _ => by rfl) (queue _ w ?_ ?_ ?_))
  · rw [hc, Option.some.injEq] at hd
    exact absurd (hd ▸ hclose) (hst.unregistered hc htd)
  · exact hw.not_deleted hc
  · exact fun _ => rfl
  · exact fun _ => rfl
  · exact fun _ => rfl

theorem readStep (hw : s.WellPlaced) {a : Addr} {c : Connection Msg} (hc : s.heap a = some c)
    (hr : ReadStep G s a c s') : Spares s s' := by
  cases hr with
  | data =>
    refine .trans (modConn_age s a fun _ => by rfl) (modLife _ ?_ fun _ => by rfl)
    exact hw.not_deleted hc
  | again => exact modConn_age s a fun _ => by rfl
  | shut | failed =>
    refine .trans (modConn_age s a fun _ => by rfl) (connClose ?_ a)
    exact (hw.modConn a fun _ => by rfl).toObjects

theorem writeStep (hw : s.WellPlaced) {a : Addr} {r : WriteResult} (hr : WriteStep G s a r s') :
    Spares s s' := by
  cases hr with
  | quiet hf => exact modConn_age s a hf.age
  | failed _ hf => exact .trans (modConn_age s a hf.age) (connClose (hw.modConn a hf.key).toObjects a)

end Spares

/-! ### The steps that age, list and delete -/

/-- `now = get_s_time()`. -/
theorem Listed.top (h : s.Listed) (w : ℕ) :
    (s.modWorker w fun t => { t with now := s.clock, phase := .drain }).Listed := by
  have hdel : ∀ v, ((s.modWorker w fun t => { t with now := s.clock, phase := .drain }).worker v).forDelete =
      (s.worker v).forDelete := by
    intro v
    rw [modWorker_worker]
    split <;> rfl
  constructor
  · intro v
    rw [hdel]
    exact h.sorted v
  · intro v t a he
    rw [hdel] at he
    exact h.entry he
  · intro v a c hc hp
    rw [hdel]
    exact h.retired hc hp
  · intro v a ha
    rw [hdel]
    rw [modWorker_worker] at ha
    split at ha
    · cases ha
    · exact h.removing ha
  · intro v hp
    rw [modWorker_worker] at hp ⊢
    split at hp
    · cases hp
    · next hv =>
      rw [if_neg hv]
      exact h.due hp
  · intro v
    rw [modWorker_worker]
    split
    · exact le_rfl
    · exact h.now_le v
  · intro id v hd ho
    obtain ⟨t, n, hcl, ht⟩ := h.late hd ho
    refine ⟨t, n, hcl, ?_⟩
    rw [modWorker_worker]
    split
    · exact ht.trans_le (h.now_le v)
    · exact ht

/-- The sweep writes an entry, and no other has its time. -/
theorem Listed.closing (h : s.Listed) {w : ℕ} {a : Addr} {todo removeIds : List Addr}
    {c : Connection Msg} (hp : (s.worker w).phase = .closing a todo removeIds)
    (hc : s.heap a = some c) (hst : c.state = .close)
    (hfree : ∀ e ∈ (s.worker w).forDelete, e.1 ≠ c.closeTime) :
    (s.closingStep w a c.closeTime todo removeIds).Listed := by
  have hk : Kept Connection.age s (s.modConn a connInternalClose) := Kept.modConn s a fun _ => rfl
  have hmem : ∀ v b, b ∈ (s.worker v).forDelete.map Prod.snd →
      b ∈ ((s.closingStep w a c.closeTime todo removeIds).worker v).forDelete.map Prod.snd := by
    intro v b hb
    rw [closingStep, modWorker_worker]
    split
    · next hv =>
      subst hv
      obtain ⟨e, he, rfl⟩ := List.mem_map.mp hb
      exact List.mem_map_of_mem (mem_insertTime_of_mem he (hfree e he))
    · exact hb
  constructor
  · intro v
    rw [closingStep, modWorker_worker]
    split
    · exact insertTime_pairwise (h.sorted v)
    · exact h.sorted v
  · intro v t b he
    have hold : ∃ d, s.heap b = some d ∧ d.state = .close ∧ d.closeTime = t := by
      rw [closingStep, modWorker_worker] at he
      split at he
      · rcases mem_insertTime he with hnew | he
        · rw [Prod.mk.injEq] at hnew
          exact ⟨c, hnew.2 ▸ hc, hst, hnew.1.symm⟩
        · exact h.entry he
      · exact h.entry he
    obtain ⟨d, hd, hclose, rfl⟩ := hold
    obtain ⟨d', hd', hage⟩ := hk.symm.exists_of_some hd
    simp only [Connection.age, Prod.mk.injEq] at hage
    exact ⟨d', hd', hage.2.1.trans hclose, hage.2.2⟩
  · intro v b d hd hret
    obtain ⟨d', hd', hage⟩ := hk.exists_of_some (a := b) hd
    simp only [Connection.age, Prod.mk.injEq] at hage
    exact hmem v b (h.retired hd' (hage.1.trans hret))
  · intro v b hb
    have hcases : b ∈ (s.worker v).phase.removing ∨ v = w ∧ b = a := by
      rw [closingStep, modWorker_worker] at hb
      split at hb
      · next hv =>
        subst hv
        rw [hp]
        rcases List.mem_append.mp hb with hb | hb
        · exact .inl hb
        · exact .inr ⟨rfl, List.mem_singleton.mp hb⟩
      · exact .inl hb
    rcases hcases with hb | ⟨rfl, rfl⟩
    · exact hmem v b (h.removing hb)
    · rw [closingStep, modWorker_worker_self]
      exact List.mem_map.mpr ⟨_, mem_insertTime_self _ _ _, rfl⟩
  · intro v htop
    rw [closingStep, modWorker_worker] at htop ⊢
    split at htop
    · cases htop
    · next hv =>
      rw [if_neg hv]
      exact h.due htop
  · intro v
    rw [closingStep, modWorker_worker]
    split <;> exact h.now_le v
  · intro id v hd ho
    obtain ⟨t, n, hcl, ht⟩ := h.late hd ho
    refine ⟨t, n, hcl, ?_⟩
    rw [closingStep, modWorker_worker]
    split <;> exact ht

/-- What leaves `thread_connections_` is in the map. -/
theorem Listed.erase (h : s.Listed) {w : ℕ} {removeIds : List Addr}
    (hp : (s.worker w).phase = .erase removeIds) : (s.eraseStep w removeIds).Listed := by
  have hk : Kept (fun c => (c.state, c.closeTime)) s (s.eraseStep w removeIds) :=
    Kept.retire s w removeIds fun _ => rfl
  have hdel : ∀ v, ((s.eraseStep w removeIds).worker v).forDelete = (s.worker v).forDelete := by
    intro v
    rw [eraseStep, modWorker_worker]
    split <;> rfl
  constructor
  · intro v
    rw [hdel]
    exact h.sorted v
  · intro v t b he
    rw [hdel] at he
    obtain ⟨c, hc, hst, rfl⟩ := h.entry he
    obtain ⟨c', hc', hage⟩ := hk.symm.exists_of_some hc
    rw [Prod.mk.injEq] at hage
    exact ⟨c', hc', hage.1.trans hst, hage.2⟩
  · intro v b d hd hret
    have hd : s.retire w removeIds b = some d := hd
    rw [retire] at hd
    rw [hdel]
    split at hd
    · next hb =>
      obtain ⟨c, hc, rfl⟩ := Option.map_eq_some_iff.mp hd
      cases hret
      apply h.removing
      rw [hp]
      exact hb
    · exact h.retired hd hret
  · intro v b hb
    rw [hdel]
    rw [eraseStep, modWorker_worker] at hb
    split at hb
    · cases hb
    · exact h.removing hb
  · intro v htop
    rw [eraseStep, modWorker_worker] at htop ⊢
    split at htop
    · cases htop
    · next hv =>
      rw [if_neg hv]
      exact h.due htop
  · intro v
    rw [eraseStep, modWorker_worker]
    split <;> exact h.now_le v
  · intro id v hd ho
    obtain ⟨t, n, hcl, ht⟩ := h.late hd ho
    refine ⟨t, n, hcl, ?_⟩
    rw [eraseStep, modWorker_worker]
    split <;> exact ht

/-- The loop ends at the first entry that is not due, and the map is in order. -/
theorem Listed.not_due (h : s.Listed) {w : ℕ}
    (hq : ∀ t a rest c, (s.worker w).forDelete = (t, a) :: rest → s.heap a = some c →
      (s.worker w).now ≤ c.closeTime + 2 * 60) :
    ∀ e ∈ (s.worker w).forDelete, (s.worker w).now ≤ e.1 + 2 * 60 := by
  intro e he
  cases hl : (s.worker w).forDelete with
  | nil =>
    rw [hl] at he
    cases he
  | cons d rest =>
    obtain ⟨t, a⟩ := d
    obtain ⟨c, hc, -, ht⟩ := h.entry (w := w) (t := t) (a := a) (hl ▸ List.mem_cons_self)
    have hhead : (s.worker w).now ≤ t + 2 * 60 := ht ▸ hq t a rest c hl hc
    have hsorted := h.sorted w
    rw [hl] at he hsorted
    rcases List.mem_cons.mp he with rfl | he
    · exact hhead
    · have hlt : t < e.1 := (List.pairwise_cons.mp hsorted).1 e he
      omega

theorem Listed.deleteEnd (h : s.Listed) {w : ℕ}
    (hq : ∀ t a rest c, (s.worker w).forDelete = (t, a) :: rest → s.heap a = some c →
      (s.worker w).now ≤ c.closeTime + 2 * 60) : (s.goto w .top).Listed := by
  have hworker : ∀ v, ((s.goto w .top).worker v).forDelete = (s.worker v).forDelete ∧
      ((s.goto w .top).worker v).now = (s.worker v).now := by
    intro v
    rw [goto_worker]
    split <;> exact ⟨rfl, rfl⟩
  constructor
  · intro v
    rw [(hworker v).1]
    exact h.sorted v
  · intro v t b he
    rw [(hworker v).1] at he
    exact h.entry he
  · intro v b d hd hret
    rw [(hworker v).1]
    exact h.retired hd hret
  · intro v b hb
    rw [(hworker v).1]
    rw [goto_worker] at hb
    split at hb
    · cases hb
    · exact h.removing hb
  · intro v htop e he
    rw [(hworker v).1] at he
    rw [(hworker v).2]
    rw [goto_worker] at htop
    split at htop
    · next hv =>
      subst hv
      exact h.not_due hq e he
    · exact h.due htop e he
  · intro v
    rw [(hworker v).2]
    exact h.now_le v
  · intro id v hd ho
    rw [(hworker v).2]
    exact h.late hd ho

/-- What the map holds is being swept or has been. -/
theorem WellPlaced.placeAt_of_listed (hw : s.WellPlaced) {w : ℕ} {a : Addr}
    (ha : a ∈ (s.worker w).forDelete.map Prod.snd) :
    s.placeAt a = some (.registered w) ∨ s.placeAt a = some (.retired w) := by
  by_cases hr : a ∈ (s.worker w).phase.removing
  · exact .inl (hw.in_hand rfl (Phase.removing_subset_addrs _ hr))
  · exact .inr (hw.placed (p := .retired w) (List.mem_filter.mpr ⟨ha, by simpa using hr⟩))

/-- The first entry is due: its object and the entry go. -/
theorem Listed.deleteFree (h : s.Listed) (hw : s.WellPlaced) (hstamp : s.Stamped) {w t : ℕ}
    {a : Addr} {rest : List (ℕ × Addr)} {c : Connection Msg}
    (hp : (s.worker w).phase = .delete) (hq : (s.worker w).forDelete = (t, a) :: rest)
    (hc : s.heap a = some c) (htime : c.closeTime + 2 * 60 < (s.worker w).now) :
    ((s.free a).modWorker w fun t => { t with forDelete := rest }).Listed := by
  obtain ⟨c₁, hc₁, hst, ht⟩ := h.entry (w := w) (t := t) (a := a) (hq ▸ List.mem_cons_self)
  rw [hc, Option.some.injEq] at hc₁
  subst hc₁
  have hret : s.placeAt a = some (.retired w) := by
    refine hw.placed (p := .retired w) (List.mem_filter.mpr ⟨?_, ?_⟩)
    · rw [hq]
      exact List.mem_cons_self
    · rw [hp]
      rfl
  have hplace : c.place = .retired w := by
    rw [placeAt, hc, Option.map_some, Option.some.injEq] at hret
    exact hret
  have hworker : ∀ v, ((s.free a).modWorker w fun t => { t with forDelete := rest }).worker v =
      if v = w then { s.worker v with forDelete := rest } else s.worker v := by
    intro v
    rw [modWorker_worker, free_worker]
  have hsub : ∀ v e, e ∈ (((s.free a).modWorker w fun t => { t with forDelete := rest }).worker
      v).forDelete → e ∈ (s.worker v).forDelete := by
    intro v e he
    rw [hworker] at he
    split at he
    · next hv =>
      rw [hv, hq]
      exact List.mem_cons_of_mem _ he
    · exact he
  have hne : ∀ v u b, (u, b) ∈ (((s.free a).modWorker w fun t => { t with forDelete := rest }).worker
      v).forDelete → b ≠ a := by
    intro v u b he hba
    have hold := hw.placeAt_of_listed (List.mem_map_of_mem (f := Prod.snd) (hsub v _ he))
    rw [hba, hret] at hold
    have hv : v = w := by
      rcases hold with hv | hv
      · cases hv
      · cases hv
        rfl
    have hnd := hw.deletable_nodup w
    rw [hq] at hnd
    rw [hworker, if_pos hv] at he
    have hmem : b ∈ rest.map Prod.snd := List.mem_map_of_mem (f := Prod.snd) (a := (u, b)) he
    exact (List.nodup_cons.mp hnd).1 (hba ▸ hmem)
  have hback : ∀ v b, b ≠ a → b ∈ (s.worker v).forDelete.map Prod.snd →
      b ∈ (((s.free a).modWorker w fun t => { t with forDelete := rest }).worker
        v).forDelete.map Prod.snd := by
    intro v b hba hb
    rw [hworker]
    split
    · next hv =>
      rw [hv, hq] at hb
      exact (List.mem_cons.mp hb).resolve_left hba
    · exact hb
  constructor
  · intro v
    have hsorted := h.sorted v
    rw [hworker]
    split
    · next hv =>
      rw [hv, hq] at hsorted
      exact (List.pairwise_cons.mp hsorted).2
    · exact hsorted
  · intro v u b he
    obtain ⟨d, hd, hclose, hu⟩ := h.entry (hsub v _ he)
    refine ⟨d, ?_, hclose, hu⟩
    rw [modWorker_heap, free_heap, if_neg (hne v u b he), hd]
  · intro v b d hd hr
    rw [modWorker_heap, free_heap] at hd
    split at hd
    · cases hd
    · next hba => exact hback v b hba (h.retired hd hr)
  · intro v b hb
    have hold : b ∈ (s.worker v).phase.removing := by
      rw [hworker] at hb
      split at hb <;> exact hb
    refine hback v b (fun hba => ?_) (h.removing hold)
    have hreg := hw.in_hand (w := v) rfl (Phase.removing_subset_addrs _ hold)
    rw [hba, hret] at hreg
    cases hreg
  · intro v htop
    rw [hworker] at htop ⊢
    split at htop
    · next hv =>
      subst hv
      cases hp.symm.trans htop
    · next hv =>
      rw [if_neg hv]
      exact h.due htop
  · intro v
    have hclock : (s.free a).clock = s.clock := by
      unfold free
      rw [hc]
      rfl
    rw [hworker, modWorker_clock, hclock]
    split <;> exact h.now_le v
  · intro id v hd ho
    have hnow : (((s.free a).modWorker w fun t => { t with forDelete := rest }).worker v).now =
        (s.worker v).now := by
      rw [hworker]
      split <;> rfl
    rw [modWorker_life, free_life hc] at hd ho ⊢
    rw [hnow]
    by_cases hid : id = c.id
    · rw [if_pos hid, hid] at ho ⊢
      have hv : some v = some w := by
        rw [← ho]
        exact (hw.owner hc).trans (hw.td_of_place hret hc)
      have hclosed := hstamp.closed hc
      rw [if_pos hst] at hclosed
      obtain ⟨⟨t', n⟩, hcl, rfl⟩ := Option.map_eq_some_iff.mp hclosed
      exact ⟨_, n, hcl, (Option.some.inj hv) ▸ htime⟩
    · rw [if_neg hid] at hd ho ⊢
      exact h.late hd ho

/-! ### Every step -/

/-- What the sweep is at is closed. -/
theorem InOrder.closed_of_closing (ho : s.InOrder) (hw : s.WellPlaced) (hst : s.Stamped) {w : ℕ}
    {a : Addr} {todo removeIds : List Addr} {c : Connection Msg}
    (hp : (s.worker w).phase = .closing a todo removeIds) (hc : s.heap a = some c) :
    c.state = .close := by
  have hat : s.placeAt a = some (.registered w) := hw.in_hand hp List.mem_cons_self
  rw [placeAt, hc, Option.map_some, Option.some.injEq] at hat
  have hnoticed : (s.life c.id).noticed = true := by
    rw [ho.left hc]
    exact ⟨w, .inr ⟨hat, by rw [hp]; exact List.mem_cons_self⟩⟩
  obtain ⟨-, -, -, -, -, hclosed⟩ := ho.done hnoticed
  have hstamp := hst.closed hc
  by_contra hne
  rw [if_neg hne, Option.map_eq_none_iff] at hstamp
  rw [hstamp] at hclosed
  cases hclosed

/-- What a notification does leaves the swept objects alone. -/
theorem Spares.take (s : Layer Cls Msg) (w n : ℕ) (rest : List ConnInfo) :
    Spares s (s.modWorker w (.take n rest)) :=
  .queue s w (fun _ => by rfl) (fun _ => by rfl) fun _ => by rfl

theorem Listed.workerStep {w : ℕ} {e : WorkerAct} (h : s.Listed) (hw : s.WellPlaced)
    (hst : s.Stamped) (ho : s.InOrder) (hc : s.ClosesApart (.worker w e))
    (hs : WorkerStep G s w e s') : s'.Listed := by
  cases hs with
  | top => exact h.top w
  | drain hp =>
    have hheap : Spares s { s with
        heap := drainWrites (s.worker w).threadConnections s.heap (s.worker w).tdWriteMsgs } :=
      .of_kept (Kept.drainWrites (fun _ _ => rfl) _ _ s.heap) rfl rfl rfl
    rw [drainStep]
    exact h.of_spares (hheap.trans (.modWorker _ w rfl (List.nil_subset _) (by simp) rfl))
  | transferEnd hp | transferSkip hp | connectorsEnd hp | passEnd hp | passSkip hp | passVisit hp
  | readStart hp | readSkip hp | writeStart hp | writeSkip hp | pollEnd hp | callbackOk hp =>
    exact h.of_spares (.goto s hp (List.nil_subset _) (by simp))
  | sweepEnd hp | sweepSkip hp =>
    exact h.of_spares (.goto s hp (List.Subset.refl _) (by simp))
  | transferMove hp =>
    refine h.of_spares (.trans (.modConn_age s _ fun _ => by rfl) (.queue _ w ?_ ?_ ?_))
    all_goals exact fun _ => rfl
  | @push a rest written =>
    have hlist : Spares s (s.setConnectors rest) := .of_kept (.refl s) rfl rfl rfl
    exact h.of_spares (hlist.trans (.trans (.setPlace _ a (p := .handed s.nextThread) fun _ => (by simp))
      (.giveWorker _ _ _)))
  | @read a back c s₁ hp hc hr =>
    have hkeep := (SameKeys.readStep hw hc hr).2
    refine h.of_spares (.trans (.readStep hw hc hr) (.goto s₁ (p := .reading a back) ?_ ?_ ?_))
    · rw [hkeep, hp]
    · cases back <;> exact List.nil_subset _
    · cases back <;> simp [readReturn]
  | @write a back c r s₁ hp hc he hr =>
    have hkeep := (SameKeys.writeStep hw hr).2
    refine h.of_spares (.trans (.writeStep hw hr) (.goto s₁ (p := .writing a back) ?_ ?_ ?_))
    · rw [hkeep, hp]
    · cases back <;> exact List.nil_subset _
    · cases back <;> simp [writeReturn]
  | readEvent hp | writeEvent hp =>
    refine h.of_spares (.trans (.modConn_age s _ fun _ => by rfl) (.goto _ (p := .poll) hp ?_ ?_))
    · split <;> exact List.nil_subset _
    · split <;> simp
  | dropped => exact h.of_spares (.take s w _ _)
  | @accepted n st rest a hp hq ha =>
    have hobj : (s.modWorker w (.take n rest)).Objects := hw.toObjects.congr rfl rfl rfl
    have hstamp : (s.modWorker w (.take n rest)).Stamped := hst.modWorker w (take_subset hq)
    have halloc : Spares (s.modWorker w (.take n rest))
        ((s.modWorker w (.take n rest)).alloc a .connecting false) :=
      .alloc (s.modWorker w (.take n rest)) ha.1 (p := .connecting) (fun _ => (by simp)) false
    refine h.of_spares (.trans (.take s w n rest) (halloc.trans ?_))
    refine .registerConn (hobj.alloc a false rfl) (hstamp.alloc hobj a .connecting false)
      (c := .new s.nextId .connecting) ?_ rfl st
    rw [alloc_heap, if_pos rfl]
    rfl
  | @refused n st rest a hp hq =>
    refine h.of_spares (.trans (.take s w n rest) (.trans
      (.setPlace _ a (p := .refused w) fun _ => (by simp)) (.goto _ (p := .poll) ?_ (List.nil_subset _) (by simp))))
    show ((s.modWorker w (.take n rest)).worker w).phase = .poll
    rw [modWorker_worker_self, ThreadData.take, hp]
  | @connected n st rest a c hp hq hc =>
    have hat : s.placeAt a = some (.handed w) := hw.handed_of_cons hq
    have hobj : (s.modWorker w (.take n rest)).Objects := hw.toObjects.congr rfl rfl rfl
    have hstamp : (s.modWorker w (.take n rest)).Stamped := hst.modWorker w (take_subset hq)
    refine h.of_spares (.trans (.take s w n rest) (.trans
      (.registerConn hobj hstamp hc (hw.td_of_place hat hc) st)
      (.goto _ (p := .poll) ?_ (List.nil_subset _) (by simp))))
    rw [Layer.registerConn, modWorker_worker_self, ThreadData.register]
    show ((s.modWorker w (.take n rest)).worker w).phase = .poll
    rw [modWorker_worker_self, ThreadData.take, hp]
  | @callbackFail a hp =>
    have hat : s.placeAt a = some (.refused w) := by
      refine hw.placed (p := .refused w) ?_
      show a ∈ (s.worker w).phase.refusing
      rw [hp]
      exact List.mem_singleton_self a
    refine h.of_spares (.trans (.free hw.toObjects hst fun c hc => hw.td_of_place hat hc)
      (.goto _ (p := .callback a false) ?_ (List.nil_subset _) (by simp)))
    rw [free_worker, hp]
  | @notice a todo removeIds c junk hp hcon hclose =>
    rw [noticeStep]
    split
    · exact h
    · refine h.of_spares (.trans (.modLife s (hw.not_deleted hcon) fun _ => by rfl)
        (.trans (.queue _ w (fun _ => by rfl) (fun _ => by rfl) fun _ => by rfl) (.goto _
          (p := .sweep (a :: todo) removeIds) ?_ (List.Subset.refl _) (by simp))))
      · rw [modWorker_worker_self, ThreadData.queueRead]
        exact hp
  | @closing a todo removeIds c hp hcon =>
    refine h.closing hp hcon (ho.closed_of_closing hw hst hp hcon) fun e he ht => ?_
    simp only [ClosesApart, hp, hcon] at hc
    exact hc e he (congrArg some ht)
  | erase hp => exact h.erase hp
  | deleteEnd hp hq => exact h.deleteEnd hq
  | deleteFree hp hq hc htime => exact h.deleteFree hw hst hp hq hc htime

theorem Listed.step {a : Act Cls Msg} (h : s.Listed) (hw : s.WellPlaced) (hst : s.Stamped)
    (ho : s.InOrder) (hc : s.ClosesApart a) (hs : s.step G a = some s') : s'.Listed := by
  cases a with
  | worker w e =>
    simp only [Layer.step, Option.ite_none_right_eq_some] at hs
    exact h.workerStep hw hst ho hc (workerStep_cases hs.2)
  | accept written =>
    simp only [Layer.step, Option.ite_none_right_eq_some, Option.some.injEq] at hs
    obtain ⟨-, rfl⟩ := hs
    exact h.of_spares (.giveWorker s _ _)
  | connect a =>
    simp only [Layer.step, Option.ite_none_right_eq_some, Option.some.injEq] at hs
    obtain ⟨ha, rfl⟩ := hs
    refine h.of_spares (.trans (.alloc s ha.1 (p := .connecting) (fun _ => (by simp)) true) ?_)
    exact .of_kept (.refl _) rfl rfl rfl
  | getMsgs i =>
    simp only [Layer.step, Option.ite_none_right_eq_some, Option.some.injEq] at hs
    obtain ⟨-, rfl⟩ := hs
    have hout : Spares s { s with output := s.output ++ (s.worker i).tdReadMsgs } :=
      .of_kept (.refl s) rfl rfl rfl
    exact h.of_spares (hout.trans (.queue _ i (fun _ => by rfl) (fun _ => by rfl) fun _ => by rfl))
  | send w it =>
    simp only [Layer.step, Option.ite_none_right_eq_some, Option.some.injEq] at hs
    obtain ⟨-, rfl⟩ := hs
    have hpush : Spares s { s with pushes := s.pushes ++ [it] } := .of_kept (.refl s) rfl rfl rfl
    exact h.of_spares (hpush.trans (.queue _ w (fun _ => by rfl) (fun _ => by rfl) fun _ => by rfl))
  | close a =>
    obtain ⟨c, -, hs⟩ := Option.bind_eq_some_iff.mp hs
    simp only [Option.ite_none_right_eq_some, Option.some.injEq] at hs
    obtain ⟨-, rfl⟩ := hs
    exact h.of_spares (.connClose hw.toObjects a)
  | clock t =>
    cases hs
    have hle : s.clock ≤ t := hc
    exact ⟨h.sorted, h.entry, h.retired, h.removing, h.due, fun w => (h.now_le w).trans hle, h.late⟩
  | regist msgType init =>
    cases hs
    exact h.of_spares (.of_kept (.refl s) rfl rfl rfl)

theorem listed_start (threadNum : ℕ) (registry : Registry Cls) (clock : ℕ) :
    (start threadNum registry clock : Layer Cls Msg).Listed where
  sorted _ := List.Pairwise.nil
  entry := nofun
  retired := nofun
  removing := nofun
  due _ := nofun
  now_le _ := Nat.zero_le _
  late := nofun

end Layer

/-- **Deferred deletion is exact**, in every run whose clock does not go back and whose sweeps never
find an entry with the close time they are at. -/
theorem deletionExact_of_reach {G : Generated Cls Msg} {s : Layer Cls Msg}
    (h : (netSystem G).Reach Layer.ClosesApart s) (w : ℕ) : s.DeletionExact w := by
  have hlisted : s.Listed := by
    refine h.invariant_of ?_ fun s a s' hr hi hc hs => ?_
    · rintro s ⟨threadNum, registry, clock, rfl⟩
      exact Layer.listed_start threadNum registry clock
    · obtain ⟨hw, hst, ho⟩ := inOrder_of_reach hr
      exact hi.step hw hst ho hc hs
  exact hlisted.deletionExact (wellPlaced_of_reach h) w

/-- The run of `oneClient`, and the iteration 121 seconds later. -/
def oneClientDeleted : List (Act Protocol.MsgClass Protocol.Message) :=
  oneClient ++ .worker 0 .go :: .clock 121 :: List.replicate 10 (.worker 0 .go)

theorem deletionExact_oneClientDeleted : ∃ s,
    (netSystem Protocol.generated).exec (.start 1 Protocol.registry 0) oneClientDeleted = some s ∧
      (s.life 0).deleted = true ∧ s.DeletionExact 0 := by
  obtain ⟨s, hs, hdel⟩ : ∃ s,
      (netSystem Protocol.generated).exec (.start 1 Protocol.registry 0) oneClientDeleted = some s ∧
        (s.life 0).deleted = true := by
    refine Option.map_eq_some_iff.mp ?_
    decide +kernel
  have hc : (netSystem Protocol.generated).AllSteps Layer.ClosesApart
      (.start 1 Protocol.registry 0) oneClientDeleted := by
    decide +kernel
  exact ⟨s, hs, hdel, deletionExact_of_reach (.of_exec (.start ⟨1, Protocol.registry, 0, rfl⟩) hc hs) 0⟩

/-- Two clients are accepted and hang up in the same second. -/
def twoHangUps : List (Act Protocol.MsgClass Protocol.Message) :=
  .accept true :: .accept true ::
    ([.go, .go, .go, .go, .go, .notified true 16, .notified true 32, .readEvent 16, .read .eof,
      .readEvent 32, .read .eof, .go, .notice 0, .go, .notice 0, .go, .go, .go].map (.worker 0))

/-- The entry of the first is overwritten: nothing holds that object any more. -/
theorem not_deletionExact_twoHangUps : ∃ s,
    (netSystem Protocol.generated).Reach Lts.Free s ∧ ¬ s.DeletionExact 0 := by
  obtain ⟨s, hs, hrun⟩ : ∃ s,
      (netSystem Protocol.generated).exec (.start 1 Protocol.registry 0) twoHangUps = some s ∧
        ((s.heap 16).map Connection.place, (s.worker 0).forDelete) =
          (some (.retired 0), [(0, 32)]) := by
    refine Option.map_eq_some_iff.mp ?_
    decide +kernel
  rw [Prod.mk.injEq] at hrun
  obtain ⟨hplace, hmap⟩ := hrun
  obtain ⟨c, hc, hp⟩ := Option.map_eq_some_iff.mp hplace
  refine ⟨s, .of_exec (.start ⟨1, Protocol.registry, 0, rfl⟩) (Lts.allSteps_free _ _) hs, fun h => ?_⟩
  have hmem := h.listed hc hp
  rw [hmap, List.mem_singleton, Prod.mk.injEq] at hmem
  exact absurd hmem.2 (by decide)

end GoFight.Net
