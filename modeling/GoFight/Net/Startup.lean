import Mathlib.Data.UInt
import GoFight.Lib.Lts
import GoFight.Net.MessageFormat

/-!
# The start of the workers

`thread_init` creates the workers one after the other and stores each one's `ThreadData` in
`s_threads_datas` after it has been created; the workers run meanwhile, and hand out what
`net_connect` has queued.

* `Startup` — the accept thread, the workers and the table; `startupSystem` — the system;
* `TableReady` — an index computed in `push_worker_new_conn` or `give_worker_new_conn` has its
  `ThreadData` in the table;
* `HandsOutStored` — the condition on a step: a worker that finds a connector to hand out comes after
  the entry for it has been stored;
* `tableReady_of_reach` — the run theorem.

The two functions read `s_last_thread_id`, write it and look the index up, in three steps; the lookup
of an index without an entry gives a null pointer, and such a step has no successor.
-/

namespace GoFight.Net

open GoFight.Lib

/-- Where a thread is in `push_worker_new_conn` or `give_worker_new_conn`, with `_thread_idx`. -/
inductive GivePc
  /-- Before `s_last_thread_id = _thread_idx`. -/
  | assign (idx : ℕ)
  /-- Before `s_threads_datas[_thread_idx]`. -/
  | lookup (idx : ℕ)
deriving DecidableEq, Repr

/-- `_thread_idx`. -/
def GivePc.idx : GivePc → ℕ
  | assign idx => idx
  | lookup idx => idx

/-- Where the accept thread is. -/
inductive InitPc
  /-- In `thread_init`, before the test of its loop. -/
  | create (i : ℕ)
  /-- Before `s_threads_datas[i] = _td`. -/
  | store (i : ℕ)
  /-- In `wait_for_thread_init`. -/
  | wait
  /-- In `event_base_loop`. -/
  | accepting
  | give (pc : GivePc)
deriving DecidableEq, Repr

/-- Where a worker is. -/
inductive WorkerPc
  /-- Before `register_thread_init`. -/
  | fresh
  /-- In its loop. -/
  | loop
  /-- In the block that holds `s_connect_conns_lock`, before the test of its loop. -/
  | connectors
  | give (pc : GivePc)
deriving DecidableEq, Repr

/-- The threads and what they share. -/
structure Startup where
  /-- `net_thread_num_`. -/
  threadNum : ℕ
  accept : InitPc
  /-- `s_threads_datas`; a `ThreadData` is named by its worker. -/
  table : ℕ → Option ℕ
  /-- How many workers have been created. -/
  started : ℕ
  /-- `s_init_count`. -/
  initCount : ℕ
  worker : ℕ → WorkerPc
  /-- `s_last_thread_id`. -/
  lastThreadId : UInt64
  /-- The length of `s_connect_conns`. -/
  connectConns : ℕ
  /-- The worker that holds `s_connect_conns_lock`. -/
  lock : Option ℕ
  /-- History: for how many connectors an index was computed. -/
  given : ℕ

/-- Who goes on. -/
inductive StartAct
  | accept
  | worker (w : ℕ)
  /-- `net_connect` queues a connector. -/
  | connect
deriving DecidableEq, Repr

namespace Startup

/-- Before `thread_init`. -/
def start (threadNum : ℕ) : Startup where
  threadNum := threadNum
  accept := .create 0
  table _ := none
  started := 0
  initCount := 0
  worker _ := .fresh
  lastThreadId := -1
  connectConns := 0
  lock := none
  given := 0

/-- `(s_last_thread_id + 1) % net_thread_num_`. -/
def threadIdx (s : Startup) : ℕ := (s.lastThreadId + 1).toNat % s.threadNum

/-- A worker goes on. -/
def setWorker (s : Startup) (w : ℕ) (pc : WorkerPc) : Startup :=
  { s with worker := Function.update s.worker w pc }

/-- The accept thread. -/
def acceptStep (s : Startup) : Option Startup :=
  match s.accept with
  | .create i =>
      if i < s.threadNum then some { s with started := s.started + 1, accept := .store i }
      else some { s with accept := .wait }
  | .store i =>
      some { s with table := Function.update s.table i (some i), accept := .create (i + 1) }
  | .wait => if s.threadNum ≤ s.initCount then some { s with accept := .accepting } else none
  | .accepting =>
      if 0 < s.threadNum then some { s with accept := .give (.assign s.threadIdx) } else none
  | .give (.assign idx) =>
      some { s with lastThreadId := UInt64.ofNat idx, accept := .give (.lookup idx) }
  | .give (.lookup idx) =>
      if (s.table idx).isSome then some { s with accept := .accepting } else none

/-- A worker. -/
def workerStep (s : Startup) (w : ℕ) : Option Startup :=
  match s.worker w with
  | .fresh => some ({ s with initCount := s.initCount + 1 }.setWorker w .loop)
  | .loop => if s.lock = none then some ({ s with lock := some w }.setWorker w .connectors) else none
  | .connectors =>
      if s.connectConns = 0 then some ({ s with lock := none }.setWorker w .loop)
      else if 0 < s.threadNum then
        some ({ s with given := s.given + 1 }.setWorker w (.give (.assign s.threadIdx)))
      else none
  | .give (.assign idx) =>
      some ({ s with lastThreadId := UInt64.ofNat idx }.setWorker w (.give (.lookup idx)))
  | .give (.lookup idx) =>
      if (s.table idx).isSome then
        some ({ s with connectConns := s.connectConns - 1 }.setWorker w .connectors)
      else none

/-- One step. -/
def step (s : Startup) : StartAct → Option Startup
  | .accept => s.acceptStep
  | .worker w => if w < s.started then s.workerStep w else none
  | .connect =>
      if s.lock = none then some { s with connectConns := s.connectConns + 1 } else none

/-! ### The property and the condition -/

/-- A thread has computed this index, and not yet looked it up. -/
def Computed (s : Startup) (idx : ℕ) : Prop :=
  (∃ w pc, s.worker w = .give pc ∧ pc.idx = idx) ∨ ∃ pc, s.accept = .give pc ∧ pc.idx = idx

/-- Every index computed is bound. -/
def TableReady (s : Startup) : Prop := ∀ idx, s.Computed idx → s.table idx = some idx

/-- How many entries `thread_init` has stored. -/
def stored (s : Startup) : ℕ :=
  match s.accept with
  | .create i => i
  | .store i => i
  | _ => s.threadNum

/-- A worker hands a connector out only once `thread_init` has stored more entries than connectors
were handed out, or all of them. -/
def HandsOutStored (s : Startup) : StartAct → Prop
  | .worker w =>
      s.worker w = .connectors → s.connectConns ≠ 0 →
        s.given < s.stored ∨ s.stored = s.threadNum
  | _ => True

instance (s : Startup) (a : StartAct) : Decidable (s.HandsOutStored a) := by
  unfold HandsOutStored
  split <;> infer_instance

/-! ### The invariant -/

/-- While `thread_init` stores entries, connectors get the indices 0, 1, 2 and so on. -/
structure Filled (s : Startup) : Prop where
  max : (s.threadNum : ℤ) ≤ intMax
  le : s.stored ≤ s.threadNum
  storing : ∀ i, s.accept = .store i → i < s.threadNum
  table : ∀ j, s.table j = if j < s.stored then some j else none
  holder : ∀ w, s.worker w = .connectors ∨ (∃ pc, s.worker w = .give pc) → s.lock = some w
  index : ∀ idx, s.Computed idx → idx < s.stored
  assigning : s.stored < s.threadNum → ∀ w idx, s.worker w = .give (.assign idx) →
    idx + 1 = s.given
  last : s.stored < s.threadNum → (∀ w idx, s.worker w ≠ .give (.assign idx)) →
    s.lastThreadId + 1 = UInt64.ofNat s.given

theorem Filled.tableReady {s : Startup} (h : s.Filled) : s.TableReady := fun idx hidx => by
  rw [h.table, if_pos (h.index idx hidx)]

theorem setWorker_worker (s : Startup) (w v : ℕ) (pc : WorkerPc) :
    (s.setWorker w pc).worker v = if v = w then pc else s.worker v := by
  by_cases hv : v = w
  · subst hv
    simp [setWorker]
  · simp [setWorker, hv]

/-- Whoever holds the lock is the only worker in the block. -/
theorem Filled.eq_of_holder {s : Startup} (h : s.Filled) {v w : ℕ} {pc : GivePc}
    (hv : s.worker v = .give pc) (hw : s.worker w = .connectors ∨ ∃ pc, s.worker w = .give pc) :
    v = w :=
  Option.some.inj ((h.holder v (.inr ⟨pc, hv⟩)).symm.trans (h.holder w hw))

/-- A step of the accept thread that stores nothing, and computes nothing before the table is full. -/
theorem Filled.setAccept {s : Startup} (h : s.Filled) {p : InitPc} {n : ℕ}
    (hst : ({ s with started := n, accept := p } : Startup).stored = s.stored)
    (hstore : ∀ i, p = .store i → i < s.threadNum)
    (hgive : ∀ g, p = .give g → g.idx < s.stored) :
    ({ s with started := n, accept := p } : Startup).Filled where
  max := h.max
  le := hst.trans_le h.le
  storing := hstore
  table := by
    rw [hst]
    exact h.table
  holder := h.holder
  index := by
    rw [hst]
    rintro idx (hw | ⟨g, hg, rfl⟩)
    · exact h.index idx (.inl hw)
    · exact hgive g hg
  assigning := by
    rw [hst]
    exact h.assigning
  last := by
    rw [hst]
    exact h.last

theorem Filled.acceptStep {s s' : Startup} (h : s.Filled) (hs : s.acceptStep = some s') :
    s'.Filled := by
  unfold Startup.acceptStep at hs
  split at hs
  case h_1 i hpc =>
    split at hs
    · next hi =>
      cases hs
      refine h.setAccept ?_ ?_ nofun
      · rw [stored, stored, hpc]
      · rintro j ⟨⟩
        exact hi
    · next hi =>
      cases hs
      have hle := h.le
      refine h.setAccept (n := s.started) ?_ nofun nofun
      rw [stored, hpc] at hle
      rw [stored, stored, hpc]
      exact (Nat.le_antisymm hle (Nat.le_of_not_lt hi)).symm
  case h_2 i hpc =>
    cases hs
    have hst : s.stored = i := by rw [stored, hpc]
    have hi := h.storing i hpc
    refine ⟨h.max, hi, nofun, fun j => ?_, h.holder, ?_, ?_, ?_⟩
    · -- one entry more
      show Function.update s.table i (some i) j = if j < i + 1 then some j else none
      by_cases hj : j = i
      · rw [hj, Function.update_self, if_pos (Nat.lt_succ_self i)]
      · rw [Function.update_of_ne hj, h.table, hst]
        exact if_congr (by omega) rfl rfl
    · rintro idx (hw | ⟨g, hg, -⟩)
      · exact Nat.lt_succ_of_lt (hst ▸ h.index idx (.inl hw))
      · cases hg
    · exact fun _ => h.assigning (hst ▸ hi)
    · exact fun _ => h.last (hst ▸ hi)
  case h_3 hpc =>
    split at hs
    · cases hs
      refine h.setAccept (n := s.started) ?_ nofun nofun
      rw [stored, stored, hpc]
    · cases hs
  case h_4 hpc =>
    split at hs
    · next hn =>
      cases hs
      refine h.setAccept (n := s.started) ?_ nofun ?_
      · rw [stored, stored, hpc]
      · rintro g ⟨⟩
        rw [stored, hpc]
        exact Nat.mod_lt _ hn
    · cases hs
  case h_5 idx hpc =>
    cases hs
    have hfull : s.stored = s.threadNum := by rw [stored, hpc]
    have hidx : idx < s.stored := h.index idx (.inr ⟨_, hpc, rfl⟩)
    have hacc := h.setAccept (p := .give (.lookup idx)) (n := s.started)
      (by rw [stored, stored, hpc]) nofun (by rintro g ⟨⟩; exact hidx)
    refine ⟨hacc.max, hacc.le, hacc.storing, hacc.table, hacc.holder, hacc.index, ?_, ?_⟩
    · exact fun hlt => absurd hlt (lt_irrefl _)
    · exact fun hlt => absurd hlt (lt_irrefl _)
  case h_6 idx hpc =>
    split at hs
    · cases hs
      refine h.setAccept (n := s.started) ?_ nofun nofun
      rw [stored, stored, hpc]
    · cases hs

/-- What a step of worker `w` to `pc` has to show. -/
theorem Filled.setWorker {s s' : Startup} (h : s.Filled) {w : ℕ} {p : WorkerPc}
    (hworker : s'.worker = Function.update s.worker w p)
    (hsame : (s'.threadNum, s'.accept, s'.table) = (s.threadNum, s.accept, s.table))
    (hholder : ∀ v, v ≠ w → (s.worker v = .connectors ∨ ∃ g, s.worker v = .give g) →
      s'.lock = some v)
    (hholder' : p = .connectors ∨ (∃ g, p = .give g) → s'.lock = some w)
    (hgive : ∀ g, p = .give g → g.idx < s.stored)
    (hassign : s.stored < s.threadNum → ∀ v idx, s'.worker v = .give (.assign idx) →
      idx + 1 = s'.given)
    (hlast : s.stored < s.threadNum → (∀ v idx, s'.worker v ≠ .give (.assign idx)) →
      s'.lastThreadId + 1 = UInt64.ofNat s'.given) : s'.Filled := by
  simp only [Prod.mk.injEq] at hsame
  obtain ⟨hn, hacc, htable⟩ := hsame
  have hst : s'.stored = s.stored := by rw [stored, stored, hacc, hn]
  have hw : ∀ v, s'.worker v = if v = w then p else s.worker v := by
    intro v
    rw [hworker]
    exact setWorker_worker s w v p
  refine ⟨hn ▸ h.max, by rw [hst, hn]; exact h.le, by rw [hacc, hn]; exact h.storing,
    by rw [htable, hst]; exact h.table, fun v hv => ?_, ?_, by rw [hst, hn]; exact hassign,
    by rw [hst, hn]; exact hlast⟩
  · rw [hw] at hv
    by_cases hvw : v = w
    · rw [if_pos hvw] at hv
      rw [hvw]
      exact hholder' hv
    · rw [if_neg hvw] at hv
      exact hholder v hvw hv
  · rw [hst]
    rintro idx (⟨v, g, hv, rfl⟩ | ⟨g, hg, rfl⟩)
    · rw [hw] at hv
      split at hv
      · exact hgive g hv
      · exact h.index _ (.inl ⟨v, g, hv, rfl⟩)
    · exact h.index _ (.inr ⟨g, hacc ▸ hg, rfl⟩)

/-- No worker is between computing an index and assigning it while another is in the block. -/
theorem Filled.not_assigning {s : Startup} (h : s.Filled) {w : ℕ}
    (hw : s.worker w = .connectors) (v idx : ℕ) : s.worker v ≠ .give (.assign idx) := by
  intro hv
  rw [h.eq_of_holder hv (.inl hw), hw] at hv
  cases hv

/-- A worker goes on without an index. -/
theorem Filled.goto {s s' : Startup} (h : s.Filled) {w : ℕ} {p : WorkerPc}
    (hworker : s'.worker = Function.update s.worker w p)
    (hsame : (s'.threadNum, s'.accept, s'.table) = (s.threadNum, s.accept, s.table))
    (hlast : (s'.lastThreadId, s'.given) = (s.lastThreadId, s.given))
    (hholder : ∀ v, v ≠ w → (s.worker v = .connectors ∨ ∃ g, s.worker v = .give g) →
      s'.lock = some v)
    (hholder' : p = .connectors → s'.lock = some w) (hpc : ∀ g, p ≠ .give g)
    (hold : ∀ idx, s.worker w ≠ .give (.assign idx)) : s'.Filled := by
  rw [Prod.mk.injEq] at hlast
  have hassign : ∀ v idx, s'.worker v = .give (.assign idx) ↔ s.worker v = .give (.assign idx) := by
    intro v idx
    rw [hworker]
    by_cases hvw : v = w
    · rw [hvw, Function.update_self]
      exact iff_of_false (hpc _) (hold idx)
    · rw [Function.update_of_ne hvw]
  refine h.setWorker hworker hsame hholder ?_ (fun g hg => absurd hg (hpc g)) ?_ ?_
  · rintro (hcon | ⟨g, hg⟩)
    · exact hholder' hcon
    · exact absurd hg (hpc g)
  · intro hlt v idx hv
    rw [hlast.2]
    exact h.assigning hlt v idx ((hassign v idx).mp hv)
  · intro hlt hno
    rw [hlast.1, hlast.2]
    exact h.last hlt fun v idx hv => hno v idx ((hassign v idx).mpr hv)

/-- The next index is the number of connectors handed out before, while `thread_init` runs. -/
theorem Filled.threadIdx_eq {s : Startup} (h : s.Filled) {w : ℕ} (hw : s.worker w = .connectors)
    (hlt : s.stored < s.threadNum) (hgiven : s.given < s.stored) : s.threadIdx = s.given := by
  have hmax := h.max
  unfold intMax at hmax
  have hsize : s.given < UInt64.size := by
    show s.given < 18446744073709551616
    omega
  rw [threadIdx, h.last hlt (h.not_assigning hw), UInt64.toNat_ofNat_of_lt' hsize,
    Nat.mod_eq_of_lt (by omega)]

theorem Filled.workerStep {s s' : Startup} {w : ℕ} (h : s.Filled)
    (hc : s.HandsOutStored (.worker w)) (hs : s.workerStep w = some s') : s'.Filled := by
  unfold Startup.workerStep at hs
  split at hs
  case h_1 hpc =>
    cases hs
    exact h.goto (w := w) (p := .loop) rfl rfl rfl (fun v _ hv => h.holder v hv) nofun nofun
      (by simp [hpc])
  case h_2 hpc =>
    split at hs
    · next hlock =>
      cases hs
      refine h.goto (w := w) (p := .connectors) rfl rfl rfl (fun v _ hv => ?_) (fun _ => rfl) nofun
        (by simp [hpc])
      rw [h.holder v hv] at hlock
      cases hlock
    · cases hs
  case h_3 hpc =>
    split at hs
    · cases hs
      refine h.goto (w := w) (p := .loop) rfl rfl rfl (fun v hvw hv => ?_) nofun nofun
        (by simp [hpc])
      -- nobody else was in the block
      have hlock := h.holder v hv
      rw [h.holder w (.inl hpc), Option.some.injEq] at hlock
      exact absurd hlock.symm hvw
    · next hne =>
      split at hs
      · next hpos =>
        cases hs
        have hidx : s.threadIdx < s.stored ∧ (s.stored < s.threadNum → s.threadIdx = s.given) := by
          rcases hc hpc hne with hgiven | hfull
          · by_cases hlt : s.stored < s.threadNum
            · exact ⟨by rwa [h.threadIdx_eq hpc hlt hgiven], fun _ => h.threadIdx_eq hpc hlt hgiven⟩
            · have hle := h.le
              have hfull : s.stored = s.threadNum := by omega
              exact ⟨hfull ▸ Nat.mod_lt _ hpos, fun hlt' => absurd hlt' hlt⟩
          · exact ⟨hfull ▸ Nat.mod_lt _ hpos, fun hlt => absurd hfull hlt.ne⟩
        have hlock := h.holder w (.inl hpc)
        refine h.setWorker (w := w) (p := .give (.assign s.threadIdx)) rfl rfl
          (fun v _ hv => h.holder v hv) (fun _ => hlock) ?_ ?_ ?_
        · rintro g ⟨⟩
          exact hidx.1
        · intro hlt v idx hv
          by_cases hvw : v = w
          · rw [hvw] at hv
            simp only [Startup.setWorker, Function.update_self] at hv
            cases hv
            rw [hidx.2 hlt]
            rfl
          · simp only [Startup.setWorker, Function.update_of_ne hvw] at hv
            exact absurd hv (h.not_assigning hpc v idx)
        · intro _ hno
          refine absurd ?_ (hno w s.threadIdx)
          simp [Startup.setWorker]
      · cases hs
  case h_4 idx hpc =>
    cases hs
    have hlock := h.holder w (.inr ⟨_, hpc⟩)
    have hother : ∀ v, v ≠ w → ∀ g, s.worker v ≠ .give g := fun v hvw g hv =>
      hvw (h.eq_of_holder hv (.inr ⟨_, hpc⟩))
    refine h.setWorker (w := w) (p := .give (.lookup idx)) rfl rfl
      (fun v _ hv => h.holder v hv) (fun _ => hlock) ?_ ?_ ?_
    · rintro g ⟨⟩
      exact h.index idx (.inl ⟨w, _, hpc, rfl⟩)
    · intro _ v jdx hv
      by_cases hvw : v = w
      · rw [hvw] at hv
        simp [Startup.setWorker] at hv
      · simp only [Startup.setWorker, Function.update_of_ne hvw] at hv
        exact absurd hv (hother v hvw _)
    · intro hlt _
      have hgiven := h.assigning hlt w idx hpc
      show UInt64.ofNat idx + 1 = UInt64.ofNat s.given
      rw [← hgiven, UInt64.ofNat_add]
      rfl
  case h_5 idx hpc =>
    split at hs
    · cases hs
      have hlock := h.holder w (.inr ⟨_, hpc⟩)
      exact h.goto (w := w) (p := .connectors) rfl rfl rfl (fun v _ hv => h.holder v hv)
        (fun _ => hlock) nofun (by simp [hpc])
    · cases hs

theorem Filled.step {s s' : Startup} {a : StartAct} (h : s.Filled) (hc : s.HandsOutStored a)
    (hs : s.step a = some s') : s'.Filled := by
  cases a with
  | accept => exact h.acceptStep hs
  | worker w =>
    simp only [Startup.step, Option.ite_none_right_eq_some] at hs
    exact h.workerStep hc hs.2
  | connect =>
    simp only [Startup.step, Option.ite_none_right_eq_some, Option.some.injEq] at hs
    obtain ⟨-, rfl⟩ := hs
    exact ⟨h.max, h.le, h.storing, h.table, h.holder, h.index, h.assigning, h.last⟩

theorem filled_start {threadNum : ℕ} (h : (threadNum : ℤ) ≤ intMax) : (start threadNum).Filled := by
  have hlast : (-1 : UInt64) + 1 = UInt64.ofNat 0 := by decide
  refine ⟨h, Nat.zero_le _, nofun, fun _ => rfl, ?_, ?_, ?_, fun _ _ => hlast⟩
  · rintro w (hw | ⟨g, hg⟩)
    · cases hw
    · cases hg
  · rintro idx (⟨w, g, hw, -⟩ | ⟨g, hg, -⟩)
    · cases hw
    · cases hg
  · intro _ w idx hw
    cases hw

end Startup

/-- The runs from the call of `thread_init` on; `net_thread_num_` is an `int`. -/
def startupSystem : Lts Startup StartAct where
  init s := ∃ threadNum : ℕ, (threadNum : ℤ) ≤ intMax ∧ s = .start threadNum
  step := Startup.step

/-- **The table is ready before it is used**, in every run whose workers hand a connector out only
once the entry for it has been stored. -/
theorem tableReady_of_reach {s : Startup} (h : startupSystem.Reach Startup.HandsOutStored s) :
    s.TableReady := by
  have hfilled : s.Filled := by
    refine h.invariant ?_ fun s a s' hi hc hs => hi.step hc hs
    rintro s ⟨threadNum, hmax, rfl⟩
    exact Startup.filled_start hmax
  exact hfilled.tableReady

/-- Worker 0 hands out a connector while worker 1 is not created yet. -/
def connectAfterStore : List StartAct :=
  [.accept, .connect, .accept, .worker 0, .worker 0, .worker 0]

theorem tableReady_connectAfterStore : ∃ s,
    startupSystem.exec (.start 2) connectAfterStore = some s ∧ s.Computed 0 ∧ s.TableReady := by
  obtain ⟨s, hs, hpc⟩ : ∃ s, startupSystem.exec (.start 2) connectAfterStore = some s ∧
      s.worker 0 = .give (.assign 0) := by
    refine Option.map_eq_some_iff.mp ?_
    decide
  have hc : startupSystem.AllSteps Startup.HandsOutStored (.start 2) connectAfterStore := by decide
  exact ⟨s, hs, .inl ⟨0, _, hpc, rfl⟩,
    tableReady_of_reach (.of_exec (.start ⟨2, by decide, rfl⟩) hc hs)⟩

/-- Worker 0 does so before its own entry is stored. -/
def connectBeforeStore : List StartAct :=
  [.accept, .connect, .worker 0, .worker 0, .worker 0]

theorem not_tableReady_connectBeforeStore : ∃ s,
    startupSystem.Reach Lts.Free s ∧ ¬ s.TableReady := by
  obtain ⟨s, hs, hrun⟩ : ∃ s, startupSystem.exec (.start 2) connectBeforeStore = some s ∧
      (s.worker 0, s.table 0) = (.give (.assign 0), none) := by
    refine Option.map_eq_some_iff.mp ?_
    decide
  rw [Prod.mk.injEq] at hrun
  refine ⟨s, .of_exec (.start ⟨2, by decide, rfl⟩) (Lts.allSteps_free _ _) hs, fun h => ?_⟩
  have hbound := h 0 (.inl ⟨0, _, hrun.1, rfl⟩)
  rw [hrun.2] at hbound
  cases hbound

end GoFight.Net
