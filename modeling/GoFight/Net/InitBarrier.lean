import GoFight.Lib.Barrier
import GoFight.Net.Startup

/-!
# The accept thread waits for the workers

`Startup` takes `wait_for_thread_init` and `register_thread_init` as one step each.  Here they are
what they are in the source: a mutex, a counter and a condition variable, with the accept thread as
the waiter and the workers as the parties, each of which can arrive once it has been created.

* `InitBarrier` — the start of the workers with the barrier between them; `initSystem` — the system;
* `Agrees` — what the two parts know of each other, in every run;
* `startup_of_reach` — **every run is one of `Startup`**, so what was shown there holds here;
* `barrier_of_reach` — the accept thread takes connections only when every worker has been created
  and has registered, and every index it computes has its `ThreadData`;
* `initSystem_ends` — the start comes to its end: somebody can always go on, and there is a bound on
  the steps.
-/

namespace GoFight.Net

open GoFight.Lib

/-- The threads of the start, and the barrier. -/
structure InitBarrier where
  startup : Startup
  barrier : Barrier

/-- Who goes on. -/
inductive InitAct
  | accept
  | worker (w : ℕ)
  /-- `net_connect` queues a connector. -/
  | connect
  /-- `pthread_cond_wait` returns without a signal. -/
  | wakeup
deriving DecidableEq, Repr

namespace InitBarrier

/-- Before `thread_init`. -/
def start (threadNum : ℕ) : InitBarrier := ⟨.start threadNum, .start threadNum⟩

/-- The accept thread: in `wait_for_thread_init`, and elsewhere. -/
def acceptStep (s : InitBarrier) : Option InitBarrier :=
  if s.startup.accept = .wait then
    (s.barrier.step .waiter).map fun b =>
      { startup := if b.waiter = .passed then { s.startup with accept := .accepting } else s.startup
        barrier := b }
  else s.startup.acceptStep.map fun t => { s with startup := t }

/-- A worker: in `register_thread_init`, where it counts itself in `s_init_count`, and behind it. -/
def workerStep (s : InitBarrier) (w : ℕ) : Option InitBarrier :=
  if s.barrier.party w = .done then s.startup.workerStep w |>.map fun t => { s with startup := t }
  else
    (s.barrier.step (.party w)).map fun b =>
      { startup :=
          if s.barrier.party w = .count then
            { s.startup with initCount := s.startup.initCount + 1 }.setWorker w .loop
          else s.startup
        barrier := b }

/-- One step. -/
def step (s : InitBarrier) : InitAct → Option InitBarrier
  | .accept => s.acceptStep
  | .worker w => if w < s.startup.started then s.workerStep w else none
  | .connect => (s.startup.step .connect).map fun t => { s with startup := t }
  | .wakeup => (s.barrier.step .wakeup).map fun b => { s with barrier := b }

/-- The accept thread has come through the barrier. -/
def Through (s : InitBarrier) : Prop :=
  match s.startup.accept with
  | .accepting => True
  | .give _ => True
  | _ => False

/-- Where the accept thread is: how many workers it has created, and where it is at the barrier. -/
def Place (s : InitBarrier) : Prop :=
  match s.startup.accept with
  | .create i => s.startup.started = i ∧ i ≤ s.startup.threadNum ∧ s.barrier.waiter = .ready
  | .store i => s.startup.started = i + 1 ∧ i < s.startup.threadNum ∧ s.barrier.waiter = .ready
  | .wait => s.startup.started = s.startup.threadNum ∧ s.barrier.waiter ≠ .passed
  | .accepting => s.startup.started = s.startup.threadNum ∧ s.barrier.waiter = .passed
  | .give pc => s.startup.started = s.startup.threadNum ∧ s.barrier.waiter = .passed ∧
      pc.idx < s.startup.threadNum

/-- What the two parts know of each other. -/
structure Agrees (s : InitBarrier) : Prop where
  inv : s.barrier.Inv
  threadNum : s.barrier.parties = s.startup.threadNum
  count : s.barrier.count = s.startup.initCount
  fresh : ∀ w, s.startup.worker w = .fresh ↔ (s.barrier.party w).counted = false
  place : s.Place
  created : ∀ w, s.barrier.party w ≠ .ready → w < s.startup.started
  table : ∀ w, (s.startup.table w).isSome = true ↔ w < s.startup.stored

end InitBarrier

/-! ### The parts, one step at a time -/

/-- What a worker behind the barrier leaves as it is. -/
theorem Startup.workerStep_frame {s s' : Startup} {w : ℕ} (h : s.workerStep w = some s')
    (hw : s.worker w ≠ .fresh) :
    (s'.threadNum, s'.accept, s'.table, s'.started, s'.initCount) =
        (s.threadNum, s.accept, s.table, s.started, s.initCount) ∧
      ∀ v, s'.worker v = .fresh ↔ s.worker v = .fresh := by
  have hset : ∀ (t : Startup) (pc : WorkerPc), t.worker = s.worker → pc ≠ .fresh →
      ∀ v, (t.setWorker w pc).worker v = .fresh ↔ s.worker v = .fresh := by
    intro t pc ht hpc v
    rw [setWorker_worker, ht]
    by_cases hv : v = w
    · rw [if_pos hv, hv]
      exact iff_of_false hpc hw
    · rw [if_neg hv]
  unfold Startup.workerStep at h
  split at h
  case h_1 hpc => exact absurd hpc hw
  case h_2 =>
    simp only [Option.ite_none_right_eq_some, Option.some.injEq] at h
    obtain ⟨-, rfl⟩ := h
    exact ⟨rfl, hset _ _ rfl (by simp)⟩
  case h_3 =>
    split at h
    · cases h
      exact ⟨rfl, hset _ _ rfl (by simp)⟩
    · simp only [Option.ite_none_right_eq_some, Option.some.injEq] at h
      obtain ⟨-, rfl⟩ := h
      exact ⟨rfl, hset _ _ rfl (by simp)⟩
  case h_4 =>
    cases h
    exact ⟨rfl, hset _ _ rfl (by simp)⟩
  case h_5 =>
    simp only [Option.ite_none_right_eq_some, Option.some.injEq] at h
    obtain ⟨-, rfl⟩ := h
    exact ⟨rfl, hset _ _ rfl (by simp)⟩

namespace InitBarrier

/-- The steps of the accept thread: in the barrier, through it, and those of `Startup`. -/
inductive AcceptStep (s : InitBarrier) : InitBarrier → Prop
  | wait {b} (hpc : s.startup.accept = .wait) (hb : s.barrier.step .waiter = some b)
      (hw : b.waiter ≠ .passed) : AcceptStep s { s with barrier := b }
  | pass {b} (hpc : s.startup.accept = .wait) (hb : s.barrier.step .waiter = some b)
      (hw : b.waiter = .passed) :
      AcceptStep s { startup := { s.startup with accept := .accepting }, barrier := b }
  | create {i} (hpc : s.startup.accept = .create i) (hi : i < s.startup.threadNum) :
      AcceptStep s { s with startup :=
        { s.startup with started := s.startup.started + 1, accept := .store i } }
  | created {i} (hpc : s.startup.accept = .create i) (hi : s.startup.threadNum ≤ i) :
      AcceptStep s { s with startup := { s.startup with accept := .wait } }
  | store {i} (hpc : s.startup.accept = .store i) :
      AcceptStep s { s with startup := { s.startup with
        table := Function.update s.startup.table i (some i), accept := .create (i + 1) } }
  | compute (hpc : s.startup.accept = .accepting) (hn : 0 < s.startup.threadNum) :
      AcceptStep s { s with startup :=
        { s.startup with accept := .give (.assign s.startup.threadIdx) } }
  | assign {idx} (hpc : s.startup.accept = .give (.assign idx)) :
      AcceptStep s { s with startup :=
        { s.startup with lastThreadId := UInt64.ofNat idx, accept := .give (.lookup idx) } }
  | lookup {idx} (hpc : s.startup.accept = .give (.lookup idx)) :
      AcceptStep s { s with startup := { s.startup with accept := .accepting } }

theorem acceptStep_cases {s s' : InitBarrier} (hs : s.acceptStep = some s') :
    AcceptStep s s' := by
  unfold acceptStep at hs
  split at hs
  · next hwait =>
    obtain ⟨b, hb, rfl⟩ := Option.map_eq_some_iff.mp hs
    by_cases hpassed : b.waiter = .passed
    · rw [if_pos hpassed]
      exact .pass hwait hb hpassed
    · rw [if_neg hpassed]
      exact .wait hwait hb hpassed
  · next hwait =>
    obtain ⟨t, ht, rfl⟩ := Option.map_eq_some_iff.mp hs
    unfold Startup.acceptStep at ht
    split at ht
    case h_1 i hpc =>
      split at ht
      · next hlt =>
        cases ht
        exact .create hpc hlt
      · next hge =>
        cases ht
        exact .created hpc (Nat.le_of_not_lt hge)
    case h_2 hpc =>
      cases ht
      exact .store hpc
    case h_3 hpc => exact absurd hpc hwait
    case h_4 hpc =>
      obtain ⟨hpos, ht⟩ := Option.ite_none_right_eq_some.mp ht
      cases ht
      exact .compute hpc hpos
    case h_5 hpc =>
      cases ht
      exact .assign hpc
    case h_6 hpc =>
      obtain ⟨-, ht⟩ := Option.ite_none_right_eq_some.mp ht
      cases ht
      exact .lookup hpc

/-! ### The two parts agree -/

theorem agrees_start (threadNum : ℕ) : (start threadNum).Agrees where
  inv := Barrier.inv_start threadNum
  threadNum := rfl
  count := rfl
  fresh w := iff_of_true rfl rfl
  place := ⟨rfl, Nat.zero_le _, rfl⟩
  created w hw := absurd rfl hw
  table w := iff_of_false (by simp [start, Startup.start])
    (by simp [start, Startup.start, Startup.stored])

theorem Agrees.acceptStep {s s' : InitBarrier} (h : s.Agrees) (hs : s.acceptStep = some s') :
    s'.Agrees := by
  have hplace := h.place
  have htable := h.table
  rw [Place] at hplace
  unfold Startup.stored at htable
  cases acceptStep_cases hs with
  | @wait b hpc hb hw =>
    obtain ⟨hn, hcount, hparty⟩ := Barrier.waiterStep_frame hb
    rw [hpc] at hplace
    refine ⟨h.inv.step hb, hn.trans h.threadNum, hcount.trans h.count, ?_, ?_, ?_, h.table⟩
    · rw [hparty]
      exact h.fresh
    · rw [Place, hpc]
      exact ⟨hplace.1, hw⟩
    · rw [hparty]
      exact h.created
  | @pass b hpc hb hw =>
    obtain ⟨hn, hcount, hparty⟩ := Barrier.waiterStep_frame hb
    rw [hpc] at hplace htable
    refine ⟨h.inv.step hb, hn.trans h.threadNum, hcount.trans h.count, ?_, ⟨hplace.1, hw⟩, ?_, htable⟩
    · rw [hparty]
      exact h.fresh
    · rw [hparty]
      exact h.created
  | create hpc hi =>
    rw [hpc] at hplace htable
    exact ⟨h.inv, h.threadNum, h.count, h.fresh, ⟨congrArg (· + 1) hplace.1, hi, hplace.2.2⟩,
      fun w hw => Nat.lt_succ_of_lt (h.created w hw), htable⟩
  | created hpc hi =>
    rw [hpc] at hplace htable
    have hall := Nat.le_antisymm hplace.2.1 hi
    refine ⟨h.inv, h.threadNum, h.count, h.fresh, ⟨hplace.1.trans hall, ?_⟩, h.created, ?_⟩
    · show s.barrier.waiter ≠ .passed
      rw [hplace.2.2]
      simp
    · rw [hall] at htable
      exact htable
  | @store i hpc =>
    rw [hpc] at hplace htable
    change ∀ w, (s.startup.table w).isSome = true ↔ w < i at htable
    refine ⟨h.inv, h.threadNum, h.count, h.fresh, ⟨hplace.1, hplace.2.1, hplace.2.2⟩, h.created,
      fun w => ?_⟩
    show (Function.update s.startup.table i (some i) w).isSome = true ↔ w < i + 1
    by_cases hw : w = i
    · rw [hw, Function.update_self]
      exact iff_of_true rfl (Nat.lt_succ_self i)
    · rw [Function.update_of_ne hw, htable w]
      omega
  | compute hpc hn =>
    rw [hpc] at hplace htable
    exact ⟨h.inv, h.threadNum, h.count, h.fresh, ⟨hplace.1, hplace.2, Nat.mod_lt _ hn⟩, h.created,
      htable⟩
  | assign hpc =>
    rw [hpc] at hplace htable
    exact ⟨h.inv, h.threadNum, h.count, h.fresh, hplace, h.created, htable⟩
  | lookup hpc =>
    rw [hpc] at hplace htable
    exact ⟨h.inv, h.threadNum, h.count, h.fresh, ⟨hplace.1, hplace.2.1⟩, h.created, htable⟩

/-- The place of the accept thread, after a step of another. -/
theorem Place.of_frame {s s' : InitBarrier} (h : s.Place)
    (hstartup : (s'.startup.threadNum, s'.startup.accept, s'.startup.started) =
      (s.startup.threadNum, s.startup.accept, s.startup.started))
    (hready : s'.barrier.waiter = .ready ↔ s.barrier.waiter = .ready)
    (hpassed : s'.barrier.waiter = .passed ↔ s.barrier.waiter = .passed) : s'.Place := by
  simp only [Prod.mk.injEq] at hstartup
  obtain ⟨hn, haccept, hstarted⟩ := hstartup
  rw [Place, haccept, hn, hstarted] at *
  cases hpc : s.startup.accept with
  | create i => simpa [hpc, hready] using h
  | store i => simpa [hpc, hready] using h
  | wait => simpa [hpc, hpassed] using h
  | accepting => simpa [hpc, hpassed] using h
  | give pc => simpa [hpc, hpassed] using h

theorem Agrees.workerStep {s s' : InitBarrier} {w : ℕ} (h : s.Agrees)
    (hw : w < s.startup.started) (hs : s.workerStep w = some s') : s'.Agrees := by
  unfold InitBarrier.workerStep at hs
  split at hs
  · next hdone =>
    obtain ⟨t, ht, rfl⟩ := Option.map_eq_some_iff.mp hs
    have hfresh : s.startup.worker w ≠ .fresh := by
      rw [Ne, h.fresh, hdone]
      simp [PartyPc.counted]
    obtain ⟨hframe, hworker⟩ := Startup.workerStep_frame ht hfresh
    simp only [Prod.mk.injEq] at hframe
    obtain ⟨hn, haccept, htable, hstarted, hcount⟩ := hframe
    refine ⟨h.inv, h.threadNum.trans hn.symm, h.count.trans hcount.symm,
      fun v => (hworker v).trans (h.fresh v), ?_, fun v hv => ?_, ?_⟩
    · exact h.place.of_frame (by simp [hn, haccept, hstarted]) Iff.rfl Iff.rfl
    · exact (h.created v hv).trans_eq hstarted.symm
    · have hst : t.stored = s.startup.stored := by rw [Startup.stored, Startup.stored, haccept, hn]
      show ∀ v, (t.table v).isSome = true ↔ v < t.stored
      rw [htable, hst]
      exact h.table
  · next hdone =>
    obtain ⟨b, hb, rfl⟩ := Option.map_eq_some_iff.mp hs
    have hframe := Barrier.partyStep_frame hb
    have hplace : ∀ t : Startup, (t.threadNum, t.accept, t.started) =
        (s.startup.threadNum, s.startup.accept, s.startup.started) →
          Place { startup := t, barrier := b } := fun t ht =>
      h.place.of_frame ht hframe.ready hframe.passed
    have hcreated : ∀ v, b.party v ≠ .ready → v < s.startup.started := by
      intro v hv
      by_cases hvw : v = w
      · rw [hvw]
        exact hw
      · rw [hframe.other v hvw] at hv
        exact h.created v hv
    by_cases hcount : s.barrier.party w = .count
    · rw [if_pos hcount]
      obtain ⟨hone, hcounted⟩ := hframe.counting hcount
      refine ⟨h.inv.step hb, hframe.parties.trans h.threadNum, ?_, fun v => ?_, hplace _ rfl, hcreated,
        h.table⟩
      · rw [hone, h.count]
        rfl
      · show (Startup.setWorker _ w .loop).worker v = .fresh ↔ _
        rw [Startup.setWorker_worker]
        by_cases hvw : v = w
        · rw [if_pos hvw, hvw, hcounted]
          simp
        · rw [if_neg hvw, hframe.other v hvw]
          exact h.fresh v
    · rw [if_neg hcount]
      obtain ⟨hsame, hcounted⟩ := hframe.keeping hcount
      refine ⟨h.inv.step hb, hframe.parties.trans h.threadNum, hsame.trans h.count, fun v => ?_,
        hplace _ rfl, hcreated, h.table⟩
      rw [hcounted v]
      exact h.fresh v

theorem Agrees.step {s s' : InitBarrier} {a : InitAct} (h : s.Agrees) (hs : s.step a = some s') :
    s'.Agrees := by
  cases a with
  | accept => exact h.acceptStep hs
  | worker w =>
    simp only [InitBarrier.step, Option.ite_none_right_eq_some] at hs
    exact h.workerStep hs.1 hs.2
  | connect =>
    obtain ⟨t, ht, rfl⟩ := Option.map_eq_some_iff.mp hs
    simp only [Startup.step, Option.ite_none_right_eq_some, Option.some.injEq] at ht
    obtain ⟨-, rfl⟩ := ht
    exact ⟨h.inv, h.threadNum, h.count, h.fresh, h.place, h.created, h.table⟩
  | wakeup =>
    obtain ⟨b, hb, rfl⟩ := Option.map_eq_some_iff.mp hs
    have hinv := h.inv.step hb
    simp only [Barrier.step, Option.ite_none_right_eq_some, Option.some.injEq] at hb
    obtain ⟨-, rfl⟩ := hb
    exact ⟨hinv, h.threadNum, h.count, h.fresh,
      h.place.of_frame rfl (Barrier.wake_ready _) (Barrier.wake_passed _), h.created, h.table⟩

/-! ### Through the barrier -/

theorem Agrees.all_of_through {s : InitBarrier} (h : s.Agrees) (hs : s.Through) :
    (∀ w < s.startup.threadNum, w < s.startup.started ∧ s.startup.worker w ≠ .fresh ∧
        (s.startup.table w).isSome = true) ∧
      ∀ pc, s.startup.accept = .give pc → (s.startup.table pc.idx).isSome = true := by
  have hplace := h.place
  have hpart : s.startup.started = s.startup.threadNum ∧ s.barrier.waiter = .passed ∧
      s.startup.stored = s.startup.threadNum ∧
        ∀ pc, s.startup.accept = .give pc → pc.idx < s.startup.threadNum := by
    unfold Through at hs
    rw [Startup.stored]
    cases hpc : s.startup.accept with
    | accepting =>
      rw [Place, hpc] at hplace
      exact ⟨hplace.1, hplace.2, rfl, fun pc hpc' => by cases hpc'⟩
    | give pc =>
      rw [Place, hpc] at hplace
      refine ⟨hplace.1, hplace.2.1, rfl, fun pc' hpc' => ?_⟩
      cases hpc'
      exact hplace.2.2
    | create | store | wait =>
      rw [hpc] at hs
      exact hs.elim
  obtain ⟨hstarted, hpassed, hstored, hidx⟩ := hpart
  refine ⟨fun w hw => ⟨hstarted ▸ hw, ?_, ?_⟩, fun pc hpc => ?_⟩
  · have hcounted := h.inv.counted_of_released (by rw [hpassed]; rfl) (h.threadNum ▸ hw)
    rw [Ne, h.fresh, hcounted]
    simp
  · rw [h.table, hstored]
    exact hw
  · rw [h.table, hstored]
    exact hidx pc hpc

theorem Agrees.exists_step {s : InitBarrier} (h : s.Agrees) (hs : ¬ s.Through) :
    (s.step .accept).isSome = true ∨
      ∃ w < s.startup.threadNum, s.barrier.party w ≠ .done ∧ (s.step (.worker w)).isSome = true := by
  have hplace := h.place
  unfold Through at hs
  cases hpc : s.startup.accept with
  | accepting | give =>
    rw [hpc] at hs
    exact absurd trivial hs
  | create i =>
    left
    simp only [InitBarrier.step, InitBarrier.acceptStep, Startup.acceptStep, hpc, reduceCtorEq, if_false]
    split <;> rfl
  | store i =>
    left
    simp only [InitBarrier.step, InitBarrier.acceptStep, Startup.acceptStep, hpc, reduceCtorEq, if_false]
    rfl
  | wait =>
    rw [Place, hpc] at hplace
    have hholds : ∀ w, (s.barrier.party w).holds = true → w < s.barrier.parties := by
      intro w hw
      rw [h.threadNum, ← hplace.1]
      refine h.created w fun hready => ?_
      rw [hready] at hw
      cases hw
    rcases h.inv.exists_step hplace.2 hholds with hstep | ⟨w, hw, hdone, hstep⟩
    · left
      rw [InitBarrier.step, InitBarrier.acceptStep, if_pos hpc, Option.isSome_map]
      exact hstep
    · refine .inr ⟨w, h.threadNum ▸ hw, hdone, ?_⟩
      rw [InitBarrier.step, if_pos (by rw [hplace.1, ← h.threadNum]; exact hw),
        InitBarrier.workerStep, if_neg hdone, Option.isSome_map]
      exact hstep

/-! ### The steps before it -/

/-- A step of the start: of the accept thread up to its event loop, of a worker up to its own. -/
def Starting (s : InitBarrier) : InitAct → Bool
  | .accept => match s.startup.accept with
    | .accepting => false
    | .give _ => false
    | _ => true
  | .worker w => s.barrier.party w != .done
  | _ => false

/-- The steps left of `thread_init`. -/
def createCost (s : InitBarrier) : ℕ :=
  match s.startup.accept with
  | .create i => 2 * (s.startup.threadNum - i) + 1
  | .store i => 2 * (s.startup.threadNum - i)
  | _ => 0

/-- The steps left of the start. -/
def cost (s : InitBarrier) : ℕ := s.createCost + s.barrier.cost

/-- How many steps of a run are steps of the start. -/
def startingSteps (s : InitBarrier) : List InitAct → ℕ
  | [] => 0
  | a :: as => (if s.Starting a then 1 else 0) + (s.step a).elim 0 fun s' => startingSteps s' as

theorem createCost_congr {s s' : InitBarrier}
    (h : (s'.startup.threadNum, s'.startup.accept) = (s.startup.threadNum, s.startup.accept)) :
    s'.createCost = s.createCost := by
  simp only [Prod.mk.injEq] at h
  rw [createCost, createCost, h.1, h.2]

theorem Agrees.cost_accept {s s' : InitBarrier} (h : s.Agrees) (hs : s.acceptStep = some s') :
    s'.cost + (if s.Starting .accept then 1 else 0) ≤ s.cost := by
  have hplace := h.place
  rw [Place] at hplace
  cases acceptStep_cases hs with
  | wait hpc hb _ | pass hpc hb _ =>
    have hcost := Barrier.cost_waiterStep hb
    simp only [cost, createCost, Starting, hpc, if_true]
    omega
  | create hpc hi | created hpc hi =>
    rw [hpc] at hplace
    simp only [cost, createCost, Starting, hpc, if_true]
    omega
  | store hpc =>
    rw [hpc] at hplace
    simp only [cost, createCost, Starting, hpc, if_true]
    omega
  | compute hpc _ | assign hpc | lookup hpc => simp [cost, createCost, Starting, hpc]

theorem Agrees.cost_worker {s s' : InitBarrier} {w : ℕ} (h : s.Agrees)
    (hs : s.workerStep w = some s') :
    s'.cost + (if s.Starting (.worker w) then 1 else 0) ≤ s.cost := by
  unfold InitBarrier.workerStep at hs
  split at hs
  · next hdone =>
    obtain ⟨t, ht, rfl⟩ := Option.map_eq_some_iff.mp hs
    have hfresh : s.startup.worker w ≠ .fresh := by
      rw [Ne, h.fresh, hdone]
      simp [PartyPc.counted]
    obtain ⟨hframe, -⟩ := Startup.workerStep_frame ht hfresh
    simp only [Prod.mk.injEq] at hframe
    have hcreate : createCost { s with startup := t } = s.createCost :=
      createCost_congr (by rw [hframe.1, hframe.2.1])
    rw [cost, hcreate, Starting, hdone]
    exact le_rfl
  · next hdone =>
    obtain ⟨b, hb, rfl⟩ := Option.map_eq_some_iff.mp hs
    have hcost : b.cost + 1 ≤ s.barrier.cost := by
      have hstep := Barrier.cost_step hb
      rwa [if_neg (by simp)] at hstep
    have hcreate : createCost
        { startup := if s.barrier.party w = .count then
            { s.startup with initCount := s.startup.initCount + 1 }.setWorker w .loop
          else s.startup
          barrier := b } = s.createCost := by
      apply createCost_congr
      split <;> rfl
    have hone : (if s.Starting (.worker w) then 1 else 0) ≤ 1 := by split <;> decide
    rw [cost, hcreate, cost]
    show _ + b.cost + _ ≤ _
    omega

/-- A step of the start costs one, and a wake-up without a signal gives back three. -/
theorem Agrees.cost_step {s s' : InitBarrier} {a : InitAct} (h : s.Agrees)
    (hs : s.step a = some s') :
    s'.cost + (if s.Starting a then 1 else 0) ≤ s.cost + if a = .wakeup then 3 else 0 := by
  cases a with
  | accept => exact h.cost_accept hs
  | worker w =>
    simp only [InitBarrier.step, Option.ite_none_right_eq_some] at hs
    exact h.cost_worker hs.2
  | connect =>
    obtain ⟨t, ht, rfl⟩ := Option.map_eq_some_iff.mp hs
    simp only [Startup.step, Option.ite_none_right_eq_some, Option.some.injEq] at ht
    obtain ⟨-, rfl⟩ := ht
    exact le_rfl
  | wakeup =>
    obtain ⟨b, hb, rfl⟩ := Option.map_eq_some_iff.mp hs
    have hcost : b.cost ≤ s.barrier.cost + 3 := by
      have hstep := Barrier.cost_step hb
      rwa [if_pos rfl] at hstep
    have hcreate : createCost { s with barrier := b } = s.createCost := createCost_congr rfl
    rw [cost, hcreate, cost]
    show _ + b.cost + 0 ≤ s.createCost + s.barrier.cost + 3
    omega

theorem cost_start (threadNum : ℕ) : (start threadNum).cost = 9 * threadNum + 4 := by
  simp only [cost, createCost, start, Startup.start, Barrier.cost, Barrier.start, WaitPc.cost,
    PartyPc.cost, Finset.sum_const, Finset.card_range, nsmul_eq_mul, Nat.cast_id]
  omega

/-! ### The barrier hidden -/

/-- The condition of `Startup` on the workers that hand connectors out. -/
def HandsOutStored (s : InitBarrier) : InitAct → Prop
  | .worker w => s.startup.HandsOutStored (.worker w)
  | _ => True

/-- A step is one of `Startup`, or one of the barrier alone. -/
theorem Agrees.startup_step {s s' : InitBarrier} {a : InitAct} (h : s.Agrees)
    (hc : s.HandsOutStored a) (hs : s.step a = some s') :
    s'.startup = s.startup ∨ ∃ b, s.startup.HandsOutStored b ∧
      s.startup.step b = some s'.startup := by
  cases a with
  | accept =>
    have hs : s.acceptStep = some s' := hs
    unfold InitBarrier.acceptStep at hs
    split at hs
    · next hwait =>
      obtain ⟨b, hb, rfl⟩ := Option.map_eq_some_iff.mp hs
      by_cases hpassed : b.waiter = .passed
      · right
        have hfull := (h.inv.step hb).released (by rw [hpassed]; rfl)
        obtain ⟨hn, hcount, -⟩ := Barrier.waiterStep_frame hb
        rw [hn, hcount, h.threadNum, h.count] at hfull
        refine ⟨.accept, trivial, ?_⟩
        rw [Startup.step, Startup.acceptStep, hwait, if_pos hpassed]
        exact if_pos hfull.ge
      · left
        exact if_neg hpassed
    · obtain ⟨t, ht, rfl⟩ := Option.map_eq_some_iff.mp hs
      exact .inr ⟨.accept, trivial, ht⟩
  | worker w =>
    simp only [InitBarrier.step, Option.ite_none_right_eq_some] at hs
    obtain ⟨hw, hs⟩ := hs
    unfold InitBarrier.workerStep at hs
    split at hs
    · obtain ⟨t, ht, rfl⟩ := Option.map_eq_some_iff.mp hs
      refine .inr ⟨.worker w, hc, ?_⟩
      rw [Startup.step, if_pos hw]
      exact ht
    · obtain ⟨b, hb, rfl⟩ := Option.map_eq_some_iff.mp hs
      by_cases hcount : s.barrier.party w = .count
      · have hfresh : s.startup.worker w = .fresh := by
          rw [h.fresh, hcount]
          rfl
        refine .inr ⟨.worker w, hc, ?_⟩
        rw [Startup.step, if_pos hw, Startup.workerStep, hfresh]
        exact congrArg some (if_pos hcount).symm
      · left
        exact if_neg hcount
  | connect =>
    obtain ⟨t, ht, rfl⟩ := Option.map_eq_some_iff.mp hs
    exact .inr ⟨.connect, trivial, ht⟩
  | wakeup =>
    obtain ⟨b, -, rfl⟩ := Option.map_eq_some_iff.mp hs
    exact .inl rfl

end InitBarrier

/-- The runs from the call of `thread_init` on. -/
def initSystem : Lts InitBarrier InitAct where
  init s := ∃ threadNum : ℕ, (threadNum : ℤ) ≤ intMax ∧ s = .start threadNum
  step := InitBarrier.step

namespace InitBarrier

theorem agrees_of_reach {C : InitBarrier → InitAct → Prop} {s : InitBarrier}
    (h : initSystem.Reach C s) : s.Agrees := by
  refine h.invariant ?_ fun s a s' hi _ hs => hi.step hs
  rintro s ⟨threadNum, -, rfl⟩
  exact agrees_start threadNum

/-- **Every run is one of `Startup`**, with the barrier as one step of each thread. -/
theorem startup_of_reach {s : InitBarrier} (h : initSystem.Reach HandsOutStored s) :
    startupSystem.Reach Startup.HandsOutStored s.startup := by
  refine h.invariant_of (P := fun s => startupSystem.Reach Startup.HandsOutStored s.startup) ?_
    fun s a s' hr hi hc hs => ?_
  · rintro s ⟨threadNum, hmax, rfl⟩
    exact .start ⟨threadNum, hmax, rfl⟩
  · rcases (agrees_of_reach hr).startup_step hc hs with heq | ⟨b, hb, hstep⟩
    · rw [heq]
      exact hi
    · exact .next hi hb hstep

/-- **The barrier.**  In every run, whatever the workers hand out meanwhile: once the accept thread is
behind the barrier, every worker has been created, has registered and has its `ThreadData` in the
table, and so has the worker of every index the accept thread computes; and until then somebody who
starts can go on. -/
theorem barrier_of_reach {s : InitBarrier} (h : initSystem.Reach Lts.Free s) :
    (s.Through → (∀ w < s.startup.threadNum, w < s.startup.started ∧
        s.startup.worker w ≠ .fresh ∧ (s.startup.table w).isSome = true) ∧
      ∀ pc, s.startup.accept = .give pc → (s.startup.table pc.idx).isSome = true) ∧
    (¬ s.Through → (s.step .accept).isSome = true ∨
      ∃ w < s.startup.threadNum, s.barrier.party w ≠ .done ∧
        (s.step (.worker w)).isSome = true) := by
  have hagrees := agrees_of_reach h
  exact ⟨hagrees.all_of_through, hagrees.exists_step⟩

theorem Agrees.startingSteps_le {s s' : InitBarrier} {as : List InitAct} (h : s.Agrees)
    (hs : initSystem.exec s as = some s') :
    s.startingSteps as + s'.cost ≤ s.cost + 3 * as.count .wakeup := by
  induction as generalizing s with
  | nil =>
    cases hs
    rw [startingSteps]
    omega
  | cons a as ih =>
    obtain ⟨t, ht, hs⟩ := Option.bind_eq_some_iff.mp hs
    have hone := h.cost_step ht
    have hrest := ih (h.step ht) hs
    have ht : s.step a = some t := ht
    rw [startingSteps, ht, Option.elim_some, List.count_cons]
    by_cases ha : a = .wakeup
    · rw [if_pos ha] at hone
      rw [ha] at hone ⊢
      simp only [beq_self_eq_true, if_true]
      omega
    · rw [if_neg ha] at hone
      have hcount : (a == InitAct.wakeup) = false := beq_eq_false_iff_ne.mpr ha
      simp only [hcount, Bool.false_eq_true, if_false]
      omega

/-- **The start ends.**  A run of any length has at most nine steps of the start for each worker and
four more, and three for each wake-up without a signal; and as long as the accept thread is not
through, a step of the start is possible. -/
theorem initSystem_ends {threadNum : ℕ} (hmax : (threadNum : ℤ) ≤ intMax) {as : List InitAct}
    {s : InitBarrier} (hs : initSystem.exec (.start threadNum) as = some s) :
    (start threadNum).startingSteps as ≤ 9 * threadNum + 4 + 3 * as.count .wakeup ∧
      (¬ s.Through → ∃ a, s.Starting a = true ∧ (s.step a).isSome = true) := by
  have hr : initSystem.Reach Lts.Free s :=
    .of_exec (.start ⟨threadNum, hmax, rfl⟩) (Lts.allSteps_free _ _) hs
  refine ⟨?_, fun hnot => ?_⟩
  · have hle := (agrees_start threadNum).startingSteps_le hs
    rw [cost_start] at hle
    omega
  · rcases (barrier_of_reach hr).2 hnot with hstep | ⟨w, -, hdone, hstep⟩
    · refine ⟨.accept, ?_, hstep⟩
      rw [Starting]
      unfold Through at hnot
      split at hnot <;> simp_all
    · exact ⟨.worker w, by simpa [Starting] using hdone, hstep⟩

end InitBarrier

/-- The accept thread sleeps, worker 0 counts itself and signals; then the loop is behind both. -/
def sleepsAndWakes : List InitAct :=
  [.accept, .accept, .accept, .accept, .accept, .worker 0, .wakeup, .worker 0, .worker 0, .worker 0,
    .accept, .accept, .accept]

theorem initSystem_ends_sleepsAndWakes : ∃ s,
    initSystem.exec (.start 1) sleepsAndWakes = some s ∧ s.Through ∧
      (InitBarrier.start 1).startingSteps sleepsAndWakes ≤ 9 * 1 + 4 + 3 * 1 := by
  obtain ⟨s, hs, hpc⟩ : ∃ s, initSystem.exec (.start 1) sleepsAndWakes = some s ∧
      s.startup.accept = .accepting := by
    refine Option.map_eq_some_iff.mp ?_
    decide
  refine ⟨s, hs, ?_, (InitBarrier.initSystem_ends (by decide) hs).1⟩
  rw [InitBarrier.Through, hpc]
  exact trivial

theorem barrier_of_reach_sleepsAndWakes : ∃ s,
    initSystem.exec (.start 1) sleepsAndWakes = some s ∧ s.Through ∧
      (s.startup.table 0).isSome = true ∧ s.startup.worker 0 ≠ .fresh := by
  obtain ⟨s, hs, hpc⟩ : ∃ s, initSystem.exec (.start 1) sleepsAndWakes = some s ∧
      (s.startup.accept, s.startup.threadNum) = (.accepting, 1) := by
    refine Option.map_eq_some_iff.mp ?_
    decide
  simp only [Prod.mk.injEq] at hpc
  have hthrough : s.Through := by
    rw [InitBarrier.Through, hpc.1]
    exact trivial
  have hr : initSystem.Reach Lts.Free s :=
    .of_exec (.start ⟨1, by decide, rfl⟩) (Lts.allSteps_free _ _) hs
  obtain ⟨-, hfresh, htable⟩ := ((InitBarrier.barrier_of_reach hr).1 hthrough).1 0 (by
    rw [hpc.2]
    exact Nat.one_pos)
  exact ⟨s, hs, hthrough, htable, hfresh⟩

end GoFight.Net
