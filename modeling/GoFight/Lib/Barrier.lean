import Mathlib.Algebra.BigOperators.Group.Finset.Basic
import Mathlib.Algebra.Order.BigOperators.Group.Finset
import Mathlib.Data.Finset.Card
import Mathlib.Data.Finset.Range
import Mathlib.Logic.Function.Basic
import GoFight.Lib.Lts

/-!
# A barrier of a mutex, a counter and a condition variable

One thread waits until a number of parties have arrived.  A party takes the lock, counts itself,
signals the condition and gives the lock back; the waiter takes the lock, and sleeps on the condition
while the counter is too small, which gives the lock back until it is woken.  A sleeper may also wake
by itself, and a signal that finds nobody asleep is lost.

* `Barrier` — the places of the threads, the lock and the counter; `Barrier.step` — one step;
* `Barrier.Inv` — who holds the lock, what the counter counts, and **no wake-up is lost**: while the
  waiter sleeps, a party has still to arrive or still to signal;
* `Barrier.Inv.counted_of_released` — the waiter passes when all have arrived;
* `Barrier.Inv.exists_step` — until it passes, somebody can go on;
* `Barrier.cost` — every step costs one, and a wake-up without a signal gives back three at most.
-/

namespace GoFight.Lib

/-- Where the waiter is. -/
inductive WaitPc
  /-- Before it takes the lock. -/
  | ready
  /-- Before the test of its loop, with the lock. -/
  | test
  /-- In the wait for the condition, without the lock. -/
  | asleep
  /-- Woken, before it has the lock again. -/
  | woken
  /-- Behind the loop, with the lock. -/
  | leave
  | passed
deriving DecidableEq, Repr

/-- Where a party is. -/
inductive PartyPc
  | ready
  /-- With the lock, before it counts itself. -/
  | count
  /-- Before it signals. -/
  | signal
  /-- Before it gives the lock back. -/
  | leave
  | done
deriving DecidableEq, Repr

/-- Who holds the lock. -/
inductive Holder
  | waiter
  | party (w : ℕ)
deriving DecidableEq, Repr

/-- Who goes on. -/
inductive BarrierAct
  | waiter
  | party (w : ℕ)
  /-- The sleeper wakes by itself. -/
  | wakeup
deriving DecidableEq, Repr

/-- The threads, the lock and the counter. -/
structure Barrier where
  parties : ℕ
  count : ℕ
  lock : Option Holder
  waiter : WaitPc
  party : ℕ → PartyPc

namespace Barrier

/-- Nobody has begun. -/
def start (parties : ℕ) : Barrier where
  parties := parties
  count := 0
  lock := none
  waiter := .ready
  party _ := .ready

def setParty (s : Barrier) (w : ℕ) (pc : PartyPc) : Barrier :=
  { s with party := Function.update s.party w pc }

/-- The sleeper is woken. -/
def wake (s : Barrier) : Barrier :=
  { s with waiter := if s.waiter = .asleep then .woken else s.waiter }

/-- The waiter. -/
def waiterStep (s : Barrier) : Option Barrier :=
  match s.waiter with
  | .ready => if s.lock = none then some { s with lock := some .waiter, waiter := .test } else none
  | .test =>
      if s.count < s.parties then some { s with lock := none, waiter := .asleep }
      else some { s with waiter := .leave }
  | .asleep => none
  | .woken => if s.lock = none then some { s with lock := some .waiter, waiter := .test } else none
  | .leave => some { s with lock := none, waiter := .passed }
  | .passed => none

/-- A party. -/
def partyStep (s : Barrier) (w : ℕ) : Option Barrier :=
  match s.party w with
  | .ready =>
      if s.lock = none then some ({ s with lock := some (.party w) }.setParty w .count) else none
  | .count => some ({ s with count := s.count + 1 }.setParty w .signal)
  | .signal => some (s.wake.setParty w .leave)
  | .leave => some ({ s with lock := none }.setParty w .done)
  | .done => none

/-- One step. -/
def step (s : Barrier) : BarrierAct → Option Barrier
  | .waiter => s.waiterStep
  | .party w => if w < s.parties then s.partyStep w else none
  | .wakeup => if s.waiter = .asleep then some s.wake else none

end Barrier

/-- A party that has counted itself. -/
def PartyPc.counted : PartyPc → Bool
  | .ready => false
  | .count => false
  | _ => true

/-- A party with the lock. -/
def PartyPc.holds : PartyPc → Bool
  | .count => true
  | .signal => true
  | .leave => true
  | _ => false

/-- The waiter with the lock. -/
def WaitPc.holds : WaitPc → Bool
  | .test => true
  | .leave => true
  | _ => false

/-- The waiter behind its loop. -/
def WaitPc.released : WaitPc → Bool
  | .leave => true
  | .passed => true
  | _ => false

namespace Barrier

/-- The parties that have counted themselves. -/
def arrived (s : Barrier) : Finset ℕ := (Finset.range s.parties).filter fun w => (s.party w).counted

/-- What holds in every run. -/
structure Inv (s : Barrier) : Prop where
  waiter : s.waiter.holds = true ↔ s.lock = some .waiter
  party : ∀ w, (s.party w).holds = true ↔ s.lock = some (.party w)
  count : s.count = s.arrived.card
  released : s.waiter.released = true → s.count = s.parties
  asleep : s.waiter = .asleep → s.count < s.parties ∨ ∃ w, s.party w = .signal

theorem arrived_card_le (s : Barrier) : s.arrived.card ≤ s.parties := by
  have hle := Finset.card_filter_le (Finset.range s.parties) fun w => (s.party w).counted = true
  rwa [Finset.card_range] at hle

@[simp] theorem setParty_self (s : Barrier) (w : ℕ) (pc : PartyPc) :
    (s.setParty w pc).party w = pc := Function.update_self ..

theorem setParty_ne (s : Barrier) {w v : ℕ} (pc : PartyPc) (h : v ≠ w) :
    (s.setParty w pc).party v = s.party v := Function.update_of_ne h ..

/-- A party that goes on without counting itself leaves those arrived as they are. -/
theorem arrived_setParty {s t : Barrier} {w : ℕ} {pc : PartyPc} (hn : t.parties = s.parties)
    (hparty : t.party = s.party) (h : pc.counted = (s.party w).counted) :
    (t.setParty w pc).arrived = s.arrived := by
  rw [arrived, arrived]
  show Finset.filter _ (Finset.range t.parties) = _
  rw [hn]
  apply Finset.filter_congr
  intro v _
  by_cases hv : v = w
  · rw [hv, setParty_self, h]
  · rw [setParty_ne _ _ hv, hparty]

/-- Who has the lock, after a party went on. -/
theorem Inv.party_setParty {s t : Barrier} {w : ℕ} {pc : PartyPc} (h : s.Inv)
    (hparty : t.party = s.party) (hw : pc.holds = true ↔ t.lock = some (.party w))
    (hother : ∀ v, v ≠ w → (t.lock = some (.party v) ↔ s.lock = some (.party v))) (v : ℕ) :
    ((t.setParty w pc).party v).holds = true ↔ (t.setParty w pc).lock = some (.party v) := by
  by_cases hv : v = w
  · rw [hv, setParty_self]
    exact hw
  · rw [setParty_ne _ _ hv, hparty]
    exact (h.party v).trans (hother v hv).symm

theorem inv_start (parties : ℕ) : (start parties).Inv where
  waiter := by simp [start, WaitPc.holds]
  party := by simp [start, PartyPc.holds]
  count := by simp [start, arrived, PartyPc.counted]
  released := by simp [start, WaitPc.released]
  asleep := by simp [start]

/-- The waiter goes to another place, and takes, keeps or gives back the lock accordingly. -/
theorem Inv.setWaiter {s : Barrier} (h : s.Inv) (pc : WaitPc) (lock : Option Holder)
    (hlock : pc.holds = true ↔ lock = some .waiter)
    (hother : ∀ w, lock = some (.party w) ↔ s.lock = some (.party w))
    (hreleased : pc.released = true → s.count = s.parties)
    (hasleep : pc = .asleep → s.count < s.parties ∨ ∃ w, s.party w = .signal) :
    ({ s with lock := lock, waiter := pc } : Barrier).Inv where
  waiter := hlock
  party w := (h.party w).trans (hother w).symm
  count := h.count
  released := hreleased
  asleep := hasleep

theorem Inv.wake {s : Barrier} (h : s.Inv) (hs : s.waiter = .asleep) : s.wake.Inv := by
  have hnot : s.lock ≠ some .waiter := by
    intro hlock
    have hholds := h.waiter.mpr hlock
    rw [hs] at hholds
    cases hholds
  have hwake : s.wake = { s with lock := s.lock, waiter := .woken } := by
    rw [Barrier.wake, if_pos hs]
  rw [hwake]
  apply h.setWaiter .woken s.lock
  · exact iff_of_false (by decide) hnot
  · exact fun _ => Iff.rfl
  · intro hreleased
    cases hreleased
  · intro hasleep
    cases hasleep

theorem Inv.waiterStep {s s' : Barrier} (h : s.Inv) (hs : s.waiterStep = some s') : s'.Inv := by
  have hle : s.count ≤ s.parties := h.count ▸ s.arrived_card_le
  unfold Barrier.waiterStep at hs
  split at hs
  case h_1 hpc =>
    simp only [Option.ite_none_right_eq_some, Option.some.injEq] at hs
    obtain ⟨hfree, rfl⟩ := hs
    apply h.setWaiter <;> simp [WaitPc.holds, WaitPc.released, hfree]
  case h_2 hpc =>
    have hlock : s.lock = some .waiter := h.waiter.mp (by rw [hpc]; rfl)
    split at hs
    · next hlt =>
      cases hs
      apply h.setWaiter <;> simp [WaitPc.holds, WaitPc.released, hlock, hlt]
    · next hge =>
      cases hs
      have heq : s.count = s.parties := by omega
      exact h.setWaiter .leave s.lock (by simp [WaitPc.holds, hlock])
        (fun _ => Iff.rfl) (fun _ => heq) (by simp)
  case h_3 => cases hs
  case h_4 hpc =>
    simp only [Option.ite_none_right_eq_some, Option.some.injEq] at hs
    obtain ⟨hfree, rfl⟩ := hs
    apply h.setWaiter <;> simp [WaitPc.holds, WaitPc.released, hfree]
  case h_5 hpc =>
    cases hs
    have hlock : s.lock = some .waiter := h.waiter.mp (by rw [hpc]; rfl)
    have heq := h.released (by rw [hpc]; rfl)
    apply h.setWaiter <;> simp [WaitPc.holds, hlock, heq]
  case h_6 => cases hs

theorem arrived_insert {s : Barrier} {w n : ℕ} (hw : w < s.parties) :
    ({ s with count := n }.setParty w .signal).arrived = insert w s.arrived := by
  ext v
  simp only [arrived, Finset.mem_filter, Finset.mem_insert, Finset.mem_range]
  by_cases hv : v = w
  · rw [hv, setParty_self]
    simp [setParty, PartyPc.counted, hw]
  · rw [setParty_ne _ _ hv]
    simp [setParty, hv]

theorem arrived_card_lt (s : Barrier) {w : ℕ} (hw : w < s.parties) (hnew : w ∉ s.arrived) :
    s.arrived.card < s.parties := by
  have hsub : s.arrived ⊂ Finset.range s.parties :=
    (Finset.ssubset_iff_of_subset (Finset.filter_subset _ _)).mpr ⟨w, Finset.mem_range.mpr hw, hnew⟩
  have hlt := Finset.card_lt_card hsub
  rwa [Finset.card_range] at hlt

/-- A signal takes a sleeper before its lock, and leaves a waiter elsewhere where it is. -/
theorem wake_waiter {s : Barrier} (h : ¬ s.waiter.holds = true) :
    ¬ s.wake.waiter.holds = true ∧ s.wake.waiter.released = s.waiter.released ∧
      s.wake.waiter ≠ .asleep := by
  rw [wake]
  cases hcase : s.waiter <;> simp [hcase, WaitPc.holds, WaitPc.released] at h ⊢

/-- Nobody but the holder of the lock is between taking it and giving it back. -/
theorem Inv.eq_of_holds {s : Barrier} (h : s.Inv) {v w : ℕ} (hv : (s.party v).holds = true)
    (hw : (s.party w).holds = true) : v = w := by
  have hlock := (h.party v).mp hv
  rw [(h.party w).mp hw, Option.some.injEq, Holder.party.injEq] at hlock
  exact hlock.symm

/-- The holder of the lock keeps the waiter out. -/
theorem Inv.lock_of_holds {s : Barrier} (h : s.Inv) {w : ℕ} (hw : (s.party w).holds = true) :
    s.lock = some (.party w) ∧ ¬ s.waiter.holds = true := by
  have hlock := (h.party w).mp hw
  refine ⟨hlock, ?_⟩
  rw [h.waiter, hlock]
  simp

theorem Inv.partyStep {s s' : Barrier} {w : ℕ} (h : s.Inv) (hw : w < s.parties)
    (hs : s.partyStep w = some s') : s'.Inv := by
  unfold Barrier.partyStep at hs
  split at hs
  case h_1 hpc =>
    simp only [Option.ite_none_right_eq_some, Option.some.injEq] at hs
    obtain ⟨hfree, rfl⟩ := hs
    refine ⟨?_, h.party_setParty rfl ?_ ?_, ?_, h.released, fun hasleep => ?_⟩
    · have hnot : ¬ s.waiter.holds = true := by
        rw [h.waiter, hfree]
        simp
      exact iff_of_false hnot (by simp [setParty])
    · exact iff_of_true rfl rfl
    · intro v hv
      rw [hfree]
      simpa using fun heq => hv heq.symm
    · rw [arrived_setParty rfl rfl (by rw [hpc]; rfl)]
      exact h.count
    · rcases h.asleep hasleep with hlt | ⟨v, hv⟩
      · exact .inl hlt
      · have hlock := (h.party v).mp (by rw [hv]; rfl)
        rw [hfree] at hlock
        cases hlock
  case h_2 hpc =>
    cases hs
    have hlock : s.lock = some (.party w) := (h.party w).mp (by rw [hpc]; rfl)
    have hnew : w ∉ s.arrived := by
      rw [arrived, Finset.mem_filter, hpc]
      simp [PartyPc.counted]
    refine ⟨h.waiter, h.party_setParty rfl ?_ ?_, ?_, fun hreleased => ?_,
      fun _ => .inr ⟨w, setParty_self ..⟩⟩
    · exact iff_of_true rfl hlock
    · exact fun v _ => Iff.rfl
    · rw [arrived_insert hw, Finset.card_insert_of_notMem hnew]
      exact congrArg (· + 1) h.count
    · -- nobody is left to arrive once the waiter is behind its loop
      have hfull := h.released hreleased
      have hlt := s.arrived_card_lt hw hnew
      rw [← h.count] at hlt
      omega
  case h_3 hpc =>
    cases hs
    obtain ⟨hlock, hnot⟩ := h.lock_of_holds (by rw [hpc]; rfl : (s.party w).holds = true)
    obtain ⟨hholds, hreleased, hawake⟩ := wake_waiter hnot
    refine ⟨?_, h.party_setParty rfl ?_ ?_, ?_, ?_, ?_⟩
    · refine iff_of_false ?_ ?_
      · exact hholds
      · show ¬ s.lock = some .waiter
        rw [hlock]
        simp
    · exact iff_of_true rfl hlock
    · exact fun v _ => Iff.rfl
    · rw [arrived_setParty (s := s) (t := s.wake) rfl rfl (by rw [hpc]; rfl)]
      exact h.count
    · exact fun htrue => h.released (hreleased.symm.trans htrue)
    · exact fun hasleep => absurd hasleep hawake
  case h_4 hpc =>
    cases hs
    obtain ⟨hlock, hnot⟩ := h.lock_of_holds (by rw [hpc]; rfl : (s.party w).holds = true)
    refine ⟨?_, h.party_setParty rfl ?_ ?_, ?_, h.released, fun hasleep => ?_⟩
    · exact iff_of_false hnot (by simp [setParty])
    · exact iff_of_false (by decide) (by simp)
    · intro v hv
      rw [hlock]
      simpa using fun heq => hv heq.symm
    · rw [arrived_setParty rfl rfl (by rw [hpc]; rfl)]
      exact h.count
    · rcases h.asleep hasleep with hlt | ⟨v, hv⟩
      · exact .inl hlt
      · have hvw : v = w := h.eq_of_holds (by rw [hv]; rfl) (by rw [hpc]; rfl)
        rw [← hvw, hv] at hpc
        cases hpc
  case h_5 => cases hs

theorem Inv.step {s s' : Barrier} {a : BarrierAct} (h : s.Inv) (hs : s.step a = some s') :
    s'.Inv := by
  cases a with
  | waiter => exact h.waiterStep hs
  | party w =>
    simp only [Barrier.step, Option.ite_none_right_eq_some] at hs
    exact h.partyStep hs.1 hs.2
  | wakeup =>
    simp only [Barrier.step, Option.ite_none_right_eq_some, Option.some.injEq] at hs
    obtain ⟨hasleep, rfl⟩ := hs
    exact h.wake hasleep

/-! ### What a step leaves as it is -/

theorem wake_ready (s : Barrier) : s.wake.waiter = .ready ↔ s.waiter = .ready := by
  show (if s.waiter = .asleep then WaitPc.woken else s.waiter) = .ready ↔ _
  cases s.waiter <;> decide

theorem wake_passed (s : Barrier) : s.wake.waiter = .passed ↔ s.waiter = .passed := by
  show (if s.waiter = .asleep then WaitPc.woken else s.waiter) = .passed ↔ _
  cases s.waiter <;> decide

theorem waiterStep_frame {s s' : Barrier} (hs : s.waiterStep = some s') :
    s'.parties = s.parties ∧ s'.count = s.count ∧ s'.party = s.party := by
  unfold waiterStep at hs
  split at hs
  case h_1 | h_4 =>
    simp only [Option.ite_none_right_eq_some, Option.some.injEq] at hs
    obtain ⟨-, rfl⟩ := hs
    exact ⟨rfl, rfl, rfl⟩
  case h_2 =>
    split at hs
    · cases hs
      exact ⟨rfl, rfl, rfl⟩
    · cases hs
      exact ⟨rfl, rfl, rfl⟩
  case h_5 =>
    cases hs
    exact ⟨rfl, rfl, rfl⟩
  case h_3 | h_6 => cases hs

/-- What a step of party `w` changes. -/
structure PartyFrame (s s' : Barrier) (w : ℕ) : Prop where
  parties : s'.parties = s.parties
  other : ∀ v, v ≠ w → s'.party v = s.party v
  ready : s'.waiter = .ready ↔ s.waiter = .ready
  passed : s'.waiter = .passed ↔ s.waiter = .passed
  counting : s.party w = .count → s'.count = s.count + 1 ∧ (s'.party w).counted = true
  keeping : s.party w ≠ .count →
    s'.count = s.count ∧ ∀ v, (s'.party v).counted = (s.party v).counted

theorem partyFrame_setParty {s t : Barrier} {w : ℕ} {pc : PartyPc} (hn : t.parties = s.parties)
    (hparty : t.party = s.party) (hready : t.waiter = .ready ↔ s.waiter = .ready)
    (hpassed : t.waiter = .passed ↔ s.waiter = .passed)
    (hcounting : s.party w = .count → t.count = s.count + 1 ∧ pc.counted = true)
    (hkeeping : s.party w ≠ .count → t.count = s.count ∧ pc.counted = (s.party w).counted) :
    PartyFrame s (t.setParty w pc) w where
  parties := hn
  other v hv := by rw [setParty_ne _ _ hv, hparty]
  ready := hready
  passed := hpassed
  counting h := by
    rw [setParty_self]
    exact hcounting h
  keeping h := by
    obtain ⟨hcount, hcounted⟩ := hkeeping h
    refine ⟨hcount, fun v => ?_⟩
    by_cases hv : v = w
    · rw [hv, setParty_self, hcounted]
    · rw [setParty_ne _ _ hv, hparty]

theorem partyStep_frame {s s' : Barrier} {w : ℕ} (hs : s.step (.party w) = some s') :
    PartyFrame s s' w := by
  simp only [step, Option.ite_none_right_eq_some] at hs
  obtain ⟨-, hs⟩ := hs
  unfold partyStep at hs
  split at hs
  case h_1 hpc =>
    simp only [Option.ite_none_right_eq_some, Option.some.injEq] at hs
    obtain ⟨-, rfl⟩ := hs
    apply partyFrame_setParty <;> simp [hpc, PartyPc.counted]
  case h_2 hpc =>
    cases hs
    apply partyFrame_setParty <;> simp [hpc, PartyPc.counted]
  case h_3 hpc =>
    cases hs
    exact partyFrame_setParty rfl rfl (wake_ready s) (wake_passed s) (by simp [hpc])
      (by simp [hpc, wake, PartyPc.counted])
  case h_4 hpc =>
    cases hs
    apply partyFrame_setParty <;> simp [hpc, PartyPc.counted]
  case h_5 => cases hs

/-! ### What the barrier gives -/

/-- **The waiter passes when all have arrived.** -/
theorem Inv.counted_of_released {s : Barrier} (h : s.Inv) (hs : s.waiter.released = true) {w : ℕ}
    (hw : w < s.parties) : (s.party w).counted = true := by
  by_contra hnot
  have hnew : w ∉ s.arrived := by
    rw [arrived, Finset.mem_filter]
    exact fun hmem => hnot hmem.2
  have hlt := s.arrived_card_lt hw hnew
  rw [← h.count, h.released hs] at hlt
  exact lt_irrefl _ hlt

/-- A party that has not counted itself, while the counter is too small. -/
theorem Inv.exists_missing {s : Barrier} (h : s.Inv) (hlt : s.count < s.parties) :
    ∃ w < s.parties, (s.party w).counted = false := by
  by_contra hall
  push Not at hall
  have hfull : s.arrived = Finset.range s.parties := by
    apply Finset.filter_true_of_mem
    intro w hw
    have hne := hall w (Finset.mem_range.mp hw)
    simpa using hne
  rw [h.count, hfull, Finset.card_range] at hlt
  exact lt_irrefl _ hlt

/-- A party with the lock goes on. -/
theorem partyStep_of_holds {s : Barrier} {w : ℕ} (h : (s.party w).holds = true) :
    s.party w ≠ .done ∧ (s.partyStep w).isSome = true := by
  rw [partyStep]
  cases hpc : s.party w <;> simp [hpc, PartyPc.holds] at h ⊢

/-- **No wake-up is lost.**  Until the waiter has passed, somebody can go on. -/
theorem Inv.exists_step {s : Barrier} (h : s.Inv) (hs : s.waiter ≠ .passed)
    (hparty : ∀ w, (s.party w).holds = true → w < s.parties) :
    (s.step .waiter).isSome = true ∨
      ∃ w < s.parties, s.party w ≠ .done ∧ (s.step (.party w)).isSome = true := by
  have hgo : ∀ w, (s.party w).holds = true →
      ∃ w < s.parties, s.party w ≠ .done ∧ (s.step (.party w)).isSome = true := by
    intro w hw
    obtain ⟨hne, hstep⟩ := partyStep_of_holds hw
    refine ⟨w, hparty w hw, hne, ?_⟩
    rw [Barrier.step, if_pos (hparty w hw)]
    exact hstep
  cases hlock : s.lock with
  | some holder =>
    cases holder with
    | waiter =>
      have hholds := h.waiter.mpr hlock
      left
      rw [Barrier.step, Barrier.waiterStep]
      cases hpc : s.waiter <;> simp [hpc, WaitPc.holds] at hholds ⊢
      split <;> rfl
    | party w => exact .inr (hgo w ((h.party w).mpr hlock))
  | none =>
    by_cases hasleep : s.waiter = .asleep
    · rcases h.asleep hasleep with hlt | ⟨w, hw⟩
      · obtain ⟨w, hw, hnew⟩ := h.exists_missing hlt
        have hne : s.party w ≠ .done := by
          intro hdone
          rw [hdone] at hnew
          cases hnew
        refine .inr ⟨w, hw, hne, ?_⟩
        rw [Barrier.step, if_pos hw, Barrier.partyStep]
        cases hpc : s.party w <;> simp [hpc, PartyPc.counted] at hnew ⊢
        exact hlock
      · exact .inr (hgo w (by rw [hw]; rfl))
    · left
      rw [Barrier.step, Barrier.waiterStep]
      cases hpc : s.waiter <;> simp [hpc, hlock] at hs hasleep ⊢
      split <;> rfl

/-! ### How long it takes -/

end Barrier

/-- The steps a waiter has before it, without those of the sleep. -/
def WaitPc.cost : WaitPc → ℕ
  | .ready => 3
  | .test => 2
  | .asleep => 0
  | .woken => 3
  | .leave => 1
  | .passed => 0

/-- The steps a party has before it; its signal stands for those it makes the waiter go through
again. -/
def PartyPc.cost : PartyPc → ℕ
  | .ready => 7
  | .count => 6
  | .signal => 5
  | .leave => 1
  | .done => 0

namespace Barrier

/-- The steps before the barrier is through. -/
def cost (s : Barrier) : ℕ := s.waiter.cost + ∑ w ∈ Finset.range s.parties, (s.party w).cost

theorem cost_setParty (s t : Barrier) {w : ℕ} (pc : PartyPc) (hn : t.parties = s.parties)
    (hparty : t.party = s.party) (hw : w < s.parties) :
    (t.setParty w pc).cost + (s.party w).cost + s.waiter.cost = s.cost + pc.cost + t.waiter.cost := by
  have hmem : w ∈ Finset.range s.parties := Finset.mem_range.mpr hw
  have hrest : ∑ v ∈ (Finset.range s.parties).erase w, ((t.setParty w pc).party v).cost =
      ∑ v ∈ (Finset.range s.parties).erase w, (s.party v).cost := by
    apply Finset.sum_congr rfl
    intro v hv
    rw [setParty_ne _ _ (Finset.ne_of_mem_erase hv), hparty]
  have hnew := Finset.add_sum_erase (Finset.range s.parties)
    (fun v => ((t.setParty w pc).party v).cost) hmem
  have hold := Finset.add_sum_erase (Finset.range s.parties) (fun v => (s.party v).cost) hmem
  simp only [setParty_self, hrest] at hnew
  have hcost : (t.setParty w pc).cost =
      t.waiter.cost + ∑ v ∈ Finset.range s.parties, ((t.setParty w pc).party v).cost := by
    rw [cost]
    show _ + ∑ v ∈ Finset.range t.parties, _ = _
    rw [hn]
    rfl
  rw [hcost, cost]
  omega

theorem cost_waiterStep {s s' : Barrier} (hs : s.waiterStep = some s') : s'.cost + 1 ≤ s.cost := by
  have hcost : ∀ (lock : Option Holder) (pc : WaitPc), pc.cost + 1 ≤ s.waiter.cost →
      ({ s with lock := lock, waiter := pc } : Barrier).cost + 1 ≤ s.cost := by
    intro lock pc hlt
    simp only [cost]
    omega
  unfold waiterStep at hs
  split at hs
  case h_1 hpc =>
    simp only [Option.ite_none_right_eq_some, Option.some.injEq] at hs
    obtain ⟨-, rfl⟩ := hs
    exact hcost _ _ (by rw [hpc]; decide)
  case h_2 hpc =>
    split at hs
    · cases hs
      exact hcost _ _ (by rw [hpc]; decide)
    · cases hs
      exact hcost _ _ (by rw [hpc]; decide)
  case h_3 => cases hs
  case h_4 hpc =>
    simp only [Option.ite_none_right_eq_some, Option.some.injEq] at hs
    obtain ⟨-, rfl⟩ := hs
    exact hcost _ _ (by rw [hpc]; decide)
  case h_5 hpc =>
    cases hs
    exact hcost _ _ (by rw [hpc]; decide)
  case h_6 => cases hs

theorem cost_wake (s : Barrier) : s.wake.waiter.cost ≤ s.waiter.cost + 3 := by
  show (if s.waiter = .asleep then WaitPc.woken else s.waiter).cost ≤ s.waiter.cost + 3
  cases s.waiter <;> decide

theorem cost_partyStep {s s' : Barrier} {w : ℕ} (hw : w < s.parties)
    (hs : s.partyStep w = some s') : s'.cost + 1 ≤ s.cost := by
  unfold partyStep at hs
  split at hs
  case h_1 hpc =>
    simp only [Option.ite_none_right_eq_some, Option.some.injEq] at hs
    obtain ⟨-, rfl⟩ := hs
    have hsum := cost_setParty s { s with lock := some (.party w) } .count rfl rfl hw
    rw [hpc] at hsum
    simp only [PartyPc.cost] at hsum
    omega
  case h_2 hpc =>
    cases hs
    have hsum := cost_setParty s { s with count := s.count + 1 } .signal rfl rfl hw
    rw [hpc] at hsum
    simp only [PartyPc.cost] at hsum
    omega
  case h_3 hpc =>
    cases hs
    have hsum := cost_setParty s s.wake .leave rfl rfl hw
    have hwake := cost_wake s
    rw [hpc] at hsum
    simp only [PartyPc.cost] at hsum
    omega
  case h_4 hpc =>
    cases hs
    have hsum := cost_setParty s { s with lock := none } .done rfl rfl hw
    rw [hpc] at hsum
    simp only [PartyPc.cost] at hsum
    omega
  case h_5 => cases hs

/-- **A step costs one**, and a wake-up of its own gives back three. -/
theorem cost_step {s s' : Barrier} {a : BarrierAct} (hs : s.step a = some s') :
    if a = .wakeup then s'.cost ≤ s.cost + 3 else s'.cost + 1 ≤ s.cost := by
  cases a with
  | waiter => exact cost_waiterStep hs
  | party w =>
    simp only [step, Option.ite_none_right_eq_some] at hs
    exact cost_partyStep hs.1 hs.2
  | wakeup =>
    simp only [step, Option.ite_none_right_eq_some, Option.some.injEq] at hs
    obtain ⟨-, rfl⟩ := hs
    have hwake := cost_wake s
    rw [if_pos rfl]
    show s.wake.waiter.cost + ∑ w ∈ Finset.range s.parties, (s.party w).cost ≤ s.cost + 3
    rw [cost]
    omega

end Barrier

end GoFight.Lib
