import Mathlib.Data.List.Basic
import GoFight.Lib.Lts

/-!
# A queue with a doorbell

Producers push on a queue and ring for each item; a consumer waits for a ring and then pops.  The
push and the ring are two steps, and so are the hearing of a ring and the pop; a ring may be lost.

* `Doorbell`, `doorbellSystem` — the state and its steps; a pop from an empty queue is possible;
* `Balanced` — every item in the queue is accounted for by a ring that is still to come, has come, is
  being answered, or was lost;
* `balanced_of_reach` — in every run; so a pop finds an item (`Balanced.pop_finds`), and an item stays
  behind only where a ring was lost (`Balanced.lost_pos`).
-/

namespace GoFight.Lib

/-- The queue, the rings not yet heard, how many producers are about to ring and consumers about to
pop, the rings lost, and the items pushed and popped so far. -/
structure Doorbell (α : Type*) where
  queue : List α
  rings : ℕ
  ringing : ℕ
  popping : ℕ
  lost : ℕ
  pushed : List α
  popped : List α

namespace Doorbell

variable {α : Type*}

/-- A step of a producer or the consumer. -/
inductive Step (α : Type*)
  | push (a : α)
  | ring (heard : Bool)
  | hear
  | pop

/-- Nothing pushed yet. -/
def empty : Doorbell α where
  queue := []
  rings := 0
  ringing := 0
  popping := 0
  lost := 0
  pushed := []
  popped := []

/-- One step. -/
def step (d : Doorbell α) : Step α → Option (Doorbell α)
  | .push a =>
      some { d with queue := d.queue ++ [a], ringing := d.ringing + 1, pushed := d.pushed ++ [a] }
  | .ring heard =>
      match d.ringing with
      | 0 => none
      | n + 1 =>
          some (if heard then { d with ringing := n, rings := d.rings + 1 }
            else { d with ringing := n, lost := d.lost + 1 })
  | .hear =>
      match d.rings with
      | 0 => none
      | n + 1 => some { d with rings := n, popping := d.popping + 1 }
  | .pop =>
      match d.popping with
      | 0 => none
      | n + 1 =>
          some { d with
            popping := n
            queue := d.queue.tail
            popped := d.popped ++ d.queue.head?.toList }

/-- Every item in the queue is accounted for, and items leave it in the order they came. -/
structure Balanced (d : Doorbell α) : Prop where
  count : d.queue.length = d.rings + d.ringing + d.popping + d.lost
  order : d.popped ++ d.queue = d.pushed

variable {d d' : Doorbell α}

/-- A consumer that has heard a ring finds an item. -/
theorem Balanced.pop_finds (h : d.Balanced) (hp : 0 < d.popping) : d.queue ≠ [] := by
  intro hnil
  have hcount := h.count
  rw [hnil, List.length_nil] at hcount
  omega

/-- With no ring to come, heard or answered, what is in the queue is there for a lost ring. -/
theorem Balanced.lost_pos (h : d.Balanced) (hr : d.rings = 0) (hg : d.ringing = 0)
    (hp : d.popping = 0) (hq : d.queue ≠ []) : 0 < d.lost := by
  have hpos : 0 < d.queue.length := List.length_pos_iff.mpr hq
  have hcount := h.count
  omega

theorem balanced_empty : (empty : Doorbell α).Balanced := ⟨rfl, rfl⟩

/-- **The step lemma.** -/
theorem Balanced.step {e : Step α} (h : d.Balanced) (hs : d.step e = some d') : d'.Balanced := by
  obtain ⟨hcount, horder⟩ := h
  cases e with
  | push a =>
    cases hs
    refine ⟨?_, ?_⟩
    · show (d.queue ++ [a]).length = d.rings + (d.ringing + 1) + d.popping + d.lost
      rw [List.length_append, List.length_singleton]
      omega
    · show d.popped ++ (d.queue ++ [a]) = d.pushed ++ [a]
      rw [← horder, List.append_assoc]
  | ring heard =>
    simp only [Doorbell.step] at hs
    cases hn : d.ringing with
    | zero =>
      rw [hn] at hs
      cases hs
    | succ n =>
      rw [hn] at hs hcount
      cases heard with
      | true =>
        cases hs
        refine ⟨?_, horder⟩
        show d.queue.length = d.rings + 1 + n + d.popping + d.lost
        omega
      | false =>
        cases hs
        refine ⟨?_, horder⟩
        show d.queue.length = d.rings + n + d.popping + (d.lost + 1)
        omega
  | hear =>
    simp only [Doorbell.step] at hs
    cases hn : d.rings with
    | zero =>
      rw [hn] at hs
      cases hs
    | succ n =>
      rw [hn] at hs hcount
      cases hs
      refine ⟨?_, horder⟩
      show d.queue.length = n + d.ringing + (d.popping + 1) + d.lost
      omega
  | pop =>
    simp only [Doorbell.step] at hs
    cases hn : d.popping with
    | zero =>
      rw [hn] at hs
      cases hs
    | succ n =>
      rw [hn] at hs hcount
      cases hs
      cases hq : d.queue with
      | nil =>
        rw [hq, List.length_nil] at hcount
        omega
      | cons a q =>
        rw [hq] at hcount horder
        refine ⟨?_, ?_⟩
        · show q.length = d.rings + d.ringing + n + d.lost
          rw [List.length_cons] at hcount
          omega
        · show d.popped ++ [a] ++ q = d.pushed
          rw [← horder, List.append_assoc, List.singleton_append]

end Doorbell

/-- Runs from the empty queue. -/
def doorbellSystem (α : Type*) : Lts (Doorbell α) (Doorbell.Step α) where
  init d := d = .empty
  step d e := d.step e

/-- **In every run the queue and the rings stay in step.** -/
theorem Doorbell.balanced_of_reach {α : Type*} {d : Doorbell α}
    (h : (doorbellSystem α).Reach Lts.Free d) : d.Balanced := by
  refine h.invariant ?_ fun d e d' hd _ hs => hd.step hs
  rintro d rfl
  exact balanced_empty

end GoFight.Lib
