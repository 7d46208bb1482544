import Mathlib.Data.Int.Notation
import Mathlib.Tactic.Common

/-!
# A stack with a limit

* `BoundedStack α limit` — at most `limit` values, the top first;
* `push`, `pop`, `peek`, `replaceTop` — the operations, `none` beyond the limit or below the bottom;
* `onTop` — the stack with a list of values on top of it, if they fit;
* `onTop_bind_push`, `pop_of_onTop` — pushing and popping over a stack that is left alone.

A computation that only pushes and pops over its initial stack is followed by these equations: the
values on top change, and the stack below is the one it started with.
-/

namespace GoFight.Lib

/-- At most `limit` values, the top first. -/
@[ext] structure BoundedStack (α : Type*) (limit : ℕ) where
  values : List α
  fits : values.length ≤ limit

namespace BoundedStack

variable {α : Type*} {limit : ℕ}

/-- The number of values. -/
def height (s : BoundedStack α limit) : ℕ := s.values.length

/-- The values on top of the stack, if they fit. -/
def onTop (l : List α) (s : BoundedStack α limit) : Option (BoundedStack α limit) :=
  if h : (l ++ s.values).length ≤ limit then some ⟨l ++ s.values, h⟩ else none

/-- A push, which needs a free slot. -/
def push (a : α) (s : BoundedStack α limit) : Option (BoundedStack α limit) :=
  s.onTop [a]

/-- The top `n` values are removed, if there are as many. -/
def pop (n : ℕ) (s : BoundedStack α limit) : Option (BoundedStack α limit) :=
  if n ≤ s.height then
    some ⟨s.values.drop n, Nat.le_trans (List.drop_sublist n s.values).length_le s.fits⟩
  else none

/-- The value at an index: positive ones count from the bottom, negative ones from the top. -/
def peek (i : ℤ) (s : BoundedStack α limit) : Option α :=
  if i < 0 then s.values[(-i - 1).toNat]?
  else if 0 < i then s.values.reverse[(i - 1).toNat]?
  else none

/-- The position from the bottom that an index stands for, the lowest being 1. -/
def absIndex (i : ℤ) (s : BoundedStack α limit) : ℤ :=
  if i < 0 then s.height + 1 + i else i

/-- Another value in the place of the top one. -/
def replaceTop (a : α) (s : BoundedStack α limit) : Option (BoundedStack α limit) :=
  (s.pop 1).bind (push a)

theorem height_le (s : BoundedStack α limit) : s.height ≤ limit := s.fits

@[simp] theorem onTop_nil (s : BoundedStack α limit) : s.onTop [] = some s :=
  dif_pos s.fits

theorem onTop_eq_some_iff {l : List α} {s t : BoundedStack α limit} :
    s.onTop l = some t ↔ t.values = l ++ s.values := by
  unfold onTop
  constructor
  · intro h
    split at h
    · exact (Option.some.inj h) ▸ rfl
    · simp at h
  · intro h
    have hfits : (l ++ s.values).length ≤ limit := by
      rw [← h]
      exact t.fits
    rw [dif_pos hfits, Option.some.injEq]
    exact BoundedStack.ext h.symm

theorem onTop_eq_none_iff {l : List α} {s : BoundedStack α limit} :
    s.onTop l = none ↔ limit < l.length + s.height := by
  unfold onTop height
  simp [List.length_append]

theorem onTop_isSome_iff {l : List α} {s : BoundedStack α limit} :
    (∃ t, s.onTop l = some t) ↔ l.length + s.height ≤ limit := by
  rw [← Option.isSome_iff_exists, Option.isSome_iff_ne_none, Ne, onTop_eq_none_iff, Nat.not_lt]

/-- Values over values over a stack. -/
theorem onTop_bind_onTop (l m : List α) (s : BoundedStack α limit) :
    (s.onTop l).bind (onTop m) = s.onTop (m ++ l) := by
  cases h : s.onTop l with
  | none =>
    rw [onTop_eq_none_iff] at h
    symm
    rw [Option.bind_none, onTop_eq_none_iff, List.length_append]
    omega
  | some t =>
    rw [onTop_eq_some_iff] at h
    unfold onTop
    simp only [Option.bind_some, h, List.append_assoc]

theorem onTop_bind_push (a : α) (l : List α) (s : BoundedStack α limit) :
    (s.onTop l).bind (push a) = s.onTop (a :: l) :=
  onTop_bind_onTop l [a] s

theorem pop_of_onTop {l : List α} {s t : BoundedStack α limit} (h : s.onTop l = some t) {n : ℕ}
    (hn : n ≤ l.length) : t.pop n = s.onTop (l.drop n) := by
  rw [onTop_eq_some_iff] at h
  have hheight : n ≤ t.height := by
    rw [height, h, List.length_append]
    omega
  rw [pop, if_pos hheight]
  symm
  rw [onTop_eq_some_iff, ← List.drop_append_of_le_length hn, ← h]

theorem peek_of_onTop {l : List α} {s t : BoundedStack α limit} (h : s.onTop l = some t) {n : ℕ}
    (hn : n < l.length) : t.peek (-(n + 1 : ℕ)) = l[n]? := by
  rw [onTop_eq_some_iff] at h
  have hneg : (-(n + 1 : ℕ) : ℤ) < 0 := by omega
  have hindex : (- -((n + 1 : ℕ) : ℤ) - 1).toNat = n := by omega
  rw [peek, if_pos hneg, hindex, h, List.getElem?_append_left hn]

theorem absIndex_of_onTop {l : List α} {s t : BoundedStack α limit} (h : s.onTop l = some t)
    {n : ℕ} (hn : n < l.length) : t.absIndex (-(n + 1 : ℕ)) = s.height + (l.length - n : ℕ) := by
  rw [onTop_eq_some_iff] at h
  have hneg : (-(n + 1 : ℕ) : ℤ) < 0 := by omega
  have hheight : t.height = l.length + s.height := by
    rw [height, h, List.length_append, height]
  rw [absIndex, if_pos hneg, hheight]
  omega

theorem replaceTop_of_onTop {a b : α} {l : List α} {s t : BoundedStack α limit}
    (h : s.onTop (a :: l) = some t) : t.replaceTop b = s.onTop (b :: l) := by
  have hpop : t.pop 1 = s.onTop l := pop_of_onTop h (n := 1) (by simp)
  rw [replaceTop, hpop, onTop_bind_push]

end BoundedStack

end GoFight.Lib
