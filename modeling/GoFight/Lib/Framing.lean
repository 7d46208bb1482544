import Mathlib.Data.List.Basic
import Mathlib.Tactic.Common

/-!
# Framing rules: cutting a growing stream into frames

A *framing rule* looks at the front of a stream and says how many items the first frame takes, or
that it cannot say yet.  The one requirement beyond sanity of the count is **stability**: once a
count is given, more input behind it does not change the answer.

* `Framing.split` — cut off frames until the rule has no answer; what is left is the rest;
* `split_flatten` — cutting loses nothing: frames and rest concatenate to the input;
* `split_append` — **the confluence lemma**: cutting `l ++ r` is cutting `l`, then cutting the
  rest of `l` followed by `r`;
* `Cut` — how far a reader has come that may stop in front of a whole frame.

The items, and what a frame means, are left open.
-/

namespace GoFight.Lib

/-- A framing rule: the size of the first frame of a stream, when it is already decided. -/
structure Framing (α : Type*) where
  /-- How many items the first frame takes. -/
  next : List α → Option ℕ
  /-- A frame is not empty. -/
  pos : ∀ {l n}, next l = some n → 0 < n
  /-- A frame is not longer than the stream. -/
  le : ∀ {l n}, next l = some n → n ≤ l.length
  /-- A decided frame stays decided when more input follows. -/
  stable : ∀ {l n} (r : List α), next l = some n → next (l ++ r) = some n

namespace Framing

variable {α : Type*} (F : Framing α)

/-- Taking a frame off makes the stream shorter. -/
theorem length_drop_lt {l : List α} {n : ℕ} (h : F.next l = some n) :
    (l.drop n).length < l.length := by
  have hpos := F.pos h
  have hle := F.le h
  rw [List.length_drop]
  omega

/-- Cut off frames while the rule gives one: the frames in order, and the rest. -/
def split (l : List α) : List (List α) × List α :=
  match _h : F.next l with
  | none => ([], l)
  | some n => (l.take n :: (split (l.drop n)).1, (split (l.drop n)).2)
termination_by l.length
decreasing_by all_goals exact F.length_drop_lt ‹_›

theorem split_none {l : List α} (h : F.next l = none) : F.split l = ([], l) := by
  rw [split]
  split
  · rfl
  · next n hn => rw [h] at hn; cases hn

theorem split_some {l : List α} {n : ℕ} (h : F.next l = some n) :
    F.split l = (l.take n :: (F.split (l.drop n)).1, (F.split (l.drop n)).2) := by
  rw [split]
  split
  · next hn => rw [h] at hn; cases hn
  · next m hm =>
    rw [h] at hm
    cases hm
    rfl

/-- A stream that starts with the frame `f` gives `f` first. -/
theorem split_cons {f r : List α} (h : F.next (f ++ r) = some f.length) :
    F.split (f ++ r) = (f :: (F.split r).1, (F.split r).2) := by
  rw [F.split_some h, List.take_left, List.drop_left]

/-- **Induction along the cutting.**  Either the rule has no answer, or one frame comes off and the
property is known of what is behind it. -/
theorem split_induction {P : List α → Prop} (hnone : ∀ l, F.next l = none → P l)
    (hsome : ∀ l n, F.next l = some n → P (l.drop n) → P l) : ∀ l, P l := by
  intro l
  induction hlen : l.length using Nat.strongRecOn generalizing l with
  | _ k ih =>
    cases h : F.next l with
    | none => exact hnone l h
    | some n => exact hsome l n h (ih _ (hlen ▸ F.length_drop_lt h) _ rfl)

/-- Cutting loses nothing. -/
theorem split_flatten (l : List α) : (F.split l).1.flatten ++ (F.split l).2 = l := by
  induction l using F.split_induction with
  | hnone l h => rw [F.split_none h]; rfl
  | hsome l n h ih =>
    rw [F.split_some h, List.flatten_cons, List.append_assoc, ih, List.take_append_drop]

/-- Where the cutting stops, the rule has no answer. -/
theorem next_split_rest (l : List α) : F.next (F.split l).2 = none := by
  induction l using F.split_induction with
  | hnone l h => rw [F.split_none h]; exact h
  | hsome l n h ih => rw [F.split_some h]; exact ih

/-- **Confluence.**  Cutting `l ++ r` is cutting `l`, then the rest of `l` followed by `r`. -/
theorem split_append (l r : List α) :
    F.split (l ++ r) =
      ((F.split l).1 ++ (F.split ((F.split l).2 ++ r)).1, (F.split ((F.split l).2 ++ r)).2) := by
  induction l using F.split_induction with
  | hnone l h => rw [F.split_none h]; rfl
  | hsome l n h ih =>
    have hle := F.le h
    have hdrop : (l ++ r).drop n = l.drop n ++ r := List.drop_append_of_le_length hle
    have htake : (l ++ r).take n = l.take n := List.take_append_of_le_length hle
    rw [F.split_some (F.stable r h), hdrop, htake, ih, F.split_some h]
    rfl

/-! ### In the middle of a stream -/

/-- The frames `fs` have been cut off the stream `l`, and `rest` is behind them. -/
def Cut (l : List α) (fs : List (List α)) (rest : List α) : Prop :=
  F.split l = (fs ++ (F.split rest).1, (F.split rest).2)

variable {F} {l rest v w : List α} {fs : List (List α)}

theorem Cut.nil (l : List α) : F.Cut l [] l := rfl

/-- More of the stream arrives. -/
theorem Cut.append (h : F.Cut l fs rest) (r : List α) : F.Cut (l ++ r) fs (rest ++ r) := by
  rw [Cut, F.split_append l r, h, F.split_append rest r, List.append_assoc]

/-- The frames of the front `v` of what is left are cut off. -/
theorem Cut.front (h : F.Cut l fs (v ++ w)) :
    F.Cut l (fs ++ (F.split v).1) ((F.split v).2 ++ w) := by
  rw [Cut, h, F.split_append v w, List.append_assoc]

theorem Cut.prefix_frames (h : F.Cut l fs rest) : fs <+: (F.split l).1 := by
  rw [h]
  exact List.prefix_append _ _

end Framing

end GoFight.Lib
