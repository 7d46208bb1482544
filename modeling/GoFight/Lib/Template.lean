import Mathlib.Data.List.Infix
import Mathlib.Data.List.TakeWhile
import Mathlib.Tactic.Common

/-!
# Lists with holes

A line is often a fixed text with a word put into its holes.  Whether a pattern occurs in such a line
can then be seen from the text, without knowing the word.

* `Seg`, `render` — a template, and the list it gives for a word;
* `StartsIn` — an occurrence that starts in the first part of a list;
* `noStart`, `noResume` — what there is to check about a text in front of a hole or behind one;
* `not_infix_render` — a pattern that does not occur in the word does not occur in the line;
* `not_infix_render_long` — a pattern of letters too long for the word does not either, whatever is in
  the word.
-/

namespace GoFight.Lib

section Infix

variable {α : Type*} {p w q x A B : List α}

/-- The pattern occurs in `A ++ B`, and starts in `A`. -/
def StartsIn (p A B : List α) : Prop := ∃ a, a ≠ [] ∧ a <:+ A ∧ p <+: a ++ B

/-- An end of `A ++ B` is an end of `B`, or an end of `A` in front of `B`. -/
theorem suffix_append_cases {t : List α} (h : t <:+ A ++ B) :
    t <:+ B ∨ ∃ a, a ≠ [] ∧ a <:+ A ∧ t = a ++ B := by
  induction A with
  | nil => exact .inl h
  | cons c A ih =>
    rw [List.cons_append, List.suffix_cons_iff] at h
    rcases h with rfl | h
    · exact .inr ⟨c :: A, by simp, List.suffix_rfl, rfl⟩
    · rcases ih h with h | ⟨a, hne, ha, rfl⟩
      · exact .inl h
      · exact .inr ⟨a, hne, ha.trans (List.suffix_cons c A), rfl⟩

/-- An occurrence starts in the first part or is in the second one. -/
theorem startsIn_or_later (h : p <:+: A ++ B) : StartsIn p A B ∨ p <:+: B := by
  obtain ⟨t, hpre, hsuf⟩ := List.infix_iff_prefix_suffix.mp h
  rcases suffix_append_cases hsuf with hB | ⟨a, hne, ha, rfl⟩
  · exact .inr (hpre.isInfix.trans hB.isInfix)
  · exact .inl ⟨a, hne, ha, hpre⟩

/-- One of the lists is the beginning of the other. -/
def comparable [BEq α] (a b : List α) : Bool := a.isPrefixOf b || b.isPrefixOf a

theorem comparable_of_prefix [BEq α] [LawfulBEq α] {a b l : List α} (ha : a <+: l) (hb : b <+: l) :
    comparable a b = true := by
  rw [comparable, Bool.or_eq_true, List.isPrefixOf_iff_prefix, List.isPrefixOf_iff_prefix]
  exact List.prefix_or_prefix_of_prefix ha hb

/-- No end of the text begins like the pattern. -/
def noStart [BEq α] (w A : List α) : Bool := A.tails.all fun a => a.isEmpty || !comparable w a

theorem not_startsIn_of_noStart [BEq α] [LawfulBEq α] (h : noStart w A = true) :
    ¬StartsIn (w ++ q) A B := by
  rintro ⟨a, hne, ha, hpre⟩
  have hcmp : comparable w a = true :=
    comparable_of_prefix ((List.prefix_append w q).trans hpre) (List.prefix_append a B)
  have hall := List.all_eq_true.mp h a ((List.mem_tails _ _).mpr ha)
  rw [hcmp, List.isEmpty_eq_false_iff.mpr hne] at hall
  cases hall

/-- No end of the pattern begins like the text. -/
def noResume [BEq α] (p A : List α) : Bool :=
  p.tail.tails.all fun r => r.isEmpty || !comparable r A

/-- A pattern that is not in a word does not start in it. -/
theorem not_startsIn_of_noResume [BEq α] [LawfulBEq α] (hx : ¬p <:+: x) (h : noResume p A = true) :
    ¬StartsIn p x (A ++ B) := by
  rintro ⟨a, hne, ha, hpre⟩
  rcases List.prefix_or_prefix_of_prefix hpre (List.prefix_append a (A ++ B)) with hpa | ⟨r, rfl⟩
  · exact hx (hpa.isInfix.trans ha.isInfix)
  · obtain ⟨c, a', rfl⟩ := List.exists_cons_of_ne_nil hne
    have hr : r <+: A ++ B := (List.prefix_append_right_inj _).mp hpre
    have hcmp : comparable r A = true := comparable_of_prefix hr (List.prefix_append A B)
    have hall := List.all_eq_true.mp h r ((List.mem_tails _ _).mpr (List.suffix_append a' r))
    rw [hcmp, Bool.not_true, Bool.or_false, List.isEmpty_iff] at hall
    subst hall
    rw [List.append_nil] at hx
    exact hx ha.isInfix

/-- A run of letters ends where another letter comes. -/
theorem length_le_of_begins {isLetter : α → Bool} (hp : ∀ c ∈ p, isLetter c = true) {c : α}
    (hc : isLetter c = false) (h : p <+: A ++ c :: B) : p.length ≤ A.length := by
  by_contra hlt
  have hA : A ++ [c] <+: A ++ c :: B := by simp
  have hle : (A ++ [c]).length ≤ p.length := by
    rw [List.length_append, List.length_singleton]
    omega
  have hcp : c ∈ p := (List.prefix_of_prefix_length_le hA h hle).subset (by simp)
  rw [hp c hcp] at hc
  cases hc

/-- The letters a text begins with, and the first other one. -/
theorem exists_first_other {isLetter : α → Bool} (h : (A.any fun c => !isLetter c) = true) :
    ∃ u c v, A = u ++ c :: v ∧ isLetter c = false ∧ A.takeWhile isLetter = u := by
  have hne : A.dropWhile isLetter ≠ [] := by
    intro hnil
    obtain ⟨c, hc, hother⟩ := List.any_eq_true.mp h
    rw [List.dropWhile_eq_nil_iff.mp hnil c hc] at hother
    cases hother
  obtain ⟨c, v, hv⟩ := List.exists_cons_of_ne_nil hne
  have hc := List.head_dropWhile_not isLetter hne
  refine ⟨A.takeWhile isLetter, c, v, ?_, ?_, rfl⟩
  · rw [← hv, List.takeWhile_append_dropWhile]
  · simpa only [hv, List.head_cons] using hc

end Infix

/-! ### Templates -/

/-- A part of a template: a text, or a hole. -/
inductive Seg (α : Type*)
  | lit (l : List α)
  | hole

section Templates

variable {α : Type*}

/-- A template with a word in its holes. -/
def render (x : List α) : List (Seg α) → List α
  | [] => []
  | .lit l :: segs => l ++ render x segs
  | .hole :: segs => x ++ render x segs

/-- The word is where a hole is. -/
theorem infix_render {x : List α} {segs : List (Seg α)} (h : .hole ∈ segs) : x <:+: render x segs := by
  induction segs with
  | nil => cases h
  | cons seg segs ih =>
    cases seg with
    | hole => exact (List.prefix_append x _).isInfix
    | lit l =>
      have hrest : .hole ∈ segs := by simpa using h
      exact (ih hrest).trans (List.suffix_append l _).isInfix

/-- The text behind a hole passes the check. -/
def nextLit (check : List α → Bool) : List (Seg α) → Bool
  | .lit l :: _ => check l
  | _ => false

theorem exists_of_nextLit {check : List α → Bool} {segs : List (Seg α)}
    (h : nextLit check segs = true) : ∃ l rest, segs = .lit l :: rest ∧ check l = true := by
  cases segs with
  | nil => cases h
  | cons seg rest =>
    cases seg with
    | lit l => exact ⟨l, rest, rfl, h⟩
    | hole => cases h

variable [BEq α]

/-- The pattern starts in no text of the template and goes on behind no hole. -/
def clear (p : List α) : List (Seg α) → Bool
  | [] => true
  | .lit l :: segs => noStart p l && clear p segs
  | .hole :: segs => nextLit (noResume p) segs && clear p segs

/-- No text of the template begins like `w`, and behind each hole there are at most `k` letters. -/
def clearLong (isLetter : α → Bool) (w : List α) (k : ℕ) : List (Seg α) → Bool
  | [] => true
  | .lit l :: segs => noStart w l && clearLong isLetter w k segs
  | .hole :: segs =>
      nextLit (fun l => l.any (fun c => !isLetter c) && decide ((l.takeWhile isLetter).length ≤ k))
        segs && clearLong isLetter w k segs

variable [LawfulBEq α] {x : List α}

/-- Whether a line begins like a template: the texts in front of the hole are the same or differ. -/
theorem isPrefixOf_hole [DecidableEq α] {h h' t t' rest : List α}
    (h₀ : (h = h' ∧ t.length ≤ t'.length) ∨ comparable h h' = false) :
    (h ++ (x ++ t)).isPrefixOf (h' ++ (x ++ (t' ++ rest))) = (decide (h = h') && t.isPrefixOf t') := by
  rw [Bool.eq_iff_iff, Bool.and_eq_true, decide_eq_true_eq, List.isPrefixOf_iff_prefix,
    List.isPrefixOf_iff_prefix]
  constructor
  · intro hpre
    rcases h₀ with ⟨rfl, hlen⟩ | hno
    · rw [List.prefix_append_right_inj, List.prefix_append_right_inj] at hpre
      exact ⟨rfl, List.prefix_of_prefix_length_le hpre (List.prefix_append t' rest) hlen⟩
    · have hcmp := comparable_of_prefix ((List.prefix_append h (x ++ t)).trans hpre)
        (List.prefix_append h' _)
      rw [hno] at hcmp
      cases hcmp
  · rintro ⟨rfl, ht⟩
    rw [List.prefix_append_right_inj, List.prefix_append_right_inj]
    exact ht.trans (List.prefix_append t' rest)

/-- **A pattern that is not in the word** is not in the line, if it fits nowhere in the text. -/
theorem not_infix_render {p : List α} (hx : ¬p <:+: x) {segs : List (Seg α)}
    (h : clear p segs = true) : ¬p <:+: render x segs := by
  have hp : p ≠ [] := by
    rintro rfl
    exact hx (List.nil_infix)
  induction segs with
  | nil =>
    intro hin
    exact hp (List.infix_nil.mp hin)
  | cons seg segs ih =>
    intro hin
    cases seg with
    | lit l =>
      rw [clear, Bool.and_eq_true] at h
      rcases startsIn_or_later hin with hs | hs
      · rw [← List.append_nil p] at hs
        exact not_startsIn_of_noStart h.1 hs
      · exact ih h.2 hs
    | hole =>
      rw [clear, Bool.and_eq_true] at h
      rcases startsIn_or_later hin with hs | hs
      · obtain ⟨l, rest, rfl, hl⟩ := exists_of_nextLit h.1
        exact not_startsIn_of_noResume hx hl hs
      · exact ih h.2 hs

/-- **A pattern of letters that is longer than the word and what may follow it** is not in the line,
if no text begins like it. -/
theorem not_infix_render_long {isLetter : α → Bool} {w q : List α} (hw : w ≠ [])
    (hletters : ∀ c ∈ w ++ q, isLetter c = true) {k : ℕ} (hlen : x.length + k < (w ++ q).length)
    {segs : List (Seg α)} (h : clearLong isLetter w k segs = true) :
    ¬w ++ q <:+: render x segs := by
  have hp : w ++ q ≠ [] := List.append_ne_nil_of_left_ne_nil hw q
  induction segs with
  | nil =>
    intro hin
    exact hp (List.infix_nil.mp hin)
  | cons seg segs ih =>
    intro hin
    cases seg with
    | lit l =>
      rw [clearLong, Bool.and_eq_true] at h
      rcases startsIn_or_later hin with hs | hs
      · exact not_startsIn_of_noStart h.1 hs
      · exact ih h.2 hs
    | hole =>
      rw [clearLong, Bool.and_eq_true] at h
      rcases startsIn_or_later hin with ⟨a, -, ha, hpre⟩ | hs
      · obtain ⟨l, rest, rfl, hl⟩ := exists_of_nextLit h.1
        rw [Bool.and_eq_true, decide_eq_true_eq] at hl
        obtain ⟨u, c, v, rfl, hc, hu⟩ := exists_first_other hl.1
        have hpre' : w ++ q <+: (a ++ u) ++ c :: (v ++ render x rest) := by
          simpa only [render, List.append_assoc, List.cons_append] using hpre
        have hle := length_le_of_begins hletters hc hpre'
        have hax := ha.length_le
        have hsum : (a ++ u).length = a.length + u.length := List.length_append
        rw [hu] at hl
        omega
      · exact ih h.2 hs

end Templates

end GoFight.Lib
