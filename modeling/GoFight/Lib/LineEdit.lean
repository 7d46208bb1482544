import Mathlib.Data.List.Basic
import Mathlib.Logic.Function.Basic
import Mathlib.Data.List.Infix

/-!
# Stream edits of files seen as lists of lines

A script of `sed` commands over several files: `/p/d` deletes every line that `p` hits, `/m/i t`
puts the line `t` in front of every line that `m` hits.

* `Edit`, `runScript` — the commands and a script, over any line type and any pattern type;
* `filter_runScript` — what a script leaves of the lines of one kind, when it inserts none of that
  kind: those that none of its deletions hits, in their order;
* `filter_runScript_eq_iff` — the frame rule: it leaves them all exactly when no deletion hits one;
* `breMatches` — the unanchored basic pattern of letters and `.`.
-/

namespace GoFight.Lib

/-! ### Scripts -/

section Scripts

variable {π α φ : Type*}

/-- One command of a script. -/
inductive Edit (π α : Type*)
  | delete (p : π)
  | insert (m : π) (t : α)

/-- A command on the lines of a file. -/
def Edit.apply (hits : π → α → Bool) : Edit π α → List α → List α
  | .delete p, l => l.filter fun a => !hits p a
  | .insert m t, l => l.flatMap fun a => if hits m a then [t, a] else [a]

variable [DecidableEq φ]

/-- A script: its commands in order, each on its file. -/
def runScript (hits : π → α → Bool) (script : List (φ × Edit π α)) (s : φ → List α) :
    φ → List α :=
  script.foldl (fun s e => Function.update s e.1 (e.2.apply hits (s e.1))) s

/-- The patterns of a script's deletions in a file. -/
def deletions (script : List (φ × Edit π α)) (f : φ) : List π :=
  script.filterMap fun
    | (g, .delete p) => if g = f then some p else none
    | (_, .insert _ _) => none

/-- The lines a script inserts into a file. -/
def insertions (script : List (φ × Edit π α)) (f : φ) : List α :=
  script.filterMap fun
    | (_, .delete _) => none
    | (g, .insert _ t) => if g = f then some t else none

theorem runScript_cons (hits : π → α → Bool) (e : φ × Edit π α) (script : List (φ × Edit π α))
    (s : φ → List α) :
    runScript hits (e :: script) s =
      runScript hits script (Function.update s e.1 (e.2.apply hits (s e.1))) := rfl

theorem runScript_append (hits : π → α → Bool) (script script' : List (φ × Edit π α))
    (s : φ → List α) :
    runScript hits (script ++ script') s = runScript hits script' (runScript hits script s) :=
  List.foldl_append

theorem deletions_append (script script' : List (φ × Edit π α)) (f : φ) :
    deletions (script ++ script') f = deletions script f ++ deletions script' f :=
  List.filterMap_append

theorem insertions_append (script script' : List (φ × Edit π α)) (f : φ) :
    insertions (script ++ script') f = insertions script f ++ insertions script' f :=
  List.filterMap_append

/-! ### The lines of one kind -/

/-- An insertion leaves the lines of a kind that the inserted line is not of. -/
theorem filter_insert (hits : π → α → Bool) {q : α → Bool} {m : π} {t : α} (ht : q t = false)
    (l : List α) : ((Edit.insert m t).apply hits l).filter q = l.filter q := by
  have hkeep : ∀ a, (if hits m a then [t, a] else [a]).filter q = [a].filter q := by
    intro a
    by_cases hm : hits m a = true <;> simp [hm, ht]
  induction l with
  | nil => rfl
  | cons a l ih =>
    show List.filter q ((if hits m a then [t, a] else [a]) ++ (Edit.insert m t).apply hits l) = _
    rw [List.filter_append, hkeep, ih, ← List.filter_append]
    rfl

/-- **What a script leaves of a kind of lines.**  When it inserts none of them into the file, it
leaves those that none of its deletions hits, in their order. -/
theorem filter_runScript (hits : π → α → Bool) {q : α → Bool} {f : φ}
    {script : List (φ × Edit π α)} (hq : ∀ t ∈ insertions script f, q t = false)
    (s : φ → List α) :
    (runScript hits script s f).filter q =
      ((s f).filter q).filter fun a => (deletions script f).all fun p => !hits p a := by
  induction script generalizing s with
  | nil => simp [runScript, deletions]
  | cons e script ih =>
    obtain ⟨g, e⟩ := e
    rw [runScript_cons]
    by_cases hg : g = f
    · subst hg
      cases e with
      | delete p =>
        have hdel : deletions ((g, Edit.delete p) :: script) g = p :: deletions script g := by
          simp [deletions]
        have hins : insertions ((g, Edit.delete p) :: script) g = insertions script g := by
          simp [insertions]
        rw [ih (hins ▸ hq), Function.update_self, hdel]
        simp only [Edit.apply, List.filter_filter, List.all_cons]
        congr 1
        funext a
        ac_rfl
      | insert m t =>
        have hdel : deletions ((g, Edit.insert m t) :: script) g = deletions script g := by
          simp [deletions]
        have hins : insertions ((g, Edit.insert m t) :: script) g = t :: insertions script g := by
          simp [insertions]
        rw [hins, List.forall_mem_cons] at hq
        rw [ih hq.2, Function.update_self, filter_insert hits hq.1, hdel]
    · have hdel : deletions ((g, e) :: script) f = deletions script f := by
        cases e <;> simp [deletions, hg]
      have hins : insertions ((g, e) :: script) f = insertions script f := by
        cases e <;> simp [insertions, hg]
      rw [ih (hins ▸ hq), Function.update_of_ne (Ne.symm hg), hdel]

/-- **The frame rule.**  A script that inserts no line of a kind into a file keeps the lines of that
kind, in their order, exactly when none of its deletions hits one. -/
theorem filter_runScript_eq_iff (hits : π → α → Bool) {q : α → Bool} {f : φ}
    {script : List (φ × Edit π α)} (hq : ∀ t ∈ insertions script f, q t = false)
    (s : φ → List α) :
    (runScript hits script s f).filter q = (s f).filter q ↔
      ∀ a ∈ s f, q a = true → ∀ p ∈ deletions script f, hits p a = false := by
  rw [filter_runScript hits hq, List.filter_eq_self]
  simp only [List.mem_filter, and_imp, List.all_eq_true, Bool.not_eq_true']

/-! ### One file -/

/-- Commands on the lines of one file, in order. -/
def editLines (hits : π → α → Bool) (es : List (Edit π α)) (l : List α) : List α :=
  es.foldl (fun l e => e.apply hits l) l

/-- The commands of a script on a file. -/
def editsOf (script : List (φ × Edit π α)) (f : φ) : List (Edit π α) :=
  script.filterMap fun e => if e.1 = f then some e.2 else none

/-- A script does to a file what its commands on the file do. -/
theorem runScript_apply (hits : π → α → Bool) (script : List (φ × Edit π α)) (s : φ → List α)
    (f : φ) : runScript hits script s f = editLines hits (editsOf script f) (s f) := by
  induction script generalizing s with
  | nil => rfl
  | cons e script ih =>
    rw [runScript_cons, ih]
    by_cases he : e.1 = f
    · have hof : editsOf (e :: script) f = e.2 :: editsOf script f := by simp [editsOf, he]
      rw [hof, ← he, Function.update_self]
      rfl
    · have hof : editsOf (e :: script) f = editsOf script f := by simp [editsOf, he]
      rw [hof, Function.update_of_ne (Ne.symm he)]

/-- The line of a deletion: it is hit by its pattern. -/
def Edit.deletes (hits : π → α → Bool) (a : α) : Edit π α → Bool
  | .delete p => hits p a
  | .insert _ _ => false

/-- A deletion hits the line. -/
def deleted (hits : π → α → Bool) (es : List (Edit π α)) (a : α) : Bool :=
  es.any (Edit.deletes hits a)

/-- The deletions of a script's commands on a file are the script's deletions in it. -/
theorem deleted_editsOf (hits : π → α → Bool) (script : List (φ × Edit π α)) (f : φ) (a : α) :
    deleted hits (editsOf script f) a = (deletions script f).any fun p => hits p a := by
  induction script with
  | nil => rfl
  | cons e script ih =>
    obtain ⟨g, e⟩ := e
    by_cases hg : g = f
    · have hof : editsOf ((g, e) :: script) f = e :: editsOf script f := by simp [editsOf, hg]
      rw [hof, deleted, List.any_cons, ← deleted, ih]
      cases e <;> simp [deletions, hg, Edit.deletes]
    · have hof : editsOf ((g, e) :: script) f = editsOf script f := by simp [editsOf, hg]
      rw [hof, ih]
      cases e <;> simp [deletions, hg]

/-- The markers of the insertions, each with the line it inserts. -/
def inserts (es : List (Edit π α)) : List (π × α) :=
  es.filterMap fun
    | .delete _ => none
    | .insert m t => some (m, t)

/-- What the insertions put in front of a line. -/
def inFront (hits : π → α → Bool) (es : List (Edit π α)) (a : α) : List α :=
  ((inserts es).filter fun i => hits i.1 a).map Prod.snd

/-- The pattern of a command. -/
def Edit.pattern : Edit π α → π
  | .delete p => p
  | .insert m _ => m

/-- The line a command inserts. -/
def Edit.text : Edit π α → Option α
  | .delete _ => none
  | .insert _ t => some t

/-- A script whose insertions stay: no later command hits an inserted line. -/
def Settled (hits : π → α → Bool) (es : List (Edit π α)) : Prop :=
  es.Pairwise fun e e' => ∀ t ∈ e.text, hits e'.pattern t = false

theorem deleted_of_settled {hits : π → α → Bool} {es : List (Edit π α)} {t : α}
    (h : ∀ e ∈ es, hits e.pattern t = false) : deleted hits es t = false := by
  apply List.any_eq_false.mpr
  intro e he
  cases e with
  | delete p => simpa [Edit.deletes, Edit.pattern] using h _ he
  | insert m t' => simp [Edit.deletes]

theorem inFront_of_settled {hits : π → α → Bool} {es : List (Edit π α)} {t : α}
    (h : ∀ e ∈ es, hits e.pattern t = false) : inFront hits es t = [] := by
  rw [inFront, List.map_eq_nil_iff, List.filter_eq_nil_iff]
  intro i hi
  obtain ⟨e, he, hei⟩ := List.mem_filterMap.mp hi
  cases e with
  | delete p => simp at hei
  | insert m t' =>
    have hm := h _ he
    simp only [Option.some.injEq] at hei
    simpa [← hei, Edit.pattern] using hm

theorem flatMap_filter {β : Type*} (q : α → Bool) (g : α → List β) (l : List α) :
    (l.filter q).flatMap g = l.flatMap fun a => if q a then g a else [] := by
  induction l with
  | nil => rfl
  | cons a l ih => by_cases hq : q a = true <;> simp [hq, ih]

/-- **The normal form.**  When the insertions of a script stay and the lines they are put in front of
are not deleted, the script leaves the lines that no deletion hits, each behind what is inserted in
front of it. -/
theorem editLines_eq {hits : π → α → Bool} {es : List (Edit π α)} (hes : Settled hits es)
    {l : List α} (hl : ∀ a ∈ l, inFront hits es a ≠ [] → deleted hits es a = false) :
    editLines hits es l =
      (l.filter fun a => !deleted hits es a).flatMap fun a => inFront hits es a ++ [a] := by
  induction es generalizing l with
  | nil => simp [editLines, deleted, inFront, inserts]
  | cons e es ih =>
    obtain ⟨he, hrest⟩ := List.pairwise_cons.mp hes
    show editLines hits es (e.apply hits l) = _
    cases e with
    | delete p =>
      have hdel : ∀ a, deleted hits (.delete p :: es) a = (hits p a || deleted hits es a) :=
        fun a => rfl
      have hfront : ∀ a, inFront hits (.delete p :: es) a = inFront hits es a := fun a => rfl
      have hl' : ∀ a ∈ (Edit.delete p).apply hits l,
          inFront hits es a ≠ [] → deleted hits es a = false := by
        intro a ha hne
        have h := hl a (List.mem_of_mem_filter ha) hne
        rw [hdel, Bool.or_eq_false_iff] at h
        exact h.2
      rw [ih hrest hl', Edit.apply, List.filter_filter]
      simp only [hdel, hfront, Bool.not_or]
      congr 2
      funext a
      rw [Bool.and_comm]
    | insert m t =>
      have ht : ∀ e' ∈ es, hits e'.pattern t = false := fun e' he' => he e' he' t rfl
      have htdel := deleted_of_settled ht
      have htfront := inFront_of_settled ht
      have hdel : ∀ a, deleted hits (.insert m t :: es) a = deleted hits es a := fun a => rfl
      have hfront : ∀ a, inFront hits (.insert m t :: es) a =
          if hits m a then t :: inFront hits es a else inFront hits es a := by
        intro a
        by_cases hm : hits m a = true <;> simp [inFront, inserts, hm]
      have hl' : ∀ a ∈ (Edit.insert m t).apply hits l,
          inFront hits es a ≠ [] → deleted hits es a = false := by
        intro b hb hne
        obtain ⟨a, ha, hb⟩ := List.mem_flatMap.mp hb
        by_cases hm : hits m a = true
        · rw [if_pos hm, List.mem_pair] at hb
          obtain rfl | rfl := hb
          · exact absurd htfront hne
          · apply hl b ha
            rw [hfront, if_pos hm]
            simp
        · rw [if_neg hm, List.mem_singleton] at hb
          subst hb
          apply hl b ha
          rw [hfront, if_neg hm]
          exact hne
      rw [ih hrest hl', Edit.apply, List.filter_flatMap, List.flatMap_assoc, flatMap_filter]
      apply List.flatMap_congr
      intro a ha
      rw [hdel, hfront]
      by_cases hm : hits m a = true
      · have hkeep : deleted hits es a = false := by
          apply hl a ha
          rw [hfront, if_pos hm]
          simp
        simp [hm, htdel, htfront, hkeep]
      · by_cases hkeep : deleted hits es a = true <;> simp [hm, hkeep]

/-! ### Scripts that regenerate -/

/-- A script that regenerates the lines it inserts: they stay, no marker hits one, and each is deleted
when the script is run again. -/
structure Regenerates (hits : π → α → Bool) (es : List (Edit π α)) : Prop where
  settled : Settled hits es
  unmarked : ∀ i ∈ inserts es, ∀ j ∈ inserts es, hits i.1 j.2 = false
  removed : ∀ i ∈ inserts es, deleted hits es i.2 = true

/-- The lines that a marker hits are not deleted. -/
def KeepsMarked (hits : π → α → Bool) (es : List (Edit π α)) (l : List α) : Prop :=
  ∀ a ∈ l, ∀ i ∈ inserts es, hits i.1 a = true → deleted hits es a = false

section Regenerates

variable {hits : π → α → Bool} {es : List (Edit π α)} {l : List α}

theorem mem_inFront {a t : α} (ht : t ∈ inFront hits es a) :
    ∃ m, (m, t) ∈ inserts es ∧ hits m a = true := by
  obtain ⟨i, hi, rfl⟩ := List.mem_map.mp ht
  obtain ⟨hi, hhit⟩ := List.mem_filter.mp hi
  exact ⟨i.1, hi, hhit⟩

/-- The normal form of what a script leaves. -/
theorem KeepsMarked.editLines_eq (hes : Settled hits es) (hl : KeepsMarked hits es l) :
    editLines hits es l =
      (l.filter fun a => !deleted hits es a).flatMap fun a => inFront hits es a ++ [a] := by
  apply Lib.editLines_eq hes
  intro a ha hne
  obtain ⟨t, ht⟩ := List.exists_mem_of_ne_nil _ hne
  obtain ⟨m, hi, hhit⟩ := mem_inFront ht
  exact hl a ha (m, t) hi hhit

/-- What a script leaves of a kind of lines whose old ones it deletes: the new ones. -/
theorem filter_editLines (hes : Settled hits es) (hl : KeepsMarked hits es l) {q : α → Bool}
    (hq : ∀ a ∈ l, deleted hits es a = false → q a = false) :
    (editLines hits es l).filter q =
      (l.filter fun a => !deleted hits es a).flatMap fun a => (inFront hits es a).filter q := by
  rw [hl.editLines_eq hes, List.filter_flatMap]
  apply List.flatMap_congr
  intro a ha
  obtain ⟨ha, hdel⟩ := List.mem_filter.mp ha
  have hqa := hq a ha (by simpa using hdel)
  simp [hqa]

/-- The new lines of a kind of which the script inserts one. -/
theorem filter_inFront {q : α → Bool} {m : π} {t : α}
    (hq : ((inserts es).filter fun i => q i.2) = [(m, t)]) (a : α) :
    (inFront hits es a).filter q = if hits m a then [t] else [] := by
  rw [inFront, List.filter_map, List.filter_filter]
  simp only [Function.comp_def, Bool.and_comm]
  rw [← List.filter_filter, hq]
  by_cases hm : hits m a = true <;> simp [hm]

theorem flatMap_singleton_if (q : α → Bool) (t : α) (l : List α) :
    (l.flatMap fun a => if q a then [t] else []) = List.replicate (l.countP q) t := by
  induction l with
  | nil => rfl
  | cons a l ih => by_cases hq : q a = true <;> simp [hq, ih, List.replicate_succ]

/-- The lines a marker hits are the same ones afterwards. -/
theorem Regenerates.filter_marker (h : Regenerates hits es) (hl : KeepsMarked hits es l)
    {i : π × α} (hi : i ∈ inserts es) :
    (editLines hits es l).filter (hits i.1) = l.filter (hits i.1) := by
  have hnone : ∀ a, (inFront hits es a).filter (hits i.1) = [] := by
    intro a
    rw [List.filter_eq_nil_iff]
    intro t ht
    obtain ⟨m, hj, -⟩ := mem_inFront ht
    rw [h.unmarked i hi _ hj]
    simp
  have hkeep : ∀ a, (inFront hits es a ++ [a]).filter (hits i.1) = [a].filter (hits i.1) := by
    intro a
    rw [List.filter_append, hnone, List.nil_append]
  rw [hl.editLines_eq h.settled, List.filter_flatMap]
  simp only [hkeep]
  rw [← List.filter_flatMap, List.flatMap_singleton', List.filter_filter]
  apply List.filter_congr
  intro a ha
  by_cases hm : hits i.1 a = true
  · simp [hm, hl a ha i hi hm]
  · simp [hm]

theorem Regenerates.countP_marker (h : Regenerates hits es) (hl : KeepsMarked hits es l)
    {i : π × α} (hi : i ∈ inserts es) :
    (editLines hits es l).countP (hits i.1) = l.countP (hits i.1) := by
  rw [List.countP_eq_length_filter, h.filter_marker hl hi, ← List.countP_eq_length_filter]

/-- **Exactly once.**  Of a kind of lines whose old ones are deleted and of which the script inserts
one, at a marker that hits one line, there is that one line. -/
theorem Regenerates.filter_kind (h : Regenerates hits es) (hl : KeepsMarked hits es l)
    {q : α → Bool} (hold : ∀ a ∈ l, deleted hits es a = false → q a = false) {m : π} {t : α}
    (hq : ((inserts es).filter fun i => q i.2) = [(m, t)]) (hm : l.countP (hits m) = 1) :
    (editLines hits es l).filter q = [t] := by
  have hi : (m, t) ∈ inserts es := by
    have hmem : (m, t) ∈ (inserts es).filter fun i => q i.2 := hq ▸ List.mem_singleton_self _
    exact (List.mem_filter.mp hmem).1
  have hcount : (l.filter fun a => !deleted hits es a).countP (hits m) = 1 := by
    rw [List.countP_filter, ← hm]
    apply List.countP_congr
    intro a ha
    by_cases hma : hits m a = true
    · simp [hma, hl a ha (m, t) hi hma]
    · simp [hma]
  rw [filter_editLines h.settled hl hold]
  simp only [filter_inFront hq]
  rw [flatMap_singleton_if, hcount]
  rfl

/-- **The fixed point.**  Running the script again changes nothing. -/
theorem Regenerates.editLines_editLines (h : Regenerates hits es) (hl : KeepsMarked hits es l) :
    editLines hits es (editLines hits es l) = editLines hits es l := by
  have hnew : ∀ a, (inFront hits es a).filter (fun t => !deleted hits es t) = [] := by
    intro a
    rw [List.filter_eq_nil_iff]
    intro t ht
    obtain ⟨m, hj, -⟩ := mem_inFront ht
    simp [h.removed _ hj]
  have hmarked : KeepsMarked hits es (editLines hits es l) := by
    intro a ha i hi hhit
    have hmem : a ∈ l.filter (hits i.1) := by
      rw [← h.filter_marker hl hi]
      exact List.mem_filter.mpr ⟨ha, hhit⟩
    exact hl a (List.mem_filter.mp hmem).1 i hi hhit
  rw [hmarked.editLines_eq h.settled, hl.editLines_eq h.settled]
  congr 1
  rw [List.filter_flatMap]
  simp only [List.filter_append, hnew, List.nil_append]
  rw [← List.filter_flatMap, List.flatMap_singleton', List.filter_filter]
  simp

end Regenerates

end Scripts

/-! ### Patterns -/

/-- The pattern at the front of the line: a letter is itself, `.` is any letter. -/
def breHere : List Char → List Char → Bool
  | [], _ => true
  | _ :: _, [] => false
  | p :: ps, c :: cs => (p = '.' || p = c) && breHere ps cs

/-- The pattern somewhere in the line. -/
def breMatches (p line : List Char) : Bool := line.tails.any (breHere p)

theorem breHere_iff_head {p : List Char} (hp : '.' ∉ p) (line : List Char) :
    breHere p line = true ↔ p <+: line := by
  induction p generalizing line with
  | nil => simp [breHere]
  | cons a p ih =>
    have ha : a ≠ '.' := fun h => hp (h ▸ List.mem_cons_self)
    have hp' : '.' ∉ p := fun h => hp (List.mem_cons_of_mem _ h)
    cases line with
    | nil => simp [breHere]
    | cons c line => simp [breHere, ha, ih hp', List.cons_prefix_cons]

/-- **A pattern without `.` hits the lines that contain it.** -/
theorem breMatches_iff_mem {p : List Char} (hp : '.' ∉ p) (line : List Char) :
    breMatches p line = true ↔ p <:+: line := by
  simp only [breMatches, List.any_eq_true, List.mem_tails, breHere_iff_head hp,
    List.infix_iff_prefix_suffix, and_comm]

theorem breHere_of_prefix {p line : List Char} (h : p <+: line) : breHere p line = true := by
  induction p generalizing line with
  | nil => rfl
  | cons a p ih =>
    cases line with
    | nil => cases List.prefix_nil.mp h
    | cons c line =>
      rw [List.cons_prefix_cons] at h
      simp [breHere, h.1, ih h.2]

/-- A pattern hits the lines that contain it, dots and all. -/
theorem breMatches_of_infix {p line : List Char} (h : p <:+: line) : breMatches p line = true := by
  obtain ⟨t, hpre, hsuf⟩ := List.infix_iff_prefix_suffix.mp h
  exact List.any_eq_true.mpr ⟨t, (List.mem_tails _ _).mpr hsuf, breHere_of_prefix hpre⟩

theorem breHere_append (p p' line : List Char) :
    breHere (p ++ p') line = (breHere p line && breHere p' (line.drop p.length)) := by
  induction p generalizing line with
  | nil => simp [breHere]
  | cons a p ih =>
    cases line with
    | nil => rfl
    | cons c line => simp [breHere, ih, Bool.and_assoc]

/-- A pattern hits no line that a part of it does not hit. -/
theorem breMatches_part {pre p post line : List Char}
    (h : breMatches (pre ++ (p ++ post)) line = true) : breMatches p line = true := by
  simp only [breMatches, List.any_eq_true, List.mem_tails, breHere_append, Bool.and_eq_true] at h ⊢
  obtain ⟨t, ht, -, hp, -⟩ := h
  exact ⟨t.drop pre.length, (List.drop_suffix _ t).trans ht, hp⟩

end GoFight.Lib
