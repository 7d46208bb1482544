import Mathlib.Data.List.Basic
import Mathlib.Data.List.Infix
import Mathlib.Data.List.TakeWhile
import Mathlib.Tactic.Common

/-!
# The tokens of a MySQL text

How the server cuts the text of a query into tokens, as bytes, in its default mode: blanks and
comments separate, `'…'` and `"…"` are string literals with doubled quotes and backslash escapes,
a name may stand between back-quotes.

* `readText` — the inside of a string literal, `Denotes` — the grammar it reads by;
* `tokens` — the tokens of a text, `none` when a literal, a name or a comment has no end;
* `Verbatim` — bytes that denote themselves: no quote, and a backslash only in `\%` and `\_`;
* `Denotes.length_le`, `Denotes.earlier` — a literal is no longer than its source, and a quote that
  is part of it stands earlier in the value than in the source;
* `readText_eq_self_iff` — a literal written as the bare bytes reads back exactly when they are
  verbatim.
-/

namespace GoFight.Lib.Sql

/-! ### String literals -/

/-- What a backslash and a byte stand for.  `\%` and `\_` stay as they are. -/
def unescape (c : UInt8) : List UInt8 :=
  if c = 48 then [0]          -- \0
  else if c = 98 then [8]     -- \b
  else if c = 110 then [10]   -- \n
  else if c = 114 then [13]   -- \r
  else if c = 116 then [9]    -- \t
  else if c = 90 then [26]    -- \Z
  else if c = 37 ∨ c = 95 then [92, c]
  else [c]

/-- The rest of a literal behind its opening quote `q`: the value, and what is behind the closing
quote. -/
def readText (q : UInt8) : List UInt8 → Option (List UInt8 × List UInt8)
  | [] => none
  | [c] => if c = q then some ([], []) else none
  | c :: d :: s =>
    if c = 92 then (readText q s).map fun t => (unescape d ++ t.1, t.2)
    else if c = q then
      if d = q then (readText q s).map fun t => (q :: t.1, t.2) else some ([], d :: s)
    else (readText q (d :: s)).map fun t => (c :: t.1, t.2)

/-- The inside of a literal and what it denotes. -/
inductive Denotes (q : UInt8) : List UInt8 → List UInt8 → Prop
  | nil : Denotes q [] []
  | plain {c : UInt8} {u v : List UInt8} (hc : c ≠ 92) (hq : c ≠ q) (h : Denotes q u v) :
      Denotes q (c :: u) (c :: v)
  | doubled {u v : List UInt8} (h : Denotes q u v) : Denotes q (q :: q :: u) (q :: v)
  | escape (d : UInt8) {u v : List UInt8} (h : Denotes q u v) :
      Denotes q (92 :: d :: u) (unescape d ++ v)

/-- No quote, and behind every backslash a `%` or a `_`. -/
def Verbatim (q : UInt8) : List UInt8 → Bool
  | [] => true
  | [c] => c ≠ q && c ≠ 92
  | c :: d :: s =>
    if c = 92 then (d = 37 || d = 95) && Verbatim q s else c ≠ q && Verbatim q (d :: s)

theorem length_unescape_le (c : UInt8) : (unescape c).length ≤ 2 := by
  unfold unescape
  split_ifs <;> simp

theorem length_unescape_eq_two {c : UInt8} (h : (unescape c).length = 2) :
    (c = 37 ∨ c = 95) ∧ unescape c = [92, c] := by
  unfold unescape at h ⊢
  split_ifs at h ⊢ <;> simp_all

section Literal

variable {q : UInt8}

/-- **What `readText` reads**: the inside of the literal, up to a quote that is not doubled. -/
theorem readText_spec (hq : q ≠ 92) {s v r : List UInt8} (h : readText q s = some (v, r)) :
    ∃ u, s = u ++ q :: r ∧ Denotes q u v := by
  induction s using readText.induct q generalizing v with
  | case1 => cases h
  | case2 =>
    rw [readText, if_pos rfl, Option.some.injEq, Prod.mk.injEq] at h
    obtain ⟨rfl, rfl⟩ := h
    exact ⟨[], rfl, .nil⟩
  | case3 c hc =>
    rw [readText, if_neg hc] at h
    cases h
  | case4 d s ih =>
    rw [readText, if_pos rfl, Option.map_eq_some_iff] at h
    obtain ⟨⟨v', r'⟩, h, heq⟩ := h
    simp only [Prod.mk.injEq] at heq
    obtain ⟨rfl, rfl⟩ := heq
    obtain ⟨u, rfl, hu⟩ := ih h
    exact ⟨92 :: d :: u, rfl, .escape d hu⟩
  | case5 s hc ih =>
    rw [readText, if_neg hq, if_pos rfl, if_pos rfl, Option.map_eq_some_iff] at h
    obtain ⟨⟨v', r'⟩, h, heq⟩ := h
    simp only [Prod.mk.injEq] at heq
    obtain ⟨rfl, rfl⟩ := heq
    obtain ⟨u, rfl, hu⟩ := ih h
    exact ⟨q :: q :: u, rfl, .doubled hu⟩
  | case6 d s hd hc =>
    rw [readText, if_neg hq, if_pos rfl, if_neg hd, Option.some.injEq, Prod.mk.injEq] at h
    obtain ⟨rfl, rfl⟩ := h
    exact ⟨[], rfl, .nil⟩
  | case7 c d s hc hne ih =>
    rw [readText, if_neg hc, if_neg hne, Option.map_eq_some_iff] at h
    obtain ⟨⟨v', r'⟩, h, heq⟩ := h
    simp only [Prod.mk.injEq] at heq
    obtain ⟨rfl, rfl⟩ := heq
    obtain ⟨u, hs, hu⟩ := ih h
    exact ⟨c :: u, by rw [hs]; rfl, .plain hc hne hu⟩

/-- Verbatim bytes read back. -/
theorem readText_verbatim (hq : q ≠ 92) {v r : List UInt8} (hv : Verbatim q v = true)
    (hr : r.head? ≠ some q) : readText q (v ++ q :: r) = some (v, r) := by
  induction v using Verbatim.induct with
  | case1 =>
    cases r with
    | nil => rw [List.nil_append, readText, if_pos rfl]
    | cons d r =>
      have hd : d ≠ q := fun h => hr (h ▸ rfl)
      rw [List.nil_append, readText, if_neg hq, if_pos rfl, if_neg hd]
  | case2 c =>
    have hc : c ≠ q ∧ c ≠ 92 := by simpa [Verbatim] using hv
    have hnil : readText q (q :: r) = some ([], r) := by
      cases r with
      | nil => rw [readText, if_pos rfl]
      | cons d r =>
        have hd : d ≠ q := fun h => hr (h ▸ rfl)
        rw [readText, if_neg hq, if_pos rfl, if_neg hd]
    show readText q (c :: q :: r) = _
    rw [readText, if_neg hc.2, if_neg hc.1, hnil]
    rfl
  | case3 d s ih =>
    have hd : (d = 37 ∨ d = 95) ∧ Verbatim q s = true := by simpa [Verbatim] using hv
    have hesc : unescape d = [92, d] := by
      obtain ⟨rfl | rfl, -⟩ := hd <;> rfl
    show readText q (92 :: d :: (s ++ q :: r)) = _
    rw [readText, if_pos rfl, ih hd.2, hesc]
    rfl
  | case4 c d s hc ih =>
    have hd : c ≠ q ∧ Verbatim q (d :: s) = true := by simpa [Verbatim, hc] using hv
    show readText q (c :: d :: (s ++ q :: r)) = _
    rw [readText, if_neg hc, if_neg hd.1]
    rw [List.cons_append] at ih
    rw [ih hd.2]
    rfl

/-- **A literal is no longer than its source**, and as long only if it denotes itself. -/
theorem Denotes.length_le {u v : List UInt8} (h : Denotes q u v) :
    v.length ≤ u.length ∧ (v.length = u.length → v = u ∧ Verbatim q u = true) := by
  induction h with
  | nil => exact ⟨le_refl _, fun _ => ⟨rfl, rfl⟩⟩
  | @plain c u v hc hq h ih =>
    simp only [List.length_cons, Nat.add_le_add_iff_right, Nat.add_right_cancel_iff]
    refine ⟨ih.1, fun hlen => ?_⟩
    obtain ⟨rfl, hv⟩ := ih.2 hlen
    refine ⟨rfl, ?_⟩
    cases v with
    | nil => simp [Verbatim, hc, hq]
    | cons d v => simp [Verbatim, hc, hq, hv]
  | doubled h ih =>
    simp only [List.length_cons]
    exact ⟨by omega, fun hlen => by omega⟩
  | @escape d u v h ih =>
    have hle := length_unescape_le d
    simp only [List.length_append, List.length_cons]
    refine ⟨by omega, fun hlen => ?_⟩
    obtain ⟨hd, hesc⟩ := length_unescape_eq_two (c := d) (by omega)
    obtain ⟨rfl, hv⟩ := ih.2 (by omega)
    exact ⟨by rw [hesc]; rfl, by simpa [Verbatim, hv] using hd⟩

/-- **A quote inside a literal moves to the front.**  When the source holds a quote and then a plain
byte, so does the value, at an earlier place. -/
theorem Denotes.earlier (hq : q ≠ 92) (hesc : unescape q = [q]) {u v : List UInt8}
    (h : Denotes q u v) {a b : List UInt8} {c : UInt8} (hc : c ≠ 92) (hcq : c ≠ q)
    (hu : u = a ++ q :: c :: b) :
    ∃ a' b', v = a' ++ q :: c :: b' ∧ a'.length < a.length := by
  -- behind an escaped or doubled quote the plain byte denotes itself
  have hnext : ∀ {w v : List UInt8}, Denotes q w v → w = c :: b → ∃ b', v = c :: b' := by
    intro w v hw hwb
    cases hw with
    | nil => cases hwb
    | plain _ _ _ => exact ⟨_, by rw [(List.cons.inj hwb).1]⟩
    | doubled _ => exact absurd (List.cons.inj hwb).1.symm hcq
    | escape _ _ => exact absurd (List.cons.inj hwb).1.symm hc
  induction h generalizing a with
  | nil => simp at hu
  | @plain x u v hx hxq h ih =>
    cases a with
    | nil => exact absurd (List.cons.inj hu).1 hxq
    | cons y a =>
      obtain ⟨a', b', rfl, hlt⟩ := ih (List.cons.inj hu).2
      exact ⟨x :: a', b', rfl, Nat.succ_lt_succ hlt⟩
  | @doubled u v h ih =>
    match a with
    | [] => exact absurd (List.cons.inj (List.cons.inj hu).2).1.symm hcq
    | [y] =>
      obtain ⟨b', rfl⟩ := hnext h (List.cons.inj (List.cons.inj hu).2).2
      exact ⟨[], b', rfl, Nat.one_pos⟩
    | y :: z :: a =>
      obtain ⟨a', b', rfl, hlt⟩ := ih (List.cons.inj (List.cons.inj hu).2).2
      refine ⟨q :: a', b', rfl, ?_⟩
      simp only [List.length_cons]
      omega
  | @escape d u v h ih =>
    match a with
    | [] => exact absurd (List.cons.inj hu).1.symm hq
    | [y] =>
      obtain ⟨hd, hrest⟩ := List.cons.inj (List.cons.inj hu).2
      obtain ⟨b', rfl⟩ := hnext h hrest
      refine ⟨[], b', ?_, Nat.one_pos⟩
      rw [hd, hesc]
      rfl
    | y :: z :: a =>
      obtain ⟨a', b', rfl, hlt⟩ := ih (List.cons.inj (List.cons.inj hu).2).2
      refine ⟨unescape d ++ a', b', (List.append_assoc _ _ _).symm, ?_⟩
      have hle := length_unescape_le d
      simp only [List.length_append, List.length_cons]
      omega

/-- No source that continues behind its own value with a quote and a plain byte denotes it: the
quote would have to stand in the value, and again further to the front. -/
theorem not_denotes_longer (hq : q ≠ 92) (hesc : unescape q = [q]) {v w : List UInt8} {c : UInt8}
    (hc : c ≠ 92) (hcq : c ≠ q) : ¬Denotes q (v ++ q :: c :: w) v := by
  intro h
  have hnone : ∀ n, ∀ a b, a.length = n → v ++ q :: c :: w ≠ a ++ q :: c :: b := by
    intro n
    induction n using Nat.strong_induction_on with
    | h n ih =>
      intro a b hn hu
      obtain ⟨a', b', hv, hlt⟩ := h.earlier hq hesc hc hcq hu
      apply ih a'.length (hn ▸ hlt) a' (b' ++ q :: c :: w) rfl
      rw [hv]
      simp only [List.append_assoc, List.cons_append]
  exact hnone v.length v w rfl rfl

/-- **A literal written as the bare bytes**, then a quote and a plain byte, possibly cut off.  It
reads back as the bytes exactly when they are verbatim and the cut lies behind the quote. -/
theorem readText_eq_self_iff (hq : q ≠ 92) (hesc : unescape q = [q]) {v s r rest : List UInt8}
    {c : UInt8} (hc : c ≠ 92) (hcq : c ≠ q) (hs : s <+: v ++ q :: c :: rest) :
    readText q s = some (v, r) ↔ Verbatim q v = true ∧ s = v ++ q :: r := by
  constructor
  · intro h
    obtain ⟨u, rfl, hu⟩ := readText_spec hq h
    have hlen := hu.length_le
    have hvu : v <+: u := List.prefix_of_prefix_length_le (List.prefix_append _ _)
      ((List.prefix_append _ _).trans hs) hlen.1
    obtain ⟨w, rfl⟩ := hvu
    rw [List.append_assoc, List.prefix_append_right_inj] at hs
    match w with
    | [] =>
      rw [List.append_nil] at hlen ⊢
      exact ⟨(hlen.2 rfl).2, rfl⟩
    | [x] =>
      -- the literal cannot close on the plain byte
      rw [List.cons_append, List.cons_prefix_cons, List.nil_append, List.cons_prefix_cons] at hs
      exact absurd hs.2.1.symm hcq
    | x :: y :: w =>
      rw [List.cons_append, List.cons_append, List.cons_prefix_cons, List.cons_prefix_cons] at hs
      obtain ⟨rfl, rfl, -⟩ := hs
      exact absurd hu (not_denotes_longer hq hesc hc hcq)
  · rintro ⟨hv, rfl⟩
    apply readText_verbatim hq hv
    rw [List.prefix_append_right_inj, List.cons_prefix_cons] at hs
    cases r with
    | nil => simp
    | cons d r =>
      rw [(List.cons_prefix_cons.mp hs.2).1]
      simpa using hcq

end Literal

/-! ### Tokens -/

/-- A token: a word, a name between back-quotes, the value of a string literal, or a byte that is
none of these. -/
inductive Token
  | word (w : List UInt8)
  | name (w : List UInt8)
  | text (v : List UInt8)
  | punct (c : UInt8)
deriving DecidableEq, Repr

/-- Space, tab, newline, vertical tab, form feed, carriage return. -/
def isBlank (c : UInt8) : Bool := c = 32 || (9 ≤ c && c ≤ 13)

/-- Letters, digits, `_`, `$` and the bytes of letters beyond ASCII. -/
def isWordByte (c : UInt8) : Bool :=
  (48 ≤ c && c ≤ 57) || (65 ≤ c && c ≤ 90) || (97 ≤ c && c ≤ 122) || c = 95 || c = 36 || 128 ≤ c

/-- The rest of a name behind its opening back-quote. -/
def readName : List UInt8 → Option (List UInt8 × List UInt8)
  | [] => none
  | [c] => if c = 96 then some ([], []) else none
  | c :: d :: s =>
    if c = 96 then
      if d = 96 then (readName s).map fun t => (96 :: t.1, t.2) else some ([], d :: s)
    else (readName (d :: s)).map fun t => (c :: t.1, t.2)

/-- What is behind a comment, after its opening. -/
def skipComment : List UInt8 → Option (List UInt8)
  | [] => none
  | [_] => none
  | c :: d :: s => if c = 42 ∧ d = 47 then some s else skipComment (d :: s)

/-- `--` opens a comment when a blank or the end follows. -/
def opensLine : List UInt8 → Bool
  | [] => false
  | [c] => c = 45
  | c :: d :: _ => c = 45 && isBlank d

/-- The first token of a text, or `none` for what separates tokens, and the rest. -/
def nextToken (c : UInt8) (s : List UInt8) : Option (Option Token × List UInt8) :=
  if isBlank c then some (none, s)
  else if c = 39 ∨ c = 34 then (readText c s).map fun t => (some (.text t.1), t.2)
  else if c = 96 then (readName s).map fun t => (some (.name t.1), t.2)
  else if c = 35 ∨ c = 45 ∧ opensLine s then some (none, s.dropWhile (· ≠ 10))
  else if c = 47 ∧ s.head? = some 42 then (skipComment s.tail).map fun s => (none, s)
  else if isWordByte c then
    some (some (.word (c :: s.takeWhile isWordByte)), s.dropWhile isWordByte)
  else some (some (.punct c), s)

/-- The tokens of a text, of which at most `n` steps are read. -/
def lex : ℕ → List UInt8 → Option (List Token)
  | _, [] => some []
  | 0, _ :: _ => none
  | n + 1, c :: s =>
    match nextToken c s with
    | none => none
    | some (none, r) => lex n r
    | some (some t, r) => (lex n r).map (t :: ·)

/-- The tokens of a text. -/
def tokens (s : List UInt8) : Option (List Token) := lex s.length s

theorem readText_length_le {q : UInt8} {s v r : List UInt8} (h : readText q s = some (v, r)) :
    r.length ≤ s.length := by
  induction s using readText.induct q generalizing v with
  | case1 => cases h
  | case2 => simp_all [readText]
  | case3 c hc => simp [readText, hc] at h
  | case4 d s ih =>
    simp only [readText, if_true, Option.map_eq_some_iff, Prod.mk.injEq, Prod.exists] at h
    obtain ⟨v', r', h, -, rfl⟩ := h
    have hle := ih h
    simp only [List.length_cons]
    omega
  | case5 s hc ih =>
    simp only [readText, if_neg hc, if_true, Option.map_eq_some_iff, Prod.mk.injEq,
      Prod.exists] at h
    obtain ⟨v', r', h, -, rfl⟩ := h
    have hle := ih h
    simp only [List.length_cons]
    omega
  | case6 d s hd hc =>
    simp only [readText, if_neg hc, if_true, if_neg hd, Option.some.injEq, Prod.mk.injEq] at h
    rw [← h.2]
    exact Nat.le_succ _
  | case7 c d s hc hne ih =>
    simp only [readText, if_neg hc, if_neg hne, Option.map_eq_some_iff, Prod.mk.injEq,
      Prod.exists] at h
    obtain ⟨v', r', h, -, rfl⟩ := h
    exact Nat.le_succ_of_le (ih h)

theorem readName_length_le {s v r : List UInt8} (h : readName s = some (v, r)) :
    r.length ≤ s.length := by
  induction s using readName.induct generalizing v with
  | case1 => cases h
  | case2 => simp_all [readName]
  | case3 c hc => simp [readName, hc] at h
  | case4 s ih =>
    simp only [readName, if_true, Option.map_eq_some_iff, Prod.mk.injEq, Prod.exists] at h
    obtain ⟨v', r', h, -, rfl⟩ := h
    have hle := ih h
    simp only [List.length_cons]
    omega
  | case5 d s hd =>
    simp only [readName, if_true, if_neg hd, Option.some.injEq, Prod.mk.injEq] at h
    rw [← h.2]
    exact Nat.le_succ _
  | case6 c d s hc ih =>
    simp only [readName, if_neg hc, Option.map_eq_some_iff, Prod.mk.injEq, Prod.exists] at h
    obtain ⟨v', r', h, -, rfl⟩ := h
    exact Nat.le_succ_of_le (ih h)

theorem skipComment_length_le {s r : List UInt8} (h : skipComment s = some r) :
    r.length ≤ s.length := by
  induction s using skipComment.induct with
  | case1 => cases h
  | case2 => cases h
  | case3 c d s hcd =>
    rw [skipComment, if_pos hcd, Option.some.injEq] at h
    subst h
    simp only [List.length_cons]
    omega
  | case4 c d s hcd ih =>
    rw [skipComment, if_neg hcd] at h
    exact Nat.le_succ_of_le (ih h)

theorem nextToken_length_le {c : UInt8} {s r : List UInt8} {o : Option Token}
    (h : nextToken c s = some (o, r)) : r.length ≤ s.length := by
  unfold nextToken at h
  split_ifs at h <;>
    simp only [Option.some.injEq, Prod.mk.injEq, Option.map_eq_some_iff, Prod.exists] at h
  · rw [← h.2]
  · obtain ⟨v, r', h, -, rfl⟩ := h
    exact readText_length_le h
  · obtain ⟨v, r', h, -, rfl⟩ := h
    exact readName_length_le h
  · rw [← h.2]
    exact List.length_dropWhile_le _ _
  · obtain ⟨r', h, -, rfl⟩ := h
    exact (skipComment_length_le h).trans (List.length_tail ▸ Nat.sub_le _ _)
  · rw [← h.2]
    exact List.length_dropWhile_le _ _
  · rw [← h.2]

/-- Enough steps are as good as one for each byte. -/
theorem lex_of_le {n m : ℕ} {s : List UInt8} (hn : s.length ≤ n) (hm : s.length ≤ m) :
    lex n s = lex m s := by
  induction n generalizing m s with
  | zero =>
    obtain rfl := List.eq_nil_of_length_eq_zero (Nat.le_zero.mp hn)
    cases m <;> rfl
  | succ n ih =>
    cases s with
    | nil => cases m <;> rfl
    | cons c s =>
      cases m with
      | zero => simp at hm
      | succ m =>
        have hn' : s.length ≤ n := Nat.le_of_succ_le_succ hn
        have hm' : s.length ≤ m := Nat.le_of_succ_le_succ hm
        rw [lex, lex]
        cases h : nextToken c s with
        | none => rfl
        | some p =>
          obtain ⟨o, r⟩ := p
          have hr := nextToken_length_le h
          have heq := ih (hr.trans hn') (hr.trans hm')
          cases o with
          | none => exact heq
          | some t => exact congrArg (Option.map (t :: ·)) heq

theorem tokens_skip {c : UInt8} {s r : List UInt8} (h : nextToken c s = some (none, r)) :
    tokens (c :: s) = tokens r := by
  rw [tokens, List.length_cons, lex, h]
  exact lex_of_le (nextToken_length_le h) (le_refl _)

theorem tokens_cons {c : UInt8} {s r : List UInt8} {t : Token}
    (h : nextToken c s = some (some t, r)) : tokens (c :: s) = (tokens r).map (t :: ·) := by
  rw [tokens, List.length_cons, lex, h]
  exact congrArg (Option.map (t :: ·)) (lex_of_le (nextToken_length_le h) (le_refl _))

theorem tokens_none {c : UInt8} {s : List UInt8} (h : nextToken c s = none) :
    tokens (c :: s) = none := by
  rw [tokens, List.length_cons, lex, h]

/-- A text that opens a literal. -/
theorem tokens_quote (s : List UInt8) :
    tokens (39 :: s) =
      (readText 39 s).bind fun t => (tokens t.2).map (Token.text t.1 :: ·) := by
  have hnext : nextToken 39 s = (readText 39 s).map fun t => (some (.text t.1), t.2) := rfl
  cases h : readText 39 s with
  | none => exact tokens_none (by rw [hnext, h]; rfl)
  | some t => exact tokens_cons (by rw [hnext, h]; rfl)

theorem foldr_map_cons (ts : List Token) (o : Option (List Token)) :
    ts.foldr (fun t o => o.map (t :: ·)) o = o.map (ts ++ ·) := by
  induction ts with
  | nil => cases o <;> rfl
  | cons t ts ih =>
    rw [List.foldr_cons, ih, Option.map_map]
    rfl

end GoFight.Lib.Sql
