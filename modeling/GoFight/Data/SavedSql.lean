import GoFight.Data.Redis
import GoFight.Lib.SqlLexer

/-!
# The statement `process_redis_list` saves a role with

`snprintf` writes the three fields between quotes as they are, into 2048 bytes.  What MySQL reads
there is what its lexer makes of the bytes.

* `saveTokens` — the one statement that saves a role; `IsSave` — the text is that statement, with or
  without its `;`;
* `IsSave.unique` — such a text decodes to one role;
* `Storable` — the condition on a role: no quote in a field, a backslash only in `\%` and `\_`, and
  the statement fits up to its closing bracket;
* `isSave_sqlText_iff` — the text of a role is its statement exactly then.
-/

namespace GoFight.Data

open GoFight.Lib.Sql

/-! ### The statement -/

/-- The tokens of ``REPLACE INTO `role` (`id`, `name`, `user`) VALUES (``. -/
def saveHead : List Token :=
  [.word (ascii "REPLACE"), .word (ascii "INTO"), .name (ascii "role"), .punct 40,
    .name (ascii "id"), .punct 44, .name (ascii "name"), .punct 44, .name (ascii "user"),
    .punct 41, .word (ascii "VALUES"), .punct 40]

/-- The statement that saves a role: one row of three literals. -/
def saveTokens (r : Role) : List Token :=
  saveHead ++
    [.text r.id, .punct 44, .text r.name, .punct 44, .text r.user, .punct 41]

/-- The text is the statement that saves the role, and nothing else but a last `;`. -/
def IsSave (sql : Bytes) (r : Role) : Prop :=
  ∃ semicolon ∈ [[], [Token.punct 59]], tokens sql = some (saveTokens r ++ semicolon)

/-- No field holds a NUL byte. -/
def NulFree (r : Role) : Prop := (0 : UInt8) ∉ r.id ∧ (0 : UInt8) ∉ r.name ∧ (0 : UInt8) ∉ r.user

instance (sql : Bytes) (r : Role) : Decidable (IsSave sql r) := by
  unfold IsSave
  infer_instance

instance (r : Role) : Decidable (NulFree r) := by
  unfold NulFree
  infer_instance

/-- A text is the statement of one role only: its literals decode to the role. -/
theorem IsSave.unique {sql : Bytes} {r r' : Role} (h : IsSave sql r) (h' : IsSave sql r') :
    r = r' := by
  obtain ⟨e, -, he⟩ := h
  obtain ⟨e', -, he'⟩ := h'
  rw [he, Option.some.injEq, saveTokens, saveTokens, List.append_assoc, List.append_assoc,
    List.append_cancel_left_eq] at he'
  simp only [List.cons_append, List.cons.injEq, Token.text.injEq] at he'
  obtain ⟨hid, -, hname, -, huser, -⟩ := he'
  cases r
  cases r'
  simp only [Role.mk.injEq]
  exact ⟨hid, hname, huser⟩

/-! ### The condition -/

/-- The fields denote themselves between quotes, and the text is cut at most behind its bracket. -/
def Storable (r : Role) : Prop :=
  Verbatim 39 r.id = true ∧ Verbatim 39 r.name = true ∧ Verbatim 39 r.user = true ∧
    r.id.length + r.name.length + r.user.length ≤ 1985

instance (r : Role) : Decidable (Storable r) := by
  unfold Storable
  infer_instance

/-! ### The text -/

/-- What stands between two fields: `', '`. -/
def sep : Bytes := [39, 44, 32, 39]

/-- The fields and what stands between them. -/
def fieldsText (r : Role) : Bytes := r.id ++ sep ++ (r.name ++ sep ++ r.user)

/-- ``REPLACE INTO `role` (`id`, `name`, `user`) VALUES (`` -/
def headText : Bytes := ascii "REPLACE INTO `role` (`id`, `name`, `user`) VALUES ("

/-- The text behind the first quote, as far as the buffer takes it. -/
theorem sqlText_eq {r : Role} (h : NulFree r) :
    sqlText r = headText ++ 39 :: (fieldsText r ++ [39, 41, 59]).take 1995 := by
  have hhead : ascii "REPLACE INTO `role` (`id`, `name`, `user`) VALUES ('" =
      headText ++ [39] := rfl
  have hsep : ascii "', '" = sep := rfl
  have hlast : ascii "');" = [39, 41, 59] := rfl
  rw [sqlText, cstr_eq_self h.1, cstr_eq_self h.2.1, cstr_eq_self h.2.2, hhead, hsep, hlast]
  have hassoc : headText ++ [39] ++ r.id ++ sep ++ r.name ++ sep ++ r.user ++ [39, 41, 59] =
      (headText ++ [39]) ++ (fieldsText r ++ [39, 41, 59]) := by
    simp only [fieldsText, List.append_assoc]
  have hlen : (headText ++ [39]).length = 52 := rfl
  rw [hassoc, List.take_append, hlen, List.take_of_length_le (by rw [hlen]; omega),
    List.append_assoc]
  rfl

theorem tokens_headText (s : Bytes) : tokens (headText ++ s) = (tokens s).map (saveHead ++ ·) := by
  have hlen : (headText ++ s).length = s.length + 32 + 19 := by
    rw [List.length_append, Nat.add_comm]
    rfl
  have hmore : lex (s.length + 32) s = tokens s := lex_of_le (Nat.le_add_right _ _) (le_refl _)
  rw [tokens, hlen]
  calc lex (s.length + 32 + 19) (headText ++ s)
      = saveHead.foldr (fun t o => o.map (t :: ·)) (lex (s.length + 32) s) := rfl
    _ = (tokens s).map (saveHead ++ ·) := by rw [foldr_map_cons, hmore]

/-- A field behind its quote, with another one behind it. -/
theorem tokens_field {v s rest : Bytes} {w : Bytes} {ts : List Token}
    (hs : s <+: v ++ sep ++ rest) :
    tokens (39 :: s) = some (.text v :: .punct 44 :: .text w :: ts) ↔
      Verbatim 39 v = true ∧
        ∃ s', s = v ++ sep ++ s' ∧ tokens (39 :: s') = some (.text w :: ts) := by
  have hs' : s <+: v ++ 39 :: 44 :: 32 :: 39 :: rest := by simpa [sep] using hs
  have hread : ∀ r, readText 39 s = some (v, r) ↔ Verbatim 39 v = true ∧ s = v ++ 39 :: r :=
    fun r => readText_eq_self_iff (by decide) rfl (by decide) (by decide) hs'
  rw [tokens_quote, Option.bind_eq_some_iff]
  constructor
  · rintro ⟨⟨v', r⟩, hv, hmap⟩
    obtain ⟨ts', hts, heq⟩ := Option.map_eq_some_iff.mp hmap
    simp only [List.cons.injEq, Token.text.injEq] at heq
    obtain ⟨rfl, rfl⟩ := heq
    obtain ⟨hverb, rfl⟩ := (hread r).mp hv
    refine ⟨hverb, ?_⟩
    -- behind the closing quote the text goes on with what is left of the separator
    have hrest : r <+: 44 :: 32 :: 39 :: rest := by
      rw [List.append_assoc, List.prefix_append_right_inj] at hs
      exact (List.cons_prefix_cons.mp hs).2
    cases r with
    | nil => cases hts
    | cons c r =>
      obtain ⟨rfl, hblank⟩ := List.cons_prefix_cons.mp hrest
      rw [tokens_cons (t := .punct 44) (r := r) rfl, Option.map_eq_some_iff] at hts
      obtain ⟨ts', hts, heq⟩ := hts
      obtain rfl := (List.cons.inj heq).2
      cases r with
      | nil => cases hts
      | cons c r =>
        obtain ⟨rfl, hquote⟩ := List.cons_prefix_cons.mp hblank
        rw [tokens_skip (r := r) rfl] at hts
        cases r with
        | nil => cases hts
        | cons c r =>
          obtain ⟨rfl, -⟩ := List.cons_prefix_cons.mp hquote
          exact ⟨r, by simp [sep], hts⟩
  · rintro ⟨hverb, s', rfl, hts⟩
    refine ⟨(v, 44 :: 32 :: 39 :: s'), (hread _).mpr ⟨hverb, by simp [sep]⟩, ?_⟩
    show (tokens (44 :: 32 :: 39 :: s')).map (Token.text v :: ·) = _
    rw [tokens_cons (t := .punct 44) (r := 32 :: 39 :: s') rfl, tokens_skip (r := 39 :: s') rfl, hts]
    rfl

/-- The last field. -/
theorem tokens_last {v s : Bytes} (hs : s <+: v ++ [39, 41, 59]) :
    (∃ semicolon ∈ [[], [Token.punct 59]],
        tokens (39 :: s) = some (.text v :: .punct 41 :: semicolon)) ↔
      Verbatim 39 v = true ∧ (s = v ++ [39, 41] ∨ s = v ++ [39, 41, 59]) := by
  have hread : ∀ r, readText 39 s = some (v, r) ↔ Verbatim 39 v = true ∧ s = v ++ 39 :: r :=
    fun r => readText_eq_self_iff (by decide) rfl (by decide) (by decide) hs
  rw [tokens_quote]
  constructor
  · rintro ⟨semicolon, -, hall⟩
    obtain ⟨⟨v', r⟩, hv, hmap⟩ := Option.bind_eq_some_iff.mp hall
    obtain ⟨ts', hts, heq⟩ := Option.map_eq_some_iff.mp hmap
    simp only [List.cons.injEq, Token.text.injEq] at heq
    obtain ⟨rfl, rfl⟩ := heq
    obtain ⟨hverb, rfl⟩ := (hread r).mp hv
    refine ⟨hverb, ?_⟩
    have hrest : r <+: [41, 59] := by
      rw [List.prefix_append_right_inj] at hs
      exact (List.cons_prefix_cons.mp hs).2
    match r with
    | [] => cases hts
    | [c] =>
      obtain ⟨rfl, -⟩ := List.cons_prefix_cons.mp hrest
      exact Or.inl rfl
    | [c, d] =>
      obtain ⟨rfl, hlast⟩ := List.cons_prefix_cons.mp hrest
      obtain ⟨rfl, -⟩ := List.cons_prefix_cons.mp hlast
      exact Or.inr rfl
    | c :: d :: e :: r =>
      have hlen := hrest.length_le
      simp only [List.length_cons, List.length_nil] at hlen
      omega
  · rintro ⟨hverb, rfl | rfl⟩
    · refine ⟨[], List.mem_cons_self, ?_⟩
      rw [(hread [41]).mpr ⟨hverb, rfl⟩]
      rfl
    · refine ⟨[.punct 59], List.mem_cons_of_mem _ List.mem_cons_self, ?_⟩
      rw [(hread [41, 59]).mpr ⟨hverb, rfl⟩]
      rfl

/-- The buffer takes the text up to its bracket. -/
theorem take_fields_iff {u : Bytes} :
    ((u ++ [39, 41, 59]).take 1995 = u ++ [39, 41] ∨
      (u ++ [39, 41, 59]).take 1995 = u ++ [39, 41, 59]) ↔ u.length ≤ 1993 := by
  constructor
  · intro h
    have hlen : ((u ++ [39, 41, 59]).take 1995).length ≤ 1995 := List.length_take_le _ _
    rcases h with h | h <;> rw [h] at hlen <;>
      simp only [List.length_append, List.length_cons, List.length_nil] at hlen <;> omega
  · intro h
    by_cases hu : u.length = 1993
    · left
      rw [List.take_append, List.take_of_length_le (by omega), hu]
      rfl
    · right
      apply List.take_of_length_le
      simp only [List.length_append, List.length_cons, List.length_nil]
      omega

/-- The text behind the first quote is the three literals and the end of the statement. -/
theorem tokens_fields {r : Role} {s : Bytes} (hs : s <+: fieldsText r ++ [39, 41, 59]) :
    (∃ semicolon ∈ [[], [Token.punct 59]], tokens (39 :: s) =
        some ([.text r.id, .punct 44, .text r.name, .punct 44, .text r.user, .punct 41] ++
          semicolon)) ↔
      (Verbatim 39 r.id = true ∧ Verbatim 39 r.name = true ∧ Verbatim 39 r.user = true) ∧
        (s = fieldsText r ++ [39, 41] ∨ s = fieldsText r ++ [39, 41, 59]) := by
  have hassoc : ∀ e, fieldsText r ++ e = r.id ++ sep ++ (r.name ++ sep ++ (r.user ++ e)) := by
    intro e
    simp only [fieldsText, List.append_assoc]
  simp only [hassoc] at hs ⊢
  constructor
  · rintro ⟨semicolon, hsemi, hts⟩
    obtain ⟨hid, s', rfl, hname⟩ := (tokens_field hs).mp hts
    have hs' := (List.prefix_append_right_inj _).mp hs
    obtain ⟨hverb, s'', rfl, huser⟩ := (tokens_field hs').mp hname
    have hs'' := (List.prefix_append_right_inj _).mp hs'
    obtain ⟨hlast, hend⟩ := (tokens_last hs'').mp ⟨semicolon, hsemi, huser⟩
    refine ⟨⟨hid, hverb, hlast⟩, ?_⟩
    rcases hend with rfl | rfl
    · exact Or.inl rfl
    · exact Or.inr rfl
  · rintro ⟨⟨hid, hname, huser⟩, hend⟩
    obtain ⟨e, he, rfl⟩ : ∃ e, (e = [39, 41] ∨ e = [39, 41, 59]) ∧
        s = r.id ++ sep ++ (r.name ++ sep ++ (r.user ++ e)) := by
      rcases hend with h | h
      · exact ⟨_, Or.inl rfl, h⟩
      · exact ⟨_, Or.inr rfl, h⟩
    have hs' := (List.prefix_append_right_inj _).mp hs
    have hs'' := (List.prefix_append_right_inj _).mp hs'
    have hlast : r.user ++ e = r.user ++ [39, 41] ∨ r.user ++ e = r.user ++ [39, 41, 59] := by
      rcases he with rfl | rfl
      · exact Or.inl rfl
      · exact Or.inr rfl
    obtain ⟨semicolon, hsemi, hts⟩ := (tokens_last hs'').mpr ⟨huser, hlast⟩
    refine ⟨semicolon, hsemi, ?_⟩
    exact (tokens_field hs).mpr ⟨hid, _, rfl, (tokens_field hs').mpr ⟨hname, _, rfl, hts⟩⟩

/-- **What is saved is the role.**  For a role without NUL bytes, the text `process_redis_list`
passes to `db_exe` is the one statement that saves the role exactly when the role is storable. -/
theorem isSave_sqlText_iff {r : Role} (h : NulFree r) : IsSave (sqlText r) r ↔ Storable r := by
  have hlen : (fieldsText r).length = r.id.length + r.name.length + r.user.length + 8 := by
    simp only [fieldsText, sep, List.length_append, List.length_cons, List.length_nil]
    omega
  have hhead : ∀ e, tokens (sqlText r) = some (saveTokens r ++ e) ↔
      tokens (39 :: (fieldsText r ++ [39, 41, 59]).take 1995) =
        some ([.text r.id, .punct 44, .text r.name, .punct 44, .text r.user, .punct 41] ++ e) := by
    intro e
    rw [sqlText_eq h, tokens_headText, saveTokens, List.append_assoc, Option.map_eq_some_iff]
    simp only [List.append_cancel_left_eq, exists_eq_right]
  simp only [IsSave, hhead]
  rw [tokens_fields (List.take_prefix _ _), take_fields_iff, Storable, hlen]
  constructor
  · rintro ⟨⟨hid, hname, huser⟩, hle⟩
    exact ⟨hid, hname, huser, by omega⟩
  · rintro ⟨hid, hname, huser, hle⟩
    exact ⟨⟨hid, hname, huser⟩, by omega⟩

/-- A role that is saved as it is. -/
theorem isSave_sqlText_plain : IsSave (sqlText ⟨ascii "7", ascii "Ann", ascii "u7"⟩)
    ⟨ascii "7", ascii "Ann", ascii "u7"⟩ :=
  (isSave_sqlText_iff (by decide)).mpr (by decide)

/-- The user of a role that smuggles a second statement into the text. -/
def dropUser : Bytes := ascii "x'); DROP TABLE role; -- "

/-- **A quote in a field ends its literal**: the text drops the table. -/
theorem not_isSave_sqlText_drop :
    ¬∀ r : Role, NulFree r → IsSave (sqlText r) r := by
  intro h
  have hdrop := h ⟨ascii "7", ascii "Ann", dropUser⟩ (by decide)
  revert hdrop
  decide

end GoFight.Data
