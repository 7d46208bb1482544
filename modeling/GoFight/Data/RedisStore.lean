import GoFight.Data.RedisList

/-!
# Objects in Redis

`redis_set_data` writes a message under a key with `"SET %b %b"`, `redis_get_data` reads it with
`"GET %s"`.

* `formatCommand` — the format of hiredis: words are cut at the spaces of the format string, `%b` is
  replaced by the bytes given, `%s` by a C string;
* `serve` — what Redis does with `SET` and `GET`;
* `setRedisData`, `getRedisObject` — the two functions over them;
* `RoundTrip` — what is written is read back, other keys stay, and only bytes that parse are read;
* `roundTrip_iff` — when that is so.

The generated code of the message class is a parameter: `serialize`, and `parse` with the result of
`ParseFromArray` and the message it leaves.
-/

namespace GoFight.Data

/-! ### hiredis -/

/-- An argument behind the format: a `char*`, or a pointer and a length. -/
inductive FormatArg
  | s (v : Bytes)
  | b (v : Bytes)
deriving DecidableEq, Repr

/-- The words of a command, from the rest of the format on; `word` is the one that is being built,
once something has been put there. -/
def formatWords : Bytes → List FormatArg → Option Bytes → List Bytes
  | [], _, word => word.toList
  | 32 :: format, args, word => word.toList ++ formatWords format args none
  | 37 :: 115 :: format, .s v :: args, word =>
      formatWords format args (some (word.getD [] ++ cstr v))
  | 37 :: 98 :: format, .b v :: args, word => formatWords format args (some (word.getD [] ++ v))
  | 37 :: 37 :: format, args, word => formatWords format args (some (word.getD [] ++ [37]))
  | c :: format, args, word => formatWords format args (some (word.getD [] ++ [c]))

/-- `redisCommand(handle, format, ...)`: the words it sends. -/
def formatCommand (format : String) (args : List FormatArg) : List Bytes :=
  formatWords (ascii format) args none

/-! ### Redis -/

/-- A value: a string, or one of another type. -/
inductive Stored
  | string (s : Bytes)
  | other
deriving DecidableEq, Repr

/-- The values of the keys. -/
abbrev Store := Bytes → Option Stored

/-- `SET` and `GET`: the reply, and the store afterwards. -/
def serve (words : List Bytes) (kv : Store) : Reply × Store :=
  match words with
  | [name, key, value] =>
      if name = ascii "SET" then
        (.status (ascii "OK"), Function.update kv key (some (.string value)))
      else (.error (ascii "ERR"), kv)
  | [name, key] =>
      if name = ascii "GET" then
        match kv key with
        | none => (.nil, kv)
        | some (.string s) => (.string s, kv)
        | some .other => (.error (ascii "WRONGTYPE"), kv)
      else (.error (ascii "ERR"), kv)
  | _ => (.error (ascii "ERR"), kv)

/-! ### The two functions -/

section Objects

variable {M : Type*} (serialize : M → Bytes) (parse : Bytes → Bool × M)

/-- `set_redis_data`, which is `go::redis_set_data`: what it returns, and the store.  `r` says what
becomes of the command. -/
def setRedisData (key : Bytes) (pd : M) (r : SetResult) (kv : Store) : Bool × Store :=
  (redisSetData r.reply,
    if r.applied then (serve (formatCommand "SET %b %b" [.b key, .b (serialize pd)]) kv).2 else kv)

/-- `go::redis_get_data` for a message of any class: what it returns, and the message. -/
def getRedisObject (key : Bytes) (pd : M) (kv : Store) : Bool × M :=
  match getPayload (some (serve (formatCommand "GET %s" [.s key]) kv).1) with
  | none => (false, pd)
  | some bs => (true, (parse bs).2)

/-- **The property** of one key, one message, one outcome of the `SET` and one store. -/
structure RoundTrip (key : Bytes) (m : M) (r : SetResult) (kv : Store) : Prop where
  read : (setRedisData serialize key m r kv).1 = true →
    ∀ p, getRedisObject parse key p (setRedisData serialize key m r kv).2 = (true, m)
  others : ∀ k, k ≠ key → (setRedisData serialize key m r kv).2 k = kv k
  parsed : ∀ p, (getRedisObject parse key p kv).1 = true →
    ∃ bs, kv key = some (.string bs) ∧ (parse bs).1 = true

theorem setRedisData_eq (key : Bytes) (pd : M) (r : SetResult) (kv : Store) :
    setRedisData serialize key pd r kv =
      (decide r.Succeeds,
        if r.applied then Function.update kv key (some (.string (serialize pd))) else kv) := by
  cases r <;> rfl

/-- It asks for the key up to its first NUL. -/
theorem getRedisObject_eq (key : Bytes) (pd : M) (kv : Store) :
    getRedisObject parse key pd kv =
      match kv (cstr key) with
      | some (.string bs) => (true, (parse bs).2)
      | _ => (false, pd) := by
  have hserve : serve (formatCommand "GET %s" [.s key]) kv =
      match kv (cstr key) with
      | none => (.nil, kv)
      | some (.string s) => (.string s, kv)
      | some .other => (.error (ascii "WRONGTYPE"), kv) := rfl
  rw [getRedisObject, hserve]
  rcases kv (cstr key) with _ | ⟨_ | _⟩ <;> rfl

/-! ### The round trip -/

/-- What the `GET` reads in a store after a `SET` that succeeded: what was written, if the key is a C
string, and else what is there for its beginning. -/
theorem getRedisObject_set {key : Bytes} {m : M} {r : SetResult} {kv : Store} (hr : r.Succeeds)
    (p : M) :
    getRedisObject parse key p (setRedisData serialize key m r kv).2 =
      if (0 : UInt8) ∉ key then (true, (parse (serialize m)).2) else getRedisObject parse key p kv := by
  rw [r.succeeds_iff] at hr
  subst hr
  rw [getRedisObject_eq, getRedisObject_eq, setRedisData_eq]
  show (match Function.update kv key (some (.string (serialize m))) (cstr key) with
    | some (.string bs) => (true, (parse bs).2)
    | _ => (false, p)) = _
  by_cases hkey : (0 : UInt8) ∈ key
  · have hne : cstr key ≠ key := fun heq => zero_not_mem_cstr key (heq.symm ▸ hkey)
    rw [if_neg (not_not.mpr hkey), Function.update_of_ne hne]
  · rw [if_pos hkey, cstr_eq_self hkey, Function.update_self]

/-- **The object store, exactly.**  For every key, every initialised message, every outcome of the
`SET` and every store the property holds if and only if: when the `SET` succeeds, the key has no NUL,
or what is stored for its beginning happens to read as the message; and where the `GET` finds a
string, the bytes stored under the key itself parse. -/
theorem roundTrip_iff {Initialized : M → Prop}
    (hparse : ∀ m, Initialized m → parse (serialize m) = (true, m)) {m : M} (hm : Initialized m)
    (key : Bytes) (r : SetResult) (kv : Store) :
    RoundTrip serialize parse key m r kv ↔
      (r.Succeeds → (0 : UInt8) ∉ key ∨
          ∃ bs, kv (cstr key) = some (.string bs) ∧ (parse bs).2 = m) ∧
        (∀ bs, kv (cstr key) = some (.string bs) →
          ∃ bs', kv key = some (.string bs') ∧ (parse bs').1 = true) := by
  have hothers : ∀ k, k ≠ key → (setRedisData serialize key m r kv).2 k = kv k := by
    intro k hk
    rw [setRedisData_eq]
    show (if r.applied then Function.update kv key (some (.string (serialize m))) else kv) k = kv k
    split
    · exact Function.update_of_ne hk _ _
    · rfl
  have hread : ((setRedisData serialize key m r kv).1 = true →
      ∀ p, getRedisObject parse key p (setRedisData serialize key m r kv).2 = (true, m)) ↔
        (r.Succeeds → (0 : UInt8) ∉ key ∨
          ∃ bs, kv (cstr key) = some (.string bs) ∧ (parse bs).2 = m) := by
    constructor
    · intro h hr
      rw [or_iff_not_imp_left, not_not]
      intro hkey
      have hp := h hr m
      rw [getRedisObject_set serialize parse hr, if_neg (not_not.mpr hkey), getRedisObject_eq] at hp
      rcases hkv : kv (cstr key) with _ | ⟨bs | _⟩ <;> simp only [hkv, Prod.mk.injEq] at hp
      · cases hp.1
      · exact ⟨bs, rfl, hp.2⟩
      · cases hp.1
    · intro h hr p
      rw [getRedisObject_set serialize parse hr]
      by_cases hkey : (0 : UInt8) ∈ key
      · obtain ⟨bs, hbs, hbm⟩ := (h hr).resolve_left (not_not.mpr hkey)
        rw [if_neg (not_not.mpr hkey), getRedisObject_eq, hbs]
        simp only [hbm]
      · rw [if_pos hkey, hparse m hm]
  have hparsed : (∀ p, (getRedisObject parse key p kv).1 = true →
      ∃ bs, kv key = some (.string bs) ∧ (parse bs).1 = true) ↔
        ∀ bs, kv (cstr key) = some (.string bs) →
          ∃ bs', kv key = some (.string bs') ∧ (parse bs').1 = true := by
    simp only [getRedisObject_eq]
    constructor
    · intro h bs hbs
      apply h m
      rw [hbs]
    · intro h p hget
      rcases hkv : kv (cstr key) with _ | ⟨bs | _⟩
      · simp [hkv] at hget
      · exact h bs hkv
      · simp [hkv] at hget
  exact ⟨fun h => ⟨hread.mp h.read, hparsed.mp h.parsed⟩,
    fun h => ⟨hread.mpr h.1, hothers, hparsed.mpr h.2⟩⟩

end Objects

/-- A class with one field of one byte. -/
def parseByte : Bytes → Bool × UInt8
  | [b] => (true, b)
  | _ => (false, 0)

/-- A key with a blank and a percent sign, in an empty store. -/
theorem roundTrip_blank :
    RoundTrip (fun b : UInt8 => [b]) parseByte (ascii "role %s") 7 .ok fun _ => none := by
  have hparse : ∀ b : UInt8, True → parseByte [b] = (true, b) := fun _ _ => rfl
  apply (roundTrip_iff (fun b : UInt8 => [b]) parseByte hparse trivial (ascii "role %s") .ok
    fun _ => none).mpr
  refine ⟨fun _ => .inl (by decide), fun bs hbs => ?_⟩
  cases hbs

/-- **A key with a NUL is not read back**: the `SET` succeeds, and the `GET` of its beginning finds
nothing.  And where the stored bytes do not parse, the read still returns `true`. -/
theorem not_roundTrip_nul :
    ¬ RoundTrip (fun b : UInt8 => [b]) parseByte [114, 0, 55] 7 .ok (fun _ => none) ∧
      ¬ RoundTrip (fun b : UInt8 => [b]) parseByte [114] 7 .refused fun _ => some (.string []) := by
  refine ⟨fun h => ?_, fun h => ?_⟩
  · have hread := h.read rfl 0
    revert hread
    decide
  · obtain ⟨bs, hbs, hok⟩ := h.parsed 0 rfl
    cases hbs
    cases hok

end GoFight.Data
