import Mathlib.Data.Int.Notation
import Mathlib.Data.List.TakeWhile
import Mathlib.Tactic.Common

/-!
# The Redis and SQL calls of the servers

`go_redis.cpp` and the wrappers of `data_redis.cpp`, as functions of the reply hiredis gives:

* `redisCmd` — `go::redis_cmd`, which moves a reply into a `std::string` that outlives the call;
* `redisGetData` — `go::redis_get_data`, which parses the bytes of a reply into a message;
* `redisSetData` — what `go::redis_set_data` returns;
* `getRedisData` — the data server's wrapper around it, which answers `true` whatever happened;
* `sqlText` — the statement `process_redis_list` formats for MySQL.

A C string ends at its first NUL byte; `cstr` is what is left of a byte string that goes through
one.  The generated parser of `Role` is a parameter `parseRole`: the result of `ParseFromArray`
and the fields it leaves.
-/

namespace GoFight.Data

/-- The bytes of a `std::string` or a Redis value. -/
abbrev Bytes := List UInt8

/-- What a byte string reads as through `c_str()`. -/
def cstr (s : Bytes) : Bytes := s.takeWhile (· ≠ 0)

theorem cstr_eq_self {s : Bytes} (h : (0 : UInt8) ∉ s) : cstr s = s := by
  rw [cstr, List.takeWhile_eq_self_iff]
  intro b hb
  have hne : b ≠ 0 := fun h0 => h (h0 ▸ hb)
  simpa using hne

theorem zero_not_mem_cstr (s : Bytes) : (0 : UInt8) ∉ cstr s := by
  intro h
  have h0 := List.mem_takeWhile_imp h
  simp at h0

/-- The bytes of a source literal. -/
def ascii (s : String) : Bytes := s.toList.map fun c => UInt8.ofNat c.toNat

/-! ### Replies -/

/-- A `redisReply` by its type.  The elements of an array are bulk strings, as `ZRANGE` gives
them. -/
inductive Reply
  | integer (n : ℤ)
  | string (s : Bytes)
  | status (s : Bytes)
  | nil
  | array (elements : List Bytes)
  | error (s : Bytes)
  | other
deriving DecidableEq, Repr

/-- `go::redis_cmd` on the result of `redisCommand` (`none` is `NULL`): the return value, and
`response` afterwards.  An array without elements leaves `response` as it was. -/
def redisCmd (reply : Option Reply) (response : Bytes) : Bool × Bytes :=
  match reply with
  | none => (false, response)
  | some (.integer n) => (true, ascii (toString n))
  | some (.string s) => (true, cstr s)
  | some (.status s) => (true, cstr s)
  | some .nil => (true, [])
  | some (.array []) => (true, response)
  | some (.array (e :: _)) => (true, cstr e)
  | some (.error s) => (false, cstr s)
  | some .other => (false, ascii "Undefine Reply Type")

/-- What `go::redis_set_data` returns for the reply to its `SET`. -/
def redisSetData (reply : Option Reply) : Bool :=
  match reply with
  | none => false
  | some (.error _) => false
  | some _ => true

/-! ### `Role` values -/

/-- `Role`: its three fields as the accessors read them, empty when not set. -/
structure Role where
  id : Bytes
  name : Bytes
  user : Bytes
deriving DecidableEq, Repr

/-- `Role role;`. -/
def Role.blank : Role := ⟨[], [], []⟩

section Parser

variable (parseRole : Bytes → Bool × Role)

/-- The bytes `ParseFromArray(redis_ret->str, redis_ret->len)` is given, when it is called. -/
def getPayload (reply : Option Reply) : Option Bytes :=
  match reply with
  | none => none
  | some (.error _) => none
  | some .nil => none
  | some (.string s) => some s
  | some (.status s) => some s
  | some (.integer _) => some []
  | some (.array _) => some []
  | some .other => some []

/-- `go::redis_get_data`: the return value and the message afterwards.  The result of
`ParseFromArray` is dropped. -/
def redisGetData (reply : Option Reply) (pd : Role) : Bool × Role :=
  match getPayload reply with
  | none => (false, pd)
  | some bs => (true, (parseRole bs).2)

/-- `get_redis_data` of the data server: it calls `go::redis_get_data` and returns `true`. -/
def getRedisData (reply : Option Reply) (pd : Role) : Bool × Role :=
  (true, (redisGetData parseRole reply pd).2)

/-- `get_redis_data` of the game server, which returns what `go::redis_get_data` does. -/
def gameGetRedisData (reply : Option Reply) (pd : Role) : Bool × Role :=
  redisGetData parseRole reply pd

/-- The key was read, and its bytes parsed into an initialised `Role`. -/
def ReadRole (reply : Option Reply) : Prop :=
  ∃ bs, getPayload reply = some bs ∧ (parseRole bs).1 = true

instance (reply : Option Reply) : Decidable (ReadRole parseRole reply) :=
  match h : getPayload reply with
  | none => isFalse (by rintro ⟨bs, hbs, -⟩; rw [h] at hbs; cases hbs)
  | some bs =>
      if hp : (parseRole bs).1 = true then isTrue ⟨bs, h, hp⟩
      else isFalse (by
        rintro ⟨bs', hbs, hok⟩
        rw [h, Option.some.injEq] at hbs
        exact hp (hbs ▸ hok))

end Parser

/-! ### The statement -/

/-- `snprintf(sql, sizeof(sql), "REPLACE INTO ...", id, name, user)` into 2048 bytes. -/
def sqlText (r : Role) : Bytes :=
  (ascii "REPLACE INTO `role` (`id`, `name`, `user`) VALUES ('" ++ cstr r.id ++ ascii "', '" ++
    cstr r.name ++ ascii "', '" ++ cstr r.user ++ ascii "');").take 2047

end GoFight.Data
