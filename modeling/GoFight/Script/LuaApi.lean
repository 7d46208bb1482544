import GoFight.Data.ProtoFields
import GoFight.Lib.BoundedStack

/-!
# The C API of Lua

What `lua_script.h` uses of the C API of Lua 5.2, as its manual describes it.

* `LuaValue`, `LuaWorld` — the values, and what they refer to: the globals and the tables;
* `LuaState` — the stack of a C function, with the limit Lua has set for it, and the world;
* `Lua` — what the library is a parameter for: numbers, and what running a function comes to;
* `push`, `pop`, `getglobal`, `newtable`, `settable`, `pcall`, `tointeger`, `tostring` — the calls.

A call without a result (`none`) is one the manual leaves undefined: a push without a free slot, or an
index without a value.  Lua does not check for it.  A lookup of a global gives a value and raises no
error, and there is memory enough.
-/

namespace GoFight.Script

open GoFight.Lib
open GoFight.Data (Bytes cstr)

/-- `LUAI_MAXSTACK`. -/
def luaiMaxStack : ℕ := 1000000

/-- How many slots a stack may use: no stack is larger than `LUAI_MAXSTACK`. -/
abbrev StackLimit := { n : ℕ // n ≤ luaiMaxStack }

/-- A function: the one of `lua_script.h`, or any other. -/
inductive LuaFunction
  | luaTraceback
  | other (id : ℕ)
deriving DecidableEq, Repr

/-- A Lua value; `N` is `lua_Number`. -/
inductive LuaValue (N : Type*)
  | nil
  | boolean (b : Bool)
  | number (n : N)
  | string (s : Bytes)
  | table (id : ℕ)
  | function (f : LuaFunction)
  | userdata (id : ℕ)
  | thread (id : ℕ)
deriving DecidableEq, Repr

/-- What the values refer to: the globals by name, and the entries of the tables, the newest first. -/
structure LuaWorld (N : Type*) where
  globals : Bytes → LuaValue N
  tables : List (List (LuaValue N × LuaValue N))

/-- The stack, and the world around it. -/
structure LuaState (N : Type*) (limit : StackLimit) where
  stack : BoundedStack (LuaValue N) limit
  world : LuaWorld N

/-- The error codes of `lua_pcall`. -/
inductive PcallError
  | errRun
  | errMem
  | errGcmm
  | errErr
deriving DecidableEq, Repr

/-- What `lua_pcall` returns: `LUA_OK` or the code of an error. -/
def pcallStatus : Option PcallError → ℤ
  | none => 0
  | some .errRun => 2
  | some .errMem => 4
  | some .errGcmm => 5
  | some .errErr => 6

/-- What a protected call comes to: its result or the error message, and the world it leaves. -/
structure Outcome (N : Type*) where
  error : Option PcallError
  value : LuaValue N
  world : LuaWorld N

/-- The library: conversions of numbers, and protected calls of a value with arguments and a message
handler. -/
structure Lua (N : Type*) where
  ofInt : Int32 → N
  ofInteger : Int64 → N
  ofFloat : BitVec 32 → N
  toInteger : N → Int64
  ofString : Bytes → Option N
  toString : N → Bytes
  call : LuaWorld N → LuaValue N → List (LuaValue N) → Option (LuaValue N) → Outcome N

/-! ### Types -/

namespace LuaValue

variable {N : Type*}

/-- `lua_type(…) == LUA_TFUNCTION`. -/
def isFunction : LuaValue N → Bool
  | function _ => true
  | _ => false

/-- `lua_isnumber`: a number, or a string that can be converted to one. -/
def isNumber (lua : Lua N) : LuaValue N → Bool
  | number _ => true
  | string s => (lua.ofString s).isSome
  | _ => false

/-- `lua_isstring`: a string or a number. -/
def isString : LuaValue N → Bool
  | number _ => true
  | string _ => true
  | _ => false

/-- `lua_tointeger`. -/
def toInteger (lua : Lua N) : LuaValue N → Int64
  | number n => lua.toInteger n
  | string s => ((lua.ofString s).map lua.toInteger).getD 0
  | _ => 0

end LuaValue

/-! ### The calls -/

namespace LuaState

variable {N : Type*} {limit : StackLimit}

/-- `lua_pushcfunction`, `lua_pushnumber`, `lua_pushboolean` and the like. -/
def push (v : LuaValue N) (s : LuaState N limit) : Option (LuaState N limit) :=
  (s.stack.push v).map fun t => { s with stack := t }

/-- `lua_pushstring`. -/
def pushstring (str : Bytes) (s : LuaState N limit) : Option (LuaState N limit) :=
  s.push (.string (cstr str))

/-- `lua_pop`. -/
def pop (n : ℕ) (s : LuaState N limit) : Option (LuaState N limit) :=
  (s.stack.pop n).map fun t => { s with stack := t }

/-- `lua_getglobal`. -/
def getglobal (name : Bytes) (s : LuaState N limit) : Option (LuaState N limit) :=
  s.push (s.world.globals (cstr name))

/-- `lua_newtable`. -/
def newtable (s : LuaState N limit) : Option (LuaState N limit) :=
  { s with world.tables := s.world.tables ++ [[]] }.push (.table s.world.tables.length)

/-- `lua_settable`: the value on top goes under the key below it, into the table at the index. -/
def settable (i : ℤ) (s : LuaState N limit) : Option (LuaState N limit) :=
  match s.stack.peek i, s.stack.peek (-2), s.stack.peek (-1) with
  | some (.table id), some key, some val =>
      { s with world.tables := s.world.tables.modify id ((key, val) :: ·) }.pop 2
  | _, _, _ => none

/-- `lua_tointeger(state, -1)`. -/
def tointeger (lua : Lua N) (s : LuaState N limit) : Option Int64 :=
  (s.stack.peek (-1)).map (LuaValue.toInteger lua)

/-- `lua_tostring(state, -1)`: a number on top of the stack is replaced by its numeral; other values
than strings and numbers give `NULL`. -/
def tostring (lua : Lua N) (s : LuaState N limit) : Option (Bytes × LuaState N limit) :=
  match s.stack.peek (-1) with
  | some (.string str) => some (cstr str, s)
  | some (.number n) =>
      (s.stack.replaceTop (.string (lua.toString n))).map fun t =>
        (cstr (lua.toString n), { s with stack := t })
  | _ => none

/-- What `lua_pcall` returns, the message handler it was given (where it lies, and what lies there),
and the state it leaves. -/
structure Pcall (N : Type*) (limit : StackLimit) where
  status : ℤ
  handler : ℤ × Option (LuaValue N)
  state : LuaState N limit

/-- `lua_pcall(state, nargs, 1, msgh)`: the arguments and the function make place for one value. -/
def pcall (lua : Lua N) (nargs msgh : ℤ) (s : LuaState N limit) : Option (Pcall N limit) :=
  if 0 ≤ nargs then
    (s.stack.peek (-(nargs + 1))).bind fun f =>
      let args := (s.stack.values.take nargs.toNat).reverse
      let out := lua.call s.world f args (s.stack.peek msgh)
      ((s.stack.pop (nargs.toNat + 1)).bind (BoundedStack.push out.value)).map fun t =>
        { status := pcallStatus out.error
          handler := (s.stack.absIndex msgh, s.stack.peek msgh)
          state := { stack := t, world := out.world } }
  else none

/-! ### What the calls do over a stack -/

/-- The stack of `t` is the one of `s` with the values on top. -/
def Over (l : List (LuaValue N)) (s t : LuaState N limit) : Prop :=
  s.stack.onTop l = some t.stack

theorem over_refl (s : LuaState N limit) : Over [] s s :=
  BoundedStack.onTop_nil _

variable {s t : LuaState N limit} {l : List (LuaValue N)}

theorem Over.values (h : Over l s t) : t.stack.values = l ++ s.stack.values :=
  BoundedStack.onTop_eq_some_iff.mp h

theorem Over.stack_eq (h : Over [] s t) : t.stack = s.stack := by
  rw [Over, BoundedStack.onTop_nil, Option.some.injEq] at h
  exact h.symm

theorem Over.height (h : Over l s t) : t.stack.height = l.length + s.stack.height := by
  simp only [BoundedStack.height, h.values, List.length_append]

theorem Over.trans {m : List (LuaValue N)} {u : LuaState N limit} (h : Over l s t)
    (hu : Over m t u) : Over (m ++ l) s u := by
  have hover := BoundedStack.onTop_bind_onTop l m s.stack
  rw [show s.stack.onTop l = some t.stack from h, Option.bind_some] at hover
  rw [Over, ← hover]
  exact hu

/-- A push into a free slot. -/
theorem push_some (v : LuaValue N) (hroom : s.stack.height < limit) :
    ∃ u, s.push v = some u ∧ Over [v] s u ∧ u.world = s.world := by
  have hfits : [v].length + s.stack.height ≤ limit := by
    rw [List.length_singleton]
    omega
  obtain ⟨u, hu⟩ := BoundedStack.onTop_isSome_iff.mpr hfits
  refine ⟨{ s with stack := u }, ?_, hu, rfl⟩
  rw [push, BoundedStack.push, hu, Option.map_some]

/-- A push without a free slot. -/
theorem push_none (v : LuaValue N) (hroom : limit ≤ s.stack.height) : s.push v = none := by
  have hfull : limit < [v].length + s.stack.height := by
    rw [List.length_singleton]
    omega
  rw [push, BoundedStack.push, BoundedStack.onTop_eq_none_iff.mpr hfull, Option.map_none]

theorem pop_some (h : Over l s t) {n : ℕ} (hn : n ≤ l.length) :
    ∃ u, t.pop n = some u ∧ Over (l.drop n) s u ∧ u.world = t.world := by
  have hroom : l.length + s.stack.height ≤ limit :=
    BoundedStack.onTop_isSome_iff.mp ⟨_, h⟩
  obtain ⟨u, hu⟩ := BoundedStack.onTop_isSome_iff (l := l.drop n) (s := s.stack) |>.mpr
    (by rw [List.length_drop]; omega)
  refine ⟨{ t with stack := u }, ?_, hu, rfl⟩
  rw [pop, BoundedStack.pop_of_onTop h hn, hu, Option.map_some]

/-- The value on top. -/
theorem peek_top {v : LuaValue N} (h : Over (v :: l) s t) : t.stack.peek (-1) = some v :=
  BoundedStack.peek_of_onTop h (n := 0) (by simp)

/-- The value and the key on top of a table go into it. -/
theorem settable_some {id : ℕ} {key val : LuaValue N} (h : Over [val, key, .table id] s t) :
    ∃ u, t.settable (-3) = some u ∧ Over [.table id] s u := by
  have hval : t.stack.peek (-1) = some val := peek_top h
  have hkey : t.stack.peek (-2) = some key := BoundedStack.peek_of_onTop h (n := 1) (by simp)
  have htable : t.stack.peek (-3) = some (.table id) :=
    BoundedStack.peek_of_onTop h (n := 2) (by simp)
  let t' : LuaState N limit :=
    { t with world.tables := t.world.tables.modify id ((key, val) :: ·) }
  have h' : Over [val, key, .table id] s t' := h
  obtain ⟨u, hu, hover, -⟩ := pop_some h' (n := 2) (by simp)
  refine ⟨u, ?_, hover⟩
  rw [settable, htable, hkey, hval]
  exact hu

/-- A protected call: the arguments and the function are replaced by one value, whatever happens. -/
theorem pcall_some (lua : Lua N) {args : List (LuaValue N)} {f : LuaValue N}
    (h : Over (args ++ f :: l) s t) (msgh : ℤ) :
    ∃ p v, t.pcall lua args.length msgh = some p ∧ Over (v :: l) s p.state ∧
      p.handler = (t.stack.absIndex msgh, t.stack.peek msgh) := by
  have hlen : args.length < (args ++ f :: l).length := by simp
  have hf : t.stack.peek (-(args.length + 1 : ℕ)) = some f := by
    rw [BoundedStack.peek_of_onTop h hlen]
    simp
  have hpop : t.stack.pop (args.length + 1) = s.stack.onTop l := by
    rw [BoundedStack.pop_of_onTop h hlen]
    simp
  have hroom : (args ++ f :: l).length + s.stack.height ≤ limit := by
    rw [← h.height]
    exact t.stack.height_le
  have hargs : (0 : ℤ) ≤ args.length := by omega
  let out := lua.call t.world f (t.stack.values.take args.length).reverse (t.stack.peek msgh)
  obtain ⟨u, hu⟩ : ∃ u, s.stack.onTop (out.value :: l) = some u := by
    rw [BoundedStack.onTop_isSome_iff, List.length_cons]
    simp only [List.length_append, List.length_cons] at hroom
    omega
  refine ⟨⟨pcallStatus out.error, _, ⟨u, out.world⟩⟩, out.value, ?_, hu, rfl⟩
  have hpush : (t.stack.pop (args.length + 1)).bind (BoundedStack.push out.value) = some u := by
    rw [hpop, BoundedStack.onTop_bind_push, hu]
  rw [pcall, if_pos hargs, Int.toNat_natCast]
  rw [show (-((args.length : ℤ) + 1)) = -(args.length + 1 : ℕ) by omega, hf, Option.bind_some]
  simp only [out] at hpush
  simp only [hpush, Option.map_some, out]

/-- `lua_tostring` of a string or a number, which it may replace. -/
theorem tostring_some (lua : Lua N) {v : LuaValue N} (h : Over (v :: l) s t)
    (hv : v.isString = true) :
    ∃ r u v', t.tostring lua = some (r, u) ∧ Over (v' :: l) s u := by
  have htop := peek_top h
  cases v with
  | string str => exact ⟨cstr str, t, .string str, by rw [tostring, htop], h⟩
  | number n =>
    have hroom : (LuaValue.number n :: l).length + s.stack.height ≤ limit :=
      BoundedStack.onTop_isSome_iff.mp ⟨_, h⟩
    obtain ⟨u, hu⟩ : ∃ u, s.stack.onTop (.string (lua.toString n) :: l) = some u :=
      BoundedStack.onTop_isSome_iff.mpr hroom
    refine ⟨cstr (lua.toString n), { t with stack := u }, .string (lua.toString n), ?_, hu⟩
    rw [tostring, htop]
    simp only [BoundedStack.replaceTop_of_onTop h, hu, Option.map_some]
  | _ => simp [LuaValue.isString] at hv

end LuaState

end GoFight.Script
