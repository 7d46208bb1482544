import GoFight.Net.MessageFormat
import GoFight.Script.LuaApi

/-!
# Calls of Lua functions

`call_lua_func` of `lua_script.h`, in its three overloads.

* `LuaArg`, `LuaTable` — the arguments: a list of them, or a map that becomes one Lua table;
* `pushArgs`, `pushTable` — how they get onto the stack;
* `callWith` — what the overloads share, and `callLuaFuncInt`, `callLuaFuncString`,
  `callLuaFuncTable`, which are the overloads;
* `StackNeutral` — a call returns with the stack it found, its message handler was the function it had
  pushed, and it has set its result only if it says so;
* `stackNeutral_iff` — when a call does that.

The log is left out.
-/

namespace GoFight.Script

open GoFight.Lib
open GoFight.Data (Bytes cstr CppType)
open GoFight.Net (cint cint_of_mem intMax)
open LuaState

/-! ### The arguments -/

/-- `LuaArg`.  The members of the union are fields: only the one that `type_` names is read. -/
structure LuaArg where
  type : CppType
  intVal : Int32
  floatVal : BitVec 32
  boolVal : Bool
  strVal : Bytes
deriving DecidableEq, Repr

/-- The overloads have a case for the type. -/
def LuaArg.Supported (arg : LuaArg) : Prop :=
  arg.type = .string ∨ arg.type = .int32 ∨ arg.type = .float ∨ arg.type = .bool

instance (arg : LuaArg) : Decidable arg.Supported := inferInstanceAs (Decidable (_ ∨ _))

/-- `LuaTable`: a map, its entries in the order of their keys. -/
structure LuaTable where
  entries : List (Bytes × LuaArg)
  sorted : entries.Pairwise fun a b => a.1 < b.1

section Arguments

variable {N : Type} {limit : StackLimit} (lua : Lua N) (ofInt : Int32 → N)

/-- One argument; `ofInt` is the conversion in `lua_pushnumber` or `lua_pushinteger`. -/
def pushArg (arg : LuaArg) (s : LuaState N limit) : Option (LuaState N limit) :=
  match arg.type with
  | .string => s.pushstring arg.strVal
  | .int32 => s.push (.number (ofInt arg.intVal))
  | .float => s.push (.number (lua.ofFloat arg.floatVal))
  | .bool => s.push (.boolean arg.boolVal)
  | _ => some s

/-- The loop over `LuaArguments`. -/
def pushArgs : List LuaArg → LuaState N limit → Option (LuaState N limit)
  | [], s => some s
  | arg :: rest, s => (pushArg lua ofInt arg s).bind (pushArgs rest)

/-- The loop over a `LuaTable`. -/
def pushEntries : List (Bytes × LuaArg) → LuaState N limit → Option (LuaState N limit)
  | [], s => some s
  | (key, arg) :: rest, s => do
      let s ← s.pushstring key
      let s ← pushArg lua ofInt arg s
      let s ← s.settable (-3)
      pushEntries rest s

/-- A new table with the entries. -/
def pushTable (tbl : LuaTable) (s : LuaState N limit) : Option (LuaState N limit) :=
  s.newtable.bind (pushEntries lua ofInt tbl.entries)

end Arguments

/-! ### The overloads -/

/-- What a call ends with: its return value, `ret`, the message handler of its `lua_pcall` if there
was one, and the state. -/
structure Exit (R N : Type) (limit : StackLimit) where
  returned : Bool
  ret : R
  handler : Option (ℤ × Option (LuaValue N))
  state : LuaState N limit

/-- `-(2 + count)`, of type `size_t`, as an `int`. -/
def handlerIndex (count : ℕ) : ℤ := cint (-(2 + (count : ℤ)) % 18446744073709551616)

section Overloads

variable {N : Type} {limit : StackLimit} (lua : Lua N)

/-- `call_lua_func`, over the arguments it pushes, how many they are, the check of the result and its
conversion. -/
def callWith {R : Type} (pushAll : LuaState N limit → Option (LuaState N limit)) (count : ℕ)
    (check : LuaValue N → Bool) (convert : LuaState N limit → Option (R × LuaState N limit))
    (func : Bytes) (ret : R) (s : LuaState N limit) : Option (Exit R N limit) := do
  let s ← s.push (.function .luaTraceback)
  let s ← s.getglobal func
  if (s.stack.peek (-1)).any LuaValue.isFunction then
    let s ← pushAll s
    let p ← s.pcall lua (cint count) (handlerIndex count)
    if p.status ≠ 0 then
      let s ← p.state.pop 2
      return ⟨false, ret, some p.handler, s⟩
    else if (p.state.stack.peek (-1)).any check then
      let (result, s) ← convert p.state
      let s ← s.pop 2
      return ⟨true, result, some p.handler, s⟩
    else
      let s ← p.state.pop 2
      return ⟨false, ret, some p.handler, s⟩
  else
    -- the traceback function stays
    let s ← s.pop 1
    return ⟨false, ret, none, s⟩

/-- `call_lua_func` with a list of arguments and an `int` result. -/
def callLuaFuncInt (func : Bytes) (args : List LuaArg) (ret : Int32) (s : LuaState N limit) :
    Option (Exit Int32 N limit) :=
  callWith lua (pushArgs lua lua.ofInt args) args.length (LuaValue.isNumber lua)
    (fun s => (s.tointeger lua).map fun v => (v.toInt32, s)) func ret s

/-- `call_lua_func` with a list of arguments and a string as its result. -/
def callLuaFuncString (func : Bytes) (args : List LuaArg) (ret : Bytes) (s : LuaState N limit) :
    Option (Exit Bytes N limit) :=
  callWith lua (pushArgs lua (fun v => lua.ofInteger v.toInt64) args) args.length LuaValue.isString
    (LuaState.tostring lua) func ret s

/-- `call_lua_func` with a table and a string as its result. -/
def callLuaFuncTable (func : Bytes) (tbl : LuaTable) (ret : Bytes) (s : LuaState N limit) :
    Option (Exit Bytes N limit) :=
  callWith lua (pushTable lua lua.ofInt tbl) 1 LuaValue.isString (LuaState.tostring lua) func ret s

end Overloads

/-! ### What the pushes do -/

/-- A function that puts `count` values on top of any stack, and needs `slots` free slots for it. -/
structure Pushes {N : Type} {limit : StackLimit}
    (f : LuaState N limit → Option (LuaState N limit)) (count slots : ℕ) : Prop where
  some {s : LuaState N limit} (hroom : s.stack.height + slots ≤ limit) :
    ∃ vs u, f s = some u ∧ Over vs s u ∧ vs.length = count
  none {s : LuaState N limit} (hroom : limit < s.stack.height + slots) : f s = none

section Pushing

variable {N : Type} {limit : StackLimit} (lua : Lua N) (ofInt : Int32 → N)

/-- An argument of a supported type is one push. -/
theorem pushArg_eq_push {arg : LuaArg} (harg : arg.Supported) :
    ∃ v, ∀ s : LuaState N limit, pushArg lua ofInt arg s = s.push v := by
  rcases harg with h | h | h | h
  · exact ⟨.string (cstr arg.strVal), fun s => by rw [pushArg, h]; rfl⟩
  · exact ⟨.number (ofInt arg.intVal), fun s => by rw [pushArg, h]⟩
  · exact ⟨.number (lua.ofFloat arg.floatVal), fun s => by rw [pushArg, h]⟩
  · exact ⟨.boolean arg.boolVal, fun s => by rw [pushArg, h]⟩

/-- **The argument list**: one slot for each argument. -/
theorem pushes_pushArgs {args : List LuaArg} (hargs : ∀ arg ∈ args, arg.Supported) :
    Pushes (pushArgs lua ofInt args : LuaState N limit → _) args.length args.length := by
  induction args with
  | nil =>
    constructor
    · intro s hroom
      exact ⟨[], s, rfl, over_refl s, rfl⟩
    · intro s hroom
      have hfits := s.stack.height_le
      rw [List.length_nil] at hroom
      omega
  | cons arg rest ih =>
    obtain ⟨v, hv⟩ : ∃ v, ∀ s : LuaState N limit, pushArg lua ofInt arg s = s.push v :=
      pushArg_eq_push lua ofInt (hargs arg List.mem_cons_self)
    have ih := ih fun a ha => hargs a (List.mem_cons_of_mem _ ha)
    rw [List.length_cons]
    constructor
    · intro s hroom
      obtain ⟨t, ht, hover, -⟩ := push_some v (s := s) (by omega)
      have hheight : t.stack.height = 1 + s.stack.height := hover.height
      obtain ⟨vs, u, hu, hrest, hlen⟩ := ih.some (s := t) (by omega)
      refine ⟨vs ++ [v], u, ?_, hover.trans hrest, ?_⟩
      · rw [pushArgs, hv, ht, Option.bind_some, hu]
      · rw [List.length_append, hlen, List.length_singleton]
    · intro s hroom
      rw [pushArgs, hv]
      by_cases hfull : limit ≤ s.stack.height
      · rw [push_none v hfull, Option.bind_none]
      · obtain ⟨t, ht, hover, -⟩ := push_some v (s := s) (by omega)
        have hheight : t.stack.height = 1 + s.stack.height := hover.height
        rw [ht, Option.bind_some, ih.none (by omega)]

/-- One entry of a table: a key and a value, which `lua_settable` takes off again. -/
theorem pushEntries_cons {id : ℕ} {s t : LuaState N limit} (h : Over [.table id] s t) (key : Bytes)
    {arg : LuaArg} (harg : arg.Supported) (rest : List (Bytes × LuaArg)) :
    (s.stack.height + 3 ≤ limit → ∃ u, Over [.table id] s u ∧
      pushEntries lua ofInt ((key, arg) :: rest) t = pushEntries lua ofInt rest u) ∧
    (limit < s.stack.height + 3 → pushEntries lua ofInt ((key, arg) :: rest) t = none) := by
  obtain ⟨v, hv⟩ : ∃ v, ∀ s : LuaState N limit, pushArg lua ofInt arg s = s.push v :=
    pushArg_eq_push lua ofInt harg
  have hheight : t.stack.height = 1 + s.stack.height := h.height
  simp only [pushEntries, Option.bind_eq_bind, pushstring]
  constructor
  · intro hroom
    obtain ⟨t₁, ht₁, hover₁, -⟩ := push_some (.string (cstr key)) (s := t) (by omega)
    have hheight₁ : t₁.stack.height = 1 + t.stack.height := hover₁.height
    obtain ⟨t₂, ht₂, hover₂, -⟩ := push_some v (s := t₁) (by omega)
    obtain ⟨u, hu, hover⟩ := settable_some ((h.trans hover₁).trans hover₂)
    refine ⟨u, hover, ?_⟩
    rw [ht₁, Option.bind_some, hv, ht₂, Option.bind_some, hu, Option.bind_some]
  · intro hroom
    by_cases hfull : limit ≤ t.stack.height
    · rw [push_none _ hfull, Option.bind_none]
    · obtain ⟨t₁, ht₁, hover₁, -⟩ := push_some (.string (cstr key)) (s := t) (by omega)
      have hheight₁ : t₁.stack.height = 1 + t.stack.height := hover₁.height
      rw [ht₁, Option.bind_some, hv, push_none v (by omega), Option.bind_none]

/-- The entries of a table leave the stack as it is. -/
theorem pushEntries_some {id : ℕ} {entries : List (Bytes × LuaArg)} {s t : LuaState N limit}
    (h : Over [.table id] s t) (hargs : ∀ e ∈ entries, e.2.Supported)
    (hroom : s.stack.height + 3 ≤ limit) :
    ∃ u, pushEntries lua ofInt entries t = some u ∧ Over [.table id] s u := by
  induction entries generalizing t with
  | nil => exact ⟨t, rfl, h⟩
  | cons e rest ih =>
    have harg := hargs e List.mem_cons_self
    obtain ⟨u, hu, heq⟩ := (pushEntries_cons lua ofInt h e.1 harg rest).1 hroom
    rw [heq]
    exact ih hu fun a ha => hargs a (List.mem_cons_of_mem _ ha)

/-- The slots a table needs: one, and two more for the key and the value of an entry. -/
def LuaTable.slots (tbl : LuaTable) : ℕ := if tbl.entries = [] then 1 else 3

theorem newtable_some {s : LuaState N limit} (hroom : s.stack.height < limit) :
    ∃ t, s.newtable = some t ∧ Over [.table s.world.tables.length] s t := by
  let s' : LuaState N limit := { s with world.tables := s.world.tables ++ [[]] }
  obtain ⟨t, ht, hover, -⟩ := push_some (.table s.world.tables.length) (s := s') hroom
  exact ⟨t, ht, hover⟩

theorem newtable_none {s : LuaState N limit} (hfull : limit ≤ s.stack.height) : s.newtable = none :=
  push_none _ (s := { s with world.tables := s.world.tables ++ [[]] }) hfull

/-- **The table**: one value on the stack, whatever is in it. -/
theorem pushes_pushTable {tbl : LuaTable} (hargs : ∀ e ∈ tbl.entries, e.2.Supported) :
    Pushes (pushTable lua ofInt tbl : LuaState N limit → _) 1 tbl.slots := by
  unfold LuaTable.slots
  constructor
  · intro s hroom
    split at hroom
    case isTrue hempty =>
      obtain ⟨t, ht, hover⟩ := newtable_some (s := s) (by omega)
      refine ⟨_, t, ?_, hover, rfl⟩
      rw [pushTable, ht, Option.bind_some, hempty, pushEntries]
    case isFalse =>
      obtain ⟨t, ht, hover⟩ := newtable_some (s := s) (by omega)
      obtain ⟨u, hu, hover'⟩ := pushEntries_some lua ofInt hover hargs hroom
      refine ⟨_, u, ?_, hover', rfl⟩
      rw [pushTable, ht, Option.bind_some, hu]
  · intro s hroom
    by_cases hfull : limit ≤ s.stack.height
    · rw [pushTable, newtable_none hfull, Option.bind_none]
    · obtain ⟨t, ht, hover⟩ := newtable_some (s := s) (by omega)
      rw [pushTable, ht, Option.bind_some]
      split at hroom
      · omega
      · next hne =>
        obtain ⟨e, rest, he⟩ := List.exists_cons_of_ne_nil hne
        have harg := hargs e (he ▸ List.mem_cons_self)
        rw [he]
        exact (pushEntries_cons lua ofInt hover e.1 harg rest).2 hroom

end Pushing

/-! ### What a call does -/

/-- The first slot above the stack, with `lua_traceback` in it. -/
def tracebackSlot {N : Type} {limit : StackLimit} (s : LuaState N limit) : ℤ × Option (LuaValue N) :=
  ((s.stack.height : ℤ) + 1, some (.function .luaTraceback))

/-- The call returns; the stack is the initial one; the message handler of `lua_pcall` is the function
in the first slot above it, which is `lua_traceback`; and `ret` is only changed if the call returns
`true`. -/
def StackNeutral {R N : Type} {limit : StackLimit} (s : LuaState N limit) (ret : R)
    (r : Option (Exit R N limit)) : Prop :=
  ∃ e, r = some e ∧ e.state.stack = s.stack ∧
    (∀ h ∈ e.handler, h = tracebackSlot s) ∧
    (e.ret ≠ ret → e.returned = true)

/-- With as many arguments as fit on a stack, the index is the one below the function. -/
theorem handlerIndex_eq {count : ℕ} (hcount : count ≤ luaiMaxStack) :
    handlerIndex count = -(count + 1 + 1 : ℕ) := by
  unfold luaiMaxStack at hcount
  unfold handlerIndex cint
  omega

theorem cint_count {count : ℕ} (hcount : count ≤ luaiMaxStack) : cint count = count := by
  unfold luaiMaxStack at hcount
  apply cint_of_mem
  · omega
  · unfold intMax
    omega

section Calls

variable {R N : Type} {limit : StackLimit} (lua : Lua N)
  {pushAll : LuaState N limit → Option (LuaState N limit)} {count slots : ℕ}
  {check : LuaValue N → Bool} {convert : LuaState N limit → Option (R × LuaState N limit)}
  {func : Bytes} {s : LuaState N limit}

/-- A conversion of the value on top, which it may replace. -/
def Converts (check : LuaValue N → Bool)
    (convert : LuaState N limit → Option (R × LuaState N limit)) : Prop :=
  ∀ {l : List (LuaValue N)} {s t : LuaState N limit} {v : LuaValue N}, Over (v :: l) s t →
    check v = true → ∃ r u v', convert t = some (r, u) ∧ Over (v' :: l) s u

/-- What is on the stack when the function has been looked up. -/
theorem lookup_some (func : Bytes) (s : LuaState N limit) (hroom : s.stack.height + 2 ≤ limit) :
    ∃ t u, s.push (.function .luaTraceback) = some t ∧ t.getglobal func = some u ∧
      Over [s.world.globals (cstr func), .function .luaTraceback] s u := by
  obtain ⟨t, ht, hover, hworld⟩ := push_some (.function .luaTraceback) (s := s) (by omega)
  have hheight : t.stack.height = 1 + s.stack.height := hover.height
  obtain ⟨u, hu, hover', -⟩ := push_some (s.world.globals (cstr func)) (s := t) (by omega)
  refine ⟨t, u, ht, ?_, hover.trans hover'⟩
  rw [getglobal, hworld, hu]

/-- **A function that is there**: every exit is neutral if there are slots enough. -/
theorem callWith_neutral (hpush : Pushes pushAll count slots) (hcount : count ≤ slots)
    (hconv : Converts check convert)
    (hfunc : (s.world.globals (cstr func)).isFunction = true)
    (hroom : s.stack.height + 2 + slots ≤ limit) (ret : R) :
    StackNeutral s ret (callWith lua pushAll count check convert func ret s) := by
  obtain ⟨t, u, ht, hu, hover⟩ := lookup_some func s (by omega)
  have hheight : u.stack.height = 2 + s.stack.height := hover.height
  obtain ⟨args, w, hw, hargs, hlen⟩ := hpush.some (s := u) (by omega)
  have hall := hover.trans hargs
  have hmax : count ≤ luaiMaxStack := by
    have hlimit := limit.property
    omega
  obtain ⟨p, v, hp, hresult, hhandler⟩ := pcall_some lua hall (handlerIndex count)
  rw [hlen, ← cint_count hmax] at hp
  have hpeek : (u.stack.peek (-1)).any LuaValue.isFunction = true := by
    rw [peek_top hover, Option.any_some, hfunc]
  have hlt : count + 1 < (args ++ [s.world.globals (cstr func), .function .luaTraceback]).length := by
    simp [hlen]
  have hslot : p.handler = tracebackSlot s := by
    rw [hhandler, handlerIndex_eq hmax, BoundedStack.absIndex_of_onTop hall hlt,
      BoundedStack.peek_of_onTop hall hlt]
    simp [tracebackSlot, ← hlen]
  have hkeep : ∀ h ∈ some p.handler, h = tracebackSlot s := by
    intro h hh
    rw [← Option.mem_some.mp hh, hslot]
  obtain ⟨z, hz, hover_z, -⟩ := pop_some hresult (n := 2) (by simp)
  have hzstack : z.stack = s.stack := Over.stack_eq hover_z
  rw [callWith, Option.bind_eq_bind, ht, Option.bind_some, Option.bind_eq_bind, hu, Option.bind_some,
    hpeek, if_pos rfl, Option.bind_eq_bind, hw, Option.bind_some, hp, Option.bind_some]
  by_cases hstatus : p.status = 0
  · by_cases hcheck : check v = true
    · obtain ⟨r, x, v', hx, hover_x⟩ := hconv hresult hcheck
      obtain ⟨y, hy, hover_y, -⟩ := pop_some hover_x (n := 2) (by simp)
      refine ⟨⟨true, r, some p.handler, y⟩, ?_, Over.stack_eq hover_y, hkeep, fun _ => rfl⟩
      simp [hstatus, peek_top hresult, hcheck, hx, hy]
    · refine ⟨⟨false, ret, some p.handler, z⟩, ?_, hzstack, hkeep, fun h => absurd rfl h⟩
      simp [hstatus, peek_top hresult, hcheck, hz]
  · refine ⟨⟨false, ret, some p.handler, z⟩, ?_, hzstack, hkeep, fun h => absurd rfl h⟩
    simp [hstatus, hz]

/-- Without slots for the traceback function and the function there is no exit. -/
theorem callWith_none_of_full (hfull : limit < s.stack.height + 2) (ret : R) :
    callWith lua pushAll count check convert func ret s = none := by
  simp only [callWith, Option.bind_eq_bind]
  by_cases h : limit ≤ s.stack.height
  · rw [push_none _ h, Option.bind_none]
  · obtain ⟨t, ht, hover, -⟩ := push_some (.function .luaTraceback) (s := s) (by omega)
    have hheight : t.stack.height = 1 + s.stack.height := hover.height
    rw [ht, Option.bind_some, getglobal, push_none _ (by omega), Option.bind_none]

/-- Without slots for the arguments there is none either. -/
theorem callWith_none (hpush : Pushes pushAll count slots)
    (hfunc : (s.world.globals (cstr func)).isFunction = true)
    (hfull : limit < s.stack.height + 2 + slots) (ret : R) :
    callWith lua pushAll count check convert func ret s = none := by
  by_cases hroom : s.stack.height + 2 ≤ limit
  · obtain ⟨t, u, ht, hu, hover⟩ := lookup_some func s hroom
    have hheight : u.stack.height = 2 + s.stack.height := hover.height
    have hpeek : (u.stack.peek (-1)).any LuaValue.isFunction = true := by
      rw [peek_top hover, Option.any_some, hfunc]
    simp only [callWith, Option.bind_eq_bind, ht, hu, Option.bind_some, hpeek, if_true]
    rw [hpush.none (by omega), Option.bind_none]
  · exact callWith_none_of_full lua (by omega) ret

/-- **A function that is not there**: the exit leaves the traceback function on the stack. -/
theorem callWith_leaks (hfunc : (s.world.globals (cstr func)).isFunction = false)
    (hroom : s.stack.height + 2 ≤ limit) (ret : R) :
    ∃ e, callWith lua pushAll count check convert func ret s = some e ∧
      Over [.function .luaTraceback] s e.state := by
  obtain ⟨t, u, ht, hu, hover⟩ := lookup_some func s hroom
  obtain ⟨z, hz, hover_z, -⟩ := pop_some hover (n := 1) (by simp)
  have hpeek : (u.stack.peek (-1)).any LuaValue.isFunction = false := by
    rw [peek_top hover, Option.any_some, hfunc]
  refine ⟨⟨false, ret, none, z⟩, ?_, hover_z⟩
  simp [callWith, ht, hu, hpeek, hz]

/-- When a call is neutral. -/
theorem callWith_neutral_iff (hpush : Pushes pushAll count slots) (hcount : count ≤ slots)
    (hconv : Converts check convert) (ret : R) :
    StackNeutral s ret (callWith lua pushAll count check convert func ret s) ↔
      (s.world.globals (cstr func)).isFunction = true ∧ s.stack.height + 2 + slots ≤ limit := by
  constructor
  · rintro ⟨e, he, hstack, -⟩
    by_cases hfunc : (s.world.globals (cstr func)).isFunction = true
    · refine ⟨hfunc, ?_⟩
      by_contra hfull
      rw [callWith_none lua hpush hfunc (by omega)] at he
      simp at he
    · by_cases hroom : s.stack.height + 2 ≤ limit
      · rw [Bool.not_eq_true] at hfunc
        obtain ⟨e', he', hover⟩ : ∃ e, callWith lua pushAll count check convert func ret s = some e ∧
            Over [.function .luaTraceback] s e.state := callWith_leaks lua hfunc hroom ret
        rw [he', Option.some.injEq] at he
        have hheight := hover.height
        rw [he, hstack, List.length_singleton] at hheight
        omega
      · rw [callWith_none_of_full lua (by omega)] at he
        simp at he
  · rintro ⟨hfunc, hroom⟩
    exact callWith_neutral lua hpush hcount hconv hfunc hroom ret

end Calls

/-! ### The three overloads -/

/-- A call of one of the overloads, with the value `ret` has before it. -/
inductive LuaCall
  | int (args : List LuaArg) (ret : Int32)
  | string (args : List LuaArg) (ret : Bytes)
  | table (tbl : LuaTable) (ret : Bytes)

namespace LuaCall

/-- Every argument has a type that is supported. -/
def Supported : LuaCall → Prop
  | int args _ => ∀ arg ∈ args, arg.Supported
  | string args _ => ∀ arg ∈ args, arg.Supported
  | table tbl _ => ∀ e ∈ tbl.entries, e.2.Supported

/-- The slots the arguments take. -/
def slots : LuaCall → ℕ
  | int args _ => args.length
  | string args _ => args.length
  | table tbl _ => tbl.slots

/-- The call is stack neutral. -/
def StackNeutral {N : Type} {limit : StackLimit} (lua : Lua N) (func : Bytes)
    (s : LuaState N limit) : LuaCall → Prop
  | int args ret => Script.StackNeutral s ret (callLuaFuncInt lua func args ret s)
  | string args ret => Script.StackNeutral s ret (callLuaFuncString lua func args ret s)
  | table tbl ret => Script.StackNeutral s ret (callLuaFuncTable lua func tbl ret s)

end LuaCall

section Neutral

variable {N : Type} {limit : StackLimit} (lua : Lua N)

theorem converts_tointeger :
    Converts (LuaValue.isNumber lua)
      fun s : LuaState N limit => (s.tointeger lua).map fun v => (v.toInt32, s) := by
  intro l s t v h hv
  refine ⟨(v.toInteger lua).toInt32, t, v, ?_, h⟩
  simp only [tointeger, peek_top h, Option.map_some]

theorem converts_tostring :
    Converts LuaValue.isString (LuaState.tostring lua : LuaState N limit → _) :=
  fun h hv => tostring_some lua h hv

/-- **Stack neutral calls, exactly.**  Whatever the call of the function comes to, `call_lua_func`
leaves the stack as it was, has its own handler in place and sets `ret` only with `true` if and only if
the name is one of a function and the stack has room for what it pushes. -/
theorem stackNeutral_iff {call : LuaCall} (hcall : call.Supported) (func : Bytes)
    (s : LuaState N limit) :
    call.StackNeutral lua func s ↔
      (s.world.globals (cstr func)).isFunction = true ∧
        s.stack.height + 2 + call.slots ≤ limit := by
  cases call with
  | int args ret =>
    exact callWith_neutral_iff lua (pushes_pushArgs lua lua.ofInt hcall) le_rfl
      (converts_tointeger lua) ret
  | string args ret =>
    exact callWith_neutral_iff lua (pushes_pushArgs lua _ hcall) le_rfl (converts_tostring lua) ret
  | table tbl ret =>
    have hslots : 1 ≤ tbl.slots := by
      unfold LuaTable.slots
      split <;> omega
    exact callWith_neutral_iff lua (pushes_pushTable lua lua.ofInt hcall) hslots
      (converts_tostring lua) ret

end Neutral

/-- Whole numbers, and functions that return their first argument. -/
def echo : Lua ℤ where
  ofInt v := v.toInt
  ofInteger v := v.toInt
  ofFloat _ := 0
  toInteger := Int64.ofInt
  ofString _ := none
  toString := Data.decimalInt
  call w _ args _ := ⟨none, args.headD .nil, w⟩

/-- The stack of a C function, empty, with one global. -/
def echoState : LuaState ℤ ⟨20, by decide⟩ where
  stack := ⟨[], Nat.zero_le _⟩
  world := {
    globals := fun name => if name = Data.ascii "echo" then .function (.other 0) else .nil
    tables := [] }

theorem stackNeutral_echo :
    (LuaCall.int [⟨.int32, 7, 0, false, []⟩] 0).StackNeutral echo (Data.ascii "echo") echoState := by
  have hcall : (LuaCall.int [⟨.int32, 7, 0, false, []⟩] 0).Supported := by
    intro arg harg
    rw [List.mem_singleton.mp harg]
    exact .inr (.inl rfl)
  exact (stackNeutral_iff echo hcall _ _).mpr ⟨by decide, by decide⟩

/-- **A name that is not defined**: the traceback function stays on the stack. -/
theorem not_stackNeutral_undefined :
    ¬ (LuaCall.int [] 0).StackNeutral echo (Data.ascii "missing") echoState := by
  rintro ⟨e, he, hstack, -⟩
  obtain ⟨e', he', hover⟩ : ∃ e, callLuaFuncInt echo (Data.ascii "missing") [] 0 echoState = some e ∧
      Over [.function .luaTraceback] echoState e.state :=
    callWith_leaks echo (by decide) (by decide) 0
  rw [he', Option.some.injEq] at he
  have hvalues := hover.values
  rw [he, hstack] at hvalues
  exact absurd hvalues (by decide)

end GoFight.Script
