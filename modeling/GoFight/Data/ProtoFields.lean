import GoFight.Data.Redis
import GoFight.Lib.Decimal
import Mathlib.Data.UInt
import Mathlib.Logic.Function.Basic

/-!
# Columns into fields

`set_proto_data` of `go_db.cpp` stores the text of a MySQL column in a field of a protobuf message.

* `strtoll`, `atoi`, `atoll` — the conversions of the C library: blanks, a sign, digits, the ends of
  the signed 64-bit range;
* `FieldDescriptor`, `Value`, `ProtoData` — a message by reflection: what each field is set to;
* `setProtoData` — the function itself;
* `setProtoData_integer_iff` — which integers it stores as MySQL prints them.

`atof` and the conversion to `float` are parameters.  `ERROR_LOG` is left out.
-/

namespace GoFight.Data

open GoFight.Lib

/-! ### The C library -/

/-- `isspace`. -/
def isSpace (b : UInt8) : Bool := b = 32 || (9 ≤ b.toNat && b.toNat ≤ 13)

/-- A value out of the signed 64-bit range becomes the end that it is beyond. -/
def saturate (v : ℤ) : ℤ := max (-2 ^ 63) (min v (2 ^ 63 - 1))

/-- The sign, and the text after it. -/
def splitSign : Bytes → Bool × Bytes
  | 45 :: s => (true, s)
  | 43 :: s => (false, s)
  | s => (false, s)

/-- `strtoll(s, NULL, 10)`, which is `strtol` where `long` has 64 bits. -/
def strtoll (s : Bytes) : ℤ :=
  let r := splitSign ((cstr s).dropWhile isSpace)
  let n : ℤ := numeral (r.2.takeWhile isDigit)
  saturate (if r.1 then -n else n)

/-- `atoi`: the `int` that `strtol` is converted to. -/
def atoi (s : Bytes) : Int32 := Int32.ofInt (strtoll s)

/-- `atoll`. -/
def atoll (s : Bytes) : Int64 := Int64.ofInt (strtoll s)

/-! ### Messages by reflection -/

/-- `FieldDescriptor::CppType`. -/
inductive CppType
  | int32
  | int64
  | uint32
  | uint64
  | double
  | float
  | bool
  | enum
  | string
  | message
deriving DecidableEq, Repr

/-- A singular field, and the `oneof` it is in. -/
structure FieldDescriptor where
  name : Bytes
  cppType : CppType
  containingOneof : Option ℕ
deriving DecidableEq, Repr

/-- The descriptor of a message type. -/
structure Descriptor where
  fields : List FieldDescriptor
deriving DecidableEq, Repr

/-- `FindFieldByName`. -/
def Descriptor.findFieldByName (des : Descriptor) (name : Bytes) : Option FieldDescriptor :=
  des.fields.find? fun f => f.name = name

/-- What a field is set to; `F` and `D` are `float` and `double`. -/
inductive Value (F D : Type*)
  | int32 (v : Int32)
  | int64 (v : Int64)
  | uint32 (v : UInt32)
  | uint64 (v : UInt64)
  | double (v : D)
  | float (v : F)
  | bool (v : Bool)
  | string (v : Bytes)
deriving DecidableEq, Repr

/-- A message: what each field is set to, if it is. -/
abbrev ProtoData (F D : Type*) := FieldDescriptor → Option (Value F D)

/-- The two fields are the same or in the same `oneof`. -/
def FieldDescriptor.Shares (f g : FieldDescriptor) : Prop :=
  g = f ∨ (f.containingOneof.isSome ∧ g.containingOneof = f.containingOneof)

instance (f g : FieldDescriptor) : Decidable (f.Shares g) :=
  inferInstanceAs (Decidable (_ ∨ _))

section Messages

variable {F D : Type*}

/-- An empty message. -/
def ProtoData.blank : ProtoData F D := fun _ => none

/-- `Reflection::SetInt32` and the like: a member of a `oneof` clears the others. -/
def ProtoData.set (pd : ProtoData F D) (f : FieldDescriptor) (v : Value F D) : ProtoData F D :=
  fun g => if g = f then some v else if f.Shares g then none else pd g

@[simp] theorem ProtoData.set_self (pd : ProtoData F D) (f : FieldDescriptor) (v : Value F D) :
    pd.set f v f = some v := if_pos rfl

variable (atof : Bytes → D) (toFloat : D → F)

/-- `set_proto_data`. -/
def setProtoData (pd : ProtoData F D) (fdes : FieldDescriptor) (val : Bytes) : ProtoData F D :=
  match fdes.cppType with
  | .int32 => pd.set fdes (.int32 (atoi val))
  | .int64 => pd.set fdes (.int64 (atoll val))
  | .uint32 => pd.set fdes (.uint32 (atoi val).toUInt32)
  | .uint64 => pd.set fdes (.uint64 (atoll val).toUInt64)
  | .float => pd.set fdes (.float (toFloat (atof (cstr val))))
  | .double => pd.set fdes (.double (atof (cstr val)))
  | .bool => pd.set fdes (.bool (0 < atoi val))
  | .string => pd.set fdes (.string (cstr val))
  | .enum => pd
  | .message => pd

/-- `set_proto_data` has a case for the type. -/
def CppType.Supported (t : CppType) : Prop := t ≠ .enum ∧ t ≠ .message

instance (t : CppType) : Decidable t.Supported := inferInstanceAs (Decidable (_ ∧ _))

/-- The value a text is stored as in a field of the type. -/
def fieldValue (t : CppType) (val : Bytes) : Option (Value F D) :=
  match t with
  | .int32 => some (.int32 (atoi val))
  | .int64 => some (.int64 (atoll val))
  | .uint32 => some (.uint32 (atoi val).toUInt32)
  | .uint64 => some (.uint64 (atoll val).toUInt64)
  | .float => some (.float (toFloat (atof (cstr val))))
  | .double => some (.double (atof (cstr val)))
  | .bool => some (.bool (0 < atoi val))
  | .string => some (.string (cstr val))
  | .enum => none
  | .message => none

theorem fieldValue_isSome_iff (t : CppType) (val : Bytes) :
    (fieldValue atof toFloat t val).isSome ↔ t.Supported := by
  cases t <;> simp [fieldValue, CppType.Supported]

/-- The field is set to the value of the text, or nothing happens. -/
theorem setProtoData_eq (pd : ProtoData F D) (fdes : FieldDescriptor) (val : Bytes) :
    setProtoData atof toFloat pd fdes val =
      match fieldValue atof toFloat fdes.cppType val with
      | some v => pd.set fdes v
      | none => pd := by
  unfold setProtoData fieldValue
  cases fdes.cppType <;> rfl

/-! ### Integers -/

/-- The integer in a field. -/
def Value.toInt : Value F D → Option ℤ
  | .int32 v => some v.toInt
  | .int64 v => some v.toInt
  | .uint32 v => some v.toNat
  | .uint64 v => some v.toNat
  | _ => none

end Messages

/-- The type is an integer type in which the value can be represented. -/
def CppType.Represents (t : CppType) (v : ℤ) : Prop :=
  match t with
  | .int32 => -2 ^ 31 ≤ v ∧ v < 2 ^ 31
  | .int64 => -2 ^ 63 ≤ v ∧ v < 2 ^ 63
  | .uint32 => 0 ≤ v ∧ v < 2 ^ 32
  | .uint64 => 0 ≤ v ∧ v < 2 ^ 64
  | _ => False

/-- The text is a decimal numeral of the value: a sign if it is negative, and digits, of which the
first may be zeros (`ZEROFILL`). -/
def PrintedAs (v : ℤ) (text : Bytes) : Prop :=
  ∃ digits : Bytes, digits ≠ [] ∧ (∀ b ∈ digits, isDigit b = true) ∧ numeral digits = v.natAbs ∧
    text = (if v < 0 then [45] else []) ++ digits

/-- The numeral MySQL prints. -/
def decimalInt (v : ℤ) : Bytes := (if v < 0 then [45] else []) ++ decimal v.natAbs

theorem printedAs_decimalInt (v : ℤ) : PrintedAs v (decimalInt v) :=
  ⟨_, decimal_ne_nil _, fun _ => isDigit_of_mem_decimal, numeral_decimal _, rfl⟩

theorem splitSign_of_isDigit {b : UInt8} {s : Bytes} (hb : isDigit b = true) :
    splitSign (b :: s) = (false, b :: s) := by
  unfold splitSign
  split
  · next h => cases h; exact absurd hb (by decide)
  · next h => cases h; exact absurd hb (by decide)
  · rfl

theorem not_isSpace_of_isDigit {b : UInt8} (hb : isDigit b = true) : isSpace b = false := by
  have hne : b ≠ 32 := by
    rintro rfl
    exact absurd hb (by decide)
  rw [isDigit, Bool.and_eq_true, decide_eq_true_eq, decide_eq_true_eq] at hb
  simp [isSpace, hne]
  omega

/-- **`strtoll` on a printed number** is the number, saturated. -/
theorem strtoll_printed {v : ℤ} {text : Bytes} (h : PrintedAs v text) :
    strtoll text = saturate v := by
  obtain ⟨digits, hne, hd, hval, rfl⟩ := h
  obtain ⟨b, rest, rfl⟩ := List.exists_cons_of_ne_nil hne
  have hb := hd b List.mem_cons_self
  have htake : (b :: rest).takeWhile isDigit = b :: rest := List.takeWhile_eq_self_iff.mpr hd
  have hzero : ∀ c ∈ b :: rest, c ≠ 0 := by
    rintro c hc rfl
    exact absurd (hd 0 hc) (by decide)
  by_cases hneg : v < 0
  · have htext : (if v < 0 then [45] else []) ++ b :: rest = 45 :: b :: rest := by rw [if_pos hneg]; rfl
    have hc : cstr (45 :: b :: rest) = 45 :: b :: rest := by
      apply cstr_eq_self
      intro h0
      rcases List.mem_cons.mp h0 with h0 | h0
      · exact absurd h0 (by decide)
      · exact hzero 0 h0 rfl
    have hsp : ¬ isSpace 45 = true := by decide
    rw [htext, strtoll, hc, List.dropWhile_cons_of_neg hsp]
    simp only [splitSign, htake, hval, if_true]
    congr 1
    omega
  · have htext : (if v < 0 then [45] else []) ++ b :: rest = b :: rest := by rw [if_neg hneg]; rfl
    have hc : cstr (b :: rest) = b :: rest := cstr_eq_self fun h0 => hzero 0 h0 rfl
    have hsp : ¬ isSpace b = true := by simp [not_isSpace_of_isDigit hb]
    rw [htext, strtoll, hc, List.dropWhile_cons_of_neg hsp, splitSign_of_isDigit hb]
    simp only [htake, hval, Bool.false_eq_true, if_false]
    congr 1
    omega

theorem saturate_eq_self {v : ℤ} (h₁ : -2 ^ 63 ≤ v) (h₂ : v < 2 ^ 63) : saturate v = v := by
  unfold saturate
  omega

theorem atoi_toInt {v : ℤ} {text : Bytes} (h : PrintedAs v text) (h₁ : -2 ^ 31 ≤ v)
    (h₂ : v < 2 ^ 31) : (atoi text).toInt = v := by
  rw [atoi, strtoll_printed h, saturate_eq_self (by omega) (by omega),
    Int32.toInt_ofInt_of_le h₁ h₂]

theorem atoll_toInt {v : ℤ} {text : Bytes} (h : PrintedAs v text) :
    (atoll text).toInt = saturate v := by
  rw [atoll, strtoll_printed h, Int64.toInt_ofInt_of_le]
  · unfold saturate
    omega
  · unfold saturate
    omega

/-- A `uint32` wraps around in `atoi` and back in the conversion. -/
theorem atoi_toUInt32 {v : ℤ} {text : Bytes} (h : PrintedAs v text) (h₁ : 0 ≤ v)
    (h₂ : v < 2 ^ 32) : ((atoi text).toUInt32.toNat : ℤ) = v := by
  have hofInt : (Int32.ofInt v).toUInt32 = UInt32.ofNat v.toNat := by
    conv_lhs => rw [← Int.toNat_of_nonneg h₁]
    rfl
  rw [atoi, strtoll_printed h, saturate_eq_self (by omega) (by omega), hofInt,
    UInt32.toNat_ofNat']
  omega

/-- A `uint64` goes through `strtoll`. -/
theorem atoll_toUInt64 {v : ℤ} {text : Bytes} (h : PrintedAs v text) (h₁ : 0 ≤ v) :
    ((atoll text).toUInt64.toNat : ℤ) = saturate v := by
  have hsat : 0 ≤ saturate v ∧ saturate v < 2 ^ 63 := by
    unfold saturate
    omega
  have hofInt : (Int64.ofInt (saturate v)).toUInt64 = UInt64.ofNat (saturate v).toNat := by
    conv_lhs => rw [← Int.toNat_of_nonneg hsat.1]
    rfl
  rw [atoll, strtoll_printed h, hofInt, UInt64.toNat_ofNat']
  omega

/-- **Integer columns, exactly.**  A number that the field's type can represent is stored as it is
if and only if the field is no `uint64` or the number is below 2^63. -/
theorem setProtoData_integer_iff {F D : Type*} (atof : Bytes → D) (toFloat : D → F)
    {fdes : FieldDescriptor} {v : ℤ} {text : Bytes} (hv : fdes.cppType.Represents v)
    (htext : PrintedAs v text) (pd : ProtoData F D) :
    (setProtoData atof toFloat pd fdes text fdes).bind Value.toInt = some v ↔
      (fdes.cppType = .uint64 → v < 2 ^ 63) := by
  rw [setProtoData_eq]
  cases ht : fdes.cppType <;> rw [ht] at hv
  case int32 =>
    simp [fieldValue, Value.toInt, atoi_toInt htext hv.1 hv.2]
  case int64 =>
    have hsat := saturate_eq_self hv.1 hv.2
    simp [fieldValue, Value.toInt, atoll_toInt htext, hsat]
  case uint32 =>
    simp [fieldValue, Value.toInt, atoi_toUInt32 htext hv.1 hv.2]
  case uint64 =>
    have hsat : saturate v = v ↔ v < 2 ^ 63 := by
      have hlow := hv.1
      unfold saturate
      omega
    simp [fieldValue, Value.toInt, atoll_toUInt64 htext hv.1, hsat]
  all_goals exact hv.elim

/-- A field of its own. -/
def idField (t : CppType) : FieldDescriptor := ⟨ascii "id", t, none⟩

/-- The largest `uint32`, which is negative in between. -/
theorem setProtoData_integer_max32 :
    (setProtoData (fun _ => ()) id .blank (idField .uint32) (decimalInt 4294967295)
      (idField .uint32)).bind Value.toInt = some 4294967295 := by
  have hv : (idField .uint32).cppType.Represents 4294967295 := ⟨by decide, by decide⟩
  exact (setProtoData_integer_iff (fun _ => ()) id hv (printedAs_decimalInt _) .blank).mpr nofun

/-- **2^63 in a `uint64` field is stored as 2^63 - 1.** -/
theorem setProtoData_integer_saturates :
    CppType.uint64.Represents (2 ^ 63) ∧ PrintedAs (2 ^ 63) (decimalInt (2 ^ 63)) ∧
      (setProtoData (fun _ => ()) id .blank (idField .uint64) (decimalInt (2 ^ 63))
        (idField .uint64)).bind Value.toInt ≠ some (2 ^ 63) := by
  refine ⟨⟨by decide, by decide⟩, printedAs_decimalInt _, ?_⟩
  have hstored : ((atoll (decimalInt (2 ^ 63))).toUInt64.toNat : ℤ) = saturate (2 ^ 63) :=
    atoll_toUInt64 (printedAs_decimalInt _) (by decide)
  have hsat : saturate (2 ^ 63) ≠ 2 ^ 63 := by decide
  rw [← hstored] at hsat
  rw [setProtoData_eq]
  simpa [fieldValue, idField, Value.toInt] using hsat

end GoFight.Data
