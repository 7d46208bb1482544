import Mathlib.Data.Nat.Digits.Lemmas
import Mathlib.Tactic.Ring

/-!
# Little-endian words in byte lists

A machine word stored in memory is a fixed number of bytes, the least significant first.
This file keeps the two directions, on naturals:

* `leBytes k n` — the `k` low bytes of `n`;
* `leVal bs` — the number a byte list stands for, through Mathlib's `Nat.ofDigits`;

and the round trip `leVal_leBytes`, exact below `256 ^ k`.  The two C `int` directions
`i32Bytes` / `i32Val` and the unsigned 64-bit ones `u64Bytes` / `u64Val` follow.  Nothing here
knows what the words mean.
-/

namespace GoFight.Lib

/-- The `k` low bytes of `n`, least significant first. -/
def leBytes : ℕ → ℕ → List UInt8
  | 0, _ => []
  | k + 1, n => UInt8.ofNat n :: leBytes k (n / 256)

/-- The number whose base-256 digits the bytes are. -/
def leVal (bs : List UInt8) : ℕ := Nat.ofDigits 256 (bs.map UInt8.toNat)

@[simp] theorem leBytes_length (k n : ℕ) : (leBytes k n).length = k := by
  induction k generalizing n with
  | zero => rfl
  | succ k ih => rw [leBytes, List.length_cons, ih]

theorem leVal_cons (b : UInt8) (bs : List UInt8) :
    leVal (b :: bs) = b.toNat + 256 * leVal bs := by
  rw [leVal, List.map_cons, Nat.ofDigits_cons]
  rfl

/-- **The word round trip.**  Reading back `k` stored bytes gives the number modulo `256 ^ k`. -/
theorem leVal_leBytes (k n : ℕ) : leVal (leBytes k n) = n % 256 ^ k := by
  induction k generalizing n with
  | zero => simp [leBytes, leVal, Nat.mod_one]
  | succ k ih =>
    have hbyte : (UInt8.ofNat n).toNat = n % 256 := UInt8.toNat_ofNat'
    rw [leBytes, leVal_cons, ih, hbyte, pow_succ', Nat.mod_mul]

theorem leVal_leBytes_of_lt {k n : ℕ} (h : n < 256 ^ k) : leVal (leBytes k n) = n := by
  rw [leVal_leBytes, Nat.mod_eq_of_lt h]

/-! ### C `int` -/

/-- The four bytes of a C `int`. -/
def i32Bytes (x : Int32) : List UInt8 := leBytes 4 x.toUInt32.toNat

/-- The C `int` four bytes hold. -/
def i32Val (bs : List UInt8) : Int32 := (UInt32.ofNat (leVal bs)).toInt32

@[simp] theorem i32Bytes_length (x : Int32) : (i32Bytes x).length = 4 := leBytes_length _ _

@[simp] theorem i32Val_i32Bytes (x : Int32) : i32Val (i32Bytes x) = x := by
  have hlt : x.toUInt32.toNat < 256 ^ 4 := x.toUInt32.toNat_lt
  rw [i32Val, i32Bytes, leVal_leBytes_of_lt hlt, UInt32.ofNat_toNat]
  rfl

/-! ### Unsigned 64-bit words -/

/-- The eight bytes of an unsigned 64-bit word. -/
def u64Bytes (x : UInt64) : List UInt8 := leBytes 8 x.toNat

/-- The unsigned 64-bit word eight bytes hold. -/
def u64Val (bs : List UInt8) : UInt64 := UInt64.ofNat (leVal bs)

@[simp] theorem u64Bytes_length (x : UInt64) : (u64Bytes x).length = 8 := leBytes_length _ _

@[simp] theorem u64Val_u64Bytes (x : UInt64) : u64Val (u64Bytes x) = x := by
  have hlt : x.toNat < 256 ^ 8 := x.toNat_lt
  rw [u64Val, u64Bytes, leVal_leBytes_of_lt hlt, UInt64.ofNat_toNat]

end GoFight.Lib
