import Mathlib.Data.Nat.Digits.Defs
import Mathlib.Tactic.Common

/-!
# Decimal numerals in ASCII

* `numeral` — the value of a string of digits, most significant first;
* `decimal` — the numeral without leading zeros that is printed for a number;
* `numeral_decimal` — it reads back as the number.
-/

namespace GoFight.Lib

/-- `'0'` to `'9'`. -/
def isDigit (b : UInt8) : Bool := 48 ≤ b.toNat && b.toNat ≤ 57

/-- The value of a string of digits. -/
def numeral (l : List UInt8) : ℕ := l.foldl (fun n b => 10 * n + (b.toNat - 48)) 0

/-- One digit. -/
def digitByte (d : ℕ) : UInt8 := UInt8.ofNat (48 + d)

/-- The numeral printed for a number. -/
def decimal (n : ℕ) : List UInt8 :=
  if n = 0 then [48] else (Nat.digits 10 n).reverse.map digitByte

theorem numeral_concat (l : List UInt8) (b : UInt8) :
    numeral (l ++ [b]) = 10 * numeral l + (b.toNat - 48) := by
  rw [numeral, List.foldl_append, List.foldl_cons, List.foldl_nil, numeral]

theorem toNat_digitByte {d : ℕ} (h : d < 10) : (digitByte d).toNat = 48 + d := by
  rw [digitByte, UInt8.toNat_ofNat']
  omega

theorem isDigit_digitByte {d : ℕ} (h : d < 10) : isDigit (digitByte d) = true := by
  rw [isDigit, toNat_digitByte h]
  simp
  omega

/-- Digits, least significant first, have the value of their numeral. -/
theorem numeral_reverse {ds : List ℕ} (h : ∀ d ∈ ds, d < 10) :
    numeral (ds.reverse.map digitByte) = Nat.ofDigits 10 ds := by
  induction ds with
  | nil => rfl
  | cons d ds ih =>
    rw [List.forall_mem_cons] at h
    rw [List.reverse_cons, List.map_append, List.map_singleton, numeral_concat, ih h.2,
      toNat_digitByte h.1, Nat.ofDigits_cons]
    omega

/-- **A printed number reads back.** -/
theorem numeral_decimal (n : ℕ) : numeral (decimal n) = n := by
  rw [decimal]
  split
  · next h => rw [h]; rfl
  · rw [numeral_reverse fun d hd => Nat.digits_lt_base (by omega) hd, Nat.ofDigits_digits]

theorem isDigit_of_mem_decimal {n : ℕ} {b : UInt8} (h : b ∈ decimal n) : isDigit b = true := by
  rw [decimal] at h
  split at h
  · rw [List.mem_singleton.mp h]
    rfl
  · obtain ⟨d, hd, rfl⟩ := List.mem_map.mp h
    exact isDigit_digitByte (Nat.digits_lt_base (by omega) (List.mem_reverse.mp hd))

theorem decimal_ne_nil (n : ℕ) : decimal n ≠ [] := by
  rw [decimal]
  split
  · exact List.cons_ne_nil _ _
  · next h => simpa [Nat.digits_eq_nil_iff_eq_zero] using h

end GoFight.Lib
