import Mathlib.Tactic.Ring
import Mathlib.Tactic.Linarith

/-!
# Base-128 varints

A number in groups of seven bits, the low group first, each byte but the last with its high bit
set.  `readVarint` undoes `varintBytes` and hands back what follows (`readVarint_varintBytes`).
Both directions take the number of bytes a varint may have.
-/

namespace GoFight.Lib

/-- `n` as a varint of at most `k` bytes. -/
def varintBytes : ℕ → ℕ → List UInt8
  | 0, _ => []
  | k + 1, n =>
      if n < 128 then [UInt8.ofNat n]
      else UInt8.ofNat (n % 128 + 128) :: varintBytes k (n / 128)

/-- A varint of at most `k` bytes, and the bytes behind it. -/
def readVarint : ℕ → List UInt8 → Option (ℕ × List UInt8)
  | 0, _ => none
  | _ + 1, [] => none
  | k + 1, b :: bs =>
      if b.toNat < 128 then some (b.toNat, bs)
      else (readVarint k bs).map fun r => (b.toNat - 128 + 128 * r.1, r.2)

theorem toNat_ofNat_of_lt_256 {n : ℕ} (h : n < 256) : (UInt8.ofNat n).toNat = n := by
  rw [UInt8.toNat_ofNat', Nat.mod_eq_of_lt h]

/-- A last byte: below 128 one byte is the whole varint. -/
theorem readVarint_last (k : ℕ) {n : ℕ} (h : n < 128) (rest : List UInt8) :
    readVarint (k + 1) (varintBytes (k + 1) n ++ rest) = some (n, rest) := by
  have hbyte : (UInt8.ofNat n).toNat = n := toNat_ofNat_of_lt_256 (by omega)
  rw [varintBytes, if_pos h, List.singleton_append, readVarint, hbyte, if_pos h]

/-- **The varint round trip.** -/
theorem readVarint_varintBytes (k n : ℕ) (h : n < 128 ^ (k + 1)) (rest : List UInt8) :
    readVarint (k + 1) (varintBytes (k + 1) n ++ rest) = some (n, rest) := by
  induction k generalizing n with
  | zero => exact readVarint_last 0 (by omega) rest
  | succ k ih =>
    by_cases hlt : n < 128
    · exact readVarint_last _ hlt rest
    · have hbyte : (UInt8.ofNat (n % 128 + 128)).toNat = n % 128 + 128 :=
        toNat_ofNat_of_lt_256 (by omega)
      have hdiv : n / 128 < 128 ^ (k + 1) := by
        rw [pow_succ] at h
        omega
      rw [varintBytes, if_neg hlt, List.cons_append, readVarint, hbyte, if_neg (by omega),
        ih _ hdiv, Option.map_some]
      congr 2
      omega

end GoFight.Lib
