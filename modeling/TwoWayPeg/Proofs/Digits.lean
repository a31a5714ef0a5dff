import Mathlib.Data.Nat.Digits.Lemmas
import TwoWayPeg.Bytes.Basic

/-!
# The bytes of a number

The bytes of a number are its digits to the base 256, so what the library says of digits holds of
them: a number that is written without zero bytes at its most significant end is read back, and
these are the only bytes that write it so.
-/

namespace TwoWayPeg

/-- The most significant digit of a number is not zero. -/
theorem getLast?_digits_ne (base n : Nat) : (Nat.digits base n).getLast? ≠ some 0 := by
  intro zero
  obtain ⟨nonempty, last⟩ := List.mem_getLast?_eq_getLast zero
  exact Nat.getLast_digit_ne_zero base (Nat.digits_ne_nil_iff_ne_zero.1 nonempty) last.symm

namespace Bytes

theorem toNatLE_eq_ofDigits (bytes : Bytes) :
    toNatLE bytes = Nat.ofDigits 256 (bytes.map UInt8.toNat) := by
  induction bytes with
  | nil => rfl
  | cons b rest ih => rw [toNatLE, ih, List.map_cons, Nat.ofDigits_cons]

theorem map_toNat_minimalLE (n : Nat) : (minimalLE n).map UInt8.toNat = Nat.digits 256 n := by
  fun_induction minimalLE n with
  | case1 => rw [List.map_nil, Nat.digits_zero]
  | case2 n positive ih =>
    rw [List.map_cons, ih, UInt8.toNat_ofNat', Nat.digits_eq_cons_digits_div (by decide) positive]

theorem toNat_lt_of_mem_map {bytes : Bytes} : ∀ d ∈ bytes.map UInt8.toNat, d < 256 := by
  intro d member
  obtain ⟨b, _, rfl⟩ := List.mem_map.1 member
  exact b.toNat_lt

theorem toNatLE_lt (bytes : Bytes) : toNatLE bytes < capacity bytes.length := by
  have below : Nat.ofDigits 256 (bytes.map UInt8.toNat) < 256 ^ (bytes.map UInt8.toNat).length :=
    Nat.ofDigits_lt_base_pow_length (by decide) toNat_lt_of_mem_map
  rwa [← toNatLE_eq_ofDigits, List.length_map] at below

theorem toNatBE_lt (bytes : Bytes) : toNatBE bytes < capacity bytes.length := by
  simpa [toNatBE] using toNatLE_lt bytes.reverse

@[simp] theorem toNatLE_minimalLE (n : Nat) : toNatLE (minimalLE n) = n := by
  rw [toNatLE_eq_ofDigits, map_toNat_minimalLE, Nat.ofDigits_digits]

@[simp] theorem toNatBE_minimalBE (n : Nat) : toNatBE (minimalBE n) = n := by
  simp [toNatBE, minimalBE]

theorem length_minimalBE (n : Nat) : (minimalBE n).length = (Nat.digits 256 n).length := by
  rw [minimalBE, List.length_reverse, ← map_toNat_minimalLE, List.length_map]

theorem length_minimalBE_le {width n : Nat} (below : n < capacity width) :
    (minimalBE n).length ≤ width := by
  rw [length_minimalBE]
  exact (Nat.digits_length_le_iff (by decide) n).2 below

theorem length_minimalBE_mono {m n : Nat} (le : m ≤ n) :
    (minimalBE m).length ≤ (minimalBE n).length := by
  rw [length_minimalBE, length_minimalBE]
  exact Nat.le_length_digits_le 256 m n le

/-- The bytes of a number do not start with zero. -/
theorem head?_minimalBE_ne (n : Nat) : (minimalBE n).head? ≠ some 0 := by
  rw [minimalBE, List.head?_reverse]
  intro zero
  have last := getLast?_digits_ne 256 n
  rw [← map_toNat_minimalLE, List.getLast?_map, zero] at last
  exact last rfl

theorem minimalLE_toNatLE {bytes : Bytes} (last : bytes.getLast? ≠ some 0) :
    minimalLE (toNatLE bytes) = bytes := by
  apply List.map_injective_iff.2 fun _ _ => UInt8.toNat_inj.1
  rw [map_toNat_minimalLE, toNatLE_eq_ofDigits]
  refine Nat.digits_ofDigits 256 (by decide) _ toNat_lt_of_mem_map fun nonempty zero => last ?_
  rw [List.getLast_map] at zero
  have top : bytes.getLast _ = 0 := UInt8.toNat_inj.1 zero
  rw [List.getLast?_eq_some_getLast (List.map_eq_nil_iff.not.1 nonempty), top]

/-- Bytes that do not start with zero are those of the number that they write. -/
theorem minimalBE_toNatBE {bytes : Bytes} (head : bytes.head? ≠ some 0) :
    minimalBE (toNatBE bytes) = bytes := by
  rw [minimalBE, toNatBE, minimalLE_toNatLE, List.reverse_reverse]
  rwa [List.getLast?_reverse]

/-- A byte more at the most significant end. -/
theorem toNatLE_concat (bytes : Bytes) (b : UInt8) :
    toNatLE (bytes ++ [b]) = toNatLE bytes + capacity bytes.length * b.toNat := by
  rw [toNatLE_eq_ofDigits, toNatLE_eq_ofDigits, List.map_append, Nat.ofDigits_append,
    List.length_map, List.map_singleton, Nat.ofDigits_singleton]
  rfl

/-- A zero byte at the end changes nothing. -/
theorem toNatLE_concat_zero (bytes : Bytes) : toNatLE (bytes ++ [0]) = toNatLE bytes := by
  simp [toNatLE_concat]

theorem toNatBE_cons (b : UInt8) (bytes : Bytes) :
    toNatBE (b :: bytes) = b.toNat * capacity bytes.length + toNatBE bytes := by
  rw [toNatBE, List.reverse_cons, toNatLE_concat, List.length_reverse, toNatBE, Nat.add_comm,
    Nat.mul_comm]

end Bytes

end TwoWayPeg
