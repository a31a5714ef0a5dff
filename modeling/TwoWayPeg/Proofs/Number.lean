import TwoWayPeg.Proofs.Digits
import TwoWayPeg.Script.Basic

/-!
# Numbers in scripts

A script writes a small number by an opcode of its own and pushes the bytes of any other, with the
sign in the highest bit of the last one. `value?` is the number that an instruction puts on the
stack, and it is the number that was written.
-/

namespace TwoWayPeg

namespace Instruction

/-- The number that bytes on the stack stand for. The highest bit of the last byte is its sign. -/
def numberOf (bytes : Bytes) : Int :=
  match bytes.getLast? with
  | none => 0
  | some last =>
    let magnitude := Bytes.toNatLE (bytes.dropLast ++ [last % 0x80])
    if last < 0x80 then magnitude else -magnitude

/-- The number that an instruction puts on the stack. -/
def value? : Instruction → Option Int
  | .push data => some (numberOf data)
  | .op code =>
    if code = 0x4f then some (-1)
    else if 0x51 ≤ code ∧ code ≤ 0x60 then some (code.toNat - 0x50)
    else none

theorem numberOf_concat (bytes : Bytes) (last : UInt8) : numberOf (bytes ++ [last]) =
    if last < 0x80 then ↑(Bytes.toNatLE (bytes ++ [last % 0x80]))
    else -↑(Bytes.toNatLE (bytes ++ [last % 0x80])) := by
  simp [numberOf]

theorem mod_of_low {b : UInt8} (low : b < 0x80) : b % 0x80 = b := by
  rw [UInt8.lt_iff_toNat_lt] at low
  rw [← UInt8.toNat_inj, UInt8.toNat_mod]
  exact Nat.mod_eq_of_lt low

/-- The highest bit of a byte is set without a change of the others. -/
theorem mod_of_signed {b : UInt8} (low : b < 0x80) :
    (b ||| 0x80) % 0x80 = b ∧ ¬ b ||| 0x80 < 0x80 := by
  rw [UInt8.lt_iff_toNat_lt] at low ⊢
  rw [← UInt8.toNat_inj, UInt8.toNat_mod, UInt8.toNat_or]
  have low : b.toNat < 2 ^ 7 := low
  have sum : b.toNat ||| 128 = 2 ^ 7 * 1 + b.toNat := by
    rw [Nat.or_comm]
    exact (Nat.two_pow_add_eq_or_of_lt low 1).symm
  constructor
  · show (b.toNat ||| 128) % 128 = b.toNat
    omega
  · show ¬ b.toNat ||| 128 < 128
    omega

@[simp] theorem numberOf_numberBytes (n : Int) : numberOf (numberBytes n) = n := by
  have value := Bytes.toNatLE_minimalLE n.natAbs
  unfold numberBytes
  dsimp only
  cases last : (Bytes.minimalLE n.natAbs).getLast? with
  | none =>
    rw [List.getLast?_eq_none_iff.1 last] at value
    exact (Int.natAbs_eq_zero.1 value.symm).symm
  | some b =>
    obtain ⟨front, digits⟩ := List.getLast?_eq_some_iff.1 last
    rw [digits] at value ⊢
    dsimp only
    by_cases low : b < 0x80
    · -- The sign goes into the last byte of the absolute value.
      rw [if_pos low, List.dropLast_concat, numberOf_concat]
      by_cases negative : n < 0
      · obtain ⟨same, high⟩ := mod_of_signed low
        rw [if_pos negative, if_neg high, same, value]
        omega
      · rw [if_neg negative, UInt8.or_zero, if_pos low, mod_of_low low, value]
        omega
    · -- The highest bit is taken, and the sign is a byte of its own.
      rw [if_neg low, numberOf_concat]
      by_cases negative : n < 0
      · rw [if_pos negative, if_neg (by decide), show (0x80 : UInt8) % 0x80 = 0 from rfl,
          Bytes.toNatLE_concat_zero, value]
        omega
      · rw [if_neg negative, if_pos (by decide), show (0 : UInt8) % 0x80 = 0 from rfl,
          Bytes.toNatLE_concat_zero, value]
        omega

/-- The opcode of a small number. -/
theorem toNat_smallNumber {n : Int} (small : 1 ≤ n ∧ n ≤ 16) :
    (UInt8.ofNat (0x50 + n.toNat)).toNat = 0x50 + n.toNat := by
  rw [UInt8.toNat_ofNat', Nat.mod_eq_of_lt (by omega)]

@[simp] theorem value?_number (n : Int) : (number n).value? = some n := by
  unfold number
  split
  · next zero =>
    rw [zero]
    rfl
  split
  · next negative =>
    rw [negative]
    rfl
  split
  · next small =>
    have code := toNat_smallNumber small
    have other : UInt8.ofNat (0x50 + n.toNat) ≠ 0x4f := by
      rw [Ne, ← UInt8.toNat_inj, code]
      show 0x50 + n.toNat ≠ 0x4f
      omega
    have range : 0x51 ≤ UInt8.ofNat (0x50 + n.toNat) ∧ UInt8.ofNat (0x50 + n.toNat) ≤ 0x60 := by
      rw [UInt8.le_iff_toNat_le, UInt8.le_iff_toNat_le, code]
      exact ⟨show 0x51 ≤ 0x50 + n.toNat by omega, show 0x50 + n.toNat ≤ 0x60 by omega⟩
    rw [value?, if_neg other, if_pos range, code]
    congr 1
    omega
  · rw [value?, numberOf_numberBytes]

end Instruction

end TwoWayPeg
