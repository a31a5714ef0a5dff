import TwoWayPeg.Address.Base58
import TwoWayPeg.Proofs.Computation
import TwoWayPeg.Proofs.Digits

/-!
# Base 58

Bytes that were written in base 58 are read back: the digits, which are those that the library gives
a number, give the number that the bytes write, and the characters `1` in front, which are digits
with the value zero, give the zero bytes in front of it. The character that a text begins with is
told by the range of the number.
-/

namespace TwoWayPeg.Base58

/-- Each digit is read as its value. -/
theorem value?_digit {v : Nat} (below : v < 58) : value? (digit v) = some v := by
  have each : ∀ v < 58, value? (digit v) = some v := by decide +kernel
  exact each v below

/-- Just the digit with the value zero is written `1`. -/
theorem digit_eq_one_iff {v : Nat} (below : v < 58) : digit v = '1' ↔ v = 0 := by
  constructor
  · intro same
    have zero : value? (digit v) = value? (digit 0) := congrArg value? same
    rw [value?_digit below, value?_digit (by decide)] at zero
    exact Option.some.inj zero
  · rintro rfl
    rfl

theorem digitsOf_eq_digits (n : Nat) : digitsOf n = Nat.digits 58 n := by
  fun_induction digitsOf n with
  | case1 => rw [Nat.digits_zero]
  | case2 n positive ih => rw [ih, Nat.digits_eq_cons_digits_div (by decide) positive]

theorem ofDigits_eq_ofDigits (digits : List Nat) : ofDigits digits = Nat.ofDigits 58 digits := by
  induction digits with
  | nil => rfl
  | cons d rest ih => rw [ofDigits, ih, Nat.ofDigits_cons]

/-- The range of a number tells its most significant digit and how many digits follow. -/
theorem digitsOf_eq_concat {n d count : Nat} (positive : 0 < d) (digit : d < 58)
    (low : d * 58 ^ count ≤ n) (high : n < (d + 1) * 58 ^ count) :
    ∃ rest, digitsOf n = rest ++ [d] ∧ rest.length = count := by
  induction count generalizing n with
  | zero =>
    have same : n = d := by omega
    have zero : d / 58 = 0 := Nat.div_eq_of_lt digit
    refine ⟨[], ?_, rfl⟩
    rw [same, digitsOf, if_neg (by omega), zero, digitsOf, if_pos rfl, Nat.mod_eq_of_lt digit]
    rfl
  | succ count ih =>
    rw [Nat.pow_succ, ← Nat.mul_assoc] at low high
    have power : 0 < 58 ^ count := Nat.pow_pos (by decide)
    have : 0 < d * 58 ^ count := Nat.mul_pos positive power
    obtain ⟨rest, digits, length⟩ := ih (n := n / 58) (by omega) (by omega)
    refine ⟨n % 58 :: rest, ?_, congrArg Nat.succ length⟩
    rw [digitsOf, if_neg (by omega), digits, List.cons_append]

/-- The characters before the digits of a number are those that stand for zero bytes. -/
theorem takeWhile_encodeChars (bytes : Bytes) :
    (encodeChars bytes).takeWhile (· == '1') =
      List.replicate (bytes.takeWhile (· == 0)).length '1' := by
  have none : ((digitsOf (Bytes.toNatBE bytes)).map digit).reverse.takeWhile (· == '1') = [] := by
    rw [digitsOf_eq_digits]
    rcases List.eq_nil_or_concat (Nat.digits 58 (Bytes.toNatBE bytes)) with empty | ⟨rest, d, digits⟩
    · rw [empty]
      rfl
    · have last := getLast?_digits_ne 58 (Bytes.toNatBE bytes)
      have below : d < 58 :=
        Nat.digits_lt_base (m := Bytes.toNatBE bytes) (by decide) (by simp [digits])
      have other : digit d ≠ '1' := by
        rw [Ne, digit_eq_one_iff below]
        simpa [digits] using last
      rw [digits, List.concat_eq_append, List.map_append, List.reverse_append]
      exact List.takeWhile_cons_of_neg (by simpa using other)
  rw [encodeChars, List.takeWhile_append_of_pos (by simp), none, List.append_nil]

/-- The zero bytes in front and the number make the bytes. -/
theorem zeros_append_minimalBE (bytes : Bytes) :
    List.replicate (bytes.takeWhile (· == 0)).length 0 ++ Bytes.minimalBE (Bytes.toNatBE bytes) =
      bytes := by
  induction bytes with
  | nil =>
    rw [Bytes.minimalBE, Bytes.toNatBE, List.reverse_nil, Bytes.toNatLE, Bytes.minimalLE]
    rfl
  | cons b rest ih =>
    by_cases zero : b = 0
    · have number : Bytes.toNatBE (0 :: rest) = Bytes.toNatBE rest := by
        simp [Bytes.toNatBE_cons]
      rw [zero, number, List.takeWhile_cons_of_pos (by rfl), List.length_cons, List.replicate_succ,
        List.cons_append, ih]
    · rw [List.takeWhile_cons_of_neg (by simpa using zero),
        Bytes.minimalBE_toNatBE (by simpa using zero)]
      rfl

theorem decodeChars?_encodeChars (bytes : Bytes) :
    decodeChars? (encodeChars bytes) = some bytes := by
  have digits : (encodeChars bytes).mapM value? =
      some (List.replicate (bytes.takeWhile (· == 0)).length 0
        ++ (digitsOf (Bytes.toNatBE bytes)).reverse) := by
    have written : encodeChars bytes = (List.replicate (bytes.takeWhile (· == 0)).length 0
        ++ (digitsOf (Bytes.toNatBE bytes)).reverse).map digit := by
      rw [encodeChars, List.map_append, List.map_replicate, List.map_reverse]
      rfl
    rw [written]
    refine mapM_map_eq_some fun v member => value?_digit ?_
    rcases List.mem_append.1 member with zero | digit
    · rw [(List.mem_replicate.1 zero).2]
      decide
    · rw [digitsOf_eq_digits, List.mem_reverse] at digit
      exact Nat.digits_lt_base (by decide) digit
  rw [decodeChars?, digits, takeWhile_encodeChars, List.length_replicate]
  show some _ = _
  rw [List.reverse_append, List.reverse_reverse, List.reverse_replicate, ofDigits_eq_ofDigits,
    Nat.ofDigits_append_replicate_zero, digitsOf_eq_digits, Nat.ofDigits_digits,
    zeros_append_minimalBE]

theorem length_checksum (bytes : Bytes) : (checksum bytes).length = 4 := by
  simp [checksum, FixedBytes.length_eq]

theorem decodeCheckedChars?_encodeCheckedChars (bytes : Bytes) :
    decodeCheckedChars? (encodeCheckedChars bytes) = some bytes := by
  have size : (bytes ++ checksum bytes).length = bytes.length + 4 := by
    rw [List.length_append, length_checksum]
  have rest : (bytes ++ checksum bytes).length - 4 = bytes.length := by omega
  rw [decodeCheckedChars?, encodeCheckedChars, decodeChars?_encodeChars]
  show (if _ then _ else _) = _
  rw [rest, List.take_left, List.drop_left, if_pos ⟨by omega, rfl⟩]
  rfl

end TwoWayPeg.Base58
