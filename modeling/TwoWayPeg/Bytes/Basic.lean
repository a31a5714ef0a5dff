/-!
Byte strings, the numbers that they write, and their hexadecimal text.
-/

namespace TwoWayPeg

/-- A string of bytes. -/
abbrev Bytes := List UInt8

namespace Bytes

/-- The `width` low bytes of a number, least significant first. -/
def littleEndian : Nat → Nat → Bytes
  | 0, _ => []
  | width + 1, n => UInt8.ofNat n :: littleEndian width (n / 256)

/-- The number that bytes write, least significant first. -/
def toNatLE : Bytes → Nat
  | [] => 0
  | b :: rest => b.toNat + 256 * toNatLE rest

/-- The `width` low bytes of a number, most significant first. -/
def bigEndian (width n : Nat) : Bytes := (littleEndian width n).reverse

/-- The number that bytes write, most significant first. -/
def toNatBE (bytes : Bytes) : Nat := toNatLE bytes.reverse

/-- How many byte strings of a length there are. -/
def capacity (width : Nat) : Nat := Nat.pow 256 width

/-- The bytes of a number, least significant first, with no zero byte at the end. -/
def minimalLE (n : Nat) : Bytes :=
  if n = 0 then [] else UInt8.ofNat n :: minimalLE (n / 256)
termination_by n
decreasing_by omega

/-- The bytes of a number, most significant first, with no zero byte in front. -/
def minimalBE (n : Nat) : Bytes := (minimalLE n).reverse

@[simp] theorem length_littleEndian (width n : Nat) : (littleEndian width n).length = width := by
  induction width generalizing n with
  | zero => rfl
  | succ width ih => simp [littleEndian, ih]

@[simp] theorem length_bigEndian (width n : Nat) : (bigEndian width n).length = width := by
  simp [bigEndian]

theorem capacity_succ (width : Nat) : capacity (width + 1) = 256 * capacity width := Nat.pow_succ'

/-- Reading the low bytes of a number back gives the number modulo their range. -/
@[simp] theorem toNatLE_littleEndian (width n : Nat) :
    toNatLE (littleEndian width n) = n % capacity width := by
  induction width generalizing n with
  | zero => simp [littleEndian, toNatLE, capacity, Nat.mod_one]
  | succ width ih => rw [littleEndian, toNatLE, ih, UInt8.toNat_ofNat', capacity_succ, Nat.mod_mul]

@[simp] theorem toNatBE_bigEndian (width n : Nat) :
    toNatBE (bigEndian width n) = n % capacity width := by
  simp [toNatBE, bigEndian]

/-- Bytes are the low bytes of the number that they write. -/
theorem littleEndian_toNatLE (bytes : Bytes) :
    littleEndian bytes.length (toNatLE bytes) = bytes := by
  induction bytes with
  | nil => rfl
  | cons b rest ih =>
    have := b.toNat_lt
    have quotient : (b.toNat + 256 * toNatLE rest) / 256 = toNatLE rest := by omega
    have head : UInt8.ofNat (b.toNat + 256 * toNatLE rest) = b := by
      apply UInt8.toNat_inj.1
      rw [UInt8.toNat_ofNat']
      omega
    rw [List.length_cons, littleEndian, toNatLE, quotient, ih, head]

theorem bigEndian_toNatBE (bytes : Bytes) :
    bigEndian bytes.length (toNatBE bytes) = bytes := by
  have := littleEndian_toNatLE bytes.reverse
  rw [List.length_reverse] at this
  rw [bigEndian, toNatBE, this, List.reverse_reverse]

/-- The value of a hexadecimal digit of either case. -/
def hexValue? (c : Char) : Option Nat :=
  if '0' ≤ c ∧ c ≤ '9' then some (c.toNat - '0'.toNat)
  else if 'a' ≤ c ∧ c ≤ 'f' then some (c.toNat - 'a'.toNat + 10)
  else if 'A' ≤ c ∧ c ≤ 'F' then some (c.toNat - 'A'.toNat + 10)
  else none

/-- The two lower-case hexadecimal digits of a byte. -/
def hexDigits (b : UInt8) : List Char :=
  [Nat.digitChar (b.toNat / 16), Nat.digitChar (b.toNat % 16)]

/-- The hexadecimal text of bytes, in lower case. -/
def toHex (bytes : Bytes) : String := String.ofList (bytes.flatMap hexDigits)

/-- The bytes that pairs of hexadecimal digits write. -/
def ofHexChars? : List Char → Option Bytes
  | [] => some []
  | [_] => none
  | high :: low :: rest => do
    let h ← hexValue? high
    let l ← hexValue? low
    let bytes ← ofHexChars? rest
    return UInt8.ofNat (16 * h + l) :: bytes

/-- The bytes that a hexadecimal text writes; digits of either case are read. -/
def ofHex? (text : String) : Option Bytes := ofHexChars? text.toList

/-- The UTF-8 bytes of a text. -/
def ofText (text : String) : Bytes := text.toUTF8.data.toList

/-- The text whose UTF-8 bytes are given, if they are UTF-8. -/
def toText? (bytes : Bytes) : Option String := String.fromUTF8? ⟨⟨bytes⟩⟩

/-- Bytes cut into pieces of `size` bytes; the last one may be shorter. `fuel` bounds the number
    of pieces. -/
def piecesUpTo (size : Nat) : Nat → Bytes → List Bytes
  | 0, _ => []
  | _ + 1, [] => []
  | fuel + 1, bytes => bytes.take size :: piecesUpTo size fuel (bytes.drop size)

/-- Bytes cut into pieces of `size` bytes; the last one may be shorter. -/
def pieces (size : Nat) (bytes : Bytes) : List Bytes := piecesUpTo size bytes.length bytes

end Bytes

end TwoWayPeg
