import TwoWayPeg.Hash.Sha256

/-!
Bytes as text in base 58, and with a checksum of four bytes.
-/

namespace TwoWayPeg.Base58

/-- The digits, in the order of their values: letters and numbers without those easily confused. -/
def alphabet : List Char :=
  "123456789ABCDEFGHJKLMNPQRSTUVWXYZabcdefghijkmnopqrstuvwxyz".toList

/-- The digit with a value below 58. -/
def digit (value : Nat) : Char := (alphabet[value]?).getD '1'

/-- The value of a digit. -/
def value? (c : Char) : Option Nat := alphabet.idxOf? c

/-- The values of the digits of a number, least significant first. -/
def digitsOf (n : Nat) : List Nat :=
  if n = 0 then [] else n % 58 :: digitsOf (n / 58)
termination_by n
decreasing_by omega

/-- The number whose digits, least significant first, are given. -/
def ofDigits : List Nat → Nat
  | [] => 0
  | d :: rest => d + 58 * ofDigits rest

/-- The characters of bytes: one `1` for each zero byte in front, then the digits of the number
    that the bytes write. -/
def encodeChars (bytes : Bytes) : List Char :=
  List.replicate (bytes.takeWhile (· == 0)).length '1'
    ++ ((digitsOf (Bytes.toNatBE bytes)).map digit).reverse

/-- The bytes that characters write, if all are digits. -/
def decodeChars? (cs : List Char) : Option Bytes := do
  let values ← cs.mapM value?
  return List.replicate (cs.takeWhile (· == '1')).length 0
    ++ Bytes.minimalBE (ofDigits values.reverse)

/-- The first four bytes of the double hash of bytes. -/
def checksum (bytes : Bytes) : Bytes := (doubleSha256 bytes).toList.take 4

/-- The characters of bytes followed by their checksum. -/
def encodeCheckedChars (bytes : Bytes) : List Char := encodeChars (bytes ++ checksum bytes)

/-- The bytes that characters write before a checksum that fits them. -/
def decodeCheckedChars? (cs : List Char) : Option Bytes := do
  let bytes ← decodeChars? cs
  let body := bytes.take (bytes.length - 4)
  if 4 ≤ bytes.length ∧ bytes.drop (bytes.length - 4) = checksum body then return body else none

end TwoWayPeg.Base58
