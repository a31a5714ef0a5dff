import TwoWayPeg.Bytes.Fixed

/-!
Writing byte strings, numbers and lists in the recursive length-prefix format: an item is a header
that tells its kind and length, and a payload. A byte below 128 is an item by itself.
-/

namespace TwoWayPeg.Rlp

/-- The header of a payload of `length` bytes; `short` is the header of an empty payload of its
    kind. A length above 55 is written after a byte that tells how many bytes it takes. -/
def header (short : Nat) (length : Nat) : Bytes :=
  if length ≤ 55 then [UInt8.ofNat (short + length)]
  else
    let size := Bytes.minimalBE length
    UInt8.ofNat (short + 55 + size.length) :: size

/-- The item of a byte string. -/
def encodeBytes (bytes : Bytes) : Bytes :=
  match bytes with
  | [b] => if b < 0x80 then [b] else header 0x80 1 ++ [b]
  | _ => header 0x80 bytes.length ++ bytes

/-- The item of a number: its bytes without zeros in front. -/
def encodeNat (n : Nat) : Bytes := encodeBytes (Bytes.minimalBE n)

/-- The item of a list of items. -/
def encodeList (items : List Bytes) : Bytes :=
  header 0xc0 items.flatten.length ++ items.flatten

end TwoWayPeg.Rlp
