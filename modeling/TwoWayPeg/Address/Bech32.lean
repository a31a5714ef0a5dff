import TwoWayPeg.Bytes.Basic

/-!
Text of five-bit groups after a human-readable part, with a checksum of six groups that comes in
two variants.
-/

namespace TwoWayPeg.Bech32

/-- The two variants of the checksum. -/
inductive Variant where
  | bech32
  | bech32m
deriving DecidableEq, Inhabited

/-- The name of a variant. -/
def Variant.name : Variant → String
  | .bech32 => "Bech32"
  | .bech32m => "Bech32m"

/-- The remainder that a text of a variant leaves. -/
def Variant.residue : Variant → Nat
  | .bech32 => 1
  | .bech32m => 0x2bc830a3

/-- The characters of the groups, in the order of their values. -/
def alphabet : List Char := "qpzry9x8gf2tvdw0s3jn54khce6mua7l".toList

/-- The character of a group. -/
def digit (value : Nat) : Char := (alphabet[value]?).getD 'q'

/-- The group of a lower-case character. -/
def value? (c : Char) : Option Nat := alphabet.idxOf? c

/-- The generators of the checksum, for the five high bits of a remainder. -/
def generators : List Nat := [0x3b6a57b2, 0x26508e6d, 0x1ea119fa, 0x3d4233dd, 0x2a1462b3]

/-- The remainder after one more group. -/
def step (residue value : Nat) : Nat :=
  let top := residue >>> 25
  let shifted := (residue &&& 0x1ffffff) <<< 5 ^^^ value
  (generators.zipIdx).foldl (fun r (g, i) => if top.testBit i then r ^^^ g else r) shifted

/-- The remainder of a list of groups. -/
def residueOf (values : List Nat) : Nat := values.foldl step 1

/-- The groups that a human-readable part puts in front. -/
def expand (hrp : List Char) : List Nat :=
  hrp.map (·.toNat / 32) ++ 0 :: hrp.map (·.toNat % 32)

/-- The six groups that make the remainder that of a variant. -/
def checksum (variant : Variant) (hrp : List Char) (values : List Nat) : List Nat :=
  let residue := residueOf (expand hrp ++ values ++ [0, 0, 0, 0, 0, 0]) ^^^ variant.residue
  [5, 4, 3, 2, 1, 0].map fun i => residue >>> (5 * i) % 32

/-- The text of groups after a human-readable part in lower case. -/
def encodeChars (variant : Variant) (hrp : List Char) (values : List Nat) : List Char :=
  hrp ++ '1' :: (values ++ checksum variant hrp values).map digit

/-- The variant of the checksum at the end of groups. -/
def variant? (hrp : List Char) (values : List Nat) : Option Variant :=
  let residue := residueOf (expand hrp ++ values)
  if residue = Variant.bech32.residue then some .bech32
  else if residue = Variant.bech32m.residue then some .bech32m
  else none

/-- Whether characters mix letters of both cases. -/
def mixesCase (cs : List Char) : Bool := cs.any Char.isUpper && cs.any Char.isLower

/-- The groups before the checksum and the variant of the checksum, of a human-readable part and
    the characters after its separator. -/
def decodeChars? (hrp data : List Char) : Option (List Nat × Variant) := do
  if mixesCase (hrp ++ data) then none else
    let values ← data.mapM fun c => value? c.toLower
    if values.length < 6 then none else
      let variant ← variant? (hrp.map Char.toLower) values
      return (values.take (values.length - 6), variant)

/-- The number that groups of `base` values write, most significant first. -/
def ofGroups (base : Nat) (groups : List Nat) : Nat := groups.foldl (fun n g => n * base + g) 0

/-- Bytes cut into groups of five bits, with zero bits added to fill the last one. -/
def groupsOf (bytes : Bytes) : List Nat :=
  let count := (8 * bytes.length + 4) / 5
  let n := Bytes.toNatBE bytes <<< (5 * count - 8 * bytes.length)
  (List.range count).map fun i => n >>> (5 * (count - 1 - i)) % 32

/-- The bytes whose groups of five bits are given: fewer than five bits are left over, and they
    are zero. -/
def bytesOf? (groups : List Nat) : Option Bytes :=
  let bits := 5 * groups.length
  let excess := bits % 8
  let n := ofGroups 32 groups
  if excess < 5 ∧ n % 1 <<< excess = 0 then some (Bytes.bigEndian (bits / 8) (n >>> excess))
  else none

end TwoWayPeg.Bech32
