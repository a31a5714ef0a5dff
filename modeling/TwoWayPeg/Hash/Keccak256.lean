import TwoWayPeg.Bytes.Fixed

/-!
The hash Keccak-256, with the padding byte 1 of the host chain.
-/

namespace TwoWayPeg

namespace Keccak256

/-- The state of the permutation: the lane of column `x` and row `y` is at `x + 5 * y`. -/
abbrev State := Vector UInt64 25

/-- The constants added to the first lane, one a round. -/
def roundConstants : List UInt64 :=
  [0x0000000000000001, 0x0000000000008082, 0x800000000000808a, 0x8000000080008000,
    0x000000000000808b, 0x0000000080000001, 0x8000000080008081, 0x8000000000008009,
    0x000000000000008a, 0x0000000000000088, 0x0000000080008009, 0x000000008000000a,
    0x000000008000808b, 0x800000000000008b, 0x8000000000008089, 0x8000000000008003,
    0x8000000000008002, 0x8000000000000080, 0x000000000000800a, 0x800000008000000a,
    0x8000000080008081, 0x8000000000008080, 0x0000000080000001, 0x8000000080008008]

/-- The rotation of each lane. -/
def rotations : Vector UInt64 25 :=
  #v[0, 1, 62, 28, 27,
    36, 44, 6, 55, 20,
    3, 10, 43, 25, 39,
    41, 45, 15, 21, 8,
    18, 2, 61, 56, 14]

/-- Rotation of a lane to the left. -/
def rotateLeft (x amount : UInt64) : UInt64 :=
  if amount = 0 then x else (x <<< amount) ||| (x >>> (64 - amount))

/-- The lane of a column and a row, both taken modulo five. -/
def lane (s : State) (x y : Nat) : UInt64 := s.get ⟨x % 5 + 5 * (y % 5), by omega⟩

/-- Adds to each lane the parities of two neighbouring columns. -/
def theta (s : State) : State :=
  let parity (x : Nat) : UInt64 :=
    lane s x 0 ^^^ lane s x 1 ^^^ lane s x 2 ^^^ lane s x 3 ^^^ lane s x 4
  let columns : Vector UInt64 5 := Vector.ofFn fun x =>
    parity (x.val + 4) ^^^ rotateLeft (parity (x.val + 1)) 1
  Vector.ofFn fun i => s[i] ^^^ columns[i.val % 5]

/-- Rotates each lane and moves the lane of column `x` and row `y` to column `y` and row
    `2 * x + 3 * y`. -/
def rhoPi (s : State) : State :=
  let turned : State := Vector.ofFn fun i => rotateLeft s[i] rotations[i]
  Vector.ofFn fun i => lane turned (i.val % 5 + 3 * (i.val / 5)) (i.val % 5)

/-- Adds to each lane a product of the two lanes beside it. -/
def chi (s : State) : State :=
  Vector.ofFn fun i =>
    let x := i.val % 5
    let y := i.val / 5
    s[i] ^^^ (~~~(lane s (x + 1) y) &&& lane s (x + 2) y)

/-- One round. -/
def round (s : State) (constant : UInt64) : State :=
  let t := chi (rhoPi (theta s))
  t.set 0 (t[0] ^^^ constant)

/-- The permutation of the state. -/
def permute (s : State) : State := roundConstants.foldl round s

/-- The number of bytes that one block adds to the state. -/
def rate : Nat := 136

/-- The message followed by the bytes that fill its last block. -/
def pad (message : Bytes) : Bytes :=
  let missing := rate - message.length % rate
  if missing = 1 then message ++ [0x81]
  else message ++ [0x01] ++ List.replicate (missing - 2) 0 ++ [0x80]

/-- The state after a block. -/
def absorb (s : State) (block : Bytes) : State :=
  let lanes := (block.pieces 8).map fun piece => UInt64.ofNat (Bytes.toNatLE piece)
  permute (Vector.ofFn fun i => s[i] ^^^ (lanes[i.val]?).getD 0)

end Keccak256

/-- The Keccak-256 hash of bytes. -/
def keccak256 (message : Bytes) : Hash256 :=
  let final := ((Keccak256.pad message).pieces Keccak256.rate).foldl Keccak256.absorb
    (Vector.replicate 25 0)
  ⟨(List.ofFn fun i : Fin 4 => Bytes.littleEndian 8 (final[i.val]).toNat).flatten, by
    simp [List.ofFn_succ]⟩

end TwoWayPeg
