import TwoWayPeg.Hash.Sha256

/-!
The hash RIPEMD-160, and RIPEMD-160 of SHA-256.
-/

namespace TwoWayPeg

namespace Ripemd160

/-- The five words of a hash in progress. -/
abbrev State := Vector UInt32 5

/-- The words of a hash before the first block. -/
def initial : State := #v[0x67452301, 0xefcdab89, 0x98badcfe, 0x10325476, 0xc3d2e1f0]

/-- The message word that each round of the left line takes. -/
def leftOrder : List Nat :=
  [0, 1, 2, 3, 4, 5, 6, 7, 8, 9, 10, 11, 12, 13, 14, 15,
    7, 4, 13, 1, 10, 6, 15, 3, 12, 0, 9, 5, 2, 14, 11, 8,
    3, 10, 14, 4, 9, 15, 8, 1, 2, 7, 0, 6, 13, 11, 5, 12,
    1, 9, 11, 10, 0, 8, 12, 4, 13, 3, 7, 15, 14, 5, 6, 2,
    4, 0, 5, 9, 7, 12, 2, 10, 14, 1, 3, 8, 11, 6, 15, 13]

/-- The message word that each round of the right line takes. -/
def rightOrder : List Nat :=
  [5, 14, 7, 0, 9, 2, 11, 4, 13, 6, 15, 8, 1, 10, 3, 12,
    6, 11, 3, 7, 0, 13, 5, 10, 14, 15, 8, 12, 4, 9, 1, 2,
    15, 5, 1, 3, 7, 14, 6, 9, 11, 8, 12, 2, 10, 0, 4, 13,
    8, 6, 4, 1, 3, 11, 15, 0, 5, 12, 2, 13, 9, 7, 10, 14,
    12, 15, 10, 4, 1, 5, 8, 7, 6, 2, 13, 14, 0, 3, 9, 11]

/-- The rotation of each round of the left line. -/
def leftShifts : List UInt32 :=
  [11, 14, 15, 12, 5, 8, 7, 9, 11, 13, 14, 15, 6, 7, 9, 8,
    7, 6, 8, 13, 11, 9, 7, 15, 7, 12, 15, 9, 11, 7, 13, 12,
    11, 13, 6, 7, 14, 9, 13, 15, 14, 8, 13, 6, 5, 12, 7, 5,
    11, 12, 14, 15, 14, 15, 9, 8, 9, 14, 5, 6, 8, 6, 5, 12,
    9, 15, 5, 11, 6, 8, 13, 12, 5, 12, 13, 14, 11, 8, 5, 6]

/-- The rotation of each round of the right line. -/
def rightShifts : List UInt32 :=
  [8, 9, 9, 11, 13, 15, 15, 5, 7, 7, 8, 11, 14, 14, 12, 6,
    9, 13, 15, 7, 12, 8, 9, 11, 7, 7, 12, 7, 6, 15, 13, 11,
    9, 7, 15, 11, 8, 6, 6, 14, 12, 13, 5, 14, 13, 13, 7, 5,
    15, 5, 8, 11, 14, 14, 6, 14, 6, 9, 12, 9, 12, 5, 15, 8,
    8, 5, 12, 9, 12, 5, 14, 6, 8, 13, 6, 5, 15, 13, 11, 11]

/-- The constants of the five groups of sixteen rounds, left line. -/
def leftConstants : List UInt32 := [0x00000000, 0x5a827999, 0x6ed9eba1, 0x8f1bbcdc, 0xa953fd4e]

/-- The constants of the five groups of sixteen rounds, right line. -/
def rightConstants : List UInt32 := [0x50a28be6, 0x5c4dd124, 0x6d703ef3, 0x7a6d76e9, 0x00000000]

/-- The mixing function of a group of rounds. -/
def mix (group : Nat) (x y z : UInt32) : UInt32 :=
  match group with
  | 0 => x ^^^ y ^^^ z
  | 1 => (x &&& y) ||| (~~~x &&& z)
  | 2 => (x ||| ~~~y) ^^^ z
  | 3 => (x &&& z) ||| (y &&& ~~~z)
  | _ => x ^^^ (y ||| ~~~z)

/-- Rotation of a word to the left. -/
def rotateLeft (x amount : UInt32) : UInt32 := (x <<< amount) ||| (x >>> (32 - amount))

/-- What one round of a line takes besides the state. -/
structure Round where
  group : Nat
  constant : UInt32
  word : UInt32
  shift : UInt32

/-- One round of a line. -/
def Round.apply (s : State) (r : Round) : State :=
  let t := rotateLeft (s[0] + mix r.group s[1] s[2] s[3] + r.word + r.constant) r.shift + s[4]
  #v[s[4], t, s[1], rotateLeft s[2] 10, s[3]]

/-- The message followed by one set bit, zeros, and its length in bits, so that it fills whole
    blocks of 64 bytes. -/
def pad (message : Bytes) : Bytes :=
  let zeros := (119 - message.length % 64) % 64
  message ++ [0x80] ++ List.replicate zeros 0 ++ Bytes.littleEndian 8 (8 * message.length)

/-- The words of a block, least significant byte first. -/
def words (block : Bytes) : List UInt32 :=
  (block.pieces 4).map fun piece => UInt32.ofNat (Bytes.toNatLE piece)

/-- The eighty rounds of a line; `groups` numbers the mixing functions in the order of use. -/
def line (block : List UInt32) (order : List Nat) (shifts constants : List UInt32)
    (groups : List Nat) : List Round :=
  let repeated {α : Type} (l : List α) : List α := l.flatMap (List.replicate 16)
  ((order.zip shifts).zip ((repeated constants).zip (repeated groups))).map
    fun ((index, shift), constant, group) =>
      { group, constant, shift, word := (block[index]?).getD 0 }

/-- The state after a block: both lines, added crosswise to the state before. -/
def compress (s : State) (block : Bytes) : State :=
  let w := words block
  let l := (line w leftOrder leftShifts leftConstants [0, 1, 2, 3, 4]).foldl Round.apply s
  let r := (line w rightOrder rightShifts rightConstants [4, 3, 2, 1, 0]).foldl Round.apply s
  #v[s[1] + l[2] + r[3], s[2] + l[3] + r[4], s[3] + l[4] + r[0], s[4] + l[0] + r[1],
    s[0] + l[1] + r[2]]

end Ripemd160

/-- The RIPEMD-160 hash of bytes. -/
def ripemd160 (message : Bytes) : Hash160 :=
  let final := ((Ripemd160.pad message).pieces 64).foldl Ripemd160.compress Ripemd160.initial
  ⟨(List.ofFn fun i : Fin 5 => Bytes.littleEndian 4 final[i].toNat).flatten, by
    simp [List.ofFn_succ]⟩

/-- RIPEMD-160 of the SHA-256 hash of bytes. -/
def hash160 (message : Bytes) : Hash160 := ripemd160 (sha256 message).toList

end TwoWayPeg
