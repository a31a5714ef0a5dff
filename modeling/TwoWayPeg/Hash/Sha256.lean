import TwoWayPeg.Bytes.Fixed

/-!
The hash SHA-256, and SHA-256 applied twice.
-/

namespace TwoWayPeg.Sha256

/-- The eight words of a hash in progress. -/
abbrev State := Vector UInt32 8

/-- The first 32 bits of the fractional parts of the cube roots of the first 64 primes. -/
def roundConstants : List UInt32 :=
  [
    0x428a2f98, 0x71374491, 0xb5c0fbcf, 0xe9b5dba5, 0x3956c25b, 0x59f111f1, 0x923f82a4, 0xab1c5ed5,
    0xd807aa98, 0x12835b01, 0x243185be, 0x550c7dc3, 0x72be5d74, 0x80deb1fe, 0x9bdc06a7, 0xc19bf174,
    0xe49b69c1, 0xefbe4786, 0x0fc19dc6, 0x240ca1cc, 0x2de92c6f, 0x4a7484aa, 0x5cb0a9dc, 0x76f988da,
    0x983e5152, 0xa831c66d, 0xb00327c8, 0xbf597fc7, 0xc6e00bf3, 0xd5a79147, 0x06ca6351, 0x14292967,
    0x27b70a85, 0x2e1b2138, 0x4d2c6dfc, 0x53380d13, 0x650a7354, 0x766a0abb, 0x81c2c92e, 0x92722c85,
    0xa2bfe8a1, 0xa81a664b, 0xc24b8b70, 0xc76c51a3, 0xd192e819, 0xd6990624, 0xf40e3585, 0x106aa070,
    0x19a4c116, 0x1e376c08, 0x2748774c, 0x34b0bcb5, 0x391c0cb3, 0x4ed8aa4a, 0x5b9cca4f, 0x682e6ff3,
    0x748f82ee, 0x78a5636f, 0x84c87814, 0x8cc70208, 0x90befffa, 0xa4506ceb, 0xbef9a3f7, 0xc67178f2]

/-- The first 32 bits of the fractional parts of the square roots of the first eight primes. -/
def initial : State :=
  #v[
    0x6a09e667, 0xbb67ae85, 0x3c6ef372, 0xa54ff53a, 0x510e527f, 0x9b05688c, 0x1f83d9ab, 0x5be0cd19]

/-- Rotation of a word to the right. -/
def rotateRight (x : UInt32) (amount : UInt32) : UInt32 := (x >>> amount) ||| (x <<< (32 - amount))

/-- The word that mixes the schedule word fifteen back. -/
def smallSigma0 (x : UInt32) : UInt32 := rotateRight x 7 ^^^ rotateRight x 18 ^^^ (x >>> 3)

/-- The word that mixes the schedule word two back. -/
def smallSigma1 (x : UInt32) : UInt32 := rotateRight x 17 ^^^ rotateRight x 19 ^^^ (x >>> 10)

/-- The word that mixes the first word of the state. -/
def bigSigma0 (x : UInt32) : UInt32 := rotateRight x 2 ^^^ rotateRight x 13 ^^^ rotateRight x 22

/-- The word that mixes the fifth word of the state. -/
def bigSigma1 (x : UInt32) : UInt32 := rotateRight x 6 ^^^ rotateRight x 11 ^^^ rotateRight x 25

/-- The message followed by one set bit, zeros, and its length in bits, so that it fills whole
    blocks of 64 bytes. -/
def pad (message : Bytes) : Bytes :=
  let zeros := (119 - message.length % 64) % 64
  message ++ [0x80] ++ List.replicate zeros 0 ++ Bytes.bigEndian 8 (8 * message.length)

/-- The words of a block, most significant byte first. -/
def words (block : Bytes) : List UInt32 :=
  (block.pieces 4).map fun piece => UInt32.ofNat (Bytes.toNatBE piece)

/-- The schedule grown by `count` words. It is kept latest word first. -/
def extend : Nat → List UInt32 → List UInt32
  | 0, schedule => schedule
  | count + 1, schedule =>
    let back (k : Nat) : UInt32 := (schedule[k - 1]?).getD 0
    extend count
      ((smallSigma1 (back 2) + back 7 + smallSigma0 (back 15) + back 16) :: schedule)

/-- The 64 words that the rounds of a block use. -/
def schedule (block : Bytes) : List UInt32 := (extend 48 (words block).reverse).reverse

/-- One round. -/
def round (s : State) (constant word : UInt32) : State :=
  let choice := (s[4] &&& s[5]) ^^^ (~~~s[4] &&& s[6])
  let majority := (s[0] &&& s[1]) ^^^ (s[0] &&& s[2]) ^^^ (s[1] &&& s[2])
  let t1 := s[7] + bigSigma1 s[4] + choice + constant + word
  let t2 := bigSigma0 s[0] + majority
  #v[t1 + t2, s[0], s[1], s[2], s[3] + t1, s[4], s[5], s[6]]

/-- The state after a block: the rounds, added to the state before. -/
def compress (s : State) (block : Bytes) : State :=
  let mixed := (roundConstants.zip (schedule block)).foldl (fun t kw => round t kw.1 kw.2) s
  Vector.zipWith (· + ·) s mixed

end Sha256

/-- The SHA-256 hash of bytes. -/
def sha256 (message : Bytes) : Hash256 :=
  let final := ((Sha256.pad message).pieces 64).foldl Sha256.compress Sha256.initial
  ⟨(List.ofFn fun i : Fin 8 => Bytes.bigEndian 4 final[i].toNat).flatten, by
    simp [List.ofFn_succ]⟩

/-- SHA-256 of the SHA-256 hash of bytes. -/
def doubleSha256 (message : Bytes) : Hash256 := sha256 (sha256 message).toList

end TwoWayPeg
