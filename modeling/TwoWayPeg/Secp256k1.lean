import TwoWayPeg.Hash.Keccak256

/-!
Points of the curve secp256k1 as public keys, with the byte forms in which they are exchanged.
-/

namespace TwoWayPeg

namespace Secp256k1

/-- The order of the field of coordinates. -/
def fieldOrder : Nat :=
  0xfffffffffffffffffffffffffffffffffffffffffffffffffffffffefffffc2f

/-- The power of a base modulo `m`; of the exponent the low `bits` bits count. -/
def powMod (m : Nat) : Nat → Nat → Nat → Nat
  | 0, _, _ => 1 % m
  | bits + 1, base, exponent =>
    let rest := powMod m bits (base * base % m) (exponent / 2)
    if exponent % 2 = 1 then base * rest % m else rest

/-- A root of `x ^ 3 + 7`: a second coordinate of the points whose first one is `x`, if `x` is a
    coordinate and there are such points. A square has the root that the power
    `(fieldOrder + 1) / 4` gives, since the order is 3 modulo 4. -/
def root? (x : Nat) : Option Nat :=
  if x < fieldOrder then
    let square := (x * x * x + 7) % fieldOrder
    let root := powMod fieldOrder 256 square ((fieldOrder + 1) / 4)
    if root * root % fieldOrder = square then some root else none
  else none

theorem lt_of_root? {x : Nat} (h : (root? x).isSome) : x < fieldOrder := by
  unfold root? at h
  split at h
  · assumption
  · simp at h

end Secp256k1

open Secp256k1

/-- A public key: a point of the curve other than the one at infinity, given by its first
    coordinate and the parity of its second one. -/
structure PublicKey where
  x : Nat
  odd : Bool
  onCurve : (root? x).isSome
deriving DecidableEq

namespace PublicKey

/-- The second coordinate of a key: of the two roots the one with the right parity. -/
def y (key : PublicKey) : Nat :=
  let root := (root? key.x).get key.onCurve
  if (root % 2 == 1) = key.odd then root else fieldOrder - root

/-- The 33 bytes of a key: the parity of the second coordinate, then the first coordinate. -/
def compressed (key : PublicKey) : Bytes :=
  (if key.odd then 0x03 else 0x02) :: Bytes.bigEndian 32 key.x

@[simp] theorem length_compressed (key : PublicKey) : key.compressed.length = 33 := by
  simp [compressed]

/-- The key with a first coordinate and a parity. -/
def ofX? (x : Nat) (odd : Bool) : Option PublicKey :=
  if h : (root? x).isSome then some ⟨x, odd, h⟩ else none

/-- The key with two coordinates. -/
def ofXY? (x y : Nat) : Option PublicKey := do
  let key ← ofX? x (y % 2 == 1)
  if y < fieldOrder ∧ key.y = y then some key else none

/-- Reads a key: the byte 2 or 3 and the first coordinate, or the byte 4 and both coordinates, or
    the byte 6 or 7, which repeats the parity of the second coordinate, and both. -/
def ofBytes? : Bytes → Option PublicKey
  | form :: rest =>
    if rest.length = 32 then
      if form = 0x02 then ofX? (Bytes.toNatBE rest) false
      else if form = 0x03 then ofX? (Bytes.toNatBE rest) true
      else none
    else if rest.length = 64 then
      let key := ofXY? (Bytes.toNatBE (rest.take 32)) (Bytes.toNatBE (rest.drop 32))
      if form = 0x04 then key
      else if form = 0x06 then key.filter (!·.odd)
      else if form = 0x07 then key.filter (·.odd)
      else none
    else none
  | [] => none

/-- Reads a key written in hexadecimal digits. -/
def ofHex? (text : String) : Option PublicKey := (Bytes.ofHex? text).bind ofBytes?

/-- The hexadecimal text of a key in its 33-byte form. -/
def toHex (key : PublicKey) : String := key.compressed.toHex

instance : Ord PublicKey := ⟨fun a b => compare a.compressed b.compressed⟩

theorem compare_eq (a b : PublicKey) : compare a b = compare a.compressed b.compressed := rfl

/-- The host-chain account that a key controls. -/
def chainAddress (key : PublicKey) : ChainAddress :=
  let hash := keccak256 (Bytes.bigEndian 32 key.x ++ Bytes.bigEndian 32 key.y)
  ⟨hash.toList.drop 12, by simp [hash.length_eq]⟩

theorem x_lt (key : PublicKey) : key.x < fieldOrder := lt_of_root? key.onCurve

theorem compressed_inj {a b : PublicKey} : a.compressed = b.compressed ↔ a = b := by
  constructor
  · intro h
    simp only [compressed, List.cons.injEq] at h
    obtain ⟨parity, coordinate⟩ := h
    have hx : a.x = b.x := by
      have := congrArg Bytes.toNatBE coordinate
      have ha : a.x < Bytes.capacity 32 := Nat.lt_trans a.x_lt (by decide)
      have hb : b.x < Bytes.capacity 32 := Nat.lt_trans b.x_lt (by decide)
      rwa [Bytes.toNatBE_bigEndian, Bytes.toNatBE_bigEndian, Nat.mod_eq_of_lt ha,
        Nat.mod_eq_of_lt hb] at this
    have hodd : a.odd = b.odd := by
      cases ha : a.odd <;> cases hb : b.odd <;> simp_all
    cases a; cases b; simp_all
  · rintro rfl
    rfl

instance : Std.TransOrd PublicKey where
  eq_swap {a b} := by
    rw [compare_eq, compare_eq]
    exact Std.OrientedCmp.eq_swap
  isLE_trans {a b c} hab hbc := by
    rw [compare_eq] at hab hbc ⊢
    exact Std.TransCmp.isLE_trans hab hbc

instance : Std.LawfulEqOrd PublicKey where
  compare_self {a} := by
    rw [compare_eq]
    exact Std.ReflCmp.compare_self
  eq_of_compare {a b} h := by
    rw [compare_eq] at h
    exact compressed_inj.1 (Std.LawfulEqCmp.eq_of_compare h)

end PublicKey

end TwoWayPeg
