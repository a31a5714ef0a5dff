import TwoWayPeg.Bytes.Basic

/-!
Byte strings of one length: addresses, hashes and transaction ids. They are ordered byte by byte.
-/

namespace TwoWayPeg

/-- A byte string of length `n`. -/
structure FixedBytes (n : Nat) where
  toList : Bytes
  length_eq : toList.length = n
deriving DecidableEq

namespace FixedBytes

variable {n : Nat}

@[ext] theorem ext {a b : FixedBytes n} (h : a.toList = b.toList) : a = b := by
  cases a; cases b; simp_all

/-- Bytes as a string of length `n`, if that is their length. -/
def ofList? (bytes : Bytes) : Option (FixedBytes n) :=
  if h : bytes.length = n then some ⟨bytes, h⟩ else none

/-- The string of `n` equal bytes. -/
def filled (b : UInt8) : FixedBytes n := ⟨List.replicate n b, by simp⟩

instance : Inhabited (FixedBytes n) := ⟨filled 0⟩

@[simp] theorem ofList?_toList (a : FixedBytes n) : ofList? a.toList = some a := by
  simp [ofList?, a.length_eq]

theorem ofList?_eq_some_iff {bytes : Bytes} {a : FixedBytes n} :
    ofList? bytes = some a ↔ bytes = a.toList := by
  constructor
  · intro h
    simp only [ofList?, Option.dite_none_right_eq_some, Option.some.injEq] at h
    obtain ⟨_, rfl⟩ := h
    rfl
  · rintro rfl
    exact ofList?_toList a

instance : Ord (FixedBytes n) where
  compare a b := compare a.toList b.toList

theorem compare_eq (a b : FixedBytes n) : compare a b = compare a.toList b.toList := rfl

instance : Std.TransOrd (FixedBytes n) where
  eq_swap {a b} := by
    rw [compare_eq, compare_eq]
    exact Std.OrientedCmp.eq_swap
  isLE_trans {a b c} hab hbc := by
    rw [compare_eq] at hab hbc ⊢
    exact Std.TransCmp.isLE_trans hab hbc

instance : Std.LawfulEqOrd (FixedBytes n) where
  compare_self {a} := by
    rw [compare_eq]
    exact Std.ReflCmp.compare_self
  eq_of_compare {a b} h := by
    rw [compare_eq] at h
    exact FixedBytes.ext (Std.LawfulEqCmp.eq_of_compare h)

/-- The hexadecimal text of the bytes. -/
def toHex (a : FixedBytes n) : String := a.toList.toHex

end FixedBytes

/-- An account of the host chain. -/
abbrev ChainAddress := FixedBytes 20

/-- A 32-byte hash. -/
abbrev Hash256 := FixedBytes 32

/-- A 20-byte hash. -/
abbrev Hash160 := FixedBytes 20

instance : Std.TransOrd ChainAddress := inferInstance

instance : Std.LawfulEqOrd ChainAddress := inferInstance

instance : Std.TransOrd Hash256 := inferInstance

instance : Std.LawfulEqOrd Hash256 := inferInstance

end TwoWayPeg
