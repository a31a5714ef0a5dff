import TwoWayPeg.Ordered.Map
import TwoWayPeg.Storage.Key

/-!
A store of byte strings under byte strings.
-/

namespace TwoWayPeg

/-- A store: a byte string under each of its keys. -/
structure Store where
  entries : OrderedMap Bytes Bytes := .empty
deriving DecidableEq, Inhabited

namespace Store

variable (s : Store)

/-- The number of keys. -/
def size : Nat := s.entries.size

/-- Whether the store has no keys. -/
def isEmpty : Bool := s.entries.isEmpty

/-- The bytes under a key. -/
def get? (key : Bytes) : Option Bytes := s.entries.get? key

/-- The store with the bytes under a key replaced or added. -/
def put (key value : Bytes) : Store := ⟨s.entries.insert key value⟩

/-- The store without the bytes under a key. -/
def delete (key : Bytes) : Store := ⟨s.entries.erase key⟩

variable {s}

@[simp] theorem get?_put_self {key value : Bytes} : (s.put key value).get? key = some value :=
  OrderedMap.get?_insert_self

theorem get?_put_of_ne {key other value : Bytes} (h : other ≠ key) :
    (s.put key value).get? other = s.get? other :=
  OrderedMap.get?_insert_of_ne h

@[simp] theorem get?_delete_self {key : Bytes} : (s.delete key).get? key = none :=
  OrderedMap.get?_erase_self

theorem get?_delete_of_ne {key other : Bytes} (h : other ≠ key) :
    (s.delete key).get? other = s.get? other :=
  OrderedMap.get?_erase_of_ne h

/-- A store is determined by the bytes under its keys. -/
theorem ext_get? {s t : Store} (h : ∀ key, s.get? key = t.get? key) : s = t := by
  cases s; cases t
  exact congrArg Store.mk (OrderedMap.ext_get? h)

end Store

end TwoWayPeg
