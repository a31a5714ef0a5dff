import TwoWayPeg.Error

/-!
64-bit sums and products that fail when their result is out of range.
-/

namespace TwoWayPeg

/-- The sum of two numbers. -/
def addChecked (a b : UInt64) : Except PegError UInt64 :=
  if a.toNat + b.toNat < UInt64.size then .ok (a + b) else .error (.overflow .add)

/-- The product of a number and a count. -/
def mulChecked (a : UInt64) (n : Nat) : Except PegError UInt64 :=
  if a.toNat * n < UInt64.size then .ok (UInt64.ofNat (a.toNat * n))
  else .error (.overflow .multiply)

/-- The sum of a list of numbers. -/
def sumChecked : List UInt64 → Except PegError UInt64
  | [] => .ok 0
  | a :: rest => sumChecked rest >>= addChecked a

end TwoWayPeg
