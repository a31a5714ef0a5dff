/-!
Sorting by a comparison. A list is sorted by putting its items one by one at their places. The
definitions need nothing that is not built in, and what they compute can be seen by evaluation.
-/

namespace TwoWayPeg.Ordered

variable {α : Type} [Ord α]

/-- Puts an item before the first item of a sorted list that is not less. -/
def insertSorted (a : α) : List α → List α
  | [] => [a]
  | b :: rest => if (compare a b).isLE then a :: b :: rest else b :: insertSorted a rest

/-- The items of a list in increasing order. -/
def sort (l : List α) : List α := l.foldr insertSorted []

end TwoWayPeg.Ordered
