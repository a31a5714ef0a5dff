import Mathlib.Data.List.Sort
import TwoWayPeg.Ordered.Sort

/-!
# Sorted lists

The sort of the program is the insertion sort of the library, so what the library says of that holds
of it. For the orders of keys and members, which tell any two apart, the sorted list depends only on
which items there are, and how often.
-/

namespace TwoWayPeg.Ordered

variable {α : Type} [Ord α]

theorem insertSorted_eq_orderedInsert (a : α) (l : List α) :
    insertSorted a l = l.orderedInsert (fun a b => (compare a b).isLE = true) a := by
  induction l with
  | nil => rfl
  | cons b rest ih => rw [insertSorted, ih, List.orderedInsert_cons]

theorem sort_eq_insertionSort (l : List α) :
    sort l = l.insertionSort fun a b => (compare a b).isLE = true := by
  induction l with
  | nil => rfl
  | cons a rest ih =>
    rw [List.insertionSort_cons, ← ih, ← insertSorted_eq_orderedInsert]
    rfl

theorem perm_sort (l : List α) : (sort l).Perm l := by
  rw [sort_eq_insertionSort]
  exact List.perm_insertionSort _ l

/-- A list that is in order is left as it is. -/
theorem sort_eq_self {l : List α} (sorted : l.Pairwise fun a b => (compare a b).isLE) :
    sort l = l := by
  rw [sort_eq_insertionSort]
  exact sorted.insertionSort_eq

variable [Std.TransOrd α]

local instance isTrans_isLE : IsTrans α fun a b => (compare a b).isLE = true where
  trans _ _ _ := Std.TransCmp.isLE_trans

local instance total_isLE : Std.Total fun a b : α => (compare a b).isLE = true where
  total a b := by
    have swapped : compare b a = (compare a b).swap := Std.OrientedCmp.eq_swap
    rw [swapped]
    cases compare a b <;> simp

local instance antisymm_isLE [Std.LawfulEqOrd α] :
    Std.Antisymm fun a b : α => (compare a b).isLE = true where
  antisymm _ _ before after :=
    Std.LawfulEqCmp.eq_of_compare (Std.OrientedCmp.isLE_antisymm before after)

theorem pairwise_sort (l : List α) : (sort l).Pairwise fun a b => (compare a b).isLE := by
  rw [sort_eq_insertionSort]
  exact List.pairwise_insertionSort _ l

theorem sort_eq_of_perm [Std.LawfulEqOrd α] {l l' : List α} (perm : l.Perm l') :
    sort l = sort l' :=
  List.Perm.eq_of_pairwise' (pairwise_sort l) (pairwise_sort l')
    ((perm_sort l).trans (perm.trans (perm_sort l').symm))

end TwoWayPeg.Ordered
