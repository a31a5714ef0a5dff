/-!
Finite sets kept as strictly increasing lists, so that two sets with the same members are equal
and iteration runs in order.
-/

namespace TwoWayPeg

/-- A finite set: its members in strictly increasing order. -/
structure OrderedSet (α : Type) [Ord α] where
  toList : List α
  increasing : toList.Pairwise (fun a b => compare a b = .lt)

namespace OrderedSet

variable {α : Type} [Ord α]

@[ext] theorem ext {s t : OrderedSet α} (h : s.toList = t.toList) : s = t := by
  cases s; cases t; simp_all

instance [DecidableEq α] : DecidableEq (OrderedSet α) := fun s t =>
  if h : s.toList = t.toList then isTrue (ext h) else isFalse fun e => h (e ▸ rfl)

/-- The set without members. -/
def empty : OrderedSet α := ⟨[], .nil⟩

instance : EmptyCollection (OrderedSet α) := ⟨empty⟩

instance : Inhabited (OrderedSet α) := ⟨empty⟩

/-- The number of members. -/
def size (s : OrderedSet α) : Nat := s.toList.length

/-- Whether the set has no members. -/
def isEmpty (s : OrderedSet α) : Bool := s.toList.isEmpty

instance : Membership α (OrderedSet α) := ⟨fun s a => a ∈ s.toList⟩

theorem mem_def {a : α} {s : OrderedSet α} : a ∈ s ↔ a ∈ s.toList := Iff.rfl

instance [DecidableEq α] (a : α) (s : OrderedSet α) : Decidable (a ∈ s) :=
  inferInstanceAs (Decidable (a ∈ s.toList))

/-- Puts a member at its place in an increasing list, unless it is there. -/
def insertInto (a : α) : List α → List α
  | [] => [a]
  | b :: rest =>
    match compare a b with
    | .lt => a :: b :: rest
    | .eq => b :: rest
    | .gt => b :: insertInto a rest

theorem mem_insertInto [Std.LawfulEqOrd α] {a x : α} {l : List α} :
    x ∈ insertInto a l ↔ x = a ∨ x ∈ l := by
  induction l with
  | nil => simp [insertInto]
  | cons b rest ih =>
    rw [insertInto]
    split
    · simp
    · next h =>
      cases Std.LawfulEqCmp.eq_of_compare h
      simp
    · simp only [List.mem_cons, ih]
      grind

theorem increasing_insertInto [Std.TransOrd α] [Std.LawfulEqOrd α] {a : α} {l : List α}
    (h : l.Pairwise (fun a b => compare a b = .lt)) :
    (insertInto a l).Pairwise (fun a b => compare a b = .lt) := by
  induction l with
  | nil => simp [insertInto]
  | cons b rest ih =>
    rw [List.pairwise_cons] at h
    rw [insertInto]
    split
    · next hab =>
      rw [List.pairwise_cons, List.pairwise_cons]
      refine ⟨fun x hx => ?_, h⟩
      rcases List.mem_cons.1 hx with rfl | hx
      · exact hab
      · exact Std.TransCmp.lt_trans hab (h.1 x hx)
    · exact List.pairwise_cons.2 h
    · next hab =>
      refine List.pairwise_cons.2 ⟨fun x hx => ?_, ih h.2⟩
      rcases mem_insertInto.1 hx with rfl | hx
      · exact Std.OrientedCmp.lt_of_gt hab
      · exact h.1 x hx

@[simp] theorem not_mem_empty {x : α} : x ∉ (empty : OrderedSet α) := by
  simp [mem_def, empty]

theorem nodup_toList [Std.LawfulEqOrd α] (s : OrderedSet α) : s.toList.Nodup := by
  refine s.increasing.imp fun {a b} h => ?_
  rintro rfl
  have same : compare a a = .eq := Std.ReflCmp.compare_self
  rw [same] at h
  cases h

variable [Std.TransOrd α] [Std.LawfulEqOrd α]

/-- The set with one more member. -/
def insert (a : α) (s : OrderedSet α) : OrderedSet α :=
  ⟨insertInto a s.toList, increasing_insertInto s.increasing⟩

/-- The set of the items of a list. -/
def ofList (l : List α) : OrderedSet α := l.foldr insert empty

@[simp] theorem mem_insert {a x : α} {s : OrderedSet α} : x ∈ s.insert a ↔ x = a ∨ x ∈ s :=
  mem_insertInto

@[simp] theorem mem_ofList {x : α} {l : List α} : x ∈ ofList l ↔ x ∈ l := by
  induction l with
  | nil => simp [ofList]
  | cons a rest ih =>
    rw [ofList, List.foldr_cons, ← ofList, mem_insert, ih, List.mem_cons]

@[simp] theorem toList_ofList_eq_nil_iff {l : List α} : (ofList l).toList = [] ↔ l = [] := by
  simp only [List.eq_nil_iff_forall_not_mem, ← mem_def, mem_ofList]

/-- A set is determined by its members. -/
theorem ext_mem {s t : OrderedSet α} (h : ∀ x, x ∈ s ↔ x ∈ t) : s = t := by
  apply ext
  apply List.Perm.eq_of_pairwise _ s.increasing t.increasing
  · exact (List.perm_ext_iff_of_nodup s.nodup_toList t.nodup_toList).2 fun x => h x
  · intro a b _ _ hab hba
    have swapped : compare a b = (compare b a).swap := Std.OrientedCmp.eq_swap
    rw [hba, hab] at swapped
    cases swapped

/-- The members of a list without repetitions are those of its set, perhaps in another order. -/
theorem perm_toList_ofList {l : List α} (distinct : l.Nodup) : (ofList l).toList.Perm l :=
  (List.perm_ext_iff_of_nodup (ofList l).nodup_toList distinct).2 fun _ => mem_ofList

theorem ofList_eq_of_mem_iff {l l' : List α} (h : ∀ x, x ∈ l ↔ x ∈ l') : ofList l = ofList l' :=
  ext_mem fun x => by simp [h]

@[simp] theorem ofList_toList (s : OrderedSet α) : ofList s.toList = s :=
  ext_mem fun _ => mem_ofList

/-- The members of a list that is in order are those of its set in turn. -/
theorem toList_ofList_iff {l : List α} :
    (ofList l).toList = l ↔ l.Pairwise fun a b => compare a b = .lt := by
  constructor
  · intro same
    rw [← same]
    exact (ofList l).increasing
  · intro increasing
    rw [show ofList l = ⟨l, increasing⟩ from ofList_toList ⟨l, increasing⟩]

end OrderedSet

end TwoWayPeg
