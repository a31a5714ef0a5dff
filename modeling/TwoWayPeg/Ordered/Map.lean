/-!
Finite maps kept as lists of entries with strictly increasing keys, so that two maps with the
same entries are equal and iteration runs in the order of the keys.
-/

namespace TwoWayPeg

/-- A finite map: its entries, with strictly increasing keys. -/
structure OrderedMap (κ ν : Type) [Ord κ] where
  entries : List (κ × ν)
  increasing : entries.Pairwise (fun a b => compare a.1 b.1 = .lt)

namespace OrderedMap

variable {κ ν : Type} [Ord κ]

@[ext] theorem ext {m m' : OrderedMap κ ν} (h : m.entries = m'.entries) : m = m' := by
  cases m; cases m'; simp_all

instance [DecidableEq κ] [DecidableEq ν] : DecidableEq (OrderedMap κ ν) := fun m m' =>
  if h : m.entries = m'.entries then isTrue (ext h) else isFalse fun e => h (e ▸ rfl)

/-- The map without entries. -/
def empty : OrderedMap κ ν := ⟨[], .nil⟩

instance : EmptyCollection (OrderedMap κ ν) := ⟨empty⟩

instance : Inhabited (OrderedMap κ ν) := ⟨empty⟩

/-- The number of entries. -/
def size (m : OrderedMap κ ν) : Nat := m.entries.length

/-- Whether the map has no entries. -/
def isEmpty (m : OrderedMap κ ν) : Bool := m.entries.isEmpty

/-- The value under a key. -/
def get? (m : OrderedMap κ ν) (key : κ) : Option ν :=
  (m.entries.find? fun entry => compare key entry.1 == .eq).map (·.2)

/-- Puts an entry at its place among entries with increasing keys; an entry with the same key
    gives way. -/
def insertInto (key : κ) (value : ν) : List (κ × ν) → List (κ × ν)
  | [] => [(key, value)]
  | entry :: rest =>
    match compare key entry.1 with
    | .lt => (key, value) :: entry :: rest
    | .eq => (key, value) :: rest
    | .gt => entry :: insertInto key value rest

theorem key_of_mem_insertInto {key : κ} {value : ν} {entry : κ × ν} {l : List (κ × ν)}
    (h : entry ∈ insertInto key value l) : entry.1 = key ∨ entry ∈ l := by
  induction l with
  | nil => simp_all [insertInto]
  | cons b rest ih =>
    rw [insertInto] at h
    split at h
    · rcases List.mem_cons.1 h with rfl | h
      · exact .inl rfl
      · exact .inr h
    · rcases List.mem_cons.1 h with rfl | h
      · exact .inl rfl
      · exact .inr (List.mem_cons_of_mem _ h)
    · rcases List.mem_cons.1 h with rfl | h
      · exact .inr List.mem_cons_self
      · exact (ih h).imp_right (List.mem_cons_of_mem _)

theorem increasing_insertInto [Std.TransOrd κ] [Std.LawfulEqOrd κ] {key : κ} {value : ν}
    {l : List (κ × ν)} (h : l.Pairwise (fun a b => compare a.1 b.1 = .lt)) :
    (insertInto key value l).Pairwise (fun a b => compare a.1 b.1 = .lt) := by
  induction l with
  | nil => simp [insertInto]
  | cons b rest ih =>
    rw [List.pairwise_cons] at h
    rw [insertInto]
    split
    · next hb =>
      rw [List.pairwise_cons, List.pairwise_cons]
      refine ⟨fun x hx => ?_, h⟩
      rcases List.mem_cons.1 hx with rfl | hx
      · exact hb
      · exact Std.TransCmp.lt_trans hb (h.1 x hx)
    · next hb =>
      cases Std.LawfulEqCmp.eq_of_compare hb
      exact List.pairwise_cons.2 h
    · next hb =>
      refine List.pairwise_cons.2 ⟨fun x hx => ?_, ih h.2⟩
      rcases key_of_mem_insertInto hx with same | hx
      · rw [same]
        exact Std.OrientedCmp.lt_of_gt hb
      · exact h.1 x hx

/-- The map with the entry of a key replaced or added. -/
def insert [Std.TransOrd κ] [Std.LawfulEqOrd κ] (key : κ) (value : ν) (m : OrderedMap κ ν) :
    OrderedMap κ ν :=
  ⟨insertInto key value m.entries, increasing_insertInto m.increasing⟩

/-- The map without the entry of a key. -/
def erase (key : κ) (m : OrderedMap κ ν) : OrderedMap κ ν :=
  ⟨m.entries.filter fun entry => compare key entry.1 != .eq, m.increasing.filter _⟩

/-- The map of a list of entries, of which a later one replaces an earlier one with its key. -/
def ofList [Std.TransOrd κ] [Std.LawfulEqOrd κ] (l : List (κ × ν)) : OrderedMap κ ν :=
  l.foldl (fun m entry => m.insert entry.1 entry.2) empty

@[simp] theorem get?_empty {key : κ} : (empty : OrderedMap κ ν).get? key = none := rfl

theorem keys_nodup [Std.LawfulEqOrd κ] (m : OrderedMap κ ν) : (m.entries.map (·.1)).Nodup := by
  rw [List.Nodup, List.pairwise_map]
  refine m.increasing.imp fun {a b} less equal => ?_
  have same : compare a.1 b.1 = .eq := Std.LawfulEqCmp.compare_eq_iff_eq.2 equal
  rw [less] at same
  cases same

theorem get?_eq_some_iff [Std.LawfulEqOrd κ] {m : OrderedMap κ ν} {key : κ} {value : ν} :
    m.get? key = some value ↔ (key, value) ∈ m.entries := by
  have unique := m.keys_nodup
  simp only [get?]
  generalize m.entries = entries at unique
  induction entries with
  | nil => simp
  | cons entry rest ih =>
    rw [List.map_cons, List.nodup_cons] at unique
    rw [List.find?_cons, List.mem_cons]
    split
    · next same =>
      cases Std.LawfulEqCmp.eq_of_compare (eq_of_beq same)
      have fresh : (entry.1, value) ∉ rest := fun member =>
        unique.1 (List.mem_map.2 ⟨_, member, rfl⟩)
      obtain ⟨key, other⟩ := entry
      simp [fresh, eq_comm]
    · next differs =>
      refine (ih unique.2).trans ⟨.inr, fun member => member.resolve_left ?_⟩
      rintro rfl
      simp at differs

theorem get?_insert [Std.TransOrd κ] [Std.LawfulEqOrd κ] {m : OrderedMap κ ν} {key other : κ}
    {value : ν} :
    (m.insert key value).get? other =
      if compare other key = .eq then some value else m.get? other := by
  simp only [get?, insert]
  induction m.entries with
  | nil => by_cases h : compare other key = .eq <;> simp [insertInto, h]
  | cons entry rest ih =>
    rw [insertInto]
    split
    · by_cases h : compare other key = .eq <;> simp [List.find?_cons, h]
    · next same =>
      cases Std.LawfulEqCmp.eq_of_compare same
      by_cases h : compare other entry.1 = .eq <;> simp [h]
    · next greater =>
      by_cases h : compare other entry.1 = .eq
      · have : compare other key ≠ .eq := fun same => by
          rw [Std.LawfulEqCmp.eq_of_compare same, greater] at h
          cases h
        simp [h, this]
      · simp [h, ih]

@[simp] theorem get?_insert_self [Std.TransOrd κ] [Std.LawfulEqOrd κ] {m : OrderedMap κ ν}
    {key : κ} {value : ν} : (m.insert key value).get? key = some value := by
  rw [get?_insert, if_pos Std.ReflCmp.compare_self]

theorem get?_insert_of_ne [Std.TransOrd κ] [Std.LawfulEqOrd κ] {m : OrderedMap κ ν}
    {key other : κ} {value : ν} (h : other ≠ key) :
    (m.insert key value).get? other = m.get? other := by
  rw [get?_insert, if_neg fun same => h (Std.LawfulEqCmp.eq_of_compare same)]

@[simp] theorem get?_erase_self {m : OrderedMap κ ν} {key : κ} : (m.erase key).get? key = none := by
  simp [get?, erase]

theorem get?_erase_of_ne [Std.LawfulEqOrd κ] {m : OrderedMap κ ν} {key other : κ}
    (h : other ≠ key) : (m.erase key).get? other = m.get? other := by
  simp only [get?, erase, List.find?_filter]
  congr 2
  funext entry
  by_cases same : compare other entry.1 = .eq
  · have differs : compare key entry.1 ≠ .eq := fun equal =>
      h ((Std.LawfulEqCmp.eq_of_compare same).trans (Std.LawfulEqCmp.eq_of_compare equal).symm)
    simp [same, differs]
  · simp [same]

/-- A map is determined by the values under its keys. -/
theorem ext_get? [Std.TransOrd κ] [Std.LawfulEqOrd κ] {m m' : OrderedMap κ ν}
    (h : ∀ key, m.get? key = m'.get? key) : m = m' := by
  have nodup : ∀ m : OrderedMap κ ν, m.entries.Nodup := fun m =>
    (List.pairwise_map.1 m.keys_nodup).imp fun differ equal => differ (congrArg _ equal)
  apply ext
  apply List.Perm.eq_of_pairwise _ m.increasing m'.increasing
  · refine (List.perm_ext_iff_of_nodup (nodup m) (nodup m')).2 fun (key, value) => ?_
    rw [← get?_eq_some_iff, ← get?_eq_some_iff, h]
  · intro a b _ _ hab hba
    have swapped : compare a.1 b.1 = (compare b.1 a.1).swap := Std.OrientedCmp.eq_swap
    rw [hba, hab] at swapped
    cases swapped

/-- Entries with distinct keys that are put into a map stand beside those of other keys. -/
theorem get?_foldl_insert [Std.TransOrd κ] [Std.LawfulEqOrd κ] {l : List (κ × ν)}
    (distinct : (l.map (·.1)).Nodup) (m : OrderedMap κ ν) {key : κ} {value : ν} :
    (l.foldl (fun m entry => m.insert entry.1 entry.2) m).get? key = some value ↔
      (key, value) ∈ l ∨ key ∉ l.map (·.1) ∧ m.get? key = some value := by
  induction l generalizing m with
  | nil => simp
  | cons entry rest ih =>
    rw [List.map_cons, List.nodup_cons] at distinct
    rw [List.foldl_cons, ih distinct.2]
    by_cases same : key = entry.1
    · subst same
      have fresh : (entry.1, value) ∉ rest := fun member =>
        distinct.1 (List.mem_map.2 ⟨_, member, rfl⟩)
      rw [get?_insert_self]
      obtain ⟨key, other⟩ := entry
      have absent : key ∉ rest.map (·.1) := distinct.1
      simp only [fresh, absent, List.mem_cons, Prod.mk.injEq, List.map_cons]
      simp [eq_comm]
    · rw [get?_insert_of_ne same]
      obtain ⟨other, old⟩ := entry
      have differs : key ≠ other := same
      simp [differs]

/-- A map is that of its entries. -/
@[simp] theorem ofList_entries [Std.TransOrd κ] [Std.LawfulEqOrd κ] (m : OrderedMap κ ν) :
    ofList m.entries = m := by
  apply ext_get?
  intro key
  apply Option.ext
  intro value
  rw [ofList, get?_foldl_insert m.keys_nodup, get?_eq_some_iff (m := m)]
  simp

/-- The entries of a list that is in order are those of its map in turn. -/
theorem entries_ofList_iff [Std.TransOrd κ] [Std.LawfulEqOrd κ] {l : List (κ × ν)} :
    (ofList l).entries = l ↔ l.Pairwise fun a b => compare a.1 b.1 = .lt := by
  constructor
  · intro same
    rw [← same]
    exact (ofList l).increasing
  · intro increasing
    rw [show ofList l = ⟨l, increasing⟩ from ofList_entries ⟨l, increasing⟩]

end OrderedMap

end TwoWayPeg
