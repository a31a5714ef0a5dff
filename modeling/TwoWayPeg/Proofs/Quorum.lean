import TwoWayPeg.Proofs.Tally

/-!
# Calls with enough votes

The winner of an election is the least call, in the order of calls, that has enough votes. Taking
winners out until there is none takes out all such calls, each of them once and in order, and
nothing else.
-/

namespace TwoWayPeg.Election

variable {e rest : Election} {spec other winner : CallSpec}

/-- A call has a tally with enough votes to win. -/
def HasQuorum (e : Election) (spec : CallSpec) : Prop :=
  ∃ voters, e.votes.get? spec = some voters ∧ e.authorizer.required ≤ voters.size

/-- A call without a tally has no votes, so it has not won as long as any vote is required. -/
theorem hasQuorum_iff_required_le (required : 0 < e.authorizer.required) :
    e.HasQuorum spec ↔ e.authorizer.required ≤ (e.tally spec).size := by
  unfold HasQuorum tally
  cases found : e.votes.get? spec with
  | none =>
    have zero : (OrderedSet.empty : OrderedSet ChainAddress).size = 0 := rfl
    simp only [Option.getD_none, zero, reduceCtorEq, false_and, exists_false, false_iff]
    omega
  | some voters => simp

theorem hasQuorum_of_winner? (won : e.winner? = some winner) : e.HasQuorum winner :=
  mem_of_winner? won

theorem winner?_eq_none_iff_not_hasQuorum : e.winner? = none ↔ ∀ spec, ¬ e.HasQuorum spec := by
  rw [winner?_eq_none_iff]
  constructor
  · rintro few spec ⟨voters, found, enough⟩
    exact absurd enough (Nat.not_le_of_lt (few spec voters found))
  · intro none spec voters found
    exact Nat.lt_of_not_le fun enough => none spec ⟨voters, found, enough⟩

/-- Tallies are gone through in the order of their calls, so the winner comes first. -/
theorem isLE_of_winner? (won : e.winner? = some winner) (quorum : e.HasQuorum other) :
    (compare winner other).isLE = true := by
  rw [winner?, Option.map_eq_some_iff] at won
  obtain ⟨entry, found, rfl⟩ := won
  obtain ⟨_, before, after, whole, short⟩ := List.find?_eq_some_iff_append.1 found
  obtain ⟨voters, present, enough⟩ := quorum
  have member := OrderedMap.get?_eq_some_iff.1 present
  have increasing := e.votes.increasing
  rw [whole] at member increasing
  rcases List.mem_append.1 member with earlier | later
  · have few := short _ earlier
    simp only [decide_eq_true enough, Bool.not_true] at few
    cases few
  · rcases List.mem_cons.1 later with same | later
    · rw [← same]
      exact Std.ReflCmp.isLE_rfl
    · have less := (List.pairwise_cons.1 (List.pairwise_append.1 increasing).2.1).1 _ later
      rw [less]
      rfl

/-- The winner is the least call that has enough votes. -/
theorem winner?_eq_some_iff : e.winner? = some winner ↔
    e.HasQuorum winner ∧ ∀ other, e.HasQuorum other → (compare winner other).isLE = true := by
  constructor
  · intro won
    exact ⟨hasQuorum_of_winner? won, fun _ => isLE_of_winner? won⟩
  · rintro ⟨quorum, least⟩
    cases won : e.winner? with
    | none => exact absurd quorum (winner?_eq_none_iff_not_hasQuorum.1 won winner)
    | some first =>
      have le := least first (hasQuorum_of_winner? won)
      have ge := isLE_of_winner? won quorum
      rw [Std.LawfulEqCmp.eq_of_compare (Std.OrientedCmp.isLE_antisymm ge le)]

theorem hasQuorum_remove :
    (e.remove spec).HasQuorum other ↔ other ≠ spec ∧ e.HasQuorum other := by
  unfold HasQuorum remove
  by_cases same : other = spec
  · subst same
    simp
  · simp [same, OrderedMap.get?_erase_of_ne same]

theorem takeWinner?_eq_some (taken : e.takeWinner? = some (winner, rest)) :
    e.winner? = some winner ∧ rest = e.remove winner := by
  rw [takeWinner?, Option.map_eq_some_iff] at taken
  obtain ⟨spec, won, same⟩ := taken
  cases same
  exact ⟨won, rfl⟩

theorem takeWinner?_eq_none_iff : e.takeWinner? = none ↔ e.winner? = none := Option.map_eq_none_iff

/-- A call that is taken out had a tally. -/
theorem size_lt_of_takeWinner? (taken : e.takeWinner? = some (winner, rest)) :
    rest.votes.size < e.votes.size := by
  obtain ⟨won, rfl⟩ := takeWinner?_eq_some taken
  obtain ⟨voters, found, _⟩ := hasQuorum_of_winner? won
  exact List.length_filter_lt_length_iff_exists.2
    ⟨_, OrderedMap.get?_eq_some_iff.1 found, by simp [Std.ReflCmp.compare_self]⟩

/-- Takes winners out until there is none. -/
def takeWinners (e : Election) : List CallSpec × Election :=
  match _taken : e.takeWinner? with
  | none => ([], e)
  | some (winner, rest) => (winner :: rest.takeWinners.1, rest.takeWinners.2)
termination_by e.votes.size
decreasing_by all_goals exact size_lt_of_takeWinner? ‹_›

/-- Just the calls that have enough votes are taken out. -/
theorem mem_takeWinners : spec ∈ e.takeWinners.1 ↔ e.HasQuorum spec := by
  fun_induction takeWinners e with
  | case1 e none =>
    simpa using winner?_eq_none_iff_not_hasQuorum.1 (takeWinner?_eq_none_iff.1 none) spec
  | case2 e winner rest taken ih =>
    obtain ⟨won, rfl⟩ := takeWinner?_eq_some taken
    rw [List.mem_cons, ih, hasQuorum_remove]
    by_cases same : spec = winner
    · subst same
      simp [hasQuorum_of_winner? won]
    · simp [same]

/-- They are taken out in order, and so each of them once. -/
theorem increasing_takeWinners (e : Election) :
    e.takeWinners.1.Pairwise fun a b => compare a b = .lt := by
  fun_induction takeWinners e with
  | case1 => exact .nil
  | case2 e winner rest taken ih =>
    obtain ⟨won, rfl⟩ := takeWinner?_eq_some taken
    refine List.pairwise_cons.2 ⟨fun later member => ?_, ih⟩
    obtain ⟨differs, quorum⟩ := hasQuorum_remove.1 (mem_takeWinners.1 member)
    have le := isLE_of_winner? won quorum
    cases order : compare winner later with
    | lt => rfl
    | eq => exact absurd (Std.LawfulEqCmp.eq_of_compare order).symm differs
    | gt =>
      rw [order] at le
      cases le

/-- The tallies of the calls that are taken out are gone, and the others are left as they were. -/
theorem get?_takeWinners : e.takeWinners.2.votes.get? spec =
    if spec ∈ e.takeWinners.1 then none else e.votes.get? spec := by
  fun_induction takeWinners e with
  | case1 => simp
  | case2 e winner rest taken ih =>
    obtain ⟨_, rfl⟩ := takeWinner?_eq_some taken
    rw [ih]
    by_cases same : spec = winner
    · subst same
      simp [remove]
    · simp [remove, same, OrderedMap.get?_erase_of_ne same]

/-- No call is left with enough votes. -/
theorem winner?_takeWinners (e : Election) : e.takeWinners.2.winner? = none := by
  fun_induction takeWinners e with
  | case1 e none => exact takeWinner?_eq_none_iff.1 none
  | case2 e winner rest taken ih => exact ih

end TwoWayPeg.Election
