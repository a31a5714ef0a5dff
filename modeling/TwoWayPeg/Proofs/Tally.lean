import TwoWayPeg.Election

/-!
# Tallies

What votes do to the tallies of an election, and which call can win. A call wins when the last vote
that it needs is cast, so as long as winners are taken out at once only the call that has just been
voted for can have won.
-/

namespace TwoWayPeg.Election

variable {e voted : Election} {spec other winner : CallSpec} {voter : ChainAddress}

/-- A vote that counts is that of an authorised voter who has not voted for the call, and it is put
    into the tally of the call. -/
theorem vote?_eq_some (counted : e.vote? spec voter = some voted) :
    e.authorizer.allows voter = true ∧ voter ∉ e.tally spec ∧
      voted = { e with votes := e.votes.insert spec ((e.tally spec).insert voter) } := by
  unfold vote? accepts at counted
  split at counted
  · next accepted =>
    rw [decide_eq_true_iff] at accepted
    cases counted
    exact ⟨accepted.1, accepted.2, rfl⟩
  · cases counted

theorem vote?_of_fresh (allowed : e.authorizer.allows voter = true)
    (fresh : voter ∉ e.tally spec) :
    e.vote? spec voter =
      some { e with votes := e.votes.insert spec ((e.tally spec).insert voter) } := by
  rw [vote?, accepts, decide_eq_true ⟨allowed, fresh⟩, if_pos rfl]

theorem authorizer_vote? (counted : e.vote? spec voter = some voted) :
    voted.authorizer = e.authorizer := by
  obtain ⟨_, _, rfl⟩ := vote?_eq_some counted
  rfl

theorem tally_vote?_self (counted : e.vote? spec voter = some voted) :
    voted.tally spec = (e.tally spec).insert voter := by
  obtain ⟨_, _, rfl⟩ := vote?_eq_some counted
  rw [tally, OrderedMap.get?_insert_self, Option.getD_some]

theorem tally_vote?_of_ne (counted : e.vote? spec voter = some voted) (differs : other ≠ spec) :
    voted.tally other = e.tally other := by
  obtain ⟨_, _, rfl⟩ := vote?_eq_some counted
  rw [tally, OrderedMap.get?_insert_of_ne differs, tally]

/-- A vote for a call adds its voter to the voters of the call. -/
theorem mem_tally_vote? (counted : e.vote? spec voter = some voted) (other : CallSpec)
    (v : ChainAddress) : v ∈ voted.tally other ↔ v ∈ e.tally other ∨ other = spec ∧ v = voter := by
  by_cases same : other = spec
  · subst same
    rw [tally_vote?_self counted, OrderedSet.mem_insert]
    simp [or_comm]
  · rw [tally_vote?_of_ne counted same]
    simp [same]

@[simp] theorem tally_remove_self : (e.remove spec).tally spec = .empty := by
  rw [tally, remove, OrderedMap.get?_erase_self, Option.getD_none]

theorem tally_remove_of_ne (differs : other ≠ spec) :
    (e.remove spec).tally other = e.tally other := by
  rw [tally, remove, OrderedMap.get?_erase_of_ne differs, tally]

@[simp] theorem tally_clear : e.clear.tally spec = .empty := rfl

@[simp] theorem winner?_clear : e.clear.winner? = none := rfl

/-- No call has won if no tally has enough voters. -/
theorem winner?_eq_none_iff :
    e.winner? = none ↔
      ∀ call voters, e.votes.get? call = some voters → voters.size < e.authorizer.required := by
  rw [winner?, Option.map_eq_none_iff, List.find?_eq_none]
  constructor
  · intro none call voters found
    have short := none (call, voters) (OrderedMap.get?_eq_some_iff.1 found)
    simpa using short
  · intro short entry member
    have few := short entry.1 entry.2 (OrderedMap.get?_eq_some_iff.2 member)
    simpa using few

theorem mem_of_winner? (won : e.winner? = some winner) : ∃ voters,
    e.votes.get? winner = some voters ∧ e.authorizer.required ≤ voters.size := by
  rw [winner?, Option.map_eq_some_iff] at won
  obtain ⟨entry, found, rfl⟩ := won
  exact ⟨entry.2, OrderedMap.get?_eq_some_iff.2 (List.mem_of_find?_eq_some found),
    by simpa using List.find?_some found⟩

theorem required_le_of_winner? (won : e.winner? = some winner) :
    e.authorizer.required ≤ (e.tally winner).size := by
  obtain ⟨voters, found, enough⟩ := mem_of_winner? won
  rw [tally, found]
  exact enough

/-- If no call had won before a vote, the call that was voted for is the only one that can have won
    after it. -/
theorem winner_eq_voted (undecided : e.winner? = none) (counted : e.vote? spec voter = some voted)
    (won : voted.winner? = some winner) : winner = spec := by
  obtain ⟨voters, found, enough⟩ := mem_of_winner? won
  obtain ⟨_, _, rfl⟩ := vote?_eq_some counted
  by_cases same : winner = spec
  · exact same
  · rw [OrderedMap.get?_insert_of_ne same] at found
    have few := winner?_eq_none_iff.1 undecided winner voters found
    exact absurd enough (Nat.not_le_of_lt few)

/-- If no call had won before a vote, the call voted for wins once it has enough votes. -/
theorem winner?_of_vote? (undecided : e.winner? = none) (counted : e.vote? spec voter = some voted) :
    voted.winner? = if e.authorizer.required ≤ ((e.tally spec).insert voter).size then some spec
      else none := by
  have size := congrArg OrderedSet.size (tally_vote?_self counted)
  have required := congrArg Authorizer.required (authorizer_vote? counted)
  cases won : voted.winner? with
  | none =>
    have few := winner?_eq_none_iff.1 won spec ((e.tally spec).insert voter) (by
      obtain ⟨_, _, rfl⟩ := vote?_eq_some counted
      exact OrderedMap.get?_insert_self)
    rw [required] at few
    rw [if_neg (Nat.not_le_of_lt few)]
  | some winner =>
    have same := winner_eq_voted undecided counted won
    subst same
    have enough := required_le_of_winner? won
    rw [required, size] at enough
    rw [if_pos enough]

/-- Once the votes for the call that was voted for are gone, no call has won. -/
theorem winner?_remove_voted (undecided : e.winner? = none)
    (counted : e.vote? spec voter = some voted) : (voted.remove spec).winner? = none := by
  obtain ⟨_, _, rfl⟩ := vote?_eq_some counted
  rw [winner?_eq_none_iff] at undecided ⊢
  intro call voters found
  by_cases same : call = spec
  · subst same
    rw [remove, OrderedMap.get?_erase_self] at found
    cases found
  · rw [remove, OrderedMap.get?_erase_of_ne same, OrderedMap.get?_insert_of_ne same] at found
    exact undecided call voters found

/-- Without the votes for a call nothing is left of a vote for it. -/
theorem remove_voted (counted : e.vote? spec voter = some voted) :
    voted.remove spec = e.remove spec := by
  obtain ⟨_, _, rfl⟩ := vote?_eq_some counted
  refine congrArg (Election.mk e.authorizer) (OrderedMap.ext_get? fun call => ?_)
  by_cases same : call = spec
  · subst same
    rw [OrderedMap.get?_erase_self, OrderedMap.get?_erase_self]
  · rw [OrderedMap.get?_erase_of_ne same, OrderedMap.get?_erase_of_ne same,
      OrderedMap.get?_insert_of_ne same]

theorem clearWinner_eq_remove (won : e.winner? = some winner) :
    e.clearWinner = e.remove winner := by
  rw [clearWinner, won]
  rfl

theorem clearWinner_eq_self (undecided : e.winner? = none) : e.clearWinner = e := by
  rw [clearWinner, undecided]
  rfl

@[simp] theorem authorizer_clearWinner (e : Election) :
    e.clearWinner.authorizer = e.authorizer := by
  cases won : e.winner? with
  | none => rw [clearWinner_eq_self won]
  | some winner =>
    rw [clearWinner_eq_remove won]
    rfl

end TwoWayPeg.Election
