import TwoWayPeg.Proofs.Scenario
import TwoWayPeg.Proofs.Tally

/-!
# The votes for a call that has been applied

Once a call has won, an election hands it to an effect, which may change the election, and then takes
away the votes for the call that stands as the winner. This is the applied call unless the votes that
the effect casts have let another call win that comes first: then the votes for that call are lost,
and the applied one keeps its own.
-/

namespace TwoWayPeg

namespace Election

/-- What an effect may do to the election. -/
inductive Deed where
  | clear
  | vote (spec : CallSpec) (voter : ChainAddress)
deriving DecidableEq

/-- A deed that is no vote for a call. -/
def Deed.Spares (call : CallSpec) : Deed → Prop
  | .clear => True
  | .vote spec _ => spec ≠ call

/-- The election once a deed is done. A vote that does not count changes nothing. -/
def after (e : Election) : Deed → Election
  | .clear => e.clear
  | .vote spec voter => (e.vote? spec voter).getD e

/-- Just the votes for a call are gone from one election to another. -/
structure OnlyLoses (call : CallSpec) (e e' : Election) : Prop where
  gone : e'.votes.get? call = none
  kept : ∀ other, other ≠ call → e'.votes.get? other = e.votes.get? other

variable {e voted : Election} {call other spec winner : CallSpec} {voter : ChainAddress}
  {deeds : List Deed}

theorem onlyLoses_remove (e : Election) (call : CallSpec) : OnlyLoses call e (e.remove call) :=
  ⟨OrderedMap.get?_erase_self, fun _ differs => OrderedMap.get?_erase_of_ne differs⟩

/-- Only one call that had votes can be the one whose votes are gone. -/
theorem OnlyLoses.eq {e' : Election} (loses : OnlyLoses call e e')
    (loses' : OnlyLoses other e e') (some : e.votes.get? call ≠ none) : call = other := by
  by_cases same : call = other
  · exact same
  · exact absurd ((loses'.kept call same).symm.trans loses.gone) some

theorem after_vote_of_counted (counted : e.vote? spec voter = some voted) :
    e.after (.vote spec voter) = voted := by
  rw [after, counted, Option.getD_some]

theorem after_vote_of_refused (refused : e.vote? spec voter = none) :
    e.after (.vote spec voter) = e := by
  rw [after, refused, Option.getD_none]

theorem authorizer_after (e : Election) (deed : Deed) :
    (e.after deed).authorizer = e.authorizer := by
  cases deed with
  | clear => rfl
  | vote spec voter =>
    cases counted : e.vote? spec voter with
    | none => rw [after_vote_of_refused counted]
    | some voted => rw [after_vote_of_counted counted, authorizer_vote? counted]

/-- A deed that spares a call keeps the votes for it or takes all of them away. -/
theorem get?_after {deed : Deed} (spares : deed.Spares call) :
    (e.after deed).votes.get? call = e.votes.get? call ∨
      (e.after deed).votes.get? call = none := by
  cases deed with
  | clear => exact .inr rfl
  | vote spec voter =>
    cases counted : e.vote? spec voter with
    | none => exact .inl (by rw [after_vote_of_refused counted])
    | some voted =>
      rw [after_vote_of_counted counted]
      obtain ⟨_, _, rfl⟩ := vote?_eq_some counted
      exact .inl (OrderedMap.get?_insert_of_ne (Ne.symm spares))

/-- A vote takes nothing away. -/
theorem mem_tally_after {deed : Deed} (votes : deed ≠ .clear) {supporter : ChainAddress}
    (member : supporter ∈ e.tally call) : supporter ∈ (e.after deed).tally call := by
  cases deed with
  | clear => exact absurd rfl votes
  | vote spec voter =>
    cases counted : e.vote? spec voter with
    | none => rwa [after_vote_of_refused counted]
    | some voted =>
      rw [after_vote_of_counted counted]
      exact (mem_tally_vote? counted call supporter).2 (.inl member)

theorem authorizer_foldl_after (e : Election) (deeds : List Deed) :
    (deeds.foldl after e).authorizer = e.authorizer := by
  induction deeds generalizing e with
  | nil => rfl
  | cons deed rest ih => rw [List.foldl_cons, ih, authorizer_after]

theorem get?_foldl_after (spared : ∀ deed ∈ deeds, Deed.Spares call deed) :
    (deeds.foldl after e).votes.get? call = e.votes.get? call ∨
      (deeds.foldl after e).votes.get? call = none := by
  induction deeds generalizing e with
  | nil => exact .inl rfl
  | cons deed rest ih =>
    obtain ⟨first, others⟩ := List.forall_mem_cons.1 spared
    rcases ih (e := e.after deed) others with same | gone
    · rw [List.foldl_cons, same]
      exact get?_after first
    · exact .inr gone

theorem mem_tally_foldl_after (votes : .clear ∉ deeds) {supporter : ChainAddress}
    (member : supporter ∈ e.tally call) : supporter ∈ (deeds.foldl after e).tally call := by
  induction deeds generalizing e with
  | nil => exact member
  | cons deed rest ih =>
    rw [List.mem_cons, not_or] at votes
    exact ih votes.2 (mem_tally_after (Ne.symm votes.1) member)

/-- If the winner is spared and no call has won in the end, then the votes have been cleared. -/
theorem get?_eq_none_of_spared (won : voted.winner? = some winner)
    (spared : ∀ deed ∈ deeds, Deed.Spares winner deed)
    (undecided : (deeds.foldl after voted).winner? = none) :
    (deeds.foldl after voted).votes.get? winner = none := by
  rcases get?_foldl_after spared with same | gone
  · obtain ⟨voters, found, enough⟩ := mem_of_winner? won
    have few := winner?_eq_none_iff.1 undecided winner voters (same.trans found)
    rw [authorizer_foldl_after] at few
    exact absurd enough (Nat.not_le_of_lt few)
  · exact gone

/-- An effect that changes the election only by clearing it and by votes for other calls than the
    winner that it is given. -/
def SparesWinner {σ α ε : Type} (get : σ → Election)
    (effect : σ → CallSpec → Except ε (α × σ)) : Prop :=
  ∀ owner winner result changed, effect owner winner = .ok (result, changed) →
    ∃ deeds : List Deed, (∀ deed ∈ deeds, deed.Spares winner) ∧
      get changed = deeds.foldl after (get owner)

section Application

variable {σ α ε : Type} {get : σ → Election} {set : σ → Election → σ} {owner last : σ}
  {effect : σ → CallSpec → Except ε (α × σ)} {result : α}

/-- A call is applied once a vote has let it win, and then the votes for the winner are cleared. -/
theorem exists_of_applied (lens : ∀ owner e, get (set owner e) = e)
    (applied : voteAndApplyWithin get set owner spec voter effect = .ok (.applied result, last)) :
    ∃ voted winner changed, (get owner).vote? spec voter = some voted ∧
      voted.winner? = some winner ∧ effect (set owner voted) winner = .ok (result, changed) ∧
      get last = (get changed).clearWinner := by
  unfold voteAndApplyWithin at applied
  split at applied
  · cases applied
  next voted counted =>
  dsimp only at applied
  split at applied
  · cases applied
  next winner won =>
  obtain ⟨⟨result', changed⟩, done, applied⟩ := bind_eq_ok_iff.1 applied
  cases applied
  exact ⟨voted, winner, changed, counted, won, done, lens _ _⟩

/-- Let an effect change the election only by clearing it and by votes for other calls than the
    winner that it is given. Once the winner is applied, just the votes for it are gone if and only
    if no other call stands as the winner when the effect ends. If one does, it loses its votes, and
    nothing else is taken away. -/
theorem applied_cleared_iff (lens : ∀ owner e, get (set owner e) = e)
    (spares : SparesWinner get effect)
    (applied : voteAndApplyWithin get set owner spec voter effect = .ok (.applied result, last)) :
    ∃ voted winner changed, ∃ deeds : List Deed, (get owner).vote? spec voter = some voted ∧
      voted.winner? = some winner ∧ effect (set owner voted) winner = .ok (result, changed) ∧
      get changed = deeds.foldl after voted ∧
      (Deed.clear ∉ deeds →
        ∀ call, ∀ voter ∈ voted.tally call, voter ∈ (get changed).tally call) ∧
      (OnlyLoses winner (get changed) (get last) ↔
        ∀ other, (get changed).winner? = some other → other = winner) ∧
      ∀ other, (get changed).winner? = some other →
        OnlyLoses other (get changed) (get last) := by
  obtain ⟨voted, winner, changed, counted, won, done, ends⟩ := exists_of_applied lens applied
  obtain ⟨deeds, spared, reached⟩ := spares _ _ _ _ done
  rw [lens] at reached
  have loses {other : CallSpec} (stands : (get changed).winner? = some other) :
      OnlyLoses other (get changed) (get last) := by
    rw [ends, clearWinner_eq_remove stands]
    exact onlyLoses_remove _ _
  refine ⟨voted, winner, changed, deeds, counted, won, done, reached, ?_, ?_, fun _ => loses⟩
  · intro votes call supporter member
    rw [reached]
    exact mem_tally_foldl_after votes member
  · constructor
    · intro gone other stands
      obtain ⟨voters, found, _⟩ := mem_of_winner? stands
      exact (loses stands).eq gone (by rw [found]; simp)
    · intro alone
      cases stands : (get changed).winner? with
      | some other =>
        have same := alone other stands
        subst same
        exact loses stands
      | none =>
        rw [ends, clearWinner_eq_self stands]
        rw [reached] at stands ⊢
        exact ⟨get?_eq_none_of_spared won spared stands, fun _ _ => rfl⟩

end Application

end Election

namespace Scenario

open Election

/-- The call that creates a federation. -/
def create : CallSpec := ⟨"create", []⟩

/-- The call that gives it up. -/
def rollback : CallSpec := ⟨"rollback", []⟩

/-- The first voter of the development network has voted for both calls. -/
def halfWay : Election :=
  [Deed.vote create first, .vote rollback first].foldl after
    { authorizer := Constants.developmentAuthorizer }

/-- An effect that casts the vote of the second voter for a call, unless it is the winner. -/
def seconds (call : CallSpec) (e : Election) (winner : CallSpec) :
    Except PegError (Unit × Election) :=
  .ok ((), if winner = call then e else e.after (.vote call second))

theorem sparesWinner_seconds (call : CallSpec) : SparesWinner id (seconds call) := by
  intro e winner _ changed done
  cases done
  by_cases same : winner = call
  · exact ⟨[], by simp, if_pos same⟩
  · exact ⟨[.vote call second], List.forall_mem_singleton.2 (Ne.symm same), if_neg same⟩

/-- The second voter's vote for a call applies it, with the effect that seconds the other call. -/
theorem applied_seconds {spec other : CallSpec}
    (counted : halfWay.vote? spec second = some (halfWay.after (.vote spec second)))
    (won : (halfWay.after (.vote spec second)).winner? = some spec) (differs : spec ≠ other) :
    voteAndApplyWithin id (fun _ e => e) halfWay spec second (seconds other) = .ok (.applied (),
      ([Deed.vote spec second, .vote other second].foldl after halfWay).clearWinner) := by
  simp only [voteAndApplyWithin, id, counted, won, seconds, if_neg differs]
  rfl

end Scenario

namespace Election

/-- The votes for a call that has been applied can stay and those for another call be lost: once a
    rollback has won, its effect gives the creation of a federation the vote that it lacks. -/
theorem not_applied_always_cleared :
    ¬ ∀ (σ α ε : Type) (get : σ → Election) (set : σ → Election → σ)
      (effect : σ → CallSpec → Except ε (α × σ)) (owner last : σ) (spec : CallSpec)
      (voter : ChainAddress) (result : α),
      (∀ owner e, get (set owner e) = e) → SparesWinner get effect →
      voteAndApplyWithin get set owner spec voter effect = .ok (.applied result, last) →
      ∀ voted winner changed, (get owner).vote? spec voter = some voted →
        voted.winner? = some winner → effect (set owner voted) winner = .ok (result, changed) →
        OnlyLoses winner (get changed) (get last) := by
  intro claim
  have counted : Scenario.halfWay.vote? Scenario.rollback Scenario.second =
      some (Scenario.halfWay.after (.vote Scenario.rollback Scenario.second)) := by decide +kernel
  have won : (Scenario.halfWay.after (.vote Scenario.rollback Scenario.second)).winner? =
      some Scenario.rollback := by decide +kernel
  have loses := claim _ _ _ _ _ _ _ _ _ _ _ (fun _ _ => rfl)
    (Scenario.sparesWinner_seconds Scenario.create)
    (Scenario.applied_seconds counted won (by decide)) _ _ _ counted won rfl
  have stays : ([Deed.vote Scenario.rollback Scenario.second,
      .vote Scenario.create Scenario.second].foldl after
      Scenario.halfWay).clearWinner.votes.get? Scenario.rollback ≠ none := by decide +kernel
  exact stays loses.gone

/-- Once the creation of a federation has won, its effect gives a rollback the vote that it lacks. The
    votes for the creation are gone, and the rollback has won. -/
theorem applied_cleared_iff_of_later_vote :
    ∃ last voted changed, voteAndApplyWithin id (fun _ e => e) Scenario.halfWay Scenario.create
        Scenario.second (Scenario.seconds Scenario.rollback) = .ok (.applied (), last) ∧
      Scenario.halfWay.vote? Scenario.create Scenario.second = some voted ∧
      voted.winner? = some Scenario.create ∧
      Scenario.seconds Scenario.rollback voted Scenario.create = .ok ((), changed) ∧
      OnlyLoses Scenario.create changed last ∧ last.winner? = some Scenario.rollback := by
  have counted : Scenario.halfWay.vote? Scenario.create Scenario.second =
      some (Scenario.halfWay.after (.vote Scenario.create Scenario.second)) := by decide +kernel
  have won : (Scenario.halfWay.after (.vote Scenario.create Scenario.second)).winner? =
      some Scenario.create := by decide +kernel
  have differs : Scenario.create ≠ Scenario.rollback := by decide
  have applied := Scenario.applied_seconds counted won differs
  obtain ⟨voted, winner, changed, _, counted', won', done, _, _, alone, _⟩ :=
    applied_cleared_iff (fun _ _ => rfl) (Scenario.sparesWinner_seconds Scenario.rollback) applied
  cases counted.symm.trans counted'
  cases won.symm.trans won'
  cases done
  have comesFirst : ([Deed.vote Scenario.create Scenario.second,
      .vote Scenario.rollback Scenario.second].foldl after Scenario.halfWay).winner? =
      some Scenario.create := by decide +kernel
  refine ⟨_, _, _, applied, counted, won, rfl, alone.2 ?_, by decide +kernel⟩
  intro other stands
  exact Option.some.inj (stands.symm.trans comesFirst)

end Election

end TwoWayPeg
