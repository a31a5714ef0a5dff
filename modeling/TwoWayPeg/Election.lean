import TwoWayPeg.Bytes.Fixed
import TwoWayPeg.Ordered.Map
import TwoWayPeg.Ordered.Set

/-!
Elections: authorised voters agree on a call of a function, and a call that enough of them have
voted for wins.
-/

namespace TwoWayPeg

/-- A call that voters agree on: a function and the bytes of its arguments. -/
structure CallSpec where
  function : String
  arguments : List Bytes
deriving DecidableEq, Inhabited

namespace CallSpec

/-- Calls are ordered by the name of the function, then by the arguments. -/
instance : Ord CallSpec where
  compare a b := (compare a.function b.function).then (compare a.arguments b.arguments)

theorem compare_eq : (compare : CallSpec → CallSpec → Ordering) =
    compareLex (compareOn function) (compareOn arguments) := rfl

instance : Std.TransOrd CallSpec := by
  unfold Std.TransOrd
  rw [compare_eq]
  infer_instance

instance : Std.LawfulEqOrd CallSpec where
  compare_self {a} := by
    rw [compare_eq]
    exact Std.ReflCmp.compare_self
  eq_of_compare {a b} h := by
    rw [compare_eq] at h
    simp only [compareLex, compareOn, Ordering.then_eq_eq] at h
    obtain ⟨hfunction, harguments⟩ := h
    cases a; cases b
    simp_all [Std.LawfulEqCmp.compare_eq_iff_eq]

end CallSpec

/-- How many of the authorised voters have to agree. -/
inductive VotePolicy where
  | one
  | majority
  | all
deriving DecidableEq, Inhabited

namespace VotePolicy

/-- The policies in the order in which they are listed. -/
def list : List VotePolicy := [.one, .majority, .all]

/-- The name of a policy. -/
def name : VotePolicy → String
  | .one => "one"
  | .majority => "majority"
  | .all => "all"

/-- The policy with a name. -/
def ofName? (s : String) : Option VotePolicy := list.find? fun p => p.name == s

end VotePolicy

/-- The voters of an election and how many of them have to agree. -/
structure Authorizer where
  authorized : List ChainAddress
  policy : VotePolicy
deriving DecidableEq, Inhabited

namespace Authorizer

/-- Whether an account may vote. -/
def allows (a : Authorizer) (voter : ChainAddress) : Bool := a.authorized.contains voter

/-- The number of votes that wins. -/
def required (a : Authorizer) : Nat :=
  match a.policy with
  | .one => 1
  | .majority => a.authorized.length / 2 + 1
  | .all => a.authorized.length

end Authorizer

/-- The votes of an election: for each call that has any, its voters. -/
abbrev Votes := OrderedMap CallSpec (OrderedSet ChainAddress)

/-- An election. -/
structure Election where
  authorizer : Authorizer
  votes : Votes := .empty
deriving DecidableEq, Inhabited

/-- What comes of a vote. -/
inductive VoteOutcome (α : Type) where
  /-- The voter may not vote or has voted for the call before. -/
  | rejected
  /-- The vote counts, and no call has won. -/
  | recorded
  /-- The vote counts, and a call has won and been carried out with a result. -/
  | applied (result : α)

namespace Election

/-- The voters of a call. -/
def tally (e : Election) (spec : CallSpec) : OrderedSet ChainAddress :=
  (e.votes.get? spec).getD .empty

/-- Whether a vote would count. -/
def accepts (e : Election) (spec : CallSpec) (voter : ChainAddress) : Bool :=
  e.authorizer.allows voter ∧ voter ∉ e.tally spec

/-- The election after a vote, if the vote counts. -/
def vote? (e : Election) (spec : CallSpec) (voter : ChainAddress) : Option Election :=
  if e.accepts spec voter then
    some { e with votes := e.votes.insert spec ((e.tally spec).insert voter) }
  else none

/-- The first call in order that has enough votes. -/
def winner? (e : Election) : Option CallSpec :=
  (e.votes.entries.find? fun entry => e.authorizer.required ≤ entry.2.size).map (·.1)

/-- The election without the votes for a call. -/
def remove (e : Election) (spec : CallSpec) : Election := { e with votes := e.votes.erase spec }

/-- The winner, and the election without the votes for it. -/
def takeWinner? (e : Election) : Option (CallSpec × Election) :=
  e.winner?.map fun spec => (spec, e.remove spec)

/-- The election without the votes for the winner, if there is one. -/
def clearWinner (e : Election) : Election := (e.winner?.map e.remove).getD e

/-- The election without votes. -/
def clear (e : Election) : Election := { e with votes := .empty }

/-- Votes in an election that an owner holds; once a call has won, carries it out and clears the
    votes for the winner that then stands. Carrying it out may change the owner in any way, the
    election included. -/
def voteAndApplyWithin {σ α : Type} {m : Type → Type} [Monad m] (get : σ → Election)
    (set : σ → Election → σ) (owner : σ) (spec : CallSpec) (voter : ChainAddress)
    (effect : σ → CallSpec → m (α × σ)) : m (VoteOutcome α × σ) :=
  match (get owner).vote? spec voter with
  | none => pure (.rejected, owner)
  | some voted =>
    let owner := set owner voted
    match voted.winner? with
    | none => pure (.recorded, owner)
    | some winner => do
      let (result, owner) ← effect owner winner
      pure (.applied result, set owner (get owner).clearWinner)

/-- Votes; once a call has won, applies a function to it and clears its votes. -/
def voteAndApply {α : Type} (e : Election) (spec : CallSpec) (voter : ChainAddress)
    (effect : CallSpec → α) : VoteOutcome α × Election :=
  Id.run <| voteAndApplyWithin id (fun _ e => e) e spec voter fun e winner =>
    pure (effect winner, e)

end Election

end TwoWayPeg
