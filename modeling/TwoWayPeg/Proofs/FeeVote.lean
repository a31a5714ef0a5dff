import TwoWayPeg.Proofs.Run
import TwoWayPeg.Proofs.Tally

/-!
# What a vote on the fee rate does

`State.feeBallot` votes as `State.voteFee` does and also tells which call the vote carries out.
-/

namespace TwoWayPeg

/-- What comes of a vote on the fee rate. -/
inductive FeeBallot where
  /-- The vote does not count. -/
  | refused (response : FeeResponse)
  /-- The vote counts, and no call has won. -/
  | recorded
  /-- The vote counts, and a call has won and been carried out. -/
  | executed (call : CallSpec)
deriving DecidableEq

/-- The answer to the voter. A call that has won and carries no fee rate is a failure. -/
def FeeBallot.response : FeeBallot → FeeResponse
  | .refused response => response
  | .recorded => .success
  | .executed call => if call.fee?.isSome then .success else .unsuccessfulVote

/-- The call that sets a fee rate carries it. -/
@[simp] theorem CallSpec.fee?_setFee (fee : UInt64) : (setFee fee).fee? = some fee := by
  have fits : fee.toNat % Bytes.capacity 8 = fee.toNat :=
    Nat.mod_eq_of_lt (show fee.toNat < 18446744073709551616 from fee.toNat_lt)
  simp [fee?, setFee, fits]

namespace State

/-- Votes for a fee rate, and tells what comes of it. -/
def feeBallot (s : State) (c : Constants) (sender : ChainAddress) (fee : Int64) :
    FeeBallot × State :=
  if !s.feeElection.authorizer.allows sender then (.refused .unauthorizedCaller, s)
  else if fee ≤ 0 then (.refused .negativeFee, s)
  else if c.maxFeePerKb < fee.toUInt64 then (.refused .excessiveFee, s)
  else
    match s.feeElection.vote? (.setFee fee.toUInt64) sender with
    | none => (.refused .unsuccessfulVote, s)
    | some voted =>
      match voted.winner? with
      | none => (.recorded, { s with feeElection := voted })
      | some winner => (.executed winner,
        { s with feeElection := voted.clearWinner, feePerKb := winner.fee? <|> s.feePerKb })

/-- What a vote on the fee rate can do. -/
inductive FeeCast (s : State) (c : Constants) (sender : ChainAddress) (fee : Int64) :
    FeeBallot → State → Prop
  | refused (response : FeeResponse) : FeeCast s c sender fee (.refused response) s
  | recorded {voted : Election}
      (counted : s.feeElection.vote? (.setFee fee.toUInt64) sender = some voted)
      (open' : voted.winner? = none) :
      FeeCast s c sender fee .recorded { s with feeElection := voted }
  | executed {voted : Election} {winner : CallSpec} (positive : 0 < fee)
      (moderate : fee.toUInt64 ≤ c.maxFeePerKb)
      (counted : s.feeElection.vote? (.setFee fee.toUInt64) sender = some voted)
      (won : voted.winner? = some winner) :
      FeeCast s c sender fee (.executed winner)
        { s with feeElection := voted.clearWinner, feePerKb := winner.fee? <|> s.feePerKb }

variable {s t : State} {c : Constants} {sender : ChainAddress} {fee : Int64} {ballot : FeeBallot}

theorem voteFee_eq_feeBallot (s : State) (c : Constants) (sender : ChainAddress) (fee : Int64) :
    s.voteFee c sender fee =
      ((s.feeBallot c sender fee).1.response, (s.feeBallot c sender fee).2) := by
  unfold voteFee feeBallot Election.voteAndApply Election.voteAndApplyWithin
  split
  · rfl
  split
  · rfl
  split
  · rfl
  dsimp only [id]
  cases s.feeElection.vote? (.setFee fee.toUInt64) sender with
  | none => rfl
  | some voted =>
    dsimp only
    cases voted.winner? with
    | none => rfl
    | some winner =>
      simp only [FeeBallot.response]
      cases winner.fee? <;> rfl

theorem feeBallot_cast (cast : s.feeBallot c sender fee = (ballot, t)) :
    s.FeeCast c sender fee ballot t := by
  unfold feeBallot at cast
  split at cast
  · cases cast
    exact .refused _
  split at cast
  · cases cast
    exact .refused _
  next positive =>
  split at cast
  · cases cast
    exact .refused _
  next moderate =>
  split at cast
  · cases cast
    exact .refused _
  next voted counted =>
  split at cast
  · next open' =>
    cases cast
    exact .recorded counted open'
  · next winner won =>
    cases cast
    exact .executed (Int64.not_le.1 positive) (UInt64.not_lt.1 moderate) counted won

theorem feeBallot_eq (cast : s.feeBallot c sender fee = (ballot, t)) :
    ∃ election rate, t = { s with feeElection := election, feePerKb := rate } := by
  cases feeBallot_cast cast <;> exact ⟨_, _, rfl⟩

theorem FeeCast.authorizer (cast : s.FeeCast c sender fee ballot t) :
    t.feeElection.authorizer = s.feeElection.authorizer := by
  cases cast with
  | refused => rfl
  | recorded counted => exact Election.authorizer_vote? counted
  | executed _ _ counted =>
    exact (Election.authorizer_clearWinner _).trans (Election.authorizer_vote? counted)

/-- If no fee rate had won before a vote, none has won after it. -/
theorem FeeCast.undecided (cast : s.FeeCast c sender fee ballot t)
    (undecided : s.feeElection.winner? = none) : t.feeElection.winner? = none := by
  cases cast with
  | refused => exact undecided
  | recorded _ open' => exact open'
  | @executed voted winner _ _ counted won =>
    have same := Election.winner_eq_voted undecided counted won
    subst same
    show voted.clearWinner.winner? = none
    rw [Election.clearWinner_eq_remove won]
    exact Election.winner?_remove_voted undecided counted

/-- If no fee rate had won before a vote, the one that the vote carries out is the one voted for. -/
theorem FeeCast.executes {call : CallSpec} (cast : s.FeeCast c sender fee (.executed call) t)
    (undecided : s.feeElection.winner? = none) :
    call = .setFee fee.toUInt64 ∧ 0 < fee ∧ fee.toUInt64 ≤ c.maxFeePerKb ∧
      t.feePerKb = some fee.toUInt64 := by
  cases cast with
  | executed positive moderate counted won =>
    have same := Election.winner_eq_voted undecided counted won
    subst same
    exact ⟨rfl, positive, moderate, by simp⟩

end State

namespace Step

/-- What came of the vote on the fee rate in a step. -/
def feeBallot? (step : Step) : Option FeeBallot :=
  match step.operation with
  | .voteFee sender fee =>
    some (step.before.state.feeBallot step.before.constants sender fee).1
  | _ => none

theorem feeBallot?_eq_some {step : Step} {ballot : FeeBallot}
    (performed : step.before.perform step.operation = .ok (step.output, step.after))
    (known : step.feeBallot? = some ballot) :
    ∃ sender fee, step.operation = .voteFee sender fee ∧
      step.before.state.feeBallot step.before.constants sender fee =
        (ballot, step.after.state) := by
  unfold feeBallot? at known
  split at known
  · next sender fee called =>
    cases known
    rw [called] at performed
    obtain ⟨_, done, _⟩ := Bridge.perform_voteFee performed
    rw [State.voteFee_eq_feeBallot, Prod.mk.injEq] at done
    exact ⟨sender, fee, called, Prod.ext rfl done.2⟩
  · cases known

/-- What came of a vote on the fee rate, behind the answer to it. -/
theorem feeBallot?_of_vote {b c : Bridge} {sender : ChainAddress} {fee : Int64} {output : Output}
    (performed : b.perform (.voteFee sender fee) = .ok (output, c)) :
    ∃ ballot, b.state.feeBallot b.constants sender fee = (ballot, c.state) ∧
      feeBallot? ⟨b, .voteFee sender fee, output, c⟩ = some ballot ∧
      output = .fee ballot.response := by
  obtain ⟨_, done, rfl, _⟩ := Bridge.perform_voteFee performed
  rw [State.voteFee_eq_feeBallot, Prod.mk.injEq] at done
  obtain ⟨rfl, after⟩ := done
  exact ⟨_, Prod.ext rfl after, rfl, rfl⟩

end Step

end TwoWayPeg
