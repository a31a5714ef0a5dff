import TwoWayPeg.State

/-!
Votes on the fee rate of migrations.
-/

namespace TwoWayPeg

/-- The answer to a vote on the fee rate. -/
inductive FeeResponse where
  | success
  | unauthorizedCaller
  | unsuccessfulVote
  | negativeFee
  | excessiveFee
deriving DecidableEq, Inhabited

namespace FeeResponse

/-- The number that the caller gets. -/
def code : FeeResponse → Int
  | .success => 1
  | .unsuccessfulVote => -1
  | .negativeFee => -2
  | .excessiveFee => -3
  | .unauthorizedCaller => -10

/-- The name of an answer in reports. -/
def label : FeeResponse → String
  | .success => "success"
  | .unauthorizedCaller => "unauthorized_caller"
  | .unsuccessfulVote => "unsuccessful_vote"
  | .negativeFee => "negative_fee"
  | .excessiveFee => "excessive_fee"

end FeeResponse

/-- The call that sets the fee rate. -/
def CallSpec.setFee (fee : UInt64) : CallSpec where
  function := "setFeePerKb"
  arguments := [Bytes.bigEndian 8 fee.toNat]

/-- The fee rate that a call sets: its only argument, of eight bytes. -/
def CallSpec.fee? (spec : CallSpec) : Option UInt64 :=
  match spec.arguments with
  | [fee] => if fee.length = 8 then some (UInt64.ofNat (Bytes.toNatBE fee)) else none
  | _ => none

namespace State

variable (s : State)

/-- Votes for a fee rate. -/
def voteFee (c : Constants) (sender : ChainAddress) (fee : Int64) : FeeResponse × State :=
  if !s.feeElection.authorizer.allows sender then (.unauthorizedCaller, s)
  else if fee ≤ 0 then (.negativeFee, s)
  else if c.maxFeePerKb < fee.toUInt64 then (.excessiveFee, s)
  else
    match s.feeElection.voteAndApply (CallSpec.setFee fee.toUInt64) sender CallSpec.fee? with
    | (.rejected, _) => (.unsuccessfulVote, s)
    | (.recorded, e) => (.success, { s with feeElection := e })
    | (.applied (some winner), e) =>
      (.success, { s with feeElection := e, feePerKb := some winner })
    | (.applied none, e) => (.unsuccessfulVote, { s with feeElection := e })

end State

end TwoWayPeg
