import TwoWayPeg.Federation.Pending
import TwoWayPeg.Transaction.Basic
import TwoWayPeg.Utxo

/-!
The state of the peg.
-/

namespace TwoWayPeg

/-- A transaction that waits to be signed, with the host-chain block that created it. -/
structure WaitingPegout where
  created : UInt64
  transaction : Transaction
deriving DecidableEq, Inhabited

/-- The state of the peg. -/
structure State where
  /-- The federation that was committed last. -/
  newFederation : Option Federation := none
  /-- The federation that was active when the last one was committed. -/
  oldFederation : Option Federation := none
  pending : Option PendingFederation := none
  newUtxos : List Utxo := []
  oldUtxos : List Utxo := []
  federationElection : Election
  feeElection : Election
  /-- Satoshis for a thousand bytes; none before the first successful vote. -/
  feePerKb : Option UInt64 := none
  /-- The output script of the federation that was decommissioned last. -/
  lastRetiredScript : Option Script := none
  activeCreationHeight : Option UInt64 := none
  nextCreationHeight : Option UInt64 := none
  /-- The hashes that signatures of the first inputs of pegouts commit to. -/
  pegoutSighashes : OrderedSet Hash256 := .empty
  /-- The transactions that wait to be signed, oldest first. -/
  waitingPegouts : List WaitingPegout := []
deriving DecidableEq

namespace State

/-- The state of a new peg. -/
def initial (c : Constants) : State where
  federationElection := { authorizer := c.federationAuthorizer }
  feeElection := { authorizer := c.feeAuthorizer }

variable (s : State)

/-- The fee rate in force. -/
def feeRate (c : Constants) : UInt64 := s.feePerKb.getD c.genesisFeePerKb

/-- Whether a hash is that of a known pegout. -/
def knowsSighash (hash : Hash256) : Bool := hash ∈ s.pegoutSighashes

/-- Takes the transactions that have waited long enough at a block out of the queue. -/
def takeConfirmed (c : Constants) (block : UInt64) :
    Except PegError (List Transaction × State) := do
  let judged ← s.waitingPegouts.mapM fun p => do
    let due ← addChecked p.created c.pegoutConfirmations
    return (p, decide (due ≤ block))
  let (confirmed, waiting) := judged.partition (·.2)
  return (confirmed.map (·.1.transaction), { s with waitingPegouts := waiting.map (·.1) })

/-- Whether two optional federations are the same custody. -/
def sameCustody : Option Federation → Option Federation → Bool
  | some f, some g => f.sameCustody g
  | none, none => true
  | _, _ => false

/-- Whether two states agree, up to when their federations were created. -/
def agrees (s t : State) : Bool :=
  sameCustody s.newFederation t.newFederation ∧ sameCustody s.oldFederation t.oldFederation ∧
    { s with newFederation := none, oldFederation := none } =
      { t with newFederation := none, oldFederation := none }

end State

end TwoWayPeg
