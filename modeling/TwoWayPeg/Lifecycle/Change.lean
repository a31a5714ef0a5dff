import TwoWayPeg.Lifecycle.Env

/-!
Changes of the federation: one is created, gets members, and is committed or rolled back. A dry
run gives the answer of the change and leaves the state as it is.
-/

namespace TwoWayPeg

/-- The answer to a call that changes the federation. -/
inductive ChangeResponse where
  | success
  /-- The vote counts, and no call has won. -/
  | voteRecorded
  | pendingFederationExists
  | awaitingActivation
  | retiringFederationExists
  | noPendingFederation
  | keyAlreadyExists
  | malformedKey
  | incompleteFederation
  | hashMismatch
  | unauthorizedCaller
  | nonExistingFunction
  | genericError
deriving DecidableEq, Inhabited

namespace ChangeResponse

/-- The number that the caller gets. -/
def code : ChangeResponse → Int
  | .success | .voteRecorded => 1
  | .pendingFederationExists | .noPendingFederation => -1
  | .awaitingActivation | .keyAlreadyExists | .incompleteFederation => -2
  | .retiringFederationExists | .hashMismatch => -3
  | .malformedKey | .unauthorizedCaller | .nonExistingFunction | .genericError => -10

/-- Whether the call did what it was asked to. -/
def isSuccess (r : ChangeResponse) : Bool := r.code = 1

/-- The name of an answer in reports. -/
def label : ChangeResponse → String
  | .success => "success"
  | .voteRecorded => "vote_recorded"
  | .pendingFederationExists => "pending_federation_exists"
  | .awaitingActivation => "awaiting_activation"
  | .retiringFederationExists => "retiring_federation_exists"
  | .noPendingFederation => "no_pending_federation"
  | .keyAlreadyExists => "key_already_exists"
  | .malformedKey => "malformed_key"
  | .incompleteFederation => "incomplete_federation"
  | .hashMismatch => "hash_mismatch"
  | .unauthorizedCaller => "unauthorized_caller"
  | .nonExistingFunction => "non_existing_function"
  | .genericError => "generic_error"

end ChangeResponse

/-- The announcement of a committed federation. -/
structure CommitEvent where
  block : UInt64
  oldFederation : Federation
  newFederation : Federation
  /-- The block from which the new federation is active. -/
  activationBlock : UInt64
deriving DecidableEq

/-- The answer to a change, and the announcement it makes. -/
structure ChangeResult where
  response : ChangeResponse
  event : Option CommitEvent := none
deriving DecidableEq

namespace State

variable (s : State) (env : Env)

/-- Starts to assemble a federation. -/
def createFederation (dryRun : Bool) : Except PegError (ChangeResult × State) := do
  if s.pending.isSome then return ({ response := .pendingFederationExists }, s)
  let awaiting ← match s.newFederation with
    | some new => (! ·) <$> env.shouldBeActive new
    | none => pure false
  if awaiting then return ({ response := .awaitingActivation }, s)
  let retiring ← s.retiringFederation env
  if retiring.isSome then return ({ response := .retiringFederationExists }, s)
  if dryRun then return ({ response := .success }, s)
  return ({ response := .success }, { s with pending := some {} })

/-- Adds a member to the federation that is being assembled. -/
def addMember (dryRun : Bool) (m : Member) : ChangeResult × State :=
  match s.pending with
  | none => ({ response := .noPendingFederation }, s)
  | some pending =>
    if pending.conflictsWith m then ({ response := .keyAlreadyExists }, s)
    else if dryRun then ({ response := .success }, s)
    else ({ response := .success }, { s with pending := some (pending.add m) })

/-- Gives up the federation that is being assembled, and all votes. -/
def rollbackFederation (dryRun : Bool) : ChangeResult × State :=
  if s.pending.isNone then ({ response := .noPendingFederation }, s)
  else if dryRun then ({ response := .success }, s)
  else ({ response := .success },
    { s with pending := none, federationElection := s.federationElection.clear })

/-- The state once a federation has replaced the active one. -/
def installed (new active : Federation) : State :=
  { s with
    oldUtxos := s.newUtxos
    newUtxos := []
    oldFederation := some active
    newFederation := some new
    pending := none
    federationElection := s.federationElection.clear
    nextCreationHeight := some env.block.number }

/-- Commits the federation that is being assembled, if `hash` is its hash. -/
def commitFederation (dryRun : Bool) (hash : Hash256) :
    Except PegError (ChangeResult × State) := do
  match s.pending with
  | none => return ({ response := .noPendingFederation }, s)
  | some pending =>
    if !pending.isComplete then return ({ response := .incompleteFederation }, s)
    if pending.hash ≠ hash then return ({ response := .hashMismatch }, s)
    if dryRun then return ({ response := .success }, s)
    match pending.build env.block.timestamp env.block.number env.constants env.activations with
    | .error (.overflow cause) => throw (.overflow cause)
    | .error _ => return ({ response := .genericError }, s)
    | .ok new =>
      let active ← s.activeFederation env
      let activationBlock ← addChecked env.block.number env.activationAge
      let event : CommitEvent :=
        { block := env.block.number, oldFederation := active, newFederation := new,
          activationBlock }
      return ({ response := .success, event := some event }, s.installed env new active)

end State

end TwoWayPeg
