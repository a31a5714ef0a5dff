import TwoWayPeg.Metrics
import TwoWayPeg.Storage.Persistence

/-!
A running peg: its state in a block of the host chain, the announcements it has made and the
counters of what it has done. An operation that fails leaves the bridge as it was.
-/

namespace TwoWayPeg

/-- A running peg. -/
structure Bridge where
  constants : Constants
  activations : Activations
  block : Block
  state : State
  /-- The announcements, oldest first. -/
  events : List CommitEvent := []
  metrics : Metrics := {}

namespace Bridge

variable (b : Bridge)

/-- A new peg in its first block, with every rule in force. -/
def start (constants : Constants) : Bridge where
  constants
  activations := .all
  block := ⟨1, 1000⟩
  state := .initial constants

/-- What the operations of the block share. -/
def env : Except PegError Env := Env.create b.constants b.activations b.block

/-- The bridge with a change of the federation recorded; without a log the announcement is
    lost. -/
def recordChange (log : Bool) (result : ChangeResult) (state : State) : Bridge :=
  let announced := if log then result.event.toList else []
  { b with
    state
    events := b.events ++ announced
    metrics := if result.event.isSome then b.metrics.add .federationCommits 1 else b.metrics }

/-- Votes on a change of the federation. -/
def vote (log : Bool) (sender : ChainAddress) (spec : CallSpec) :
    Except PegError (ChangeResponse × Bridge) := do
  let (result, state) ← b.state.voteFederationChange (← b.env) sender spec
  let b := b.recordChange log result state
  return (result.response,
    { b with metrics := b.metrics.add (.federationVotes spec result.response) 1 })

/-- Starts to assemble a federation. -/
def create (dryRun : Bool) : Except PegError (ChangeResponse × Bridge) := do
  let (result, state) ← b.state.createFederation (← b.env) dryRun
  return (result.response, b.recordChange true result state)

/-- Adds a member to the federation that is being assembled. -/
def addMember (dryRun : Bool) (m : Member) : Except PegError (ChangeResponse × Bridge) := do
  let _ ← b.env
  let (result, state) := b.state.addMember dryRun m
  return (result.response, b.recordChange true result state)

/-- Gives up the federation that is being assembled. -/
def rollback (dryRun : Bool) : Except PegError (ChangeResponse × Bridge) := do
  let _ ← b.env
  let (result, state) := b.state.rollbackFederation dryRun
  return (result.response, b.recordChange true result state)

/-- Commits the federation that is being assembled. -/
def commit (log dryRun : Bool) (hash : Hash256) : Except PegError (ChangeResponse × Bridge) := do
  let (result, state) ← b.state.commitFederation (← b.env) dryRun hash
  return (result.response, b.recordChange log result state)

/-- Votes for a fee rate. -/
def voteFee (sender : ChainAddress) (fee : Int64) : FeeResponse × Bridge :=
  let (response, state) := b.state.voteFee b.constants sender fee
  (response, { b with state, metrics := b.metrics.add (.feeVotes response) 1 })

/-- Records the creation height of a federation that has become active. -/
def updateHeights : Except PegError Bridge := do
  let state ← b.state.updateCreationHeights (← b.env)
  return { b with state }

/-- Does the work of the migration in the block. -/
def migrate : Except PegError (MigrationOutcome × Bridge) := do
  let (outcome, state) ← b.state.processMigration (← b.env)
  let moved := outcome.migration.elim 0 fun m => m.spent.length
  return (outcome, { b with state, metrics := b.metrics.add .migratedUtxos moved })

/-- Classifies a transaction. -/
def classify (ctx : ClassificationContext) (t : Transaction) (height : UInt64) :
    Except PegError (PegTxType × Bridge) := do
  let (strategy, type) ← ctx.classify t height
  return (type, { b with metrics := b.metrics.add (.classifiedTransactions strategy type) 1 })

/-- Takes the transactions that have waited long enough out of the queue. -/
def takeConfirmed : Except PegError (List Transaction × Bridge) := do
  let (taken, state) ← b.state.takeConfirmed b.constants b.block.number
  return (taken, { b with state })

end Bridge

end TwoWayPeg
