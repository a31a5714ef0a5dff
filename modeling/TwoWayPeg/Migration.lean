import TwoWayPeg.Lifecycle.Env

/-!
Migration: the outputs of the retiring federation move to the active one in batches, and the
retiring federation is decommissioned once none is left that is worth moving.
-/

namespace TwoWayPeg

/-- An unsigned transaction that moves outputs to the active federation. -/
structure MigrationTransaction where
  transaction : Transaction
  spent : List Utxo
  /-- Satoshis. -/
  fee : UInt64
deriving DecidableEq

/-- What the migration did in a block. -/
structure MigrationOutcome where
  migration : Option MigrationTransaction := none
  /-- The retiring federation is no more. -/
  decommissioned : Bool := false
  /-- The outputs that were given up with it. -/
  dropped : List Utxo := []
deriving DecidableEq

namespace Migration

/-- An output of at most this value stays behind: half of half the fee rate. -/
def threshold (feeRate : UInt64) : UInt64 := feeRate / 2 / 2

/-- Whether an output is worth moving. -/
def isMigratable (feeRate : UInt64) (u : Utxo) : Bool := threshold feeRate < u.value

/-- The sequence number of inputs that may be replaced. -/
def replaceableSequence : UInt32 := 0xfffffffd

/-- The unsigned transaction that spends a batch and pays a value to a script. -/
def transaction (batch : List Utxo) (value : UInt64) (script : Script) : Transaction where
  version := 2
  lockTime := 0
  inputs := batch.map fun u => { previous := u.outpoint, sequence := replaceableSequence }
  outputs := [{ value, scriptPubkey := script }]

/-- The size of the transaction once signed. Each signed input also has a count of three bytes in
    place of one. -/
def signedSize (retiring : Federation) (unsigned : Transaction) : Nat :=
  unsigned.encode.length + unsigned.inputs.length * (retiring.scriptSigSizeEstimate + 2)

/-- The fee of a transaction of a size. -/
def estimatedFee (feeRate : UInt64) (size : Nat) : Except PegError UInt64 := do
  let product ← mulChecked feeRate size
  return product / 1000

/-- The transaction that moves a batch. The fee is capped so that the moved value does not fall
    below the threshold. -/
def moveBatch (feeRate : UInt64) (retiring active : Federation) (batch : List Utxo) :
    Except PegError MigrationTransaction := do
  let value ← sumChecked (batch.map Utxo.value)
  let script := active.p2shScript
  let estimated ← estimatedFee feeRate (signedSize retiring (transaction batch value script))
  let fee := min estimated (value - threshold feeRate)
  return { transaction := transaction batch (value - fee) script, spent := batch, fee }

end Migration

open Migration

namespace State

variable (s : State) (env : Env)

/-- The state once a transaction has moved a batch. -/
def afterMoving (m : MigrationTransaction) (sighash : Option Hash256) : State :=
  { s with
    oldUtxos := s.oldUtxos.filter fun u => !(m.spent.map Utxo.outpoint).contains u.outpoint
    waitingPegouts := s.waitingPegouts ++ [⟨env.block.number, m.transaction⟩]
    pegoutSighashes := match sighash with
      | some hash => s.pegoutSighashes.insert hash
      | none => s.pegoutSighashes }

/-- Moves the first outputs that are worth it, as many as a transaction may spend. -/
def migrateBatch (retiring active : Federation) :
    Except PegError (Option MigrationTransaction × State) := do
  let feeRate := s.feeRate env.constants
  let batch := (s.oldUtxos.filter (isMigratable feeRate)).take
    env.constants.maxMigrationInputs.toNat
  if batch.isEmpty then return (none, s)
  let m ← moveBatch feeRate retiring active batch
  if env.activations.pegoutTxIndex then
    match m.transaction.firstInputSighash? retiring.redeemScript with
    | some hash => return (some m, s.afterMoving env m (some hash))
    | none => throw .noInput
  else return (some m, s.afterMoving env m none)

/-- The state once the retiring federation is decommissioned. -/
def decommissioned (retiring : Federation) : State :=
  { s with
    lastRetiredScript := some retiring.p2shScript
    oldFederation := none
    oldUtxos := [] }

/-- The work of the migration in a block. -/
def processMigration : Except PegError (MigrationOutcome × State) := do
  match ← s.retiringFederation env with
  | none => return ({}, s)
  | some retiring =>
    let active ← s.activeFederation env
    let age := env.block.number.toNat - active.creationBlock.toNat
    let begins ← addChecked env.activationAge env.constants.migrationAgeBegin
    let ends ← addChecked env.activationAge env.constants.migrationAgeEnd
    let (migration, s) ←
      if begins.toNat ≤ age ∧ !s.oldUtxos.isEmpty then s.migrateBatch env retiring active
      else pure (none, s)
    let worthMoving := s.oldUtxos.any (isMigratable (s.feeRate env.constants))
    if s.oldUtxos.isEmpty ∨ (ends.toNat ≤ age ∧ !worthMoving) then
      return ({ migration, decommissioned := true, dropped := s.oldUtxos },
        s.decommissioned retiring)
    else return ({ migration }, s)

end State

end TwoWayPeg
