import TwoWayPeg.Bytes.Basic

/-!
The keys under which the state of the peg is stored, and the accesses to them.
-/

namespace TwoWayPeg

/-- A key under which a part of the state is stored. -/
inductive StorageKey where
  | newFederation
  | oldFederation
  | pendingFederation
  | newFederationUtxos
  | oldFederationUtxos
  | federationElection
  | feePerKbElection
  | feePerKb
  | lastRetiredScript
  | activeCreationHeight
  | nextCreationHeight
  | pegoutSighashes
  | waitingPegouts
deriving DecidableEq, Inhabited

namespace StorageKey

/-- The keys in the order in which they are saved. -/
def all : List StorageKey :=
  [.newFederation, .oldFederation, .pendingFederation, .newFederationUtxos, .oldFederationUtxos,
    .federationElection, .feePerKbElection, .feePerKb, .lastRetiredScript, .activeCreationHeight,
    .nextCreationHeight, .pegoutSighashes, .waitingPegouts]

/-- The text of a key. -/
def name : StorageKey → String
  | .newFederation => "newFederation"
  | .oldFederation => "oldFederation"
  | .pendingFederation => "pendingFederation"
  | .newFederationUtxos => "newFederationBtcUTXOs"
  | .oldFederationUtxos => "oldFederationBtcUTXOs"
  | .federationElection => "federationElection"
  | .feePerKbElection => "feePerKbElection"
  | .feePerKb => "feePerKb"
  | .lastRetiredScript => "lastRetiredFedP2SHScript"
  | .activeCreationHeight => "activeFedCreationBlockHeight"
  | .nextCreationHeight => "nextFedCreationBlockHeight"
  | .pegoutSighashes => "pegoutTxSigHashes"
  | .waitingPegouts => "pegoutsWaitingForConfirmations"

/-- The bytes of a key in the store. -/
def bytes (key : StorageKey) : Bytes := Bytes.ofText key.name

theorem mem_all (key : StorageKey) : key ∈ all := by cases key <;> decide

end StorageKey

/-- What an access to a store does. -/
inductive AccessKind where
  | get
  | put
  | delete
deriving DecidableEq, Inhabited

/-- The word for an access. -/
def AccessKind.name : AccessKind → String
  | .get => "get"
  | .put => "put"
  | .delete => "delete"

/-- An access to a store under one key of the state. -/
structure Access where
  kind : AccessKind
  key : StorageKey
deriving DecidableEq, Inhabited

end TwoWayPeg
