import TwoWayPeg.Storage.Codec
import TwoWayPeg.Storage.Store

/-!
Saving the state to a store and loading it. The store may refuse accesses: `refused` says which.
-/

namespace TwoWayPeg

namespace State

/-- A list, unless it is empty. -/
def nonEmpty? {α : Type} (l : List α) : Option (List α) := if l.isEmpty then none else some l

/-- The bytes stored under a key; nothing is stored for an absent value or an empty collection. -/
def stored? (s : State) : StorageKey → Option Bytes
  | .newFederation => s.newFederation.map Federation.toRlp
  | .oldFederation => s.oldFederation.map Federation.toRlp
  | .pendingFederation => s.pending.map PendingFederation.toRlp
  | .newFederationUtxos =>
    (nonEmpty? s.newUtxos).map fun utxos => Rlp.encodeList (utxos.map Utxo.toRlp)
  | .oldFederationUtxos =>
    (nonEmpty? s.oldUtxos).map fun utxos => Rlp.encodeList (utxos.map Utxo.toRlp)
  | .federationElection =>
    let votes := s.federationElection.votes
    if votes.isEmpty then none else some votes.toRlp
  | .feePerKbElection =>
    let votes := s.feeElection.votes
    if votes.isEmpty then none else some votes.toRlp
  | .feePerKb => s.feePerKb.map fun n => Rlp.encodeNat n.toNat
  | .lastRetiredScript => s.lastRetiredScript.map Rlp.encodeBytes
  | .activeCreationHeight => s.activeCreationHeight.map fun n => Rlp.encodeNat n.toNat
  | .nextCreationHeight => s.nextCreationHeight.map fun n => Rlp.encodeNat n.toNat
  | .pegoutSighashes =>
    if s.pegoutSighashes.isEmpty then none else some (sighashesToRlp s.pegoutSighashes)
  | .waitingPegouts =>
    (nonEmpty? s.waitingPegouts).map fun l => Rlp.encodeList (l.map WaitingPegout.toRlp)

end State

namespace Store

/-- The accesses to a store that fail. -/
abbrev Outage := Access → Bool

/-- Makes the bytes under a key those of a state, and says how it ended. A store that holds them
    already is not written to. -/
def saveKey (refused : Outage) (state : State) (store : Store) (key : StorageKey) :
    Except PegError Unit × Store :=
  let wanted := state.stored? key
  if refused ⟨.get, key⟩ then (.error (.storage ⟨.get, key⟩), store)
  else if store.get? key.bytes = wanted then (.ok (), store)
  else match wanted with
    | some bytes =>
      if refused ⟨.put, key⟩ then (.error (.storage ⟨.put, key⟩), store)
      else (.ok (), store.put key.bytes bytes)
    | none =>
      if refused ⟨.delete, key⟩ then (.error (.storage ⟨.delete, key⟩), store)
      else (.ok (), store.delete key.bytes)

/-- Saves the parts of a state under some keys in turn, up to the first failure. -/
def saveKeys (refused : Outage) (state : State) : List StorageKey → Store →
    Except PegError Unit × Store
  | [], store => (.ok (), store)
  | key :: rest, store =>
    match saveKey refused state store key with
    | (.ok (), store) => saveKeys refused state rest store
    | failed => failed

/-- Saves a state, and says how it ended; what was written before a failure stays written. -/
def save (refused : Outage) (state : State) (store : Store) : Except PegError Unit × Store :=
  saveKeys refused state StorageKey.all store

/-- The value under a key, if there is one; bytes that cannot be decoded are an error. -/
def read (refused : Outage) (store : Store) (key : StorageKey) {α : Type}
    (decode? : Bytes → Option α) : Except PegError (Option α) :=
  if refused ⟨.get, key⟩ then .error (.storage ⟨.get, key⟩)
  else match store.get? key.bytes with
    | none => .ok none
    | some bytes =>
      match decode? bytes with
      | some value => .ok (some value)
      | none => .error (.corrupted key)

/-- The federation under a key. Its stored form is corrupted also if no federation is as it says;
    an overflow while the federation is built is not taken for that. -/
def readFederation (refused : Outage) (store : Store) (key : StorageKey) (network : Network) :
    Except PegError (Option Federation) := do
  match ← store.read refused key Federation.Stored.ofRlp? with
  | none => return none
  | some stored =>
    match stored.build network with
    | .ok f => return some f
    | .error (.overflow cause) => throw (.overflow cause)
    | .error _ => throw (.corrupted key)

/-- Loads a state. -/
def load (refused : Outage) (store : Store) (c : Constants) : Except PegError State := do
  let federationVotes ← store.read refused .federationElection Votes.ofRlp?
  let feeVotes ← store.read refused .feePerKbElection Votes.ofRlp?
  let newFederation ← store.readFederation refused .newFederation c.network
  let oldFederation ← store.readFederation refused .oldFederation c.network
  let pending ← store.read refused .pendingFederation PendingFederation.ofRlp?
  let newUtxos ← store.read refused .newFederationUtxos (Rlp.listOf? Utxo.ofRlp?)
  let oldUtxos ← store.read refused .oldFederationUtxos (Rlp.listOf? Utxo.ofRlp?)
  let feePerKb ← store.read refused .feePerKb Rlp.uint64?
  let lastRetiredScript ← store.read refused .lastRetiredScript Rlp.bytes?
  let activeCreationHeight ← store.read refused .activeCreationHeight Rlp.uint64?
  let nextCreationHeight ← store.read refused .nextCreationHeight Rlp.uint64?
  let pegoutSighashes ← store.read refused .pegoutSighashes sighashesOfRlp?
  let waitingPegouts ← store.read refused .waitingPegouts (Rlp.listOf? WaitingPegout.ofRlp?)
  return {
    newFederation
    oldFederation
    pending
    newUtxos := newUtxos.getD []
    oldUtxos := oldUtxos.getD []
    federationElection :=
      { authorizer := c.federationAuthorizer, votes := federationVotes.getD .empty }
    feeElection := { authorizer := c.feeAuthorizer, votes := feeVotes.getD .empty }
    feePerKb
    lastRetiredScript
    activeCreationHeight
    nextCreationHeight
    pegoutSighashes := pegoutSighashes.getD .empty
    waitingPegouts := waitingPegouts.getD [] }

end Store

end TwoWayPeg
