import TwoWayPeg.Proofs.Reload
import TwoWayPeg.Proofs.StoredForm

/-!
# What loading makes of stored bytes

A load refuses some bytes that no save would write, and takes others for a state that is saved as
other bytes. For each key there is a check of the bytes under it. It holds just if the part that is
loaded is written as those bytes. A list that was cut short is loaded as the empty one.
-/

namespace TwoWayPeg

open Rlp

namespace StorageKey

/-- Whether the bytes under a key stand as they are written. -/
def isCanonical : StorageKey → Bytes → Bool
  | .newFederation | .oldFederation => Federation.isCanonical
  | .pendingFederation => isListOf Member.isCanonical
  | .newFederationUtxos | .oldFederationUtxos => isListOf Utxo.isCanonical
  | .federationElection | .feePerKbElection => Votes.isCanonical
  | .feePerKb | .lastRetiredScript | .activeCreationHeight | .nextCreationHeight => isPlain
  | .pegoutSighashes => FixedBytes.isCanonicalSet 32
  | .waitingPegouts => isListOf WaitingPegout.isCanonical

/-- Whether the part under a key is a collection, which is not stored if it is empty. -/
def isCollection : StorageKey → Bool
  | .newFederationUtxos | .oldFederationUtxos | .federationElection | .feePerKbElection
  | .pegoutSighashes | .waitingPegouts => true
  | _ => false

end StorageKey

namespace State

/-- The bytes that the part of a state under a key is written as: those that are stored, or an empty
    list for an empty collection. -/
def serialized? (s : State) (key : StorageKey) : Option Bytes :=
  (s.stored? key).or (if key.isCollection then some (encodeList []) else none)

variable {s : State} {key : StorageKey}

theorem serialized?_of_single (single : key.isCollection = false) :
    s.serialized? key = s.stored? key := by
  rw [serialized?, single, if_neg Bool.false_ne_true, Option.or_none]

theorem serialized?_of_list {α : Type} {l : List α} {write : α → Bytes}
    (collection : key.isCollection = true)
    (stored : s.stored? key = (nonEmpty? l).map fun l => encodeList (l.map write)) :
    s.serialized? key = some (encodeList (l.map write)) := by
  rw [serialized?, stored, collection]
  cases l <;> rfl

theorem serialized?_of_isEmpty {empty : Bool} {written : Bytes}
    (collection : key.isCollection = true)
    (stored : s.stored? key = if empty then none else some written)
    (nothing : empty = true → written = encodeList []) : s.serialized? key = some written := by
  rw [serialized?, stored, collection]
  cases empty with
  | true => rw [nothing rfl]; rfl
  | false => rfl

theorem serialized?_of_votes {votes : Votes} (collection : key.isCollection = true)
    (stored : s.stored? key = if votes.isEmpty then none else some votes.toRlp) :
    s.serialized? key = some votes.toRlp := by
  apply serialized?_of_isEmpty collection stored
  intro empty
  rw [Votes.toRlp, List.isEmpty_iff.1 empty]
  rfl

theorem serialized?_pegoutSighashes :
    s.serialized? .pegoutSighashes = some (sighashesToRlp s.pegoutSighashes) := by
  apply serialized?_of_isEmpty rfl rfl
  intro empty
  rw [sighashesToRlp, List.isEmpty_iff.1 empty]
  rfl

end State

open State

namespace Store

variable {refused : Outage} {store : Store} {key : StorageKey} {α : Type}
  {decode? : Bytes → Option α} {write : α → Bytes} {check : Bytes → Bool} {bytes : Bytes}

/-- Bytes that are present and read are decoded. -/
theorem decode?_of_read {value? : Option α} (present : store.get? key.bytes = some bytes)
    (read : store.read refused key decode? = .ok value?) :
    ∃ value, value? = some value ∧ decode? bytes = some value := by
  unfold Store.read at read
  rw [present] at read
  split at read
  · cases read
  · dsimp only at read
    split at read
    · next value decoded =>
      cases read
      exact ⟨value, rfl, decoded⟩
    · cases read

theorem decode?_of_readD {default value : α} (present : store.get? key.bytes = some bytes)
    (read : store.readD refused key decode? default = .ok value) : decode? bytes = some value := by
  obtain ⟨value?, found, rfl⟩ := readD_eq_ok_iff.1 read
  obtain ⟨value, rfl, decoded⟩ := decode?_of_read present found
  exact decoded

theorem map_write_eq_iff (canonical : Canonical decode? write check) {value? : Option α}
    (short : bytes.length < 2 ^ 64) (present : store.get? key.bytes = some bytes)
    (read : store.read refused key decode? = .ok value?) :
    value?.map write = some bytes ↔ check bytes = true := by
  obtain ⟨value, rfl, decoded⟩ := decode?_of_read present read
  rw [Option.map_some, Option.some.injEq, canonical.write_eq_iff short decoded]

theorem write_eq_iff (canonical : Canonical decode? write check) {default value : α}
    (short : bytes.length < 2 ^ 64) (present : store.get? key.bytes = some bytes)
    (read : store.readD refused key decode? default = .ok value) :
    some (write value) = some bytes ↔ check bytes = true := by
  rw [Option.some.injEq, canonical.write_eq_iff short (decode?_of_readD present read)]

theorem of_readFederation {network : Network} {f? : Option Federation}
    (present : store.get? key.bytes = some bytes)
    (read : store.readFederation refused key network = .ok f?) :
    ∃ stored f, f? = some f ∧ Federation.Stored.ofRlp? bytes = some stored ∧
      stored.build network = .ok f := by
  obtain ⟨stored?, first, rest⟩ := bind_eq_ok_iff.1 read
  obtain ⟨stored, rfl, decoded⟩ := decode?_of_read present first
  dsimp only at rest
  split at rest
  · next f built =>
    cases rest
    exact ⟨stored, f, rfl, decoded, built⟩
  · cases rest
  · cases rest

theorem map_federation_eq_iff {network : Network} {f? : Option Federation}
    (short : bytes.length < 2 ^ 64) (present : store.get? key.bytes = some bytes)
    (read : store.readFederation refused key network = .ok f?) :
    f?.map Federation.toRlp = some bytes ↔ Federation.isCanonical bytes = true := by
  obtain ⟨stored, f, rfl, decoded, built⟩ := of_readFederation present read
  rw [Option.map_some, Option.some.injEq, Federation.toRlp_eq_iff short decoded built]

/-- What is loaded from bytes is written as those bytes just if they pass the check of their key. -/
theorem loaded_as_stored_iff {c : Constants} {t : State} (loaded : store.load refused c = .ok t)
    (present : store.get? key.bytes = some bytes) (short : bytes.length < 2 ^ 64) :
    t.serialized? key = some bytes ↔ key.isCanonical bytes = true := by
  have parts := load_eq_ok_iff.1 loaded
  cases key with
  | newFederation =>
    rw [serialized?_of_single rfl]
    exact map_federation_eq_iff short present parts.newFederation
  | oldFederation =>
    rw [serialized?_of_single rfl]
    exact map_federation_eq_iff short present parts.oldFederation
  | pendingFederation =>
    rw [serialized?_of_single rfl]
    exact map_write_eq_iff PendingFederation.canonical short present parts.pending
  | newFederationUtxos =>
    rw [serialized?_of_list rfl rfl]
    exact write_eq_iff Utxo.canonical.listOf short present parts.newUtxos
  | oldFederationUtxos =>
    rw [serialized?_of_list rfl rfl]
    exact write_eq_iff Utxo.canonical.listOf short present parts.oldUtxos
  | federationElection =>
    rw [serialized?_of_votes rfl rfl]
    exact write_eq_iff Votes.canonical short present parts.federationVotes
  | feePerKbElection =>
    rw [serialized?_of_votes rfl rfl]
    exact write_eq_iff Votes.canonical short present parts.feeVotes
  | feePerKb =>
    rw [serialized?_of_single rfl]
    exact map_write_eq_iff canonical_uint64 short present parts.feePerKb
  | lastRetiredScript =>
    rw [serialized?_of_single rfl]
    exact map_write_eq_iff canonical_bytes short present parts.lastRetiredScript
  | activeCreationHeight =>
    rw [serialized?_of_single rfl]
    exact map_write_eq_iff canonical_uint64 short present parts.activeCreationHeight
  | nextCreationHeight =>
    rw [serialized?_of_single rfl]
    exact map_write_eq_iff canonical_uint64 short present parts.nextCreationHeight
  | pegoutSighashes =>
    rw [serialized?_pegoutSighashes]
    exact write_eq_iff FixedBytes.canonical_set short present parts.pegoutSighashes
  | waitingPegouts =>
    rw [serialized?_of_list rfl rfl]
    exact write_eq_iff WaitingPegout.canonical.listOf short present parts.waitingPegouts

/-- Bytes that cannot be decoded are not read. -/
theorem read_ne_ok {value? : Option α} (present : store.get? key.bytes = some bytes)
    (none : decode? bytes = none) : store.read refused key decode? ≠ .ok value? := by
  intro read
  obtain ⟨value, _, decoded⟩ := decode?_of_read present read
  rw [none] at decoded
  cases decoded

theorem readFederation_ne_ok {network : Network} {f? : Option Federation}
    (present : store.get? key.bytes = some bytes) (empty : list? bytes = some []) :
    store.readFederation refused key network ≠ .ok f? := by
  intro read
  obtain ⟨stored, f, _, decoded, _⟩ := of_readFederation present read
  rw [Federation.Stored.ofRlp?, empty] at decoded
  cases decoded

theorem eq_nil_of_readD {item? : Bytes → Option α} {l : List α}
    (present : store.get? key.bytes = some bytes) (empty : list? bytes = some [])
    (read : store.readD refused key (listOf? item?) [] = .ok l) : l = [] := by
  have decoded := decode?_of_readD present read
  rw [listOf?, empty] at decoded
  exact (Option.some.inj decoded).symm

theorem eq_empty_of_readD {votes : Votes} (present : store.get? key.bytes = some bytes)
    (empty : list? bytes = some [])
    (read : store.readD refused key Votes.ofRlp? .empty = .ok votes) : votes = .empty := by
  have decoded := decode?_of_readD present read
  rw [Votes.ofRlp?, listOf?, empty] at decoded
  exact (Option.some.inj decoded).symm

/-- A part that was cut short out of any list is loaded as an empty collection, if at all. -/
theorem serialized?_of_cut {c : Constants} {t : State} {items : List Bytes} {front back : Bytes}
    (loaded : store.load refused c = .ok t) (present : store.get? key.bytes = some front)
    (cut : front ++ back = encodeList items) (fits : items.flatten.length < 2 ^ 64)
    (left : front ≠ []) (lost : back ≠ []) : t.serialized? key = some (encodeList []) := by
  have parts := load_eq_ok_iff.1 loaded
  have empty : list? front = some [] := list?_of_cut cut fits left lost
  have string : bytes? front = none := bytes?_eq_none_of_list? empty
  have number : uint64? front = none := by
    rw [uint64?, nat?, string]
    rfl
  cases key with
  | newFederation => exact absurd parts.newFederation (readFederation_ne_ok present empty)
  | oldFederation => exact absurd parts.oldFederation (readFederation_ne_ok present empty)
  | pendingFederation =>
    obtain ⟨p, found, decoded⟩ := decode?_of_read present parts.pending
    rw [PendingFederation.ofRlp?, listOf?, empty] at decoded
    cases decoded
    rw [serialized?_of_single rfl, stored?, found]
    rfl
  | newFederationUtxos =>
    rw [serialized?_of_list rfl rfl, eq_nil_of_readD present empty parts.newUtxos]
    rfl
  | oldFederationUtxos =>
    rw [serialized?_of_list rfl rfl, eq_nil_of_readD present empty parts.oldUtxos]
    rfl
  | federationElection =>
    rw [serialized?_of_votes rfl rfl, eq_empty_of_readD present empty parts.federationVotes]
    rfl
  | feePerKbElection =>
    rw [serialized?_of_votes rfl rfl, eq_empty_of_readD present empty parts.feeVotes]
    rfl
  | feePerKb => exact absurd parts.feePerKb (read_ne_ok present number)
  | lastRetiredScript => exact absurd parts.lastRetiredScript (read_ne_ok present string)
  | activeCreationHeight => exact absurd parts.activeCreationHeight (read_ne_ok present number)
  | nextCreationHeight => exact absurd parts.nextCreationHeight (read_ne_ok present number)
  | pegoutSighashes =>
    have decoded := decode?_of_readD present parts.pegoutSighashes
    rw [sighashesOfRlp?, listOf?, empty] at decoded
    rw [serialized?_pegoutSighashes, ← Option.some.inj decoded]
    rfl
  | waitingPegouts =>
    rw [serialized?_of_list rfl rfl, eq_nil_of_readD present empty parts.waitingPegouts]
    rfl

end Store

namespace Scenario

/-- An output of the first block. -/
def deposit : Utxo := { output 0 50000 with height := 0 }

/-- The store that holds the list of one output without its last byte under the key of the active
    federation, and the whole list under that of the retiring one. -/
def cutStore : Store :=
  (Store.put {} StorageKey.newFederationUtxos.bytes (encodeList [deposit.toRlp]).dropLast).put
    StorageKey.oldFederationUtxos.bytes (encodeList [deposit.toRlp])

theorem load_cutStore : cutStore.load (fun _ => false) Constants.regtest =
    .ok { State.initial Constants.regtest with oldUtxos := [deposit] } :=
  toOption_eq_some_iff.1 (by decide +kernel)

theorem whole_cutStore : cutStore.get? StorageKey.oldFederationUtxos.bytes =
    some (encodeList [deposit.toRlp]) := by
  decide +kernel

theorem cut_cutStore : cutStore.get? StorageKey.newFederationUtxos.bytes =
    some (encodeList [deposit.toRlp]).dropLast := by
  decide +kernel

end Scenario

namespace Store

/-- A list of outputs that lacks its last byte is loaded without an error and without outputs. -/
theorem not_loaded_as_stored :
    ¬ ∀ (store : Store) (c : Constants) (t : State) (key : StorageKey) (bytes : Bytes),
      store.load (fun _ => false) c = .ok t → store.get? key.bytes = some bytes →
      t.serialized? key = some bytes := by
  intro claim
  have cut : (encodeList [Scenario.deposit.toRlp]).dropLast ++ [0x80] =
      encodeList [Scenario.deposit.toRlp] := by
    decide +kernel
  have written := claim _ _ _ _ _ Scenario.load_cutStore Scenario.cut_cutStore
  rw [serialized?_of_cut Scenario.load_cutStore Scenario.cut_cutStore cut (by decide +kernel)
    (by decide +kernel) (by decide)] at written
  exact absurd written (by decide +kernel)

/-- Of two lists of outputs in a store the whole one is loaded as it is stored, and the one that was
    cut short is not. -/
theorem loaded_as_stored_iff_of_lists :
    ∃ (store : Store) (t : State) (whole short : Bytes),
      store.load (fun _ => false) Constants.regtest = .ok t ∧
      store.get? StorageKey.oldFederationUtxos.bytes = some whole ∧
      store.get? StorageKey.newFederationUtxos.bytes = some short ∧
      whole.length < 2 ^ 64 ∧ short.length < 2 ^ 64 ∧
      (t.serialized? .oldFederationUtxos = some whole ↔
        StorageKey.isCanonical .oldFederationUtxos whole = true) ∧
      (t.serialized? .newFederationUtxos = some short ↔
        StorageKey.isCanonical .newFederationUtxos short = true) ∧
      StorageKey.isCanonical .oldFederationUtxos whole = true ∧
      StorageKey.isCanonical .newFederationUtxos short = false := by
  have fits : (encodeList [Scenario.deposit.toRlp]).length < 2 ^ 64 := by decide +kernel
  have fits' : (encodeList [Scenario.deposit.toRlp]).dropLast.length < 2 ^ 64 := by
    decide +kernel
  exact ⟨Scenario.cutStore, _, _, _, Scenario.load_cutStore, Scenario.whole_cutStore,
    Scenario.cut_cutStore, fits, fits',
    loaded_as_stored_iff Scenario.load_cutStore Scenario.whole_cutStore fits,
    loaded_as_stored_iff Scenario.load_cutStore Scenario.cut_cutStore fits',
    by decide +kernel, by decide +kernel⟩

end Store

end TwoWayPeg
