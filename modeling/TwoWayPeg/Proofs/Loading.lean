import TwoWayPeg.Proofs.Reload

/-!
# How a load ends

Every content of a store is dealt with: either all that is stored under the keys of the state can be
decoded, and a state is loaded, or the first key in the order of loading whose bytes cannot be
decoded decides how the load ends. It is reported as corrupted, unless the bytes describe a
federation with members whose emergency keys may spend at the one delay that no script can be
written with: then the load overflows.
-/

namespace TwoWayPeg

open Rlp

/-- How a computation ends, whatever its value. -/
def ending {α : Type} (x : Except PegError α) : Except PegError Unit := x.map fun _ => ()

/-- Two parts of a computation end one after the other. -/
theorem ending_bind {α β : Type} {x : Except PegError α} {f : α → Except PegError β}
    {first second : Except PegError Unit} (left : ending x = first)
    (right : ∀ a, ending (f a) = second) : ending (x >>= f) = first >>= fun _ => second := by
  subst left
  cases x with
  | error e => rfl
  | ok a => exact right a

theorem ending_eq_ok_iff {α : Type} {x : Except PegError α} :
    ending x = .ok () ↔ ∃ a, x = .ok a := by
  cases x with
  | error e => simp [ending, Except.map]
  | ok a => simp [ending, Except.map]

theorem ending_eq_error_iff {α : Type} {x : Except PegError α} {e : PegError} :
    ending x = .error e ↔ x = .error e := by
  cases x with
  | error e' => simp [ending, Except.map]
  | ok a => simp [ending, Except.map]

namespace Federation

/-- Whether bytes are read as a federation that can be built. -/
def isStored (network : Network) (bytes : Bytes) : Bool :=
  (Stored.ofRlp? bytes).any fun stored => (stored.build network).toBool

/-- Whether bytes are read as a federation with members and with the delay that no script can be
    written with. -/
def isUnwritable (bytes : Bytes) : Bool :=
  (Stored.ofRlp? bytes).any fun stored =>
    stored.members ≠ [] ∧ stored.kind.delay? = some RedeemScript.unwritableDelay

/-- Building overflows just if there are members and the delay cannot be written. -/
theorem Stored.build_eq_overflow_iff {stored : Stored} {network : Network} {cause : Overflow} :
    stored.build network = .error (.overflow cause) ↔ cause = .negate ∧ stored.members ≠ [] ∧
      stored.kind.delay? = some RedeemScript.unwritableDelay := by
  rw [ne_eq, ← OrderedSet.toList_ofList_eq_nil_iff]
  unfold Stored.build Federation.ofMembers
  dsimp only
  split
  · next nonempty =>
    split
    · next writable => split <;> simp [writable]
    · next unwritable =>
      have delay := Decidable.not_not.1 unwritable
      simp [nonempty, delay, eq_comm]
  · next empty =>
    have none := Decidable.not_not.1 empty
    simp [none]

end Federation

namespace StorageKey

/-- Whether a federation is stored under a key. -/
def isFederation : StorageKey → Bool
  | .newFederation | .oldFederation => true
  | _ => false

/-- Whether the bytes under a key can be decoded. -/
def decodes (network : Network) (key : StorageKey) (bytes : Bytes) : Bool :=
  match key with
  | .newFederation | .oldFederation => Federation.isStored network bytes
  | .pendingFederation => (PendingFederation.ofRlp? bytes).isSome
  | .newFederationUtxos | .oldFederationUtxos => (listOf? Utxo.ofRlp? bytes).isSome
  | .federationElection | .feePerKbElection => (Votes.ofRlp? bytes).isSome
  | .feePerKb | .activeCreationHeight | .nextCreationHeight => (uint64? bytes).isSome
  | .lastRetiredScript => (bytes? bytes).isSome
  | .pegoutSighashes => (sighashesOfRlp? bytes).isSome
  | .waitingPegouts => (listOf? WaitingPegout.ofRlp? bytes).isSome

/-- The keys in the order in which they are loaded. -/
def loadOrder : List StorageKey :=
  [.federationElection, .feePerKbElection, .newFederation, .oldFederation, .pendingFederation,
    .newFederationUtxos, .oldFederationUtxos, .feePerKb, .lastRetiredScript, .activeCreationHeight,
    .nextCreationHeight, .pegoutSighashes, .waitingPegouts]

theorem mem_loadOrder (key : StorageKey) : key ∈ loadOrder := by cases key <;> decide

/-- How a load ends at bytes that cannot be decoded. -/
def refusal (key : StorageKey) (bytes : Bytes) : PegError :=
  if key.isFederation ∧ Federation.isUnwritable bytes then .overflow .negate else .corrupted key

end StorageKey

namespace Store

variable {store : Store} {network : Network} {key : StorageKey}

/-- Whether what is stored under a key, if anything, can be decoded. -/
def Decodes (store : Store) (network : Network) (key : StorageKey) : Prop :=
  ∀ bytes ∈ store.get? key.bytes, key.decodes network bytes = true

/-- How the reading of a key ends. -/
def check (store : Store) (network : Network) (key : StorageKey) : Except PegError Unit :=
  match store.get? key.bytes with
  | none => .ok ()
  | some bytes => if key.decodes network bytes then .ok () else .error (key.refusal bytes)

theorem check_of_present {bytes : Bytes} (present : store.get? key.bytes = some bytes) :
    store.check network key =
      if key.decodes network bytes then .ok () else .error (key.refusal bytes) := by
  rw [check, present]

theorem check_eq_ok_iff : store.check network key = .ok () ↔ store.Decodes network key := by
  unfold Decodes
  cases present : store.get? key.bytes with
  | none => simp [check, present]
  | some bytes => simp [check_of_present present]

theorem check_eq_error_iff {e : PegError} :
    store.check network key = .error e ↔ ∃ bytes, store.get? key.bytes = some bytes ∧
      key.decodes network bytes = false ∧ key.refusal bytes = e := by
  cases present : store.get? key.bytes with
  | none => simp [check, present]
  | some bytes =>
    rw [check_of_present present]
    cases decoded : key.decodes network bytes <;> simp [decoded]

/-- A value that is no federation is read if its bytes can be decoded. -/
theorem ending_read {α : Type} {decode? : Bytes → Option α} (plain : key.isFederation = false)
    (decodes : ∀ bytes, key.decodes network bytes = (decode? bytes).isSome) :
    ending (store.read (fun _ => false) key decode?) = store.check network key := by
  unfold Store.read check
  rw [if_neg Bool.false_ne_true]
  cases store.get? key.bytes with
  | none => rfl
  | some bytes =>
    dsimp only
    rw [decodes, StorageKey.refusal, plain]
    cases decode? bytes with
    | none => rfl
    | some value => rfl

theorem ending_readFederation (federation : key.isFederation = true)
    (decodes : ∀ bytes, key.decodes network bytes = Federation.isStored network bytes) :
    ending (store.readFederation (fun _ => false) key network) = store.check network key := by
  unfold readFederation Store.read check
  rw [if_neg Bool.false_ne_true]
  cases store.get? key.bytes with
  | none => rfl
  | some bytes =>
    dsimp only
    rw [decodes, StorageKey.refusal, federation, Federation.isStored, Federation.isUnwritable]
    cases Federation.Stored.ofRlp? bytes with
    | none => rfl
    | some stored =>
      simp only [bind, Except.bind, Option.any_some]
      by_cases unwritable : stored.members ≠ [] ∧
          stored.kind.delay? = some RedeemScript.unwritableDelay
      · rw [Federation.Stored.build_eq_overflow_iff.2 ⟨rfl, unwritable⟩, decide_eq_true unwritable]
        rfl
      · rw [decide_eq_false unwritable]
        cases built : stored.build network with
        | ok f => rfl
        | error e =>
          cases e with
          | overflow cause =>
            exact absurd (Federation.Stored.build_eq_overflow_iff.1 built).2 unwritable
          | _ => rfl

/-- A load tries the keys in turn. -/
theorem ending_load (store : Store) (c : Constants) :
    ending (store.load (fun _ => false) c) =
      forM StorageKey.loadOrder (store.check c.network) := by
  unfold Store.load
  simp only [StorageKey.loadOrder, List.forM_cons, List.forM_nil]
  refine ending_bind (ending_read rfl fun _ => rfl) fun _ => ?_
  refine ending_bind (ending_read rfl fun _ => rfl) fun _ => ?_
  refine ending_bind (ending_readFederation rfl fun _ => rfl) fun _ => ?_
  refine ending_bind (ending_readFederation rfl fun _ => rfl) fun _ => ?_
  refine ending_bind (ending_read rfl fun _ => rfl) fun _ => ?_
  refine ending_bind (ending_read rfl fun _ => rfl) fun _ => ?_
  refine ending_bind (ending_read rfl fun _ => rfl) fun _ => ?_
  refine ending_bind (ending_read rfl fun _ => rfl) fun _ => ?_
  refine ending_bind (ending_read rfl fun _ => rfl) fun _ => ?_
  refine ending_bind (ending_read rfl fun _ => rfl) fun _ => ?_
  refine ending_bind (ending_read rfl fun _ => rfl) fun _ => ?_
  refine ending_bind (ending_read rfl fun _ => rfl) fun _ => ?_
  exact ending_bind (ending_read rfl fun _ => rfl) fun _ => rfl

/-- Bytes under a key are the first ones, in the order of loading, that cannot be decoded. -/
structure StopsAt (store : Store) (network : Network) (key : StorageKey) (bytes : Bytes) : Prop where
  present : store.get? key.bytes = some bytes
  undecodable : key.decodes network bytes = false
  earlier : ∃ before after, StorageKey.loadOrder = before ++ key :: after ∧
    ∀ other ∈ before, store.Decodes network other

/-- A load ends with a state just if all that is stored can be decoded. Else it ends at the first key
    whose bytes cannot be decoded: with the report that they are corrupted, unless they describe a
    federation with members and with the delay that no script can be written with. -/
theorem load_ends (store : Store) (c : Constants) :
    ((∀ key, store.Decodes c.network key) ∧ ∃ t, store.load (fun _ => false) c = .ok t) ∨
      ∃ key bytes, store.StopsAt c.network key bytes ∧
        store.load (fun _ => false) c =
          .error (if key.isFederation ∧ Federation.isUnwritable bytes then .overflow .negate
            else .corrupted key) := by
  have ended := ending_load store c
  cases tried : forM StorageKey.loadOrder (store.check c.network) with
  | ok _ =>
    refine .inl ⟨fun key => ?_, ending_eq_ok_iff.1 (ended.trans tried)⟩
    exact check_eq_ok_iff.1 (forM_eq_ok_iff.1 tried key key.mem_loadOrder)
  | error e =>
    obtain ⟨before, key, after, split, earlier, failed⟩ := forM_eq_error_iff.1 tried
    obtain ⟨bytes, present, undecodable, refused⟩ := check_eq_error_iff.1 failed
    refine .inr ⟨key, bytes, ⟨present, undecodable, before, after, split, ?_⟩, ?_⟩
    · exact fun other mem => check_eq_ok_iff.1 (earlier other mem)
    · rw [ending_eq_error_iff.1 (ended.trans tried), ← refused]
      rfl

end Store

namespace Scenario

/-- The stored form of a federation with one member and with emergency keys that may spend at a
    delay. -/
def delayedForm (delay : UInt64) : Bytes :=
  encodeList [
    encodeList ((Constants.developmentKeys.take 1).map fun key => (Member.ofKey key).toRlp),
    encodeNat 0, encodeNat 0, encodeNat 2, encodeList [], encodeNat delay.toNat]

/-- The store that holds such a federation with the delay that cannot be written. -/
def overflowingStore : Store :=
  Store.put {} StorageKey.newFederation.bytes (delayedForm RedeemScript.unwritableDelay)

theorem unwritable_overflowingStore :
    overflowingStore.check .regtest .newFederation = .error (.overflow .negate) :=
  Store.check_eq_error_iff.2 ⟨delayedForm RedeemScript.unwritableDelay, Store.get?_put_self,
    by decide +kernel, by decide +kernel⟩

theorem load_overflowingStore :
    overflowingStore.load (fun _ => false) Constants.regtest = .error (.overflow .negate) := by
  rw [← ending_eq_error_iff, Store.ending_load, forM_eq_error_iff]
  refine ⟨[.federationElection, .feePerKbElection], .newFederation, _, rfl, ?_,
    unwritable_overflowingStore⟩
  intro key earlier
  have absent : overflowingStore.get? key.bytes = none := by
    revert key
    decide +kernel
  rw [Store.check, absent]

end Scenario

namespace Store

/-- Not every store is loaded or reported to be corrupted: a delay of `2 ^ 63` blocks overflows. -/
theorem not_loaded_or_corrupted :
    ¬ ∀ (store : Store) (c : Constants),
      (∃ t, store.load (fun _ => false) c = .ok t) ∨
        ∃ key bytes, store.get? key.bytes = some bytes ∧ key.decodes c.network bytes = false ∧
          store.load (fun _ => false) c = .error (.corrupted key) := by
  intro claim
  rcases claim Scenario.overflowingStore Constants.regtest with
    ⟨t, loaded⟩ | ⟨key, bytes, _, _, reported⟩
  · rw [Scenario.load_overflowingStore] at loaded
    cases loaded
  · rw [Scenario.load_overflowingStore] at reported
    cases reported

end Store

end TwoWayPeg
