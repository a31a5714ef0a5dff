import TwoWayPeg.Proofs.Codec
import TwoWayPeg.Proofs.Saving
import TwoWayPeg.Proofs.Scenario

/-!
# Saving a state and loading it again

A save that ends well leaves the stored form of each part of the state under its key, whatever was
there before. A load after it reads the parts as they were, except that the federations are on the
network of the constants and the elections have the voters of the constants. That holds as long as
the lengths of the stored parts can be written in 64 bits and the witnesses of the transactions in
the queue are within the limits of the reader.
-/

namespace TwoWayPeg

open Rlp

namespace State

/-- The lengths of the stored parts can be written in 64 bits. -/
def Fits (s : State) : Prop := ∀ key, ∀ bytes ∈ s.stored? key, bytes.length < 2 ^ 64

instance (s : State) : Decidable s.Fits :=
  decidable_of_iff (∀ key ∈ StorageKey.all, ∀ bytes ∈ s.stored? key, bytes.length < 2 ^ 64)
    ⟨fun fits key => fits key key.mem_all, fun fits key _ => fits key⟩

/-- What a state has in common with the one that is loaded after it was saved: all but the votes,
    the queue and the network of the federations. -/
structure Restores (s t : State) (network : Network) : Prop where
  newFederation : t.newFederation = s.newFederation.map (·.withNetwork network)
  oldFederation : t.oldFederation = s.oldFederation.map (·.withNetwork network)
  pending : t.pending = s.pending
  newUtxos : t.newUtxos = s.newUtxos
  oldUtxos : t.oldUtxos = s.oldUtxos
  pegoutSighashes : t.pegoutSighashes = s.pegoutSighashes

/-- The state with the network and the voters of the constants, which are not stored. -/
def under (s : State) (c : Constants) : State :=
  { s with
    newFederation := s.newFederation.map (·.withNetwork c.network)
    oldFederation := s.oldFederation.map (·.withNetwork c.network)
    federationElection := { s.federationElection with authorizer := c.federationAuthorizer }
    feeElection := { s.feeElection with authorizer := c.feeAuthorizer } }

/-- The witnesses of the transactions in the queue are not larger than a reader takes. -/
def QueueReadable (s : State) : Prop :=
  ∀ p ∈ s.waitingPegouts, ∀ i ∈ p.transaction.inputs, i.WitnessFits

instance (s : State) : Decidable s.QueueReadable :=
  inferInstanceAs (Decidable (∀ p ∈ _, ∀ i ∈ _, _))

/-- A state that can be stored and read back under the constants: its federations are on their
    network and its elections have their voters. -/
structure Persistable (s : State) (c : Constants) : Prop where
  newNetwork : ∀ f ∈ s.newFederation, f.network = c.network
  oldNetwork : ∀ f ∈ s.oldFederation, f.network = c.network
  federationAuthorizer : s.federationElection.authorizer = c.federationAuthorizer
  feeAuthorizer : s.feeElection.authorizer = c.feeAuthorizer
  readable : s.QueueReadable
  fits : s.Fits

instance (s : State) (c : Constants) : Decidable (s.Persistable c) :=
  decidable_of_iff
    ((∀ f ∈ s.newFederation, f.network = c.network) ∧
      (∀ f ∈ s.oldFederation, f.network = c.network) ∧
      s.federationElection.authorizer = c.federationAuthorizer ∧
      s.feeElection.authorizer = c.feeAuthorizer ∧ s.QueueReadable ∧ s.Fits)
    ⟨fun ⟨new, old, voters, feeVoters, readable, fits⟩ =>
        ⟨new, old, voters, feeVoters, readable, fits⟩,
      fun ⟨new, old, voters, feeVoters, readable, fits⟩ =>
        ⟨new, old, voters, feeVoters, readable, fits⟩⟩

theorem map_withNetwork {f? : Option Federation} {network : Network}
    (same : ∀ f ∈ f?, f.network = network) : f?.map (·.withNetwork network) = f? := by
  cases f? with
  | none => rfl
  | some f =>
    cases same f rfl
    rfl

theorem Persistable.under_eq {s : State} {c : Constants} (persistable : s.Persistable c) :
    s.under c = s := by
  rw [under, map_withNetwork persistable.newNetwork, map_withNetwork persistable.oldNetwork,
    ← persistable.federationAuthorizer, ← persistable.feeAuthorizer]

end State

open State

namespace Store

variable {refused : Outage} {state : State} {store saved : Store}

theorem get?_of_save (ended : store.save refused state = (.ok (), saved)) (key : StorageKey) :
    saved.get? key.bytes = state.stored? key := by
  rw [save_eq] at ended
  split at ended
  · cases ended
  · cases ended
    exact get?_writeKeys_of_mem key.mem_all

variable {α : Type} {key : StorageKey} {decode? : Bytes → Option α}

/-- The value under a key, or one that stands for nothing. -/
def readD (refused : Outage) (store : Store) (key : StorageKey) (decode? : Bytes → Option α)
    (default : α) : Except PegError α :=
  store.read refused key decode? >>= fun value? => .ok (value?.getD default)

/-- What was written is read, if the reader undoes the writer. -/
theorem read_written (value? : Option α) (write : α → Bytes)
    (written : saved.get? key.bytes = value?.map write)
    (undoes : ∀ value ∈ value?, decode? (write value) = some value) :
    saved.read (fun _ => false) key decode? = .ok value? := by
  cases value? with
  | none =>
    rw [Option.map_none] at written
    simp only [Store.read, written, Bool.false_eq_true, if_false]
  | some value =>
    rw [Option.map_some] at written
    simp only [Store.read, written, undoes value rfl, Bool.false_eq_true, if_false]

/-- A value that is not written if it is the default is read, too. -/
theorem readD_written {default value : α} (write : α → Bytes)
    (written : value = default ∧ saved.get? key.bytes = none ∨
      saved.get? key.bytes = some (write value))
    (undoes : ∀ bytes ∈ saved.get? key.bytes, bytes = write value → decode? bytes = some value) :
    saved.readD (fun _ => false) key decode? default = .ok value := by
  rcases written with ⟨rfl, absent⟩ | present
  · have read : saved.read (fun _ => false) key decode? = .ok none :=
      read_written none write absent (by simp)
    rw [readD, read]
    rfl
  · have read : saved.read (fun _ => false) key decode? = .ok (some value) :=
      read_written (some value) write present (by
        intro value' same
        cases same
        exact undoes _ present rfl)
    rw [readD, read]
    rfl

theorem readFederation_written {network : Network} {f? : Option Federation}
    (written : saved.get? key.bytes = f?.map Federation.toRlp)
    (fits : ∀ f ∈ f?, f.toRlp.length < 2 ^ 64) :
    saved.readFederation (fun _ => false) key network = .ok (f?.map (·.withNetwork network)) := by
  cases f? with
  | none =>
    have read : saved.read (fun _ => false) key Federation.Stored.ofRlp? = .ok none :=
      read_written none (fun stored => stored.members.flatMap Member.toRlp) written (by simp)
    rw [readFederation, read]
    rfl
  | some f =>
    rw [Option.map_some] at written
    have read : saved.read (fun _ => false) key Federation.Stored.ofRlp? =
        .ok (some ⟨f.members, f.creationTime, f.creationBlock, f.kind⟩) := by
      simp only [Store.read, written, Federation.ofRlp?_toRlp (fits f rfl), Bool.false_eq_true,
        if_false]
    rw [readFederation, read]
    simp only [bind, Except.bind, Federation.Stored.build, Federation.ofMembers_members]
    rfl

/-- Where each part of a loaded state comes from. -/
structure Loaded (refused : Outage) (store : Store) (c : Constants) (t : State) : Prop where
  newFederation : store.readFederation refused .newFederation c.network = .ok t.newFederation
  oldFederation : store.readFederation refused .oldFederation c.network = .ok t.oldFederation
  pending :
    store.read refused .pendingFederation PendingFederation.ofRlp? = .ok t.pending
  newUtxos :
    store.readD refused .newFederationUtxos (listOf? Utxo.ofRlp?) [] = .ok t.newUtxos
  oldUtxos :
    store.readD refused .oldFederationUtxos (listOf? Utxo.ofRlp?) [] = .ok t.oldUtxos
  federationAuthorizer : t.federationElection.authorizer = c.federationAuthorizer
  federationVotes :
    store.readD refused .federationElection Votes.ofRlp? .empty = .ok t.federationElection.votes
  feeAuthorizer : t.feeElection.authorizer = c.feeAuthorizer
  feeVotes :
    store.readD refused .feePerKbElection Votes.ofRlp? .empty = .ok t.feeElection.votes
  feePerKb : store.read refused .feePerKb uint64? = .ok t.feePerKb
  lastRetiredScript : store.read refused .lastRetiredScript bytes? = .ok t.lastRetiredScript
  activeCreationHeight :
    store.read refused .activeCreationHeight uint64? = .ok t.activeCreationHeight
  nextCreationHeight : store.read refused .nextCreationHeight uint64? = .ok t.nextCreationHeight
  pegoutSighashes :
    store.readD refused .pegoutSighashes sighashesOfRlp? .empty = .ok t.pegoutSighashes
  waitingPegouts :
    store.readD refused .waitingPegouts (listOf? WaitingPegout.ofRlp?) [] = .ok t.waitingPegouts

theorem readD_eq_ok_iff {default value : α} :
    store.readD refused key decode? default = .ok value ↔
      ∃ value?, store.read refused key decode? = .ok value? ∧ value?.getD default = value := by
  simp only [readD, bind_eq_ok_iff, Except.ok.injEq]

/-- A load that ends well reads each part of the state. -/
theorem load_eq_ok_iff {c : Constants} {t : State} :
    store.load refused c = .ok t ↔ Loaded refused store c t := by
  constructor
  · intro loaded
    unfold Store.load at loaded
    obtain ⟨federationVotes, read1, loaded⟩ := bind_eq_ok_iff.1 loaded
    obtain ⟨feeVotes, read2, loaded⟩ := bind_eq_ok_iff.1 loaded
    obtain ⟨newFederation, read3, loaded⟩ := bind_eq_ok_iff.1 loaded
    obtain ⟨oldFederation, read4, loaded⟩ := bind_eq_ok_iff.1 loaded
    obtain ⟨pending, read5, loaded⟩ := bind_eq_ok_iff.1 loaded
    obtain ⟨newUtxos, read6, loaded⟩ := bind_eq_ok_iff.1 loaded
    obtain ⟨oldUtxos, read7, loaded⟩ := bind_eq_ok_iff.1 loaded
    obtain ⟨feePerKb, read8, loaded⟩ := bind_eq_ok_iff.1 loaded
    obtain ⟨lastRetiredScript, read9, loaded⟩ := bind_eq_ok_iff.1 loaded
    obtain ⟨activeCreationHeight, read10, loaded⟩ := bind_eq_ok_iff.1 loaded
    obtain ⟨nextCreationHeight, read11, loaded⟩ := bind_eq_ok_iff.1 loaded
    obtain ⟨pegoutSighashes, read12, loaded⟩ := bind_eq_ok_iff.1 loaded
    obtain ⟨waitingPegouts, read13, loaded⟩ := bind_eq_ok_iff.1 loaded
    cases loaded
    exact ⟨read3, read4, read5, readD_eq_ok_iff.2 ⟨_, read6, rfl⟩,
      readD_eq_ok_iff.2 ⟨_, read7, rfl⟩, rfl, readD_eq_ok_iff.2 ⟨_, read1, rfl⟩, rfl,
      readD_eq_ok_iff.2 ⟨_, read2, rfl⟩, read8, read9, read10, read11,
      readD_eq_ok_iff.2 ⟨_, read12, rfl⟩, readD_eq_ok_iff.2 ⟨_, read13, rfl⟩⟩
  · rintro ⟨new, old, pending, news, olds, authorizer, votes, feeAuthorizer, feeVotes, fee, script,
      active, next, hashes, waiting⟩
    obtain ⟨votes?, readVotes, votes⟩ := readD_eq_ok_iff.1 votes
    obtain ⟨feeVotes?, readFeeVotes, feeVotes⟩ := readD_eq_ok_iff.1 feeVotes
    obtain ⟨news?, readNews, news⟩ := readD_eq_ok_iff.1 news
    obtain ⟨olds?, readOlds, olds⟩ := readD_eq_ok_iff.1 olds
    obtain ⟨hashes?, readHashes, hashes⟩ := readD_eq_ok_iff.1 hashes
    obtain ⟨waiting?, readWaiting, waiting⟩ := readD_eq_ok_iff.1 waiting
    unfold Store.load
    simp only [readVotes, readFeeVotes, new, old, pending, readNews, readOlds, fee, script, active,
      next, readHashes, readWaiting, bind, Except.bind]
    rw [votes, feeVotes, news, olds, hashes, waiting, ← authorizer, ← feeAuthorizer]
    rfl

/-- A list is stored unless it is empty. -/
theorem stored_list {l : List α} {write : α → Bytes}
    (written : saved.get? key.bytes = (nonEmpty? l).map fun l => encodeList (l.map write)) :
    l = [] ∧ saved.get? key.bytes = none ∨
      saved.get? key.bytes = some (encodeList (l.map write)) := by
  cases l with
  | nil => exact .inl ⟨rfl, written⟩
  | cons a l => exact .inr written

/-- The outputs under a key are read as they were. -/
theorem readUtxos_written {l : List Utxo}
    (written : saved.get? key.bytes =
      (nonEmpty? l).map fun utxos => encodeList (utxos.map Utxo.toRlp))
    (fits : ∀ bytes ∈ saved.get? key.bytes, bytes.length < 2 ^ 64) :
    saved.readD (fun _ => false) key (listOf? Utxo.ofRlp?) [] = .ok l := by
  apply readD_written (fun utxos => encodeList (utxos.map Utxo.toRlp)) (stored_list written)
  rintro bytes present rfl
  exact Utxo.listOf?_toRlp (fits _ present)

/-- The hashes of known pegouts are read as they were. -/
theorem readSighashes_written {hashes : OrderedSet Hash256}
    (written : saved.get? key.bytes =
      if hashes.isEmpty then none else some (sighashesToRlp hashes))
    (fits : ∀ bytes ∈ saved.get? key.bytes, bytes.length < 2 ^ 64) :
    saved.readD (fun _ => false) key sighashesOfRlp? .empty = .ok hashes := by
  refine readD_written sighashesToRlp ?_ ?_
  · by_cases empty : hashes.isEmpty
    · rw [if_pos empty] at written
      exact .inl ⟨OrderedSet.ext (List.isEmpty_iff.1 empty), written⟩
    · rw [if_neg empty] at written
      exact .inr written
  · rintro bytes present rfl
    exact sighashesOfRlp?_toRlp (fits _ present)

/-- The votes of an election are read as they were. -/
theorem readVotes_written {votes : Votes}
    (written : saved.get? key.bytes = if votes.isEmpty then none else some (Votes.toRlp votes))
    (fits : ∀ bytes ∈ saved.get? key.bytes, bytes.length < 2 ^ 64) :
    saved.readD (fun _ => false) key Votes.ofRlp? .empty = .ok votes := by
  refine readD_written Votes.toRlp ?_ ?_
  · by_cases empty : votes.isEmpty
    · rw [if_pos empty] at written
      exact .inl ⟨OrderedMap.ext (List.isEmpty_iff.1 empty), written⟩
    · rw [if_neg empty] at written
      exact .inr written
  · rintro bytes present rfl
    exact Votes.ofRlp?_toRlp (fits _ present)

/-- The queue is read as it was. -/
theorem readPegouts_written {l : List WaitingPegout}
    (written : saved.get? key.bytes =
      (nonEmpty? l).map fun l => encodeList (l.map WaitingPegout.toRlp))
    (fits : ∀ bytes ∈ saved.get? key.bytes, bytes.length < 2 ^ 64)
    (witnesses : ∀ p ∈ l, ∀ i ∈ p.transaction.inputs, i.WitnessFits) :
    saved.readD (fun _ => false) key (listOf? WaitingPegout.ofRlp?) [] = .ok l := by
  apply readD_written (fun l => encodeList (l.map WaitingPegout.toRlp)) (stored_list written)
  rintro bytes present rfl
  exact WaitingPegout.listOf?_toRlp (fits _ present) witnesses

theorem length_of_written (written : ∀ key, saved.get? key.bytes = state.stored? key)
    (fits : state.Fits) (key : StorageKey) : ∀ bytes ∈ saved.get? key.bytes,
      bytes.length < 2 ^ 64 := by
  rw [written]
  exact fits key

theorem length_of_stored (fits : state.Fits) (key : StorageKey) {value? : Option α}
    {write : α → Bytes} (stored : state.stored? key = value?.map write) :
    ∀ value ∈ value?, (write value).length < 2 ^ 64 := by
  intro value present
  apply fits key
  rw [stored, present]
  rfl

/-- A store that holds the stored parts of a state is loaded as that state, on the network and with
    the voters of the constants. -/
theorem load_written {c : Constants} (written : ∀ key, saved.get? key.bytes = state.stored? key)
    (fits : state.Fits) (readable : state.QueueReadable) :
    saved.load (fun _ => false) c = .ok (state.under c) := by
  have short := length_of_written written fits
  apply load_eq_ok_iff.2
  constructor
  case newFederation =>
    exact readFederation_written (written .newFederation)
      (length_of_stored fits .newFederation rfl)
  case oldFederation =>
    exact readFederation_written (written .oldFederation)
      (length_of_stored fits .oldFederation rfl)
  case pending =>
    exact read_written _ _ (written .pendingFederation) fun p present =>
      PendingFederation.ofRlp?_toRlp
        (length_of_stored fits .pendingFederation rfl p present)
  case newUtxos => exact readUtxos_written (written .newFederationUtxos) (short _)
  case oldUtxos => exact readUtxos_written (written .oldFederationUtxos) (short _)
  case federationAuthorizer => rfl
  case federationVotes => exact readVotes_written (written .federationElection) (short _)
  case feeAuthorizer => rfl
  case feeVotes => exact readVotes_written (written .feePerKbElection) (short _)
  case feePerKb =>
    exact read_written _ _ (written .feePerKb) fun n _ => uint64?_encodeNat n
  case lastRetiredScript =>
    exact read_written _ _ (written .lastRetiredScript) fun script present =>
      bytes?_encodeBytes (Nat.lt_of_le_of_lt (length_le_encodeBytes script)
        (length_of_stored fits .lastRetiredScript rfl script present))
  case activeCreationHeight =>
    exact read_written _ _ (written .activeCreationHeight) fun n _ => uint64?_encodeNat n
  case nextCreationHeight =>
    exact read_written _ _ (written .nextCreationHeight) fun n _ => uint64?_encodeNat n
  case pegoutSighashes => exact readSighashes_written (written .pegoutSighashes) (short _)
  case waitingPegouts =>
    exact readPegouts_written (written .waitingPegouts) (short _) readable

/-- A state on the network and with the voters of the constants is loaded in all its parts as it was
    saved, whatever the store held before. -/
theorem load_save {c : Constants} (persistable : state.Persistable c) (store : Store) :
    ∃ saved, store.save (fun _ => false) state = (.ok (), saved) ∧
      saved.load (fun _ => false) c = .ok state := by
  have ended := save_granted state store
  refine ⟨_, ended, ?_⟩
  rw [load_written (get?_of_save ended) persistable.fits persistable.readable,
    persistable.under_eq]

set_option maxRecDepth 100000 in
/-- A state with a committed federation, an empty one that is being assembled, a vote in each
    election, outputs, a known pegout and a transaction in the queue. -/
theorem load_save_after_migration :
    ∃ history b, Runs (.startAt Scenario.indexed ⟨5, 0⟩ .none) history b ∧
      (b.state.newFederation.isSome ∧ b.state.pending = some {} ∧
        b.state.federationElection.votes.size = 1 ∧ b.state.feeElection.votes.size = 1 ∧
        b.state.newUtxos.length = 2 ∧ b.state.pegoutSighashes.size = 1 ∧
        b.state.waitingPegouts.length = 1) ∧
      b.state.Persistable b.constants ∧
      ∀ store : Store, ∃ saved, store.save (fun _ => false) b.state = (.ok (), saved) ∧
        saved.load (fun _ => false) b.constants = .ok b.state := by
  obtain ⟨history, b, run, seen, persistable⟩ := Bridge.exists_runs_of_play
    (P := fun _ b => (b.state.newFederation.isSome ∧ b.state.pending = some {} ∧
        b.state.federationElection.votes.size = 1 ∧ b.state.feeElection.votes.size = 1 ∧
        b.state.newUtxos.length = 2 ∧ b.state.pegoutSighashes.size = 1 ∧
        b.state.waitingPegouts.length = 1) ∧ b.state.Persistable b.constants)
    (b := .startAt Scenario.indexed ⟨5, 0⟩ .none)
    (.perform (.depositNew (Scenario.output 0 50000)) :: Scenario.change ++
      [Scenario.goTo Scenario.indexed 30, .perform .migrate, .perform (.create false),
        .perform (.depositNew (Scenario.output 2 0)), .perform (.depositNew (Scenario.output 1 9)),
        .perform (.vote true Scenario.first ⟨"rollback", []⟩),
        .perform (.voteFee Scenario.first 30000)])
    (by decide +kernel)
  exact ⟨history, b, run, seen, persistable, load_save persistable⟩

end Store

open Store

namespace Bridge

theorem reloaded_eq_ok {b : Bridge} {store : Store} {t : State} (reloaded : b.reloaded store = .ok t) :
    ∃ saved : Store, (∀ key : StorageKey, saved.get? key.bytes = b.state.stored? key) ∧
      Loaded (fun _ => false) saved b.constants t := by
  unfold Bridge.reloaded at reloaded
  split at reloaded
  · next saved ended => exact ⟨saved, get?_of_save ended, load_eq_ok_iff.1 reloaded⟩
  · cases reloaded

theorem reloaded_restores {b : Bridge} {store : Store} {t : State} (fits : b.state.Fits)
    (reloaded : b.reloaded store = .ok t) : b.state.Restores t b.constants.network := by
  obtain ⟨saved, written, loaded⟩ := reloaded_eq_ok reloaded
  have short := length_of_written written fits
  constructor
  case newFederation =>
    exact Except.ok.inj (loaded.newFederation.symm.trans
      (readFederation_written (written .newFederation)
        (length_of_stored fits .newFederation rfl)))
  case oldFederation =>
    exact Except.ok.inj (loaded.oldFederation.symm.trans
      (readFederation_written (written .oldFederation)
        (length_of_stored fits .oldFederation rfl)))
  case pending =>
    exact Except.ok.inj (loaded.pending.symm.trans
      (read_written _ _ (written .pendingFederation) fun p present =>
        PendingFederation.ofRlp?_toRlp
          (length_of_stored fits .pendingFederation rfl p present)))
  case newUtxos =>
    exact Except.ok.inj (loaded.newUtxos.symm.trans
      (readUtxos_written (written .newFederationUtxos) (short _)))
  case oldUtxos =>
    exact Except.ok.inj (loaded.oldUtxos.symm.trans
      (readUtxos_written (written .oldFederationUtxos) (short _)))
  case pegoutSighashes =>
    exact Except.ok.inj (loaded.pegoutSighashes.symm.trans
      (readSighashes_written (written .pegoutSighashes) (short _)))

/-- The votes are loaded as they were, with the voters of the constants. -/
theorem federationElection_of_reloaded {b : Bridge} {store : Store} {t : State}
    (fits : b.state.Fits) (reloaded : b.reloaded store = .ok t) :
    t.federationElection =
      { b.state.federationElection with authorizer := b.constants.federationAuthorizer } := by
  obtain ⟨saved, written, loaded⟩ := reloaded_eq_ok reloaded
  have votes := Except.ok.inj (loaded.federationVotes.symm.trans
    (readVotes_written (written .federationElection) (length_of_written written fits _)))
  have authorizer := loaded.federationAuthorizer
  generalize t.federationElection = e at votes authorizer
  cases e
  cases votes
  cases authorizer
  rfl

end Bridge

end TwoWayPeg
