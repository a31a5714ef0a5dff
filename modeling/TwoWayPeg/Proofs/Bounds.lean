import Mathlib.Algebra.Order.BigOperators.Group.List
import TwoWayPeg.Proofs.ActiveFederation
import TwoWayPeg.Proofs.FeeEstimate

/-!
# The arithmetic of a migration stays in range

An input of a migration takes at most 1160 bytes once it is signed, whatever the federation that
signs it, because a redeem script that can be paid to by its hash lists at most fifteen keys. So the
fee of fewer than 2 ^ 31 inputs fits into 64 bits at any rate that can be voted for, and a migration
of outputs whose value fits never ends by an overflow.
-/

namespace TwoWayPeg

open Migration

theorem totalValue_le_of_sublist {l l' : List Utxo} (part : l.Sublist l') :
    totalValue l ≤ totalValue l' :=
  (part.map _).sum_le_sum fun _ _ => Nat.zero_le _

theorem length_compactSize_le_nine (n : Nat) : (compactSize n).length ≤ 9 := by
  unfold compactSize
  split
  · simp
  split
  · simp
  split <;> simp

namespace Migration

variable {feeRate : UInt64} {retiring active : Federation} {batch : List Utxo}

/-- Each input takes 41 bytes before it is signed. -/
theorem length_flatMap_inputs (batch : List Utxo) (value : UInt64) (script : Script) :
    ((transaction batch value script).inputs.flatMap TxIn.encode).length = batch.length * 41 := by
  have input (u : Utxo) : ({ previous := u.outpoint, sequence := replaceableSequence } :
      TxIn).encode.length = 41 := by
    simp [TxIn.encode, OutPoint.encode, sizedBytes, compactSize, FixedBytes.length_eq]
  rw [transaction]
  induction batch with
  | nil => rfl
  | cons u rest ih =>
    rw [List.map_cons, List.flatMap_cons, List.length_append, input, ih, List.length_cons]
    omega

/-- The size that the fee is estimated for. -/
theorem signedSize_le (worth : batch ≠ []) (value : UInt64) :
    signedSize retiring (transaction batch value active.p2shScript) ≤ batch.length * 1160 + 50 := by
  have estimate := retiring.scriptSigSizeEstimate_le
  have counted := length_compactSize_le_nine batch.length
  have inputs := length_flatMap_inputs batch value active.p2shScript
  have script := active.length_p2shScript
  have count : (transaction batch value active.p2shScript).inputs.length = batch.length :=
    List.length_map _
  have base := Transaction.encode_eq_encodeBase (t := transaction batch value active.p2shScript)
    (fun none => worth (List.map_eq_nil_iff.1 none)) (by simp [transaction])
  have outputs : (transaction batch value active.p2shScript).encodeOutputs.length = 33 := by
    simp [Transaction.encodeOutputs, transaction, TxOut.encode, sizedBytes, script, compactSize]
  have signatures : batch.length * (retiring.scriptSigSizeEstimate + 2) ≤ batch.length * 1119 :=
    Nat.mul_le_mul_left _ (by omega)
  rw [signedSize, base, count]
  simp only [Transaction.encodeBase, Transaction.encodeVersion, Transaction.encodeInputs,
    Transaction.encodeLockTime, List.length_append, Bytes.length_littleEndian, outputs, inputs,
    count]
  omega

end Migration

namespace State

/-- The bounds within which a migration is carried out: there are fewer than 2 ^ 31 outputs, their
    value fits into 64 bits, the rate may be voted for, and the ages can be added up. -/
structure Bounded (s : State) (env : Env) : Prop where
  few : s.oldUtxos.length < 2 ^ 31
  value : totalValue s.oldUtxos < UInt64.size
  rate : s.feeRate env.constants ≤ 5000000
  created : ∀ new ∈ s.newFederation,
    new.creationBlock.toNat + env.activationAge.toNat < UInt64.size
  begins : env.activationAge.toNat + env.constants.migrationAgeBegin.toNat < UInt64.size
  ends : env.activationAge.toNat + env.constants.migrationAgeEnd.toNat < UInt64.size

/-- No number is out of range that the migration of a batch is computed from. The threshold is
    subtracted from the value of the batch where the fee is capped, and the fee where it is paid. -/
structure Exact (s : State) (env : Env) (retiring active : Federation) (m : MigrationTransaction) :
    Prop where
  value : totalValue (s.batch env) < UInt64.size
  size : ∀ value, signedSize retiring (transaction (s.batch env) value active.p2shScript) <
    UInt64.size
  product : ∀ value, (s.feeRate env.constants).toNat *
    signedSize retiring (transaction (s.batch env) value active.p2shScript) < UInt64.size
  capped : (threshold (s.feeRate env.constants)).toNat ≤ totalValue (s.batch env)
  paid : m.fee.toNat ≤ totalValue (s.batch env)

variable {s t : State} {env : Env} {retiring active : Federation}

instance : Decidable (s.Bounded env) :=
  decidable_of_iff
    (s.oldUtxos.length < 2 ^ 31 ∧ totalValue s.oldUtxos < UInt64.size ∧
      s.feeRate env.constants ≤ 5000000 ∧
      (∀ new ∈ s.newFederation,
        new.creationBlock.toNat + env.activationAge.toNat < UInt64.size) ∧
      env.activationAge.toNat + env.constants.migrationAgeBegin.toNat < UInt64.size ∧
      env.activationAge.toNat + env.constants.migrationAgeEnd.toNat < UInt64.size)
    ⟨fun ⟨few, value, rate, created, begins, ends⟩ => ⟨few, value, rate, created, begins, ends⟩,
      fun ⟨few, value, rate, created, begins, ends⟩ => ⟨few, value, rate, created, begins, ends⟩⟩

namespace Bounded

theorem value_batch (bounded : s.Bounded env) : totalValue (s.batch env) < UInt64.size :=
  Nat.lt_of_le_of_lt (totalValue_le_of_sublist (s.batch_sublist env)) bounded.value

/-- With so few outputs of at most 1160 bytes each, neither the size nor its product with the rate
    is out of range. -/
theorem size_batch (bounded : s.Bounded env) (worth : s.batch env ≠ [])
    (retiring active : Federation) (value : UInt64) :
    signedSize retiring (transaction (s.batch env) value active.p2shScript) < UInt64.size ∧
      (s.feeRate env.constants).toNat *
        signedSize retiring (transaction (s.batch env) value active.p2shScript) < UInt64.size := by
  have some := (s.batch_sublist env).length_le
  have few := bounded.few
  have size : signedSize retiring (transaction (s.batch env) value active.p2shScript) ≤
    (s.batch env).length * 1160 + 50 := signedSize_le worth value
  have rate : (s.feeRate env.constants).toNat ≤ 5000000 := UInt64.le_iff_toNat_le.1 bounded.rate
  have product := Nat.mul_le_mul rate size
  have range : UInt64.size = 2 ^ 64 := rfl
  omega

theorem exists_migrateBatch (bounded : s.Bounded env) (worth : s.batch env ≠ []) :
    ∃ m t, s.migrateBatch env retiring active = .ok (some m, t) ∧
      s.Exact env retiring active m := by
  have above : ∀ u ∈ s.batch env, threshold (s.feeRate env.constants) < u.value :=
    fun _ => above_of_mem_batch
  have sizes := bounded.size_batch worth retiring active
  obtain ⟨m, value, made, _, _, balanced, _⟩ := exists_moveBatch worth above bounded.value_batch
    fun value => (sizes value).2
  refine ⟨m, _, (migrateBatch_of_batch worth).trans (bind_eq_ok_iff.2 ⟨m, made, rfl⟩), ?_⟩
  exact {
    value := bounded.value_batch
    size := fun value => (sizes value).1
    product := fun value => (sizes value).2
    capped := Nat.le_of_lt (lt_totalValue worth above)
    paid := by omega }

theorem exists_searched (bounded : s.Bounded env) (retiring active : Federation) :
    ∃ moved, s.migrateBatch env retiring active = .ok moved := by
  by_cases worth : s.batch env = []
  · exact ⟨_, migrateBatch_of_nil worth⟩
  · obtain ⟨m, t, moves, _⟩ := bounded.exists_migrateBatch worth
    exact ⟨_, moves⟩

theorem exists_shouldBeActive (bounded : s.Bounded env) {new : Federation}
    (found : s.newFederation = some new) : ∃ past, env.shouldBeActive new = .ok past :=
  ⟨_, Env.isPast_eq (bounded.created new found)⟩

theorem exists_retiring (bounded : s.Bounded env) :
    ∃ retiring, s.retiringFederation env = .ok retiring := by
  unfold retiringFederation
  cases found : s.newFederation with
  | none => exact ⟨none, rfl⟩
  | some new =>
    refine exists_bind_eq_ok (bounded.exists_shouldBeActive found) fun past => ?_
    cases past <;> exact ⟨_, rfl⟩

theorem exists_active (bounded : s.Bounded env) :
    ∃ active, s.activeFederation env = .ok active := by
  unfold activeFederation
  cases found : s.newFederation with
  | none => exact ⟨env.genesis, rfl⟩
  | some new =>
    refine exists_bind_eq_ok (bounded.exists_shouldBeActive found) fun past => ?_
    cases past <;> exact ⟨_, rfl⟩

theorem exists_processMigration (bounded : s.Bounded env) :
    ∃ done, s.processMigration env = .ok done := by
  refine exists_bind_eq_ok bounded.exists_retiring fun retiring? => ?_
  cases retiring? with
  | none => exact ⟨_, rfl⟩
  | some retiring =>
    refine exists_bind_eq_ok bounded.exists_active fun active => ?_
    refine exists_bind_eq_ok ⟨_, if_pos bounded.begins⟩ fun begins => ?_
    refine exists_bind_eq_ok ⟨_, if_pos bounded.ends⟩ fun ends => ?_
    dsimp only
    split
    · refine exists_bind_eq_ok (bounded.exists_searched retiring active) fun moved => ?_
      split <;> exact ⟨_, rfl⟩
    · refine exists_bind_eq_ok ⟨(none, s), rfl⟩ fun moved => ?_
      split <;> exact ⟨_, rfl⟩

end Bounded

theorem Moved.sublist {migration : Option MigrationTransaction}
    (moves : s.Moved env retiring active migration t) : t.oldUtxos.Sublist s.oldUtxos := by
  cases moves with
  | nothing => exact .refl _
  | batch => exact List.filter_sublist

theorem Migrated.dropped_sublist {outcome : MigrationOutcome} (done : s.Migrated env outcome t) :
    outcome.dropped.Sublist s.oldUtxos := by
  cases done with
  | idle | moved => exact List.nil_sublist _
  | retired _ _ moves _ => exact moves.sublist

/-- Within its bounds a migration never ends by an overflow: it has an outcome, and what it gives up
    can be added up. If there is a batch to be moved, it is moved between any two federations, and
    each number on the way is in range. -/
theorem processMigration_in_range (bounded : s.Bounded env) :
    (∃ outcome t, s.processMigration env = .ok (outcome, t) ∧
      totalValue outcome.dropped < UInt64.size) ∧
      (s.batch env ≠ [] → ∀ retiring active, ∃ m t,
        s.migrateBatch env retiring active = .ok (some m, t) ∧ s.Exact env retiring active m) := by
  refine ⟨?_, fun worth _ _ => bounded.exists_migrateBatch worth⟩
  obtain ⟨⟨outcome, t⟩, migrated⟩ := bounded.exists_processMigration
  have part := (processMigration_migrated migrated).dropped_sublist
  exact ⟨outcome, t, migrated, Nat.lt_of_le_of_lt (totalValue_le_of_sublist part) bounded.value⟩

set_option maxRecDepth 100000 in
/-- The largest value that can be written is moved at the highest rate that can be voted for. -/
theorem processMigration_in_range_of_largest :
    ∃ (s t : State) (env : Env) (retiring active : Federation) (outcome : MigrationOutcome)
      (m : MigrationTransaction),
      s.Bounded env ∧ s.feeRate env.constants = 5000000 ∧ totalValue s.oldUtxos = 2 ^ 64 - 1 ∧
      s.retiringFederation env = .ok (some retiring) ∧ s.activeFederation env = .ok active ∧
      s.processMigration env = .ok (outcome, t) ∧ totalValue outcome.dropped < UInt64.size ∧
      outcome.migration = some m ∧ s.Exact env retiring active m ∧ m.fee = 1705000 := by
  obtain ⟨_, b, _, seen⟩ := Bridge.exists_runs_of_play
    (P := fun _ b => b.env.toOption.any (fun env =>
      (b.state.retiringFederation env).toOption.any (fun retiring? => retiring?.any fun retiring =>
      (b.state.activeFederation env).toOption.any (fun active =>
      (b.state.processMigration env).toOption.any fun done => done.1.migration.any fun m =>
      (b.state.migrateBatch env retiring active).toOption.any fun moved =>
      decide (b.state.Bounded env ∧ b.state.batch env ≠ [] ∧
        b.state.feeRate env.constants = 5000000 ∧ totalValue b.state.oldUtxos = 2 ^ 64 - 1 ∧
        moved.1 = some m ∧ m.fee = 1705000)))) = true)
    (b := .startAt Scenario.indexed ⟨5, 0⟩ (Scenario.indexed.activations.atBlock 5))
    (.perform (.voteFee Scenario.first 5000000) :: .perform (.voteFee Scenario.second 5000000) ::
      .perform (.depositNew (Scenario.output 0 0xffffffffffffffff)) :: Scenario.change ++
      [Scenario.goTo Scenario.indexed 30])
    (by decide +kernel)
  obtain ⟨env, _, seen⟩ := (Option.any_eq_true _ _).1 seen
  obtain ⟨retiring?, replaced, seen⟩ := (Option.any_eq_true _ _).1 seen
  obtain ⟨retiring, found, seen⟩ := (Option.any_eq_true _ _).1 seen
  obtain ⟨active, replaces, seen⟩ := (Option.any_eq_true _ _).1 seen
  obtain ⟨⟨outcome, t⟩, migrated, seen⟩ := (Option.any_eq_true _ _).1 seen
  obtain ⟨m, emitted, seen⟩ := (Option.any_eq_true _ _).1 seen
  obtain ⟨⟨_, moved⟩, searched, seen⟩ := (Option.any_eq_true _ _).1 seen
  rw [toOption_eq_some_iff] at replaced replaces migrated searched
  rw [found] at replaced
  obtain ⟨bounded, worth, rate, value, same, fee⟩ := of_decide_eq_true seen
  cases same
  obtain ⟨⟨_, _, again, dropped⟩, figures⟩ := processMigration_in_range bounded
  obtain ⟨_, _, moves, figures⟩ := figures worth retiring active
  cases migrated.symm.trans again
  cases searched.symm.trans moves
  exact ⟨b.state, t, env, retiring, active, outcome, m, bounded, rate, value, replaced, replaces,
    migrated, dropped, emitted, figures, fee⟩

end State

end TwoWayPeg
