import TwoWayPeg.Proofs.Drain

/-!
# What a migration pays

A migration transaction spends the first outputs that are worth moving and pays the new federation
what they hold, less the fee. Each of the outputs is above the threshold, so their sum is, and the cap
on the fee leaves at least the threshold. The fee is estimated before the value is known, from a
transaction of the same size.
-/

namespace TwoWayPeg

open Migration

/-- The satoshis of a list of outputs. -/
def totalValue (l : List Utxo) : Nat := (l.map fun u => u.value.toNat).sum

theorem sumChecked_values_eq_ok_iff {l : List Utxo} {total : UInt64} :
    sumChecked (l.map Utxo.value) = .ok total ↔ totalValue l = total.toNat := by
  have sum : ((l.map Utxo.value).map UInt64.toNat).sum = totalValue l := by
    rw [List.map_map]
    rfl
  rw [sumChecked_eq, sum]
  by_cases fits : totalValue l < UInt64.size
  · rw [if_pos fits, Except.ok.injEq, ← UInt64.toNat_inj, UInt64.toNat_ofNat_of_lt' fits]
  · rw [if_neg fits]
    have below := total.toNat_lt_size
    refine iff_of_false (by simp) ?_
    omega

theorem lt_totalValue {l : List Utxo} {bound : UInt64} (some : l ≠ [])
    (above : ∀ u ∈ l, bound < u.value) : bound.toNat < totalValue l := by
  obtain ⟨u, rest, rfl⟩ := List.exists_cons_of_ne_nil some
  have first := UInt64.lt_iff_toNat_lt.1 (above u List.mem_cons_self)
  rw [totalValue, List.map_cons, List.sum_cons]
  omega

namespace Migration

/-- A value takes eight bytes whatever it is. -/
theorem length_encode_transaction (batch : List Utxo) (value other : UInt64) (script : Script) :
    (transaction batch value script).encode.length =
      (transaction batch other script).encode.length := by
  have outputs : (transaction batch value script).encodeOutputs.length =
      (transaction batch other script).encodeOutputs.length := by
    simp [transaction, Transaction.encodeOutputs, TxOut.encode]
  have inputs : (transaction batch value script).encodeInputs =
      (transaction batch other script).encodeInputs := rfl
  simp only [Transaction.encode, Transaction.encodeBase, apply_ite List.length, List.length_append,
    outputs, inputs]
  rfl

theorem signedSize_transaction (retiring : Federation) (batch : List Utxo) (value other : UInt64)
    (script : Script) :
    signedSize retiring (transaction batch value script) =
      signedSize retiring (transaction batch other script) := by
  rw [signedSize, signedSize, length_encode_transaction batch value other]
  rfl

theorem isMigratable_iff {feeRate : UInt64} {u : Utxo} :
    isMigratable feeRate u = true ↔ threshold feeRate < u.value := decide_eq_true_iff

/-- The cap on a fee leaves at least the bound, and what is left and the fee are the total. -/
theorem capped_fee {estimated total bound fee : UInt64} (enough : bound ≤ total)
    (capped : fee = min estimated (total - bound)) :
    fee.toNat = min estimated.toNat (total.toNat - bound.toNat) ∧
      (total - fee).toNat + fee.toNat = total.toNat ∧ bound ≤ total - fee := by
  have charged : fee.toNat = min estimated.toNat (total.toNat - bound.toNat) := by
    rw [capped, UInt64.toNat_min, UInt64.toNat_sub_of_le _ _ enough]
  rw [UInt64.le_iff_toNat_le] at enough
  have left : (total - fee).toNat = total.toNat - fee.toNat :=
    UInt64.toNat_sub_of_le _ _ (UInt64.le_iff_toNat_le.2 (by omega))
  refine ⟨charged, by omega, ?_⟩
  rw [UInt64.le_iff_toNat_le]
  omega

/-- A batch of outputs that are worth moving pays what they hold, less the fee. -/
theorem exists_moveBatch {feeRate : UInt64} {retiring active : Federation} {batch : List Utxo}
    (some : batch ≠ []) (above : ∀ u ∈ batch, threshold feeRate < u.value)
    (valueFits : totalValue batch < UInt64.size)
    (feeFits : ∀ value, feeRate.toNat *
      signedSize retiring (transaction batch value active.p2shScript) < UInt64.size) :
    ∃ m value, moveBatch feeRate retiring active batch = .ok m ∧ m.spent = batch ∧
      m.transaction = transaction batch value active.p2shScript ∧
      value.toNat + m.fee.toNat = totalValue batch ∧ threshold feeRate ≤ value ∧
      m.fee.toNat = min (feeRate.toNat * signedSize retiring m.transaction / 1000)
        (totalValue batch - (threshold feeRate).toNat) := by
  obtain ⟨total, whole⟩ : ∃ total : UInt64, totalValue batch = total.toNat :=
    ⟨.ofNat (totalValue batch), (UInt64.toNat_ofNat_of_lt' valueFits).symm⟩
  obtain ⟨product, multiplied⟩ : ∃ product, mulChecked feeRate
      (signedSize retiring (transaction batch total active.p2shScript)) = .ok product :=
    ⟨_, if_pos (feeFits total)⟩
  have enough : threshold feeRate ≤ total := by
    have above := lt_totalValue some above
    rw [whole, ← UInt64.lt_iff_toNat_lt] at above
    exact UInt64.le_of_lt above
  obtain ⟨fee, capped⟩ : ∃ fee, fee = min (product / 1000) (total - threshold feeRate) := ⟨_, rfl⟩
  obtain ⟨charged, balanced, worthwhile⟩ := capped_fee enough capped
  refine ⟨⟨transaction batch (total - fee) active.p2shScript, batch, fee⟩, total - fee, ?_, rfl, rfl,
    balanced.trans whole.symm, worthwhile, ?_⟩
  · refine moveBatch_eq_ok_iff.2 ⟨total, product / 1000, sumChecked_values_eq_ok_iff.2 whole,
      bind_eq_ok_iff.2 ⟨product, multiplied, rfl⟩, ?_⟩
    rw [capped]
  · rw [signedSize_transaction retiring batch _ total, mulChecked_eq_ok_iff.1 multiplied, whole]
    exact charged

end Migration

namespace State

/-- No sum or product of a migration is out of range. The size of the transaction does not depend on
    the value that it pays. -/
structure InRange (s : State) (env : Env) (retiring active : Federation) : Prop where
  ends : env.activationAge.toNat + env.constants.migrationAgeEnd.toNat < UInt64.size
  value : totalValue (s.batch env) < UInt64.size
  fee : s.batch env ≠ [] → ∀ value, (s.feeRate env.constants).toNat *
    signedSize retiring (transaction (s.batch env) value active.p2shScript) < UInt64.size

/-- A transaction moves the first outputs that are worth it, as many as it may spend. What it pays and
    the fee are what it spends, and the state afterwards differs from the one before in the outputs
    that are left, the queue and the known hashes. -/
structure Transfer (s : State) (env : Env) (retiring active : Federation) (m : MigrationTransaction)
    (t : State) : Prop where
  spent : m.spent = (s.oldUtxos.filter fun u => threshold (s.feeRate env.constants) < u.value).take
    env.constants.maxMigrationInputs.toNat
  inputs : m.transaction.inputs =
    m.spent.map fun u => { previous := u.outpoint, sequence := replaceableSequence }
  outputs : ∃ value, m.transaction.outputs = [⟨value, active.p2shScript⟩] ∧
    value.toNat + m.fee.toNat = totalValue m.spent ∧ threshold (s.feeRate env.constants) ≤ value
  covered : (threshold (s.feeRate env.constants)).toNat ≤ totalValue m.spent
  fee : m.fee.toNat =
    min ((s.feeRate env.constants).toNat * signedSize retiring m.transaction / 1000)
      (totalValue m.spent - (threshold (s.feeRate env.constants)).toNat)
  after : ∃ hash, m.transaction.firstInputSighash? retiring.redeemScript = some hash ∧
    t = { s with
      oldUtxos := s.oldUtxos.filter fun u => u ∉ m.spent
      waitingPegouts := s.waitingPegouts ++ [⟨env.block.number, m.transaction⟩]
      pegoutSighashes :=
        if env.activations.pegoutTxIndex then s.pegoutSighashes.insert hash else s.pegoutSighashes }

variable {s : State} {env : Env} {retiring active : Federation}

theorem above_of_mem_batch {u : Utxo} (inside : u ∈ s.batch env) :
    threshold (s.feeRate env.constants) < u.value :=
  isMigratable_iff.1 (List.mem_filter.1 (List.mem_of_mem_take inside)).2

theorem batch_ne_nil_iff : s.batch env ≠ [] ↔ 1 ≤ env.constants.maxMigrationInputs.toNat ∧
    ∃ u ∈ s.oldUtxos, threshold (s.feeRate env.constants) < u.value := by
  rw [batch, Ne, List.take_eq_nil_iff, not_or, List.filter_eq_nil_iff]
  refine and_congr Nat.one_le_iff_ne_zero.symm ?_
  simp only [isMigratable_iff, not_forall, not_not, exists_prop]

/-- A batch that is moved is spent and paid for, and nothing else is changed. -/
theorem transfer_of_batch (distinct : (s.oldUtxos.map Utxo.outpoint).Nodup)
    (fits : s.InRange env retiring active) (worth : s.batch env ≠ []) :
    ∃ m t, s.migrateBatch env retiring active = .ok (some m, t) ∧
      s.Transfer env retiring active m t := by
  have above : ∀ u ∈ s.batch env, threshold (s.feeRate env.constants) < u.value :=
    fun _ => above_of_mem_batch
  obtain ⟨m, value, made, spent, written, balanced, worthwhile, fee⟩ :=
    exists_moveBatch worth above fits.value (fits.fee worth)
  have signed := firstInputSighash?_transaction worth value active.p2shScript retiring.redeemScript
  have left := filter_unspent (batch_sublist s env).subset distinct
  rw [← written] at signed
  rw [← spent] at balanced fee left
  refine ⟨m, s.afterMoving env m (if env.activations.pegoutTxIndex then
    m.transaction.firstInputSighash? retiring.redeemScript else none), ?_, ?_⟩
  · exact (migrateBatch_of_batch worth).trans (bind_eq_ok_iff.2 ⟨m, made, rfl⟩)
  · refine ⟨spent, ?_, ⟨value, ?_, balanced, worthwhile⟩, ?_, fee, _, signed, ?_⟩
    · rw [written, spent]
      rfl
    · rw [written]
      rfl
    · rw [spent]
      exact Nat.le_of_lt (lt_totalValue worth above)
    · unfold afterMoving
      rw [left, signed]
      by_cases index : env.activations.pegoutTxIndex = true <;> simp [index]

/-- The search for a batch to move succeeds, and what it finds is moved. -/
theorem exists_transfer (distinct : (s.oldUtxos.map Utxo.outpoint).Nodup)
    (fits : s.InRange env retiring active) :
    ∃ migration t, s.migrateBatch env retiring active = .ok (migration, t) ∧
      (migration.isSome ↔ s.batch env ≠ []) ∧
      (∀ m, migration = some m → s.Transfer env retiring active m t) ∧
      (migration = none → t = s) := by
  by_cases worth : s.batch env = []
  · exact ⟨none, s, migrateBatch_of_nil worth, by simp [worth], by simp, fun _ => rfl⟩
  · obtain ⟨m, t, moves, transfer⟩ := transfer_of_batch distinct fits worth
    refine ⟨some m, t, moves, by simp [worth], ?_, by simp⟩
    rintro _ ⟨⟩
    exact transfer

theorem worthMoving_eq_nil_iff_le {c : Constants} :
    s.worthMoving c = [] ↔ ∀ u ∈ s.oldUtxos, u.value ≤ threshold (s.feeRate c) := by
  rw [worthMoving, List.filter_eq_nil_iff]
  simp only [isMigratable_iff, UInt64.not_lt]

/-- Once a migration has begun, it never fails, and it moves a batch exactly if a transaction may spend
    an output and some output is above the threshold. The transaction pays the new federation what it
    spends, less the fee. Apart from what it moves, the state is changed only if the retiring
    federation is decommissioned: when no output is left, or in the last phase none that is above the
    threshold. -/
theorem migration_transfers (replaced : s.retiringFederation env = .ok (some retiring))
    (replaces : s.activeFederation env = .ok active)
    (begins : env.activationAge.toNat + env.constants.migrationAgeBegin.toNat ≤
      env.block.number.toNat - active.creationBlock.toNat)
    (distinct : (s.oldUtxos.map Utxo.outpoint).Nodup) (fits : s.InRange env retiring active) :
    ∃ outcome moved t, s.processMigration env = .ok (outcome, t) ∧
      (outcome.migration.isSome ↔ 1 ≤ env.constants.maxMigrationInputs.toNat ∧
        ∃ u ∈ s.oldUtxos, threshold (s.feeRate env.constants) < u.value) ∧
      (∀ m, outcome.migration = some m → s.Transfer env retiring active m moved) ∧
      (outcome.migration = none → moved = s) ∧
      (outcome.decommissioned = true ↔ moved.oldUtxos = [] ∨
        (env.activationAge.toNat + env.constants.migrationAgeEnd.toNat ≤
            env.block.number.toNat - active.creationBlock.toNat ∧
          ∀ u ∈ moved.oldUtxos, u.value ≤ threshold (s.feeRate env.constants))) ∧
      outcome.dropped = (if outcome.decommissioned then moved.oldUtxos else []) ∧
      t = if outcome.decommissioned then
        { moved with
          lastRetiredScript := some retiring.p2shScript
          oldFederation := none
          oldUtxos := [] }
        else moved := by
  obtain ⟨migration, moved, searched, emits, transfers, idle⟩ := exists_transfer distinct fits
  have sameRate : moved.feeRate env.constants = s.feeRate env.constants := by
    cases migration with
    | none => rw [idle rfl]
    | some m =>
      obtain ⟨_, _, rfl⟩ := (transfers m rfl).after
      rfl
  have done_iff : (moved.oldUtxos = [] ∨
      (env.activationAge.toNat + env.constants.migrationAgeEnd.toNat ≤
        env.block.number.toNat - active.creationBlock.toNat ∧
          moved.worthMoving env.constants = [])) ↔
      (moved.oldUtxos = [] ∨
        (env.activationAge.toNat + env.constants.migrationAgeEnd.toNat ≤
          env.block.number.toNat - active.creationBlock.toNat ∧
            ∀ u ∈ moved.oldUtxos, u.value ≤ threshold (s.feeRate env.constants))) := by
    rw [worthMoving_eq_nil_iff_le, sameRate]
  rw [processMigration_of_begun replaced replaces begins fits.ends, searched]
  rw [batch_ne_nil_iff] at emits
  by_cases ended : moved.oldUtxos = [] ∨
    (env.activationAge.toNat + env.constants.migrationAgeEnd.toNat ≤
      env.block.number.toNat - active.creationBlock.toNat ∧ moved.worthMoving env.constants = [])
  · exact ⟨{ migration, decommissioned := true, dropped := moved.oldUtxos }, moved,
      moved.decommissioned retiring, congrArg Except.ok (if_pos ended), emits, transfers, idle,
      iff_of_true rfl (done_iff.1 ended), rfl, rfl⟩
  · exact ⟨{ migration }, moved, moved, congrArg Except.ok (if_neg ended), emits, transfers, idle,
      iff_of_false Bool.false_ne_true fun absurd => ended (done_iff.2 absurd), rfl, rfl⟩

set_option maxRecDepth 100000 in
/-- Of two outputs only one is worth moving. It holds 3000 satoshis and the threshold is 2500, so that
    the fee is 500. -/
theorem migration_transfers_with_capped_fee :
    ∃ (s t : State) (env : Env) (retiring active : Federation) (outcome : MigrationOutcome)
      (m : MigrationTransaction),
      s.retiringFederation env = .ok (some retiring) ∧ s.activeFederation env = .ok active ∧
      (s.oldUtxos.map Utxo.outpoint).Nodup ∧ s.InRange env retiring active ∧
      s.processMigration env = .ok (outcome, t) ∧ outcome.decommissioned = false ∧
      outcome.migration = some m ∧ s.Transfer env retiring active m t ∧
      totalValue m.spent = 3000 ∧ m.fee = 500 ∧ t.oldUtxos.length = 1 := by
  obtain ⟨_, b, _, seen⟩ := Bridge.exists_runs_of_play
    (P := fun _ b => b.env.toOption.any (fun env =>
      (b.state.retiringFederation env).toOption.any (fun retiring? => retiring?.any fun retiring =>
      (b.state.activeFederation env).toOption.any (fun active =>
      (b.state.processMigration env).toOption.any fun done => done.1.migration.any fun m =>
      decide (env.activationAge = 10 ∧ env.constants = Scenario.indexed ∧ env.block.number = 30 ∧
        active.creationBlock = 5 ∧ (b.state.oldUtxos.map Utxo.outpoint).Nodup ∧
        totalValue (b.state.batch env) = 3000 ∧
        (b.state.feeRate env.constants).toNat *
          signedSize retiring (transaction (b.state.batch env) 0 active.p2shScript) < UInt64.size ∧
        done.1.decommissioned = false ∧ totalValue m.spent = 3000 ∧ m.fee = 500 ∧
        done.2.oldUtxos.length = 1)))) = true)
    (b := .startAt Scenario.indexed ⟨5, 0⟩ (Scenario.indexed.activations.atBlock 5))
    (.perform (.depositNew (Scenario.output 0 3000)) ::
      .perform (.depositNew (Scenario.output 1 100)) :: Scenario.change ++
      [Scenario.goTo Scenario.indexed 30])
    (by decide +kernel)
  obtain ⟨env, _, seen⟩ := (Option.any_eq_true _ _).1 seen
  obtain ⟨retiring?, replaced, seen⟩ := (Option.any_eq_true _ _).1 seen
  obtain ⟨retiring, found, seen⟩ := (Option.any_eq_true _ _).1 seen
  obtain ⟨active, replaces, seen⟩ := (Option.any_eq_true _ _).1 seen
  obtain ⟨⟨outcome, t⟩, migrated, seen⟩ := (Option.any_eq_true _ _).1 seen
  obtain ⟨m, emitted, seen⟩ := (Option.any_eq_true _ _).1 seen
  rw [toOption_eq_some_iff] at replaced replaces migrated
  rw [found] at replaced
  obtain ⟨age, constants, number, created, distinct, held, product, stays, spent, fee, left⟩ :=
    of_decide_eq_true seen
  have fits : b.state.InRange env retiring active := by
    refine ⟨by rw [age, constants]; decide, by rw [held]; decide, fun _ value => ?_⟩
    rwa [signedSize_transaction retiring _ value 0]
  obtain ⟨_, moved, _, again, _, transfers, _, _, _, last⟩ := migration_transfers replaced replaces
    (by rw [age, constants, number, created]; decide) distinct fits
  cases migrated.symm.trans again
  rw [stays] at last
  cases last
  exact ⟨b.state, moved, env, retiring, active, outcome, m, replaced, replaces, distinct, fits,
    migrated, stays, emitted, transfers m emitted, spent, fee, left⟩

end State

end TwoWayPeg
