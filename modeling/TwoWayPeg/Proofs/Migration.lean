import TwoWayPeg.Proofs.Run

/-!
# What the migration does in a block

Without a retiring federation the migration does nothing. With one it may move a batch of outputs,
and it may decommission the federation after that; `Migrated` has a case for each.
-/

namespace TwoWayPeg

namespace Migration

/-- How a batch is moved: the fee is estimated for a transaction that pays all that is spent. -/
theorem moveBatch_eq_ok_iff {feeRate : UInt64} {retiring active : Federation} {batch : List Utxo}
    {m : MigrationTransaction} : moveBatch feeRate retiring active batch = .ok m ↔
      ∃ total estimated, sumChecked (batch.map Utxo.value) = .ok total ∧
        estimatedFee feeRate (signedSize retiring (transaction batch total active.p2shScript)) =
          .ok estimated ∧
        m = ⟨transaction batch (total - min estimated (total - threshold feeRate))
          active.p2shScript, batch, min estimated (total - threshold feeRate)⟩ := by
  unfold moveBatch
  simp only [bind_eq_ok_iff]
  constructor
  · rintro ⟨total, summed, estimated, multiplied, made⟩
    cases made
    exact ⟨total, estimated, summed, multiplied, rfl⟩
  · rintro ⟨total, estimated, summed, multiplied, rfl⟩
    exact ⟨total, summed, estimated, multiplied, rfl⟩

theorem moveBatch_spec {feeRate : UInt64} {retiring active : Federation} {batch : List Utxo}
    {m : MigrationTransaction} (h : moveBatch feeRate retiring active batch = .ok m) :
    m.spent = batch ∧ ∃ value, m.transaction = transaction batch value active.p2shScript := by
  obtain ⟨total, estimated, _, _, rfl⟩ := moveBatch_eq_ok_iff.1 h
  exact ⟨rfl, _, rfl⟩

end Migration

open Migration

namespace State

/-- The outputs that a transaction moves next. -/
def batch (s : State) (env : Env) : List Utxo :=
  (s.oldUtxos.filter (isMigratable (s.feeRate env.constants))).take
    env.constants.maxMigrationInputs.toNat

/-- What the search for a batch to move can lead to. -/
inductive Moved (s : State) (env : Env) (retiring active : Federation) :
    Option MigrationTransaction → State → Prop
  | nothing : Moved s env retiring active none s
  | batch {m : MigrationTransaction} {sighash : Option Hash256} (worth : s.batch env ≠ [])
      (made : moveBatch (s.feeRate env.constants) retiring active (s.batch env) = .ok m)
      (registered : sighash =
        if env.activations.pegoutTxIndex then m.transaction.firstInputSighash? retiring.redeemScript
        else none) :
      Moved s env retiring active (some m) (s.afterMoving env m sighash)

/-- What the migration can do in a block. -/
inductive Migrated (s : State) (env : Env) : MigrationOutcome → State → Prop
  | idle (free : s.retiringFederation env = .ok none) : Migrated s env {} s
  | moved {retiring active : Federation} {migration : Option MigrationTransaction} {t : State}
      (replaced : s.retiringFederation env = .ok (some retiring))
      (replaces : s.activeFederation env = .ok active)
      (moves : s.Moved env retiring active migration t) (left : t.oldUtxos ≠ []) :
      Migrated s env { migration } t
  | retired {retiring active : Federation} {migration : Option MigrationTransaction} {t : State}
      (replaced : s.retiringFederation env = .ok (some retiring))
      (replaces : s.activeFederation env = .ok active)
      (moves : s.Moved env retiring active migration t)
      (done : t.oldUtxos.any (isMigratable (t.feeRate env.constants)) = false) :
      Migrated s env { migration, decommissioned := true, dropped := t.oldUtxos }
        (t.decommissioned retiring)

variable {s s' : State} {env : Env} {retiring active : Federation}

theorem migrateBatch_moved {migration : Option MigrationTransaction}
    (h : s.migrateBatch env retiring active = .ok (migration, s')) :
    s.Moved env retiring active migration s' := by
  unfold migrateBatch at h
  dsimp only at h
  split at h
  · cases h
    exact .nothing
  next worth =>
  obtain ⟨m, made, h⟩ := bind_eq_ok_iff.1 h
  split at h
  · next index =>
    split at h
    · next hash found =>
      cases h
      refine .batch (by simpa [batch] using worth) made ?_
      rw [if_pos index, found]
    · cases h
  · next index =>
    cases h
    refine .batch (by simpa [batch] using worth) made ?_
    rw [if_neg index]

theorem processMigration_migrated {outcome : MigrationOutcome}
    (h : s.processMigration env = .ok (outcome, s')) : s.Migrated env outcome s' := by
  unfold processMigration at h
  obtain ⟨retiring?, replaced, h⟩ := bind_eq_ok_iff.1 h
  cases retiring? with
  | none =>
    cases h
    exact .idle replaced
  | some retiring =>
    obtain ⟨active, replaces, h⟩ := bind_eq_ok_iff.1 h
    obtain ⟨begins, _, h⟩ := bind_eq_ok_iff.1 h
    obtain ⟨ends, _, h⟩ := bind_eq_ok_iff.1 h
    obtain ⟨⟨migration, t⟩, moves, h⟩ : ∃ moved : Option MigrationTransaction × State,
        s.Moved env retiring active moved.1 moved.2 ∧ _ = Except.ok (outcome, s') := by
      dsimp only at h
      split at h
      · obtain ⟨moved, moves, h⟩ := bind_eq_ok_iff.1 h
        exact ⟨moved, migrateBatch_moved moves, h⟩
      · exact ⟨(none, s), .nothing, h⟩
    dsimp only at h
    split at h
    · next ended =>
      cases h
      refine .retired replaced replaces moves ?_
      rcases ended with empty | ⟨_, left⟩
      · rw [List.isEmpty_iff] at empty
        rw [empty]
        rfl
      · simpa using left
    · next left =>
      cases h
      refine .moved replaced replaces moves ?_
      intro empty
      exact left (.inl (by simp [empty]))

end State

end TwoWayPeg
