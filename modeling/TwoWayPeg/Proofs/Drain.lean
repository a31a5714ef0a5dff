import TwoWayPeg.Proofs.Checked
import TwoWayPeg.Proofs.Conservation

/-!
# How the outputs of a retiring federation run out

Each migration moves as many outputs as a transaction may spend, those that were held first. Once
none is left that is worth moving, the same migration decommissions the retiring federation and gives
up the others. `Drains` says what a series of migrations does, and the proof is by induction on it:
after a migration that leaves something worth moving, the state is one to be drained again.
-/

namespace TwoWayPeg

open Migration

/-- The surroundings in another block. -/
def Env.inBlock (env : Env) (block : Block) : Env := { env with block }

@[simp] theorem Env.constants_inBlock (env : Env) (block : Block) :
    (env.inBlock block).constants = env.constants := rfl

namespace MigrationOutcome

/-- The outputs that the migration transaction spends. -/
def spent (outcome : MigrationOutcome) : List Utxo :=
  outcome.migration.elim [] MigrationTransaction.spent

/-- A migration that does nothing spends nothing. -/
@[simp] theorem spent_idle : ({} : MigrationOutcome).spent = [] := rfl

end MigrationOutcome

namespace Migration

/-- The number of migrations until the retiring federation is decommissioned. -/
def calls (count perCall : Nat) : Nat := max 1 ((count + perCall - 1) / perCall)

theorem calls_pos (count perCall : Nat) : 0 < calls count perCall := Nat.le_max_left 1 _

theorem le_calls_mul {count perCall : Nat} (positive : 0 < perCall) :
    count ≤ calls count perCall * perCall := by
  have rounded := Nat.div_add_mod (count + perCall - 1) perCall
  have left := Nat.mod_lt (count + perCall - 1) positive
  have more : (count + perCall - 1) / perCall * perCall ≤ calls count perCall * perCall :=
    Nat.mul_le_mul_right _ (Nat.le_max_right _ _)
  rw [Nat.mul_comm] at rounded
  omega

theorem calls_of_le {count perCall : Nat} (few : count ≤ perCall) : calls count perCall = 1 := by
  refine Nat.max_eq_left ?_
  rcases Nat.eq_zero_or_pos perCall with rfl | positive
  · simp
  · rw [Nat.div_le_iff_le_mul_add_pred positive]
    omega

theorem calls_of_lt {count perCall : Nat} (positive : 0 < perCall) (many : perCall < count) :
    calls count perCall = calls (count - perCall) perCall + 1 := by
  have next : (count + perCall - 1) / perCall =
      (count - perCall + perCall - 1) / perCall + 1 := by
    rw [← Nat.add_div_right _ positive]
    congr 1
    omega
  have more : 1 ≤ (count - perCall + perCall - 1) / perCall := by
    rw [Nat.one_le_div_iff positive]
    omega
  rw [calls, calls, next, Nat.max_eq_right more, Nat.max_eq_right (by omega)]

/-- What a series of migrations does with the outputs worth moving and the others. -/
structure Drains (worth dust : List Utxo) (perCall : Nat) (outcomes : List MigrationOutcome) :
    Prop where
  each : ∀ i outcome, outcomes[i]? = some outcome →
    outcome.spent = (worth.drop (i * perCall)).take perCall ∧
      (outcome.migration.isSome ↔ outcome.spent ≠ []) ∧
      (outcome.decommissioned = true ↔ i + 1 = calls worth.length perCall) ∧
      outcome.dropped = if i + 1 = calls worth.length perCall then dust else []
  spent : outcomes.flatMap MigrationOutcome.spent = worth.take (outcomes.length * perCall)
  dropped : outcomes.flatMap MigrationOutcome.dropped =
    if calls worth.length perCall ≤ outcomes.length then dust else []

theorem overflow_of_estimatedFee {feeRate : UInt64} {size : Nat} {e : PegError}
    (failed : estimatedFee feeRate size = .error e) : ∃ cause, e = .overflow cause := by
  rcases bind_eq_error_iff.1 failed with product | ⟨_, _, failed⟩
  · exact overflow_of_mulChecked product
  · cases failed

/-- A batch that cannot be moved has too much value, or a fee that is out of range. -/
theorem overflow_of_moveBatch {feeRate : UInt64} {retiring active : Federation}
    {batch : List Utxo} {e : PegError} (failed : moveBatch feeRate retiring active batch = .error e) :
    ∃ cause, e = .overflow cause := by
  rcases bind_eq_error_iff.1 failed with value | ⟨_, _, failed⟩
  · exact overflow_of_sumChecked value
  rcases bind_eq_error_iff.1 failed with fee | ⟨_, _, failed⟩
  · exact overflow_of_estimatedFee fee
  · cases failed

variable {worth dust : List Utxo} {perCall : Nat} {outcome : MigrationOutcome}
  {outcomes : List MigrationOutcome}

theorem Drains.nil : Drains worth dust perCall [] := by
  have some := Nat.ne_of_gt (calls_pos worth.length perCall)
  exact ⟨by simp, by simp, by simp [some]⟩

/-- The migration that takes the last outputs worth moving is the one that decommissions. Nothing
    happens after it. -/
theorem Drains.last (few : worth.length ≤ perCall) (spent : outcome.spent = worth)
    (moved : outcome.migration.isSome ↔ worth ≠ []) (gone : outcome.decommissioned = true)
    (dropped : outcome.dropped = dust) (count : Nat) :
    Drains worth dust perCall (outcome :: List.replicate count {}) := by
  have once := calls_of_le few
  constructor
  case each =>
    intro i other found
    cases i with
    | zero =>
      cases found
      rw [Nat.zero_mul, List.drop_zero, List.take_of_length_le few, spent, once]
      exact ⟨rfl, moved, by simp [gone], by simp [dropped]⟩
    | succ i =>
      rw [List.getElem?_cons_succ, List.getElem?_replicate, Option.ite_none_right_eq_some] at found
      cases found.2
      have past : worth.length ≤ (i + 1) * perCall :=
        Nat.le_trans few (Nat.le_mul_of_pos_left _ (Nat.succ_pos i))
      rw [List.drop_eq_nil_of_le past, once]
      simp
  case spent =>
    have all : worth.length ≤ (count + 1) * perCall :=
      Nat.le_trans few (Nat.le_mul_of_pos_left _ (Nat.succ_pos count))
    simp [spent, List.flatMap_replicate, List.take_of_length_le all]
  case dropped => simp [dropped, once, List.flatMap_replicate]

/-- A migration that leaves something worth moving moves a full batch and does nothing else. -/
theorem Drains.cons (positive : 0 < perCall) (many : perCall < worth.length)
    (spent : outcome.spent = worth.take perCall) (moved : outcome.migration.isSome)
    (stays : outcome.decommissioned = false) (kept : outcome.dropped = [])
    (later : Drains (worth.drop perCall) dust perCall outcomes) :
    Drains worth dust perCall (outcome :: outcomes) := by
  have next : calls worth.length perCall = calls (worth.drop perCall).length perCall + 1 := by
    rw [List.length_drop]
    exact calls_of_lt positive many
  have some := calls_pos (worth.drop perCall).length perCall
  constructor
  case each =>
    intro i other found
    cases i with
    | zero =>
      cases found
      have short : ¬ 0 + 1 = calls worth.length perCall := by omega
      rw [Nat.zero_mul, List.drop_zero, spent, stays, kept, if_neg short]
      refine ⟨rfl, iff_of_true moved ?_, iff_of_false Bool.false_ne_true short, rfl⟩
      rw [← List.length_pos_iff, List.length_take]
      omega
    | succ i =>
      obtain ⟨batch, made, gone, left⟩ := later.each i other found
      refine ⟨?_, made, ?_, ?_⟩
      · rw [batch, List.drop_drop, Nat.succ_mul, Nat.add_comm]
      · rw [gone, next, Nat.add_right_cancel_iff]
      · simp only [left, next, Nat.add_right_cancel_iff]
  case spent =>
    rw [List.flatMap_cons, spent, later.spent, List.length_cons, Nat.succ_mul, Nat.add_comm,
      List.take_add]
  case dropped =>
    rw [List.flatMap_cons, kept, List.nil_append, later.dropped, next, List.length_cons]
    simp

end Migration

/-- The transaction of a batch has an input to be signed. -/
theorem Migration.firstInputSighash?_transaction {batch : List Utxo} (spends : batch ≠ [])
    (value : UInt64) (script redeemScript : Script) :
    (transaction batch value script).firstInputSighash? redeemScript =
      some (doubleSha256 ((transaction batch value script).firstInputPreimage redeemScript)) := by
  rw [Transaction.firstInputSighash?, if_neg]
  simpa [transaction] using spends

/-- The outputs are left whose outpoints are not those of the batch: the ones that are not in it. -/
theorem filter_unspent {l batch : List Utxo} (part : batch ⊆ l)
    (distinct : (l.map Utxo.outpoint).Nodup) :
    (l.filter fun u => !(batch.map Utxo.outpoint).contains u.outpoint) =
      l.filter fun u => !decide (u ∈ batch) := by
  refine List.filter_congr fun u member => congrArg _ ?_
  rw [Bool.eq_iff_iff, decide_eq_true_iff]
  exact contains_outpoint_iff part distinct member

/-- Of the outputs that are left once a batch is taken off, those that pass the test that chose the
    batch are the ones after it, and the others are all there. -/
theorem filter_without_batch {l batch : List Utxo} {p : Utxo → Bool} {n : Nat}
    (distinct : (l.map Utxo.outpoint).Nodup) (chosen : batch = (l.filter p).take n) :
    (l.filter fun u => !(batch.map Utxo.outpoint).contains u.outpoint).filter p =
        (l.filter p).drop n ∧
      ((l.filter fun u => !(batch.map Utxo.outpoint).contains u.outpoint).filter fun u => !p u) =
        l.filter fun u => !p u := by
  have passes {u : Utxo} (inside : u ∈ batch) : u ∈ l ∧ p u = true := by
    rw [chosen] at inside
    exact List.mem_filter.1 (List.mem_of_mem_take inside)
  rw [filter_unspent (fun _ inside => (passes inside).1) distinct]
  constructor
  · have unique : (l.filter p).Nodup := distinct.of_map.filter _
    have apart := List.disjoint_take_drop unique (Nat.le_refl n)
    rw [← chosen] at apart
    calc (l.filter fun u => !decide (u ∈ batch)).filter p
        = (l.filter p).filter fun u => !decide (u ∈ batch) :=
          List.filter_comm _ _ _
      _ = (batch ++ (l.filter p).drop n).filter fun u => !decide (u ∈ batch) := by
          rw [chosen, List.take_append_drop]
      _ = (l.filter p).drop n := by
          rw [List.filter_append, List.filter_eq_nil_iff.2 (by simp), List.nil_append,
            List.filter_eq_self]
          intro u after
          simpa using fun before => apart before after
  · rw [List.filter_filter]
    refine List.filter_congr fun u _ => ?_
    by_cases inside : u ∈ batch
    · simp [(passes inside).2]
    · simp [inside]

namespace State

/-- The migrations in a series of blocks. -/
def migrateIn (s : State) (env : Env) : List Block → Except PegError (List MigrationOutcome × State)
  | [] => return ([], s)
  | block :: rest => do
    let (outcome, t) ← s.processMigration (env.inBlock block)
    let (later, last) ← t.migrateIn env rest
    return (outcome :: later, last)

/-- The outputs of the old federation that are worth moving. -/
def worthMoving (s : State) (c : Constants) : List Utxo :=
  s.oldUtxos.filter (isMigratable (s.feeRate c))

/-- The outputs of the old federation that stay behind. -/
def dust (s : State) (c : Constants) : List Utxo :=
  s.oldUtxos.filter fun u => !isMigratable (s.feeRate c) u

/-- There is a retiring federation, and the migration is in its last phase. -/
structure Draining (s : State) (env : Env) (retiring active : Federation) : Prop where
  replaced : s.retiringFederation env = .ok (some retiring)
  replaces : s.activeFederation env = .ok active
  begins : env.activationAge.toNat + env.constants.migrationAgeBegin.toNat ≤
    env.block.number.toNat - active.creationBlock.toNat
  ends : env.activationAge.toNat + env.constants.migrationAgeEnd.toNat ≤
    env.block.number.toNat - active.creationBlock.toNat
  distinct : (s.oldUtxos.map Utxo.outpoint).Nodup

variable {s t : State} {env : Env} {retiring active : Federation}

/-- The active federation is the new one if there is a retiring one. -/
theorem active_of_retiring (replaced : s.retiringFederation env = .ok (some retiring))
    (replaces : s.activeFederation env = .ok active) :
    s.newFederation = some active ∧ env.shouldBeActive active = .ok true := by
  obtain ⟨new, found, decided⟩ := exists_new_of_retiring replaced
  simp only [activeFederation, found, decided] at replaces
  cases replaces
  exact ⟨found, decided⟩

theorem migrateBatch_of_nil (none : s.batch env = []) :
    s.migrateBatch env retiring active = .ok (Option.none, s) := by
  unfold batch at none
  unfold migrateBatch
  dsimp only
  rw [none]
  rfl

theorem worthMoving_eq_nil_iff {c : Constants} :
    s.worthMoving c = [] ↔ s.oldUtxos.any (isMigratable (s.feeRate c)) = false := by
  rw [worthMoving, List.filter_eq_nil_iff, List.any_eq_false]

/-- Once a migration has begun it moves a batch, and then it either goes on or decommissions. -/
theorem processMigration_of_begun (replaced : s.retiringFederation env = .ok (some retiring))
    (replaces : s.activeFederation env = .ok active)
    (begins : env.activationAge.toNat + env.constants.migrationAgeBegin.toNat ≤
      env.block.number.toNat - active.creationBlock.toNat)
    (fits : env.activationAge.toNat + env.constants.migrationAgeEnd.toNat < UInt64.size) :
    s.processMigration env = s.migrateBatch env retiring active >>= fun (migration, t) =>
      .ok (if t.oldUtxos = [] ∨
          (env.activationAge.toNat + env.constants.migrationAgeEnd.toNat ≤
            env.block.number.toNat - active.creationBlock.toNat ∧
              t.worthMoving env.constants = [])
        then ({ migration, decommissioned := true, dropped := t.oldUtxos },
          t.decommissioned retiring)
        else ({ migration }, t)) := by
  have sum {age : UInt64} (fits : env.activationAge.toNat + age.toNat < UInt64.size) :
      ∃ due, addChecked env.activationAge age = .ok due ∧
        env.activationAge.toNat + age.toNat = due.toNat :=
    ⟨_, if_pos fits, addChecked_eq_ok_iff.1 (if_pos fits)⟩
  have begun : env.activationAge.toNat + env.constants.migrationAgeBegin.toNat < UInt64.size := by
    have := env.block.number.toNat_lt_size
    omega
  obtain ⟨begin_, beginAdded, begun⟩ := sum begun
  obtain ⟨end_, endAdded, ended⟩ := sum fits
  rw [begun] at begins
  simp only [worthMoving_eq_nil_iff, ended]
  unfold processMigration
  rw [replaced, replaces, beginAdded, endAdded]
  by_cases empty : s.oldUtxos = []
  · have none : s.batch env = [] := by simp [batch, empty]
    simp [migrateBatch_of_nil none, empty, bind, Except.bind, pure, Except.pure]
  · simp only [bind, Except.bind, pure, Except.pure]
    rw [if_pos ⟨begins, by simpa using empty⟩]
    cases s.migrateBatch env retiring active with
    | error e => rfl
    | ok moved =>
      simp only [List.isEmpty_iff, Bool.not_eq_eq_eq_not, Bool.not_true]
      split <;> rfl

/-- In the last phase it decommissions once nothing is left that is worth moving. -/
theorem Draining.processMigration_eq (draining : s.Draining env retiring active) :
    s.processMigration env = s.migrateBatch env retiring active >>= fun (migration, t) =>
      .ok (if t.oldUtxos.any (isMigratable (t.feeRate env.constants)) then ({ migration }, t)
        else ({ migration, decommissioned := true, dropped := t.oldUtxos },
          t.decommissioned retiring)) := by
  have fits : env.activationAge.toNat + env.constants.migrationAgeEnd.toNat < UInt64.size := by
    have := env.block.number.toNat_lt_size
    have := draining.ends
    omega
  have done_iff (t : State) : (t.oldUtxos = [] ∨
      (env.activationAge.toNat + env.constants.migrationAgeEnd.toNat ≤
        env.block.number.toNat - active.creationBlock.toNat ∧ t.worthMoving env.constants = [])) ↔
      ¬ t.oldUtxos.any (isMigratable (t.feeRate env.constants)) = true := by
    rw [Bool.not_eq_true, ← worthMoving_eq_nil_iff, and_iff_right draining.ends, or_iff_right_iff_imp]
    intro none
    rw [worthMoving, none]
    rfl
  rw [processMigration_of_begun draining.replaced draining.replaces draining.begins fits]
  simp only [done_iff, ite_not]

/-- Every batch that is found is moved, since there is a first input. -/
theorem migrateBatch_of_batch (worth : s.batch env ≠ []) :
    s.migrateBatch env retiring active =
      moveBatch (s.feeRate env.constants) retiring active (s.batch env) >>= fun m =>
        .ok (some m, s.afterMoving env m (if env.activations.pegoutTxIndex then
          m.transaction.firstInputSighash? retiring.redeemScript else none)) := by
  unfold migrateBatch
  dsimp only
  rw [show (s.oldUtxos.filter (isMigratable (s.feeRate env.constants))).take
    env.constants.maxMigrationInputs.toNat = s.batch env from rfl, if_neg (by simpa using worth)]
  cases made : moveBatch (s.feeRate env.constants) retiring active (s.batch env) with
  | error e => rfl
  | ok m =>
    obtain ⟨_, value, written⟩ := moveBatch_spec made
    have signed := firstInputSighash?_transaction worth value active.p2shScript retiring.redeemScript
    rw [← written] at signed
    simp only [bind, Except.bind, signed]
    split <;> rfl

/-- The search for a batch fails only by an overflow. It moves what is next, and nothing else is
    changed that tells what is left to be done. -/
theorem exists_migrateBatch (distinct : (s.oldUtxos.map Utxo.outpoint).Nodup)
    (positive : 0 < env.constants.maxMigrationInputs.toNat)
    (sound : ∀ cause, s.migrateBatch env retiring active ≠ .error (.overflow cause)) :
    ∃ migration t, s.migrateBatch env retiring active = .ok (migration, t) ∧
      migration.elim [] MigrationTransaction.spent = s.batch env ∧
      (migration.isSome ↔ s.batch env ≠ []) ∧
      t.worthMoving env.constants =
        (s.worthMoving env.constants).drop env.constants.maxMigrationInputs.toNat ∧
      t.dust env.constants = s.dust env.constants ∧
      (t.oldUtxos.map Utxo.outpoint).Nodup ∧
      t.newFederation = s.newFederation ∧ t.oldFederation = s.oldFederation := by
  by_cases worth : s.batch env = []
  · have none : s.worthMoving env.constants = [] :=
      (List.take_eq_nil_iff.1 worth).resolve_left (Nat.ne_of_gt positive)
    exact ⟨Option.none, s, migrateBatch_of_nil worth, by simp [worth], by simp [worth],
      by simp [none], rfl, distinct, rfl, rfl⟩
  · rw [migrateBatch_of_batch worth] at sound ⊢
    cases made : moveBatch (s.feeRate env.constants) retiring active (s.batch env) with
    | error e =>
      obtain ⟨cause, rfl⟩ := overflow_of_moveBatch made
      rw [made] at sound
      exact absurd rfl (sound cause)
    | ok m =>
      have spent := (moveBatch_spec made).1
      obtain ⟨moved, stays⟩ := filter_without_batch distinct spent
      exact ⟨some m, _, rfl, spent, by simp [worth], moved, stays,
        distinct.sublist (List.filter_sublist.map _), rfl, rfl⟩

/-- What a migration does while a retiring federation is drained: it leaves something worth moving, or
    it is the last one. -/
inductive DrainStep (s : State) (env : Env) (retiring : Federation) (outcome : MigrationOutcome)
    (t : State) : Prop
  | more
      (many : env.constants.maxMigrationInputs.toNat < (s.worthMoving env.constants).length)
      (stays : outcome.decommissioned = false) (kept : outcome.dropped = [])
      (worth : t.worthMoving env.constants =
        (s.worthMoving env.constants).drop env.constants.maxMigrationInputs.toNat)
      (dust : t.dust env.constants = s.dust env.constants)
      (distinct : (t.oldUtxos.map Utxo.outpoint).Nodup)
      (new : t.newFederation = s.newFederation) (old : t.oldFederation = s.oldFederation) :
      DrainStep s env retiring outcome t
  | last (few : (s.worthMoving env.constants).length ≤ env.constants.maxMigrationInputs.toNat)
      (gone : outcome.decommissioned = true) (dropped : outcome.dropped = s.dust env.constants)
      (new : t.newFederation = s.newFederation)
      (old : t.oldFederation = none ∧ t.lastRetiredScript = some retiring.p2shScript) :
      DrainStep s env retiring outcome t

theorem dust_eq_oldUtxos {c : Constants} (none : s.worthMoving c = []) :
    s.dust c = s.oldUtxos := by
  rw [worthMoving, List.filter_eq_nil_iff] at none
  rw [dust, List.filter_eq_self]
  intro u member
  simpa using none u member

theorem Draining.step (draining : s.Draining env retiring active)
    (positive : 0 < env.constants.maxMigrationInputs.toNat)
    (sound : ∀ cause, s.processMigration env ≠ .error (.overflow cause)) :
    ∃ outcome t, s.processMigration env = .ok (outcome, t) ∧
      outcome.spent =
        (s.worthMoving env.constants).take env.constants.maxMigrationInputs.toNat ∧
      (outcome.migration.isSome ↔ outcome.spent ≠ []) ∧ s.DrainStep env retiring outcome t := by
  rw [draining.processMigration_eq] at sound ⊢
  obtain ⟨migration, t, searched, spent, moved, worth, dust, distinct, new, old⟩ :=
    exists_migrateBatch draining.distinct positive fun cause failed =>
      sound cause (bind_eq_error_iff.2 (.inl failed))
  rw [searched]
  by_cases many : env.constants.maxMigrationInputs.toNat < (s.worthMoving env.constants).length
  · have left : t.oldUtxos.any (isMigratable (t.feeRate env.constants)) = true := by
      rw [← Bool.not_eq_false, ← worthMoving_eq_nil_iff, worth, List.drop_eq_nil_iff]
      omega
    refine ⟨{ migration }, t, ?_, spent, by rw [moved, ← spent]; rfl,
      .more many rfl rfl worth dust distinct new old⟩
    exact congrArg Except.ok (if_pos left)
  · have none : t.worthMoving env.constants = [] := by
      rw [worth, List.drop_eq_nil_iff]
      omega
    have left : ¬ t.oldUtxos.any (isMigratable (t.feeRate env.constants)) = true := by
      rw [Bool.not_eq_true, ← worthMoving_eq_nil_iff]
      exact none
    refine ⟨{ migration, decommissioned := true, dropped := t.oldUtxos }, t.decommissioned retiring,
      ?_, spent, by rw [moved, ← spent]; rfl,
      .last (Nat.le_of_not_lt many) rfl ?_ new ⟨rfl, rfl⟩⟩
    · exact congrArg Except.ok (if_neg left)
    · rw [← dust]
      exact (dust_eq_oldUtxos none).symm

end State

/-- A federation whose age has been decided in a block has it decided in any other, and is old enough
    in a later block if it was before. -/
theorem Env.shouldBeActive_inBlock {env : Env} {f : Federation} {past : Bool}
    (decided : env.shouldBeActive f = .ok past) (block : Block) :
    ∃ past', (env.inBlock block).shouldBeActive f = .ok past' ∧
      (env.block.number ≤ block.number → past = true → past' = true) := by
  obtain ⟨due, added, decided⟩ := bind_eq_ok_iff.1 decided
  cases decided
  refine ⟨decide (due ≤ block.number), bind_eq_ok_iff.2 ⟨due, added, rfl⟩, ?_⟩
  intro later past
  rw [decide_eq_true_iff] at past ⊢
  exact UInt64.le_trans past later

namespace State

variable {s t : State} {env : Env} {retiring active : Federation}

/-- A federation that is drained in a block is drained in a later one. -/
theorem Draining.later (draining : s.Draining env retiring active)
    (distinct : (t.oldUtxos.map Utxo.outpoint).Nodup)
    (new : t.newFederation = s.newFederation) (old : t.oldFederation = s.oldFederation)
    {block : Block} (later : env.block.number ≤ block.number) :
    t.Draining (env.inBlock block) retiring active := by
  obtain ⟨found, decided⟩ := active_of_retiring draining.replaced draining.replaces
  obtain ⟨past, still, stays⟩ := Env.shouldBeActive_inBlock decided block
  have held := oldFederation_of_retiring draining.replaced
  cases stays later rfl
  rw [← new] at found
  rw [← old] at held
  have later := UInt64.le_iff_toNat_le.1 later
  refine ⟨?_, ?_, Nat.le_trans draining.begins (Nat.sub_le_sub_right later _),
    Nat.le_trans draining.ends (Nat.sub_le_sub_right later _), distinct⟩
  · simp only [retiringFederation, found, still, held, bind, Except.bind]
    rfl
  · simp only [activeFederation, found, still, bind, Except.bind]
    rfl

/-- Without an old federation the migrations do nothing. -/
theorem migrateIn_idle {past : Bool} (new : s.newFederation = some active)
    (old : s.oldFederation = none) (decided : env.shouldBeActive active = .ok past)
    (blocks : List Block) :
    s.migrateIn env blocks = .ok (List.replicate blocks.length {}, s) := by
  induction blocks with
  | nil => rfl
  | cons block rest ih =>
    obtain ⟨past', decided', _⟩ := Env.shouldBeActive_inBlock decided block
    have free : s.retiringFederation (env.inBlock block) = .ok none := by
      simp only [retiringFederation, new, decided', old, bind, Except.bind]
      cases past' <;> rfl
    refine bind_eq_ok_iff.2 ⟨({}, s), ?_, bind_eq_ok_iff.2 ⟨_, ih, rfl⟩⟩
    exact bind_eq_ok_iff.2 ⟨none, free, rfl⟩

/-- By induction on the migrations: the first one is the last that matters, or the others drain what
    it leaves. -/
theorem drains_of_draining {blocks : List Block} (held : s.oldFederation = some retiring)
    (draining : ∀ block ∈ blocks, s.Draining (env.inBlock block) retiring active)
    (positive : 0 < env.constants.maxMigrationInputs.toNat)
    (sound : ∀ cause, s.migrateIn env blocks ≠ .error (.overflow cause)) :
    ∃ outcomes t, s.migrateIn env blocks = .ok (outcomes, t) ∧
      outcomes.length = blocks.length ∧
      Drains (s.worthMoving env.constants) (s.dust env.constants)
        env.constants.maxMigrationInputs.toNat outcomes ∧
      if calls (s.worthMoving env.constants).length env.constants.maxMigrationInputs.toNat ≤
          blocks.length
        then t.oldFederation = none ∧ t.lastRetiredScript = some retiring.p2shScript
        else t.oldFederation = some retiring := by
  induction blocks generalizing s with
  | nil =>
    refine ⟨[], s, rfl, rfl, .nil, ?_⟩
    rw [List.length_nil, if_neg (Nat.not_le_of_lt (calls_pos _ _))]
    exact held
  | cons block rest ih =>
    obtain ⟨now, draining⟩ := List.forall_mem_cons.1 draining
    obtain ⟨outcome, t, migrated, spent, moved, step⟩ := now.step positive fun cause failed =>
      sound cause (bind_eq_error_iff.2 (.inl failed))
    rw [Env.constants_inBlock] at spent
    cases step with
    | more many stays kept worth dust distinct new old =>
      have after : ∀ block ∈ rest, t.Draining (env.inBlock block) retiring active :=
        fun block member => (draining block member).later distinct new old (UInt64.le_refl _)
      obtain ⟨outcomes, last, others, length, drains, gone⟩ := ih (old.trans held) after
        fun cause failed => sound cause (bind_eq_error_iff.2 (.inr ⟨_, migrated,
          bind_eq_error_iff.2 (.inl failed)⟩))
      rw [Env.constants_inBlock] at many worth dust
      rw [worth] at drains gone
      rw [dust] at drains
      have some : outcome.migration.isSome := by
        rw [moved, spent, ← List.length_pos_iff, List.length_take]
        exact Nat.lt_min.2 ⟨positive, Nat.lt_trans positive many⟩
      refine ⟨outcome :: outcomes, last, bind_eq_ok_iff.2 ⟨_, migrated, bind_eq_ok_iff.2
        ⟨_, others, rfl⟩⟩, congrArg (· + 1) length, .cons positive many spent some stays kept drains,
        ?_⟩
      rw [List.length_drop] at gone
      rw [calls_of_lt positive many, List.length_cons]
      simpa only [Nat.add_le_add_iff_right] using gone
    | last few gone dropped new old =>
      obtain ⟨found, decided⟩ := active_of_retiring now.replaced now.replaces
      obtain ⟨past, decided, _⟩ := Env.shouldBeActive_inBlock decided env.block
      have others : t.migrateIn env rest = .ok (List.replicate rest.length {}, t) :=
        migrateIn_idle (new.trans found) old.1 decided rest
      rw [Env.constants_inBlock] at few dropped
      rw [List.take_of_length_le few] at spent
      refine ⟨outcome :: List.replicate rest.length {}, t, bind_eq_ok_iff.2 ⟨_, migrated,
        bind_eq_ok_iff.2 ⟨_, others, rfl⟩⟩, by simp, .last few spent ?_ gone dropped _, ?_⟩
      · rw [moved, spent]
      · rw [calls_of_le few, List.length_cons, if_pos (Nat.le_add_left 1 _)]
        exact old

/-- In the last phase of a migration, each call moves the next outputs that are worth it, as many as
    a transaction may spend, in the order in which they are held. The call that moves the last of
    them, or the first call if there are none, decommissions the retiring federation and gives up
    the outputs that are not worth moving; no call before it does, and the calls after it do
    nothing. -/
theorem migration_drains {first : Block} {rest : List Block}
    (replaced : s.retiringFederation (env.inBlock first) = .ok (some retiring))
    (replaces : s.activeFederation (env.inBlock first) = .ok active)
    (begins : env.activationAge.toNat + env.constants.migrationAgeBegin.toNat ≤
      first.number.toNat - active.creationBlock.toNat)
    (ends : env.activationAge.toNat + env.constants.migrationAgeEnd.toNat ≤
      first.number.toNat - active.creationBlock.toNat)
    (distinct : (s.oldUtxos.map Utxo.outpoint).Nodup)
    (positive : 1 ≤ env.constants.maxMigrationInputs.toNat)
    (forward : (first :: rest).Pairwise fun a b => a.number ≤ b.number)
    (sound : ∀ cause, s.migrateIn env (first :: rest) ≠ .error (.overflow cause)) :
    ∃ outcomes t, s.migrateIn env (first :: rest) = .ok (outcomes, t) ∧
      outcomes.length = rest.length + 1 ∧
      (∀ i outcome, outcomes[i]? = some outcome →
        outcome.spent =
            ((s.worthMoving env.constants).drop (i * env.constants.maxMigrationInputs.toNat)).take
              env.constants.maxMigrationInputs.toNat ∧
          (outcome.migration.isSome ↔ outcome.spent ≠ []) ∧
          (outcome.decommissioned = true ↔
            i + 1 = calls (s.worthMoving env.constants).length
              env.constants.maxMigrationInputs.toNat) ∧
          outcome.dropped =
            if i + 1 = calls (s.worthMoving env.constants).length
              env.constants.maxMigrationInputs.toNat then s.dust env.constants else []) ∧
      (calls (s.worthMoving env.constants).length env.constants.maxMigrationInputs.toNat ≤
          outcomes.length →
        outcomes.flatMap MigrationOutcome.spent = s.worthMoving env.constants ∧
          outcomes.flatMap MigrationOutcome.dropped = s.dust env.constants ∧
          t.oldFederation = none ∧ t.lastRetiredScript = some retiring.p2shScript) := by
  have start : s.Draining (env.inBlock first) retiring active :=
    ⟨replaced, replaces, begins, ends, distinct⟩
  have draining : ∀ block ∈ first :: rest, s.Draining (env.inBlock block) retiring active := by
    refine List.forall_mem_cons.2 ⟨start, fun block member => ?_⟩
    exact start.later distinct rfl rfl ((List.pairwise_cons.1 forward).1 block member)
  obtain ⟨outcomes, t, migrated, length, drains, gone⟩ :=
    drains_of_draining (oldFederation_of_retiring replaced) draining positive sound
  refine ⟨outcomes, t, migrated, length, drains.each, fun enough => ?_⟩
  have all : (s.worthMoving env.constants).length ≤
      outcomes.length * env.constants.maxMigrationInputs.toNat :=
    Nat.le_trans (le_calls_mul positive) (Nat.mul_le_mul_right _ enough)
  rw [drains.spent, drains.dropped, if_pos enough, List.take_of_length_le all]
  rw [length] at enough
  rw [if_pos enough] at gone
  exact ⟨rfl, rfl, gone⟩

set_option maxRecDepth 100000 in
/-- With one output for each transaction, two outputs worth moving and one that is not take two
    calls. -/
theorem migration_drains_of_three :
    ∃ (s t : State) (env : Env) (retiring active : Federation) (outcomes : List MigrationOutcome),
      s.retiringFederation (env.inBlock ⟨165, 0⟩) = .ok (some retiring) ∧
      s.activeFederation (env.inBlock ⟨165, 0⟩) = .ok active ∧
      (s.oldUtxos.map Utxo.outpoint).Nodup ∧ env.constants.maxMigrationInputs = 1 ∧
      (s.worthMoving env.constants).length = 2 ∧ (s.dust env.constants).length = 1 ∧
      s.migrateIn env [⟨165, 0⟩, ⟨166, 0⟩, ⟨166, 0⟩] = .ok (outcomes, t) ∧
      (∀ i outcome, outcomes[i]? = some outcome →
        outcome.spent = ((s.worthMoving env.constants).drop (i * 1)).take 1 ∧
          (outcome.migration.isSome ↔ outcome.spent ≠ []) ∧
          (outcome.decommissioned = true ↔ i + 1 = 2) ∧
          outcome.dropped = if i + 1 = 2 then s.dust env.constants else []) ∧
      outcomes.flatMap MigrationOutcome.spent = s.worthMoving env.constants ∧
      outcomes.flatMap MigrationOutcome.dropped = s.dust env.constants ∧
      t.oldFederation = none ∧ t.lastRetiredScript = some retiring.p2shScript := by
  obtain ⟨_, b, _, seen⟩ := Bridge.exists_runs_of_play
    (P := fun _ b => b.env.toOption.any (fun env =>
      (b.state.retiringFederation (env.inBlock ⟨165, 0⟩)).toOption.any (fun retiring =>
      (b.state.activeFederation (env.inBlock ⟨165, 0⟩)).toOption.any fun active =>
      (b.state.migrateIn env [⟨165, 0⟩, ⟨166, 0⟩, ⟨166, 0⟩]).toOption.any fun _ =>
      decide (retiring.isSome ∧ active.creationBlock = 5 ∧ env.activationAge = 10 ∧
        env.constants = Scenario.single ∧ (b.state.oldUtxos.map Utxo.outpoint).Nodup ∧
        (b.state.worthMoving env.constants).length = 2 ∧
        (b.state.dust env.constants).length = 1))) = true)
    (b := .startAt Scenario.single ⟨5, 0⟩ .none)
    (.perform (.depositNew (Scenario.output 0 50000)) ::
      .perform (.depositNew (Scenario.output 1 1000)) ::
      .perform (.depositNew (Scenario.output 2 60000)) :: Scenario.change)
    (by decide +kernel)
  obtain ⟨env, _, seen⟩ := (Option.any_eq_true _ _).1 seen
  obtain ⟨retiring?, replaced, seen⟩ := (Option.any_eq_true _ _).1 seen
  obtain ⟨active, replaces, seen⟩ := (Option.any_eq_true _ _).1 seen
  obtain ⟨done, migrated, seen⟩ := (Option.any_eq_true _ _).1 seen
  rw [toOption_eq_some_iff] at replaced replaces migrated
  obtain ⟨some, created, age, constants, distinct, worth, dust⟩ := of_decide_eq_true seen
  obtain ⟨retiring, rfl⟩ := Option.isSome_iff_exists.1 some
  have single : env.constants.maxMigrationInputs = 1 := by rw [constants]; rfl
  have sound : ∀ cause, b.state.migrateIn env [⟨165, 0⟩, ⟨166, 0⟩, ⟨166, 0⟩] ≠
      .error (.overflow cause) := by
    rw [migrated]
    simp
  obtain ⟨outcomes, t, migrated, length, each, whole⟩ := migration_drains replaced replaces
    (by rw [age, constants, created]; decide) (by rw [age, constants, created]; decide) distinct
    (by rw [single]; decide) (by decide) sound
  rw [worth, single] at each whole
  obtain ⟨spent, dropped, gone, script⟩ := whole (by rw [length]; decide)
  exact ⟨b.state, t, env, retiring, active, outcomes, replaced, replaces, distinct, single, worth,
    dust, migrated, each, spent, dropped, gone, script⟩

end State

end TwoWayPeg
