import TwoWayPeg.Bridge
import TwoWayPeg.Classification
import TwoWayPeg.Proofs.Conservation
import TwoWayPeg.Proofs.RedeemScript
import TwoWayPeg.Proofs.Scenario
import TwoWayPeg.Proofs.Sighash

/-!
# Which migration transactions are known as pegouts

A migration transaction is registered by the hash that a signature of its first input commits to,
and that hash depends on the redeem script of the federation whose outputs it moves. The classifier
tries the redeem scripts of the active and the retiring federation only. So it knows the transaction
until that federation is decommissioned, which can happen in the step that emits it.
-/

namespace TwoWayPeg

theorem Federation.length_redeemScript_lt (f : Federation) : f.redeemScript.length < 2 ^ 64 :=
  Nat.lt_of_le_of_lt f.script_fits (by decide)

theorem Federation.length_p2shScript_lt (f : Federation) : f.p2shScript.length < 2 ^ 64 := by
  rw [length_p2shScript]
  decide

namespace State

variable {s t : State} {env : Env} {retiring active : Federation}

/-- The transaction of a batch is unsigned and can be sent. -/
theorem Moved.plain {m : MigrationTransaction}
    (moves : s.Moved env retiring active (some m) t) :
    m.transaction.unsigned = m.transaction ∧ m.transaction.Plain := by
  cases moves with
  | batch worth made _ =>
    rcases Migration.moveBatch_spec made with ⟨_, value, written⟩
    have few : (s.batch env).length < 2 ^ 64 := by
      have most := env.constants.maxMigrationInputs.toNat_lt
      rw [State.batch, List.length_take]
      omega
    rw [written]
    exact ⟨Migration.unsigned_transaction,
      Migration.plain_transaction worth few active.length_p2shScript_lt⟩

/-- A move registers the hash of its transaction, if the index is in force. -/
theorem Moved.mem_pegoutSighashes {migration : Option MigrationTransaction}
    (moves : s.Moved env retiring active migration t) (hash : Hash256) :
    hash ∈ t.pegoutSighashes ↔ hash ∈ s.pegoutSighashes ∨
      ∃ m, migration = some m ∧ env.activations.pegoutTxIndex = true ∧
        m.transaction.firstInputSighash? retiring.redeemScript = some hash := by
  cases moves with
  | nothing => simp
  | @batch m sighash worth made registered =>
    subst registered
    by_cases index : env.activations.pegoutTxIndex = true
    · rw [if_pos index]
      cases found : m.transaction.firstInputSighash? retiring.redeemScript with
      | none => simp [afterMoving, found]
      | some known => simp [afterMoving, found, index, or_comm, eq_comm]
    · rw [if_neg index]
      simp [afterMoving, index]

end State

namespace Step

/-- The migration transaction that a step registers, and the federation whose outputs it moves. -/
def registered? (step : Step) : Option (Transaction × Federation) :=
  if step.before.activations.pegoutTxIndex then
    match step.emitted?, step.before.state.oldFederation with
    | some m, some retiring => some (m.transaction, retiring)
    | _, _ => none
  else none

variable {step : Step} {t : Transaction} {f : Federation}

theorem registered?_eq_some_iff : step.registered? = some (t, f) ↔
    step.before.activations.pegoutTxIndex = true ∧ step.before.state.oldFederation = some f ∧
      ∃ m, step.emitted? = some m ∧ m.transaction = t := by
  unfold registered?
  cases step.emitted? with
  | none => simp
  | some m =>
    cases step.before.state.oldFederation with
    | none => simp
    | some old => simp [and_comm]

theorem registered?_eq_none (still : step.outcome? = none) : step.registered? = none := by
  rw [registered?, emitted?, still]
  simp

/-- What is registered in a step that migrates. -/
theorem Effect.moved (effect : Effect step) (registered : step.registered? = some (t, f)) :
    ∃ env active m s, step.before.env = .ok env ∧
      step.before.state.Moved env f active (some m) s ∧ m.transaction = t := by
  have silent (still : step.outcome? = none) : False := by
    rw [registered?_eq_none still] at registered
    cases registered
  cases effect with
  | kept _ still _ => exact (silent still).elim
  | carried _ still => exact (silent still).elim
  | depositedNew _ still => exact (silent still).elim
  | depositedOld _ still => exact (silent still).elim
  | reloaded _ still => exact (silent still).elim
  | @migrated env outcome _ told surroundings done =>
    rcases registered?_eq_some_iff.1 registered with ⟨_, old, m, emitted, rfl⟩
    have migration : outcome.migration = some m := by
      rw [emitted?, told] at emitted
      exact emitted
    generalize step.after.state = s at done
    cases done with
    | idle => cases migration
    | moved replaced _ moves =>
      cases old.symm.trans (State.oldFederation_of_retiring replaced)
      cases migration
      exact ⟨env, _, m, _, surroundings, moves, rfl⟩
    | retired replaced _ moves =>
      cases old.symm.trans (State.oldFederation_of_retiring replaced)
      cases migration
      exact ⟨env, _, m, _, surroundings, moves, rfl⟩

/-- The hashes after a migration that is not yet over. -/
theorem mem_pegoutSighashes_of_moved {env : Env} {outcome : MigrationOutcome}
    {retiring active : Federation} {s : State} (told : step.outcome? = some outcome)
    (surroundings : step.before.env = .ok env)
    (replaced : step.before.state.retiringFederation env = .ok (some retiring))
    (moves : step.before.state.Moved env retiring active outcome.migration s) (hash : Hash256) :
    hash ∈ s.pegoutSighashes ↔ hash ∈ step.before.state.pegoutSighashes ∨
      ∃ t f, step.registered? = some (t, f) ∧
        t.firstInputSighash? f.redeemScript = some hash := by
  have emitted : step.emitted? = outcome.migration := by
    rw [emitted?, told]
    rfl
  rw [moves.mem_pegoutSighashes, (Bridge.env_eq_ok surroundings).2.1]
  simp only [registered?_eq_some_iff, emitted, State.oldFederation_of_retiring replaced]
  constructor
  · rintro (known | ⟨m, made, index, found⟩)
    · exact .inl known
    · exact .inr ⟨_, _, ⟨index, rfl, m, made, rfl⟩, found⟩
  · rintro (known | ⟨_, _, ⟨index, old, m, made, rfl⟩, found⟩)
    · exact .inl known
    · cases old
      exact .inr ⟨m, made, index, found⟩

/-- A step registers the hash of the migration transaction that it emits and no other. -/
theorem Effect.mem_pegoutSighashes (effect : Effect step)
    (stored : step.operation.reloads = true → step.before.state.Fits) (hash : Hash256) :
    hash ∈ step.after.state.pegoutSighashes ↔ hash ∈ step.before.state.pegoutSighashes ∨
      ∃ t f, step.registered? = some (t, f) ∧
        t.firstInputSighash? f.redeemScript = some hash := by
  have quietly (still : step.outcome? = none)
      (same : step.after.state.pegoutSighashes = step.before.state.pegoutSighashes) :
      hash ∈ step.after.state.pegoutSighashes ↔ hash ∈ step.before.state.pegoutSighashes ∨
        ∃ t f, step.registered? = some (t, f) ∧
          t.firstInputSighash? f.redeemScript = some hash := by
    rw [same, registered?_eq_none still]
    simp
  cases effect with
  | kept _ still same => exact quietly still (congrArg Custody.pegoutSighashes same)
  | depositedNew _ still same => exact quietly still (congrArg Custody.pegoutSighashes same)
  | depositedOld _ still same => exact quietly still (congrArg Custody.pegoutSighashes same)
  | reloaded read still loaded =>
    have fits := stored (by rw [read]; rfl)
    exact quietly still (Bridge.reloaded_restores fits loaded).pegoutSighashes
  | @carried env function event s t _ still _ starts done reaches =>
    have kept : t.pegoutSighashes = s.pegoutSighashes := by cases done <;> rfl
    have before := congrArg Custody.pegoutSighashes starts
    have after := congrArg Custody.pegoutSighashes reaches
    exact quietly still (after.trans (kept.trans before))
  | @migrated env outcome _ told surroundings done =>
    generalize step.after.state = after at done
    cases done with
    | idle =>
      have nothing : step.registered? = none := by
        rw [registered?, emitted?, told]
        simp
      rw [nothing]
      simp
    | moved replaced _ moves =>
      exact mem_pegoutSighashes_of_moved told surroundings replaced moves hash
    | retired replaced _ moves =>
      have moved := mem_pegoutSighashes_of_moved told surroundings replaced moves hash
      exact moved

/-- The old federation stays until it is decommissioned; only its network can become another. -/
theorem Effect.old_stays (effect : Effect step) (settled : step.before.state.custody.Settled)
    (stored : step.operation.reloads = true → step.before.state.Fits)
    (stays : step.decommissions = false) (old : step.before.state.oldFederation = some f) :
    ∃ g, step.after.state.oldFederation = some g ∧ g.redeemScript = f.redeemScript := by
  cases effect with
  | kept _ _ same => exact ⟨f, (congrArg Custody.oldFederation same).trans old, rfl⟩
  | depositedNew _ _ same => exact ⟨f, (congrArg Custody.oldFederation same).trans old, rfl⟩
  | depositedOld _ _ same => exact ⟨f, (congrArg Custody.oldFederation same).trans old, rfl⟩
  | reloaded read _ loaded =>
    have fits := stored (by rw [read]; rfl)
    have restores := Bridge.reloaded_restores fits loaded
    rw [restores.oldFederation, old]
    exact ⟨_, rfl, Federation.redeemScript_withNetwork f _⟩
  | @carried env function event s t _ _ _ starts done reaches =>
    have before := congrArg Custody.oldFederation starts
    have after := congrArg Custody.oldFederation reaches
    cases done with
    | create => exact ⟨f, after.trans (before.trans old), rfl⟩
    | add => exact ⟨f, after.trans (before.trans old), rfl⟩
    | rollback => exact ⟨f, after.trans (before.trans old), rfl⟩
    | commit assembling complete built replaces due =>
      have cleared :=
        (State.Carried.commit assembling complete built replaces due).cleared (starts ▸ settled)
      rw [show s.oldFederation = _ from before, State.custody_oldFederation, old] at cleared
      cases cleared.1
  | @migrated env outcome _ told _ done =>
    have decommissioned : outcome.decommissioned = false := by
      rw [decommissions, told] at stays
      exact stays
    generalize step.after.state = after at done
    cases done with
    | idle => exact ⟨f, old, rfl⟩
    | moved _ _ moves _ => exact ⟨f, moves.keeps.2.1.trans old, rfl⟩
    | retired => cases decommissioned

end Step

namespace Runs

variable {c : Constants} {block : Block} {activations : Activations} {a b : Bridge}
  {history : List Step}

/-- The known hashes are those of the migration transactions that have been registered. -/
theorem mem_pegoutSighashes (run : Runs (.startAt c block activations) history b)
    (orderly : ∀ step ∈ history, step.Orderly) (hash : Hash256) :
    hash ∈ b.state.pegoutSighashes ↔ ∃ step ∈ history, ∃ t f, step.registered? = some (t, f) ∧
      t.firstInputSighash? f.redeemScript = some hash := by
  induction run with
  | refl =>
    constructor
    · intro member
      exact absurd member OrderedSet.not_mem_empty
    · rintro ⟨step, member, _⟩
      cases member
  | @step b c history operation output run performed ih =>
    rcases forall_mem_concat.1 orderly with ⟨earlier, last⟩
    have change := (Step.effect_of_performed performed).mem_pegoutSighashes last.2 hash
    rw [show hash ∈ c.state.pegoutSighashes ↔ _ from change, ih earlier]
    simp [or_and_right, exists_or]

/-- An old federation stays as long as no step decommissions it. -/
theorem old_stays (run : Runs a history b) (orderly : ∀ step ∈ history, step.Orderly)
    (settled : a.state.custody.Settled) (stays : ∀ step ∈ history, step.decommissions = false)
    {f : Federation} (old : a.state.oldFederation = some f) :
    ∃ g, b.state.oldFederation = some g ∧ g.redeemScript = f.redeemScript := by
  induction run with
  | refl => exact ⟨f, old, rfl⟩
  | @step b c history operation output run performed ih =>
    rcases forall_mem_concat.1 orderly with ⟨earlier, last⟩
    rcases forall_mem_concat.1 stays with ⟨stayed, staying⟩
    rcases ih earlier stayed with ⟨g, before, same⟩
    rcases (Step.effect_of_performed performed).old_stays (run.settled earlier settled) last.2
      staying before with ⟨g', after, same'⟩
    exact ⟨g', after, same'.trans same⟩

end Runs

namespace ClassificationContext

variable {ctx : ClassificationContext} {t : Transaction} {height : UInt64}

theorem isKnownPegout_iff : ctx.isKnownPegout t = true ↔
    ∃ f ∈ ctx.liveFederations, ∃ hash ∈ ctx.sighashes,
      t.firstInputSighash? f.redeemScript = some hash := by
  rw [isKnownPegout, List.any_eq_true]
  constructor
  · rintro ⟨f, live, known⟩
    split at known
    · next hash found => exact ⟨f, live, hash, of_decide_eq_true known, found⟩
    · cases known
  · rintro ⟨f, live, hash, known, found⟩
    refine ⟨f, live, ?_⟩
    rw [found]
    exact decide_eq_true known

/-- Once the index decides, what is not a known pegout is classified by its value. -/
theorem classify_of_index (index : ctx.activations.pegoutTxIndex = true)
    (due : ctx.pegoutIndexHeight.toNat + ctx.pegoutIndexGracePeriod.toNat ≤ height.toNat) :
    ctx.classify t height =
      if ctx.isKnownPegout t then .ok (.pegoutIndex, .pegoutOrMigration)
      else ctx.valueToLive t >>= fun value =>
        .ok (.pegoutIndex, if 0 < value then .pegin else .unknown) := by
  have fits := Nat.lt_of_le_of_lt due height.toNat_lt_size
  have switch : ctx.switchHeight = .ok (ctx.pegoutIndexHeight + ctx.pegoutIndexGracePeriod) := by
    rw [switchHeight, addChecked, if_pos fits]
  have reached : ctx.pegoutIndexHeight + ctx.pegoutIndexGracePeriod ≤ height := by
    rw [UInt64.le_iff_toNat_le, UInt64.toNat_add, Nat.mod_eq_of_lt fits]
    exact due
  have strategy : ctx.strategyAt height = .ok .pegoutIndex := by
    rw [strategyAt, switch]
    show (if _ then _ else _) = _
    rw [if_pos ⟨index, reached⟩]
    rfl
  rw [classify, strategy]
  show (Strategy.pegoutIndex.classify ctx t >>= fun type => pure (Strategy.pegoutIndex, type)) = _
  rw [Strategy.classify]
  by_cases known : ctx.isKnownPegout t = true
  · rw [if_pos known, if_pos known]
    rfl
  · rw [if_neg known, if_neg known]
    cases ctx.valueToLive t <;> rfl

theorem classify_eq_pegout_iff (index : ctx.activations.pegoutTxIndex = true)
    (due : ctx.pegoutIndexHeight.toNat + ctx.pegoutIndexGracePeriod.toNat ≤ height.toNat) :
    ctx.classify t height = .ok (.pegoutIndex, .pegoutOrMigration) ↔
      ctx.isKnownPegout t = true := by
  rw [classify_of_index index due]
  by_cases known : ctx.isKnownPegout t = true
  · simp [known]
  · simp only [known, Bool.false_eq_true, if_false, iff_false]
    intro same
    rcases bind_eq_ok_iff.1 same with ⟨value, _, same⟩
    rw [Except.ok.injEq, Prod.mk.injEq] at same
    split at same <;> cases same.2

end ClassificationContext

namespace State

variable {s : State} {env : Env} {ctx : ClassificationContext}

theorem classificationContext_eq_ok (context : s.classificationContext env = .ok ctx) :
    s.activeFederation env = .ok ctx.active ∧ s.retiringFederation env = .ok ctx.retiring ∧
      ctx.activations = env.activations ∧ ctx.sighashes = s.pegoutSighashes ∧
      ctx.pegoutIndexHeight = env.constants.pegoutIndexHeight ∧
      ctx.pegoutIndexGracePeriod = env.constants.pegoutIndexGracePeriod := by
  rcases bind_eq_ok_iff.1 context with ⟨old, _, context⟩
  rcases bind_eq_ok_iff.1 context with ⟨active, found, context⟩
  rcases bind_eq_ok_iff.1 context with ⟨retiring, found', context⟩
  cases context
  exact ⟨found, found', rfl, rfl, rfl, rfl⟩

/-- The old federation is the retiring one, or the active one while the new one is too young. -/
theorem old_mem_liveFederations (settled : s.custody.Settled)
    (context : s.classificationContext env = .ok ctx) {f : Federation}
    (old : s.oldFederation = some f) : f ∈ ctx.liveFederations := by
  rcases classificationContext_eq_ok context with ⟨active, retiring, _⟩
  unfold State.activeFederation at active
  unfold State.retiringFederation at retiring
  cases found : s.newFederation with
  | none =>
    have absent := settled.first found
    rw [State.custody_oldFederation, old] at absent
    cases absent
  | some new =>
    simp only [found] at active retiring
    rcases bind_eq_ok_iff.1 active with ⟨past, decided, active⟩
    rcases bind_eq_ok_iff.1 retiring with ⟨past', decided', retiring⟩
    cases decided.symm.trans decided'
    cases past with
    | true =>
      have same : s.oldFederation = ctx.retiring := Except.ok.inj retiring
      rw [ClassificationContext.liveFederations, ← same, old]
      simp
    | false =>
      have same : s.oldFederation.getD env.genesis = ctx.active := Except.ok.inj active
      rw [old, Option.getD_some] at same
      rw [ClassificationContext.liveFederations, same]
      exact List.mem_cons_self

end State

namespace Runs

variable {c : Constants} {block : Block} {activations : Activations} {b : Bridge}
  {history : List Step}

theorem registered_plain (run : Runs (.startAt c block activations) history b) {step : Step}
    (member : step ∈ history) {t : Transaction} {f : Federation}
    (registered : step.registered? = some (t, f)) : t.unsigned = t ∧ t.Plain := by
  rcases run.split member with ⟨_, _, _, _, performed, _⟩
  rcases (Step.effect_of_performed performed).moved registered with ⟨_, _, _, _, _, moves, rfl⟩
  exact moves.plain

variable {number : Nat} {step : Step} {t signed : Transaction} {f : Federation} {env : Env}
  {ctx : ClassificationContext} {height : UInt64}

/-- A registered migration transaction, with its inputs signed in any way, is known as a pegout
    exactly if some live federation has the redeem script under which it was registered; else its
    hash has to collide with that of another one. -/
theorem isKnownPegout_iff (run : Runs (.startAt c block activations) history b)
    (orderly : ∀ step ∈ history, step.Orderly) (found : history[number]? = some step)
    (registered : step.registered? = some (t, f))
    (context : b.state.classificationContext env = .ok ctx) (signs : signed.unsigned = t) :
    ctx.isKnownPegout signed = true ↔
      ∃ live ∈ ctx.liveFederations, ∃ other ∈ history, ∃ t' f', other.registered? = some (t', f') ∧
        (t = t' ∧ live.redeemScript = f'.redeemScript ∨
          Collide (t.firstInputPreimage live.redeemScript)
            (t'.firstInputPreimage f'.redeemScript)) := by
  rcases run.registered_plain (List.mem_of_getElem? found) registered with ⟨unsigned, plain⟩
  have sighash (script : Script) :
      signed.firstInputSighash? script = t.firstInputSighash? script := by
    rw [← signs, Transaction.firstInputSighash?_unsigned]
  rw [ClassificationContext.isKnownPegout_iff,
    (State.classificationContext_eq_ok context).2.2.2.1]
  have hashes (live : Federation) {other : Step} (member : other ∈ history) {t' : Transaction}
      {f' : Federation} (registered' : other.registered? = some (t', f')) :
      t.firstInputSighash? live.redeemScript = t'.firstInputSighash? f'.redeemScript ↔
        t = t' ∧ live.redeemScript = f'.redeemScript ∨
          Collide (t.firstInputPreimage live.redeemScript)
            (t'.firstInputPreimage f'.redeemScript) := by
    rcases run.registered_plain member registered' with ⟨unsigned', plain'⟩
    have same := Transaction.firstInputSighash?_eq_iff plain plain'
      live.length_redeemScript_lt f'.length_redeemScript_lt
    rwa [unsigned, unsigned'] at same
  constructor
  · rintro ⟨live, isLive, hash, known, same⟩
    obtain ⟨other, member, t', f', registered', same'⟩ :=
      (run.mem_pegoutSighashes orderly hash).1 known
    refine ⟨live, isLive, other, member, t', f', registered', ?_⟩
    rw [sighash] at same
    exact (hashes live member registered').1 (same.trans same'.symm)
  · rintro ⟨live, isLive, other, member, t', f', registered', cause⟩
    have same := (hashes live member registered').2 cause
    have some' := plain.firstInputSighash?_eq live.redeemScript
    refine ⟨live, isLive, _, ?_, (sighash _).trans some'⟩
    exact (run.mem_pegoutSighashes orderly _).2
      ⟨other, member, t', f', registered', same.symm.trans some'⟩

/-- As long as the federation whose outputs it moved is not decommissioned, a registered migration
    transaction is known as a pegout. -/
theorem isKnownPegout_of_stays (run : Runs (.startAt c block activations) history b)
    (orderly : ∀ step ∈ history, step.Orderly) (found : history[number]? = some step)
    (registered : step.registered? = some (t, f))
    (context : b.state.classificationContext env = .ok ctx) (signs : signed.unsigned = t)
    (stays : ∀ i later, number ≤ i → history[i]? = some later → later.decommissions = false) :
    ctx.isKnownPegout signed = true := by
  rcases run.split_at found with ⟨past, later, rfl, rfl, before, performed, after⟩
  rcases List.forall_mem_append.1 orderly with ⟨earlier, onwards⟩
  have settled := before.settled earlier (State.settled_initial c)
  rcases Step.registered?_eq_some_iff.1 registered with ⟨_, old, _⟩
  have rest : Runs step.before (step :: later) b := .cons performed after
  have stays : ∀ step' ∈ step :: later, step'.decommissions = false := by
    intro step' member
    rcases List.getElem?_of_mem member with ⟨i, at'⟩
    refine stays (past.length + i) step' (Nat.le_add_right _ _) ?_
    rw [List.getElem?_append_right (Nat.le_add_right _ _), Nat.add_sub_cancel_left]
    exact at'
  rcases rest.old_stays onwards settled stays old with ⟨g, kept, same⟩
  rw [run.isKnownPegout_iff orderly found registered context signs]
  exact ⟨g, State.old_mem_liveFederations (rest.settled onwards settled) context kept, step,
    by simp, t, f, registered, .inl ⟨rfl, same⟩⟩

/-- Where the index decides, a registered migration transaction, with its inputs signed in any way,
    is classified as a pegout or migration exactly if some live federation has the redeem script
    under which it was registered, or its hash collides with that of another one. So it is as long
    as the federation whose outputs it moved is not decommissioned. What is not classified so is
    classified by the value that it pays to the live federations. -/
theorem migration_classified_iff (run : Runs (.startAt c block activations) history b)
    (orderly : ∀ step ∈ history, step.Orderly) (found : history[number]? = some step)
    (registered : step.registered? = some (t, f)) (surroundings : b.env = .ok env)
    (context : b.state.classificationContext env = .ok ctx)
    (index : b.activations.pegoutTxIndex = true) (signs : signed.unsigned = t)
    (due : c.pegoutIndexHeight.toNat + c.pegoutIndexGracePeriod.toNat ≤ height.toNat) :
    (ctx.classify signed height = .ok (.pegoutIndex, .pegoutOrMigration) ↔
        ∃ live ∈ ctx.liveFederations, ∃ other ∈ history, ∃ t' f',
          other.registered? = some (t', f') ∧
            (t = t' ∧ live.redeemScript = f'.redeemScript ∨
              Collide (t.firstInputPreimage live.redeemScript)
                (t'.firstInputPreimage f'.redeemScript))) ∧
      ((∀ i later, number ≤ i → history[i]? = some later → later.decommissions = false) →
        ctx.classify signed height = .ok (.pegoutIndex, .pegoutOrMigration)) ∧
      (ctx.classify signed height ≠ .ok (.pegoutIndex, .pegoutOrMigration) →
        ctx.classify signed height = ctx.valueToLive signed >>= fun value =>
          .ok (.pegoutIndex, if 0 < value then .pegin else .unknown)) := by
  rcases Bridge.env_eq_ok surroundings with ⟨constants, rules, _⟩
  rcases State.classificationContext_eq_ok context with ⟨_, _, activations, _, start, grace⟩
  have index : ctx.activations.pegoutTxIndex = true := by rw [activations, rules, index]
  have due : ctx.pegoutIndexHeight.toNat + ctx.pegoutIndexGracePeriod.toNat ≤ height.toNat := by
    rw [start, grace, constants, run.constants_eq]
    exact due
  have pegout := ClassificationContext.classify_eq_pegout_iff (t := signed) index due
  refine ⟨?_, ?_, ?_⟩
  · rw [pegout]
    exact run.isKnownPegout_iff orderly found registered context signs
  · intro stays
    exact pegout.2 (run.isKnownPegout_of_stays orderly found registered context signs stays)
  · intro differs
    rw [ClassificationContext.classify_of_index index due,
      if_neg fun known => differs (pegout.2 known)]

/-- The migration transaction that a step registers, and what the peg goes by when it classifies
    after the run. -/
def migration? (history : List Step) (number : Nat) (b : Bridge) :
    Option (Transaction × ClassificationContext) := do
  let step ← history[number]?
  let (t, _) ← step.registered?
  let env ← b.env.toOption
  let ctx ← (b.state.classificationContext env).toOption
  return (t, ctx)

theorem migration?_eq_some (known : migration? history number b = some (t, ctx)) :
    ∃ step f env, history[number]? = some step ∧ step.registered? = some (t, f) ∧
      b.env = .ok env ∧ b.state.classificationContext env = .ok ctx := by
  rcases Option.bind_eq_some_iff.1 known with ⟨step, found, known⟩
  rcases Option.bind_eq_some_iff.1 known with ⟨⟨_, f⟩, registered, known⟩
  rcases Option.bind_eq_some_iff.1 known with ⟨env, surroundings, known⟩
  rcases Option.bind_eq_some_iff.1 known with ⟨_, context, known⟩
  cases known
  exact ⟨step, f, env, found, registered, toOption_eq_some_iff.1 surroundings,
    toOption_eq_some_iff.1 context⟩

/-- A batch that leaves nothing behind is emitted in the step that decommissions the retiring
    federation. Its transaction pays the active one, so it is classified as a pegin. -/
theorem not_migration_always_pegout :
    ¬ ∀ (c : Constants) (block : Block) (history : List Step) (b : Bridge) (number : Nat)
      (step : Step) (t signed : Transaction) (f : Federation) (env : Env)
      (ctx : ClassificationContext) (height : UInt64),
      Runs (.startAt c block (c.activations.atBlock block.number)) history b →
      (∀ step ∈ history, step.Orderly ∧ step.before.block.number ≤ step.after.block.number ∧
        step.after.activations = c.activations.atBlock step.after.block.number) →
      history[number]? = some step → step.registered? = some (t, f) → b.env = .ok env →
      b.state.classificationContext env = .ok ctx → b.activations.pegoutTxIndex = true →
      signed.unsigned = t →
      c.pegoutIndexHeight.toNat + c.pegoutIndexGracePeriod.toNat ≤ height.toNat →
      ctx.classify signed height = .ok (.pegoutIndex, .pegoutOrMigration) := by
  intro claim
  obtain ⟨history, b, run, timely, index, seen⟩ := Bridge.exists_runs_of_play
    (P := fun history b => (∀ step ∈ history, step.Orderly ∧
        step.before.block.number ≤ step.after.block.number ∧
        step.after.activations =
          Scenario.indexed.activations.atBlock step.after.block.number) ∧
      b.activations.pegoutTxIndex = true ∧
      (migration? history 6 b).bind (fun (t, ctx) => (ctx.classify t 350).toOption) =
        some (.pegoutIndex, .pegin))
    (b := .startAt Scenario.indexed ⟨5, 0⟩ (Scenario.indexed.activations.atBlock 5))
    (.perform (.depositNew (Scenario.output 0 50000)) :: Scenario.change ++
      [Scenario.goTo Scenario.indexed 30, .perform .migrate])
    (by decide +kernel)
  rcases Option.bind_eq_some_iff.1 seen with ⟨⟨t, ctx⟩, known, classified⟩
  rcases migration?_eq_some known with ⟨step, f, env, found, registered, surroundings, context⟩
  have unsigned := (run.registered_plain (List.mem_of_getElem? found) registered).1
  have pegout := claim _ _ history b 6 step t t f env ctx 350 run timely found registered
    surroundings context index unsigned (by decide)
  rw [toOption_eq_some_iff.1 classified] at pegout
  cases pegout

/-- An output that is not worth moving stays, and so does the federation that holds it. -/
theorem migration_classified_iff_with_dust :
    ∃ history b step t f env ctx,
      Runs (.startAt Scenario.indexed ⟨5, 0⟩ (Scenario.indexed.activations.atBlock 5)) history b ∧
      history[7]? = some step ∧ step.registered? = some (t, f) ∧ b.env = .ok env ∧
      b.state.classificationContext env = .ok ctx ∧ t.unsigned = t ∧
      ctx.classify t 350 = .ok (.pegoutIndex, .pegoutOrMigration) ∧
      ∃ live ∈ ctx.liveFederations, ∃ other ∈ history, ∃ t' f', other.registered? = some (t', f') ∧
        (t = t' ∧ live.redeemScript = f'.redeemScript ∨
          Collide (t.firstInputPreimage live.redeemScript)
            (t'.firstInputPreimage f'.redeemScript)) := by
  obtain ⟨history, b, run, orderly, stays, index, seen⟩ := Bridge.exists_runs_of_play
    (P := fun history b => (∀ step ∈ history, step.Orderly) ∧
      (∀ step ∈ history, step.decommissions = false) ∧ b.activations.pegoutTxIndex = true ∧
      (migration? history 7 b).isSome)
    (b := .startAt Scenario.indexed ⟨5, 0⟩ (Scenario.indexed.activations.atBlock 5))
    (.perform (.depositNew (Scenario.output 0 50000)) ::
      .perform (.depositNew (Scenario.output 1 100)) :: Scenario.change ++
      [Scenario.goTo Scenario.indexed 30, .perform .migrate])
    (by decide +kernel)
  rcases Option.isSome_iff_exists.1 seen with ⟨⟨t, ctx⟩, known⟩
  rcases migration?_eq_some known with ⟨step, f, env, found, registered, surroundings, context⟩
  have unsigned := (run.registered_plain (List.mem_of_getElem? found) registered).1
  have due : Scenario.indexed.pegoutIndexHeight.toNat +
      Scenario.indexed.pegoutIndexGracePeriod.toNat ≤ (350 : UInt64).toNat := by decide
  obtain ⟨exactly, kept, _⟩ := migration_classified_iff run orderly found registered surroundings
    context index unsigned due
  have pegout := kept fun i later _ at' => stays later (List.mem_of_getElem? at')
  exact ⟨history, b, step, t, f, env, ctx, run, found, registered, surroundings, context, unsigned,
    pegout, exactly.1 pegout⟩

end Runs

end TwoWayPeg
