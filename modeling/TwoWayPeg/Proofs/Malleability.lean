import TwoWayPeg.Classification
import TwoWayPeg.Constants.Presets
import TwoWayPeg.Proofs.Sighash

/-!
# What a signer of a transaction cannot change

Whoever signs a transaction, or relays it, can change the scripts and the witnesses of its inputs. The
rest is its body. The bytes that a signature of the first input commits to depend on the body alone,
and so does the verdict of the index of pegouts.
-/

namespace TwoWayPeg

namespace Transaction

/-- Two transactions differ at most in what entitles their inputs to spend. -/
structure SameBody (t u : Transaction) : Prop where
  version : t.version = u.version
  lockTime : t.lockTime = u.lockTime
  previous : t.inputs.map TxIn.previous = u.inputs.map TxIn.previous
  sequence : t.inputs.map TxIn.sequence = u.inputs.map TxIn.sequence
  outputs : t.outputs = u.outputs

variable {t u : Transaction}

/-- Inputs that spend the same outputs with the same sequence numbers are the same before they are
    signed. -/
theorem map_unsigned_congr {inputs inputs' : List TxIn}
    (previous : inputs.map TxIn.previous = inputs'.map TxIn.previous)
    (sequence : inputs.map TxIn.sequence = inputs'.map TxIn.sequence) :
    inputs.map TxIn.unsigned = inputs'.map TxIn.unsigned := by
  induction inputs generalizing inputs' with
  | nil =>
    cases List.map_eq_nil_iff.1 previous.symm
    rfl
  | cons i rest ih =>
    cases inputs' with
    | nil => cases previous
    | cons i' rest' =>
      rw [List.map_cons, List.map_cons, List.cons.injEq] at previous sequence
      rw [List.map_cons, List.map_cons, ih previous.2 sequence.2, TxIn.unsigned, TxIn.unsigned,
        previous.1, sequence.1]

theorem map_previous_unsigned (inputs : List TxIn) :
    (inputs.map TxIn.unsigned).map TxIn.previous = inputs.map TxIn.previous := by
  rw [List.map_map]
  rfl

theorem map_sequence_unsigned (inputs : List TxIn) :
    (inputs.map TxIn.unsigned).map TxIn.sequence = inputs.map TxIn.sequence := by
  rw [List.map_map]
  rfl

/-- Transactions have the same body just if they are the same before they are signed. -/
theorem sameBody_iff : t.SameBody u ↔ t.unsigned = u.unsigned := by
  rw [unsigned, unsigned, Transaction.mk.injEq]
  constructor
  · intro same
    exact ⟨same.version, same.lockTime, map_unsigned_congr same.previous same.sequence,
      same.outputs⟩
  · rintro ⟨version, lockTime, inputs, outputs⟩
    refine ⟨version, lockTime, ?_, ?_, outputs⟩
    · rw [← map_previous_unsigned, inputs, map_previous_unsigned]
    · rw [← map_sequence_unsigned, inputs, map_sequence_unsigned]

theorem SameBody.firstInputSighash?_eq (same : t.SameBody u) (script : Script) :
    t.firstInputSighash? script = u.firstInputSighash? script := by
  rw [← firstInputSighash?_unsigned t, sameBody_iff.1 same, firstInputSighash?_unsigned]

/-- The hash depends on all of the body: two transactions that can be sent have the same one only if
    they have the same body or by a collision. -/
theorem firstInputSighash?_eq_iff_sameBody {script : Script} (plain : t.unsigned.Plain)
    (plain' : u.unsigned.Plain) (short : script.length < 2 ^ 64) :
    t.firstInputSighash? script = u.firstInputSighash? script ↔
      t.SameBody u ∨ Collide (t.firstInputPreimage script) (u.firstInputPreimage script) := by
  have told := firstInputSighash?_eq_iff plain plain' short short
  simp only [firstInputSighash?_unsigned, firstInputPreimage_unsigned, and_true] at told
  rw [told, sameBody_iff]
  have again (v : Transaction) : v.unsigned.unsigned = v.unsigned := by
    simp [unsigned, TxIn.unsigned]
  rw [again, again]

end Transaction

open Transaction

namespace ClassificationContext

variable {t u : Transaction}

theorem isKnownPegout_congr (ctx : ClassificationContext) (same : t.SameBody u) :
    ctx.isKnownPegout t = ctx.isKnownPegout u := by
  unfold isKnownPegout
  simp only [same.firstInputSighash?_eq]

theorem valueToLive_congr (ctx : ClassificationContext) (same : t.outputs = u.outputs) :
    ctx.valueToLive t = ctx.valueToLive u := by
  rw [valueToLive, valueToLive, same]

end ClassificationContext

namespace Strategy

variable {t u : Transaction}

/-- Two transactions with the same body have the same hash for the signature of the first input under
    every script, or both none, and the index of pegouts gives them the same verdict in every
    context. The body is all that can be changed without the index taking notice: of the
    transactions that can be sent, another body has another hash, unless two preimages collide. -/
theorem pegoutIndex_classify_of_sameBody (same : t.SameBody u) :
    (∀ script, t.firstInputSighash? script = u.firstInputSighash? script) ∧
      (∀ ctx, pegoutIndex.classify ctx t = pegoutIndex.classify ctx u) ∧
      ∀ (v : Transaction) (script : Script), t.unsigned.Plain → v.unsigned.Plain →
        script.length < 2 ^ 64 →
        (t.firstInputSighash? script = v.firstInputSighash? script ↔
          t.SameBody v ∨ Collide (t.firstInputPreimage script) (v.firstInputPreimage script)) := by
  refine ⟨same.firstInputSighash?_eq, fun ctx => ?_, fun v script plain plain' short =>
    firstInputSighash?_eq_iff_sameBody plain plain' short⟩
  rw [classify, classify, ctx.isKnownPegout_congr same, ctx.valueToLive_congr same.outputs]

/-- A transaction with two inputs is registered before it is signed, and the index knows it signed. With
    another lock time it has the same hash only by a collision. -/
theorem pegoutIndex_classify_of_sameBody_of_signed :
    ∃ (ctx : ClassificationContext) (t u v : Transaction), t ≠ u ∧ t.SameBody u ∧
      pegoutIndex.classify ctx t = .ok .pegoutOrMigration ∧
      pegoutIndex.classify ctx u = .ok .pegoutOrMigration ∧ v = { t with lockTime := 1 } ∧
      t.unsigned.Plain ∧ v.unsigned.Plain ∧
      (t.firstInputSighash? [] = v.firstInputSighash? [] →
        Collide (t.firstInputPreimage []) (v.firstInputPreimage [])) := by
  have founded : Constants.regtest.genesisFederation.toOption.isSome := by decide +kernel
  obtain ⟨f, _⟩ := Option.isSome_iff_exists.1 founded
  obtain ⟨t, isT⟩ : ∃ t : Transaction, t =
      { version := 2
        lockTime := 0
        inputs := [{ previous := default, sequence := 1 }, { previous := default, sequence := 2 }]
        outputs := [] } := ⟨_, rfl⟩
  obtain ⟨u, isU⟩ : ∃ u : Transaction, u =
      { version := 2
        lockTime := 0
        inputs :=
          [{ previous := default, scriptSig := [0x51], sequence := 1 },
            { previous := default, sequence := 2, witness := [[0x01]] }]
        outputs := [] } := ⟨_, rfl⟩
  have same : t.SameBody u := by
    rw [isT, isU]
    exact ⟨rfl, rfl, rfl, rfl, rfl⟩
  obtain ⟨hash, signed⟩ : ∃ hash, t.firstInputSighash? f.redeemScript = some hash := by
    rw [isT]
    exact ⟨_, rfl⟩
  obtain ⟨ctx, isCtx⟩ : ∃ ctx : ClassificationContext, ctx =
      { activations := .none
        sighashes := OrderedSet.empty.insert hash
        minimumPeginValue := 0
        pegoutIndexHeight := 0
        pegoutIndexGracePeriod := 0
        oldScript := none
        lastRetiredScript := none
        active := f
        retiring := none } := ⟨_, rfl⟩
  have known : pegoutIndex.classify ctx t = .ok .pegoutOrMigration := by
    rw [classify, if_pos]
    · rfl
    rw [isCtx]
    simp [ClassificationContext.isKnownPegout, ClassificationContext.liveFederations, signed]
  obtain ⟨v, isV⟩ : ∃ v : Transaction, v = { t with lockTime := 1 } := ⟨_, rfl⟩
  have plain : t.unsigned.Plain := by
    rw [isT]
    exact ⟨by decide, by decide, by decide, by decide, by decide, by decide⟩
  have plain' : v.unsigned.Plain := by
    rw [isV, isT]
    exact ⟨by decide, by decide, by decide, by decide, by decide, by decide⟩
  obtain ⟨_, verdict, told⟩ := pegoutIndex_classify_of_sameBody same
  refine ⟨ctx, t, u, v, ?_, same, known, ?_, isV, plain, plain', fun equal => ?_⟩
  · rw [isT, isU]
    decide
  · rw [← verdict ctx]
    exact known
  · refine ((told v [] plain plain' (by decide)).1 equal).resolve_left fun same => ?_
    have lockTime := same.lockTime
    rw [isV, isT] at lockTime
    exact absurd lockTime (by decide)

end Strategy

end TwoWayPeg
