import TwoWayPeg.Proofs.Malleability
import TwoWayPeg.Proofs.RedeemScript
import TwoWayPeg.Proofs.Transfer

/-!
# The fee covers the transaction that is signed

The fee of a migration is fixed before the transaction is signed, for a size that is estimated. Signing
gives each input a script, which pushes the signatures and the redeem script, and it makes the count
of the bytes of that script longer. The estimate is for signatures of the greatest length and counts
of three bytes. A redeem script that can be paid to by its hash lists at most fifteen keys, so that no
count takes more.
-/

namespace TwoWayPeg

open Instruction

namespace Script

/-- Each item is pushed by one more byte than it has, if it is short. -/
theorem length_ofInstructions_pushes_le {items : List Bytes} {most : Nat} (few : most ≤ 75)
    (short : ∀ data ∈ items, data.length ≤ most) :
    (ofInstructions (items.map .push)).length ≤ items.length * (1 + most) := by
  induction items with
  | nil => exact Nat.zero_le _
  | cons data rest ih =>
    obtain ⟨first, others⟩ := List.forall_mem_cons.1 short
    have pushed : (encode (.push data)).length = 1 + data.length :=
      (length_encodePush data).trans (if_pos (Nat.le_trans first few))
    have tail := ih others
    rw [List.map_cons, length_ofInstructions_cons, pushed, List.length_cons, Nat.succ_mul]
    omega

end Script

/-- What a spender adds to select the branch of the members: an empty item, if there is another
    branch. -/
def FederationKind.selector (k : FederationKind) : List Instruction :=
  if k.recovery?.isSome then [.push []] else []

theorem FederationKind.length_selector (k : FederationKind) :
    (Script.ofInstructions k.selector).length = k.selectorSize := by
  cases k <;> rfl

namespace Federation

/-- The script that spends an output of a federation with signatures of its members. -/
def spendingScript (f : Federation) (signatures : List Bytes) : Script :=
  .ofInstructions <|
    .push [] :: signatures.map .push ++ f.kind.selector ++ [.push f.redeemScript]

/-- A script spends an output of a federation with as many signatures as it takes, each of which may
    have up to 73 bytes with the byte for its type. -/
def SpentBy (f : Federation) (script : Script) : Prop :=
  ∃ signatures : List Bytes, signatures.length = f.threshold ∧
    (∀ signature ∈ signatures, signature.length ≤ 73) ∧ script = f.spendingScript signatures

variable {f : Federation} {script : Script}

theorem length_le_of_spentBy (spent : f.SpentBy script) :
    script.length ≤ f.scriptSigSizeEstimate := by
  obtain ⟨signatures, count, short, rfl⟩ := spent
  have signed := Script.length_ofInstructions_pushes_le (by decide) short
  have revealed : (encode (.push f.redeemScript)).length = pushSize f.redeemScript.length :=
    length_encodePush _
  have empty : (encode (.push [])).length = 1 := rfl
  have nothing : (Script.ofInstructions []).length = 0 := rfl
  rw [count] at signed
  rw [spendingScript, Script.length_ofInstructions_append, Script.length_ofInstructions_append,
    Script.length_ofInstructions_cons, Script.length_ofInstructions_cons, f.kind.length_selector,
    revealed, empty, nothing, scriptSigSizeEstimate, signaturePushSize]
  omega

/-- A federation asks for at most eight signatures, and its script takes a push with a count of two
    bytes. -/
theorem scriptSigSizeEstimate_le (f : Federation) : f.scriptSigSizeEstimate ≤ 1117 := by
  have members := f.size_add_recoveryKeys_le
  have fits : f.redeemScript.length ≤ 520 := f.script_fits
  have selector : f.kind.selectorSize ≤ 1 := by
    cases f.kind with
    | standard => exact Nat.zero_le 1
    | nonStandardErp _ | p2shErp _ => exact Nat.le_refl 1
  have pushed : pushSize f.redeemScript.length ≤ 3 + f.redeemScript.length := by
    unfold pushSize
    split
    · omega
    split
    · omega
    exact Nat.le_of_eq (if_pos (Nat.lt_of_le_of_lt fits (by decide)))
  have signers : f.threshold = f.size / 2 + 1 := rfl
  rw [scriptSigSizeEstimate, signaturePushSize]
  omega

end Federation

theorem length_compactSize_le {n : Nat} (small : n < 0x10000) : (compactSize n).length ≤ 3 := by
  rw [compactSize, if_pos small]
  split <;> simp

namespace Transaction

/-- Scripts of a bounded length in place of the empty ones make inputs longer by at most that length
    and what the longer counts take. -/
theorem length_flatMap_encode_le {inputs : List TxIn} {most : Nat} (small : most < 0x10000)
    (bounded : ∀ i ∈ inputs, i.scriptSig.length ≤ most) :
    (inputs.flatMap TxIn.encode).length ≤
      ((inputs.map TxIn.unsigned).flatMap TxIn.encode).length + inputs.length * (most + 2) := by
  induction inputs with
  | nil => exact Nat.zero_le _
  | cons i rest ih =>
    obtain ⟨first, others⟩ := List.forall_mem_cons.1 bounded
    have tail := ih others
    have counted := length_compactSize_le (Nat.lt_of_le_of_lt first small)
    have before : (compactSize ([] : Script).length).length = 1 := rfl
    rw [List.map_cons, List.flatMap_cons, List.flatMap_cons, List.length_append,
      List.length_append, List.length_cons, Nat.succ_mul]
    simp only [TxIn.encode, TxIn.unsigned, sizedBytes, List.length_append, before] at tail ⊢
    simp only [List.length_nil]
    omega

variable {t : Transaction}

/-- The transaction with a script for each of its inputs. -/
def fill (t : Transaction) (script : Script) : Transaction :=
  { t with inputs := t.inputs.map fun i => { i with scriptSig := script } }

theorem sameBody_fill (t : Transaction) (script : Script) : t.SameBody (t.fill script) := by
  refine ⟨rfl, rfl, ?_, ?_, rfl⟩
  · rw [fill, List.map_map]
    rfl
  · rw [fill, List.map_map]
    rfl

theorem encode_eq_encodeBase (spends : t.inputs ≠ []) (bare : ∀ i ∈ t.inputs, i.witness = []) :
    t.encode = t.encodeBase := by
  have none : t.hasWitness = false := by
    rw [hasWitness, List.any_eq_false]
    intro i member
    rw [bare i member]
    decide
  rw [encode, none, Bool.or_false, if_neg]
  rwa [List.isEmpty_iff]

/-- How much longer a transaction is than before it was signed. -/
theorem length_encode_le {most : Nat} (spends : t.inputs ≠ [])
    (bare : ∀ i ∈ t.inputs, i.witness = []) (small : most < 0x10000)
    (bounded : ∀ i ∈ t.inputs, i.scriptSig.length ≤ most) :
    t.encode.length ≤ t.unsigned.encode.length + t.unsigned.inputs.length * (most + 2) := by
  have count : t.unsigned.inputs.length = t.inputs.length := List.length_map _
  have version : t.unsigned.encodeVersion = t.encodeVersion := rfl
  have outputs : t.unsigned.encodeOutputs = t.encodeOutputs := rfl
  have lockTime : t.unsigned.encodeLockTime = t.encodeLockTime := rfl
  have inputs : (t.inputs.flatMap TxIn.encode).length ≤
      (t.unsigned.inputs.flatMap TxIn.encode).length + t.inputs.length * (most + 2) :=
    length_flatMap_encode_le small bounded
  have before : t.unsigned.encode = t.unsigned.encodeBase := by
    refine encode_eq_encodeBase ?_ ?_
    · rw [unsigned, Ne, List.map_eq_nil_iff]
      exact spends
    · intro i member
      obtain ⟨signed, _, rfl⟩ := List.mem_map.1 member
      rfl
  rw [encode_eq_encodeBase spends bare, before]
  simp only [encodeBase, encodeInputs, List.length_append, count, version, outputs, lockTime]
  omega

end Transaction

open Migration

namespace Migration

theorem toNat_of_estimatedFee {feeRate fee : UInt64} {size : Nat}
    (estimated : estimatedFee feeRate size = .ok fee) :
    fee.toNat = feeRate.toNat * size / 1000 := by
  obtain ⟨product, multiplied, divided⟩ := bind_eq_ok_iff.1 estimated
  cases divided
  rw [UInt64.toNat_div, mulChecked_eq_ok_iff.1 multiplied]
  rfl

/-- A transaction that has been signed with scripts that spend outputs of the retiring federation is
    not longer than was estimated. -/
theorem length_encode_le_signedSize {retiring : Federation} {t signed : Transaction}
    (unsigned : t.unsigned = t) (some : t.inputs ≠ []) (same : t.SameBody signed)
    (spent : ∀ i ∈ signed.inputs, retiring.SpentBy i.scriptSig)
    (bare : ∀ i ∈ signed.inputs, i.witness = []) :
    signed.encode.length ≤ signedSize retiring t := by
  have before : signed.unsigned = t := (Transaction.sameBody_iff.1 same).symm.trans unsigned
  have spends : signed.inputs ≠ [] := by
    rw [← before] at some
    exact fun none => some (List.map_eq_nil_iff.2 none)
  have longer := Transaction.length_encode_le spends bare
    (Nat.lt_of_le_of_lt retiring.scriptSigSizeEstimate_le (by decide))
    fun i member => Federation.length_le_of_spentBy (spent i member)
  rwa [before] at longer

end Migration

namespace State

variable {s s' : State} {env : Env} {retiring active : Federation} {m : MigrationTransaction}
  {signed : Transaction}

/-- However a migration is signed, no script of an input is longer than is estimated, and the
    transaction is not longer than the size that its fee was estimated for. So a fee that is not
    capped is at least what the rate asks for the transaction as it is sent. -/
theorem migrateBatch_fee_covers_signed (moves : s.migrateBatch env retiring active = .ok (some m, s'))
    (same : m.transaction.SameBody signed)
    (spent : ∀ i ∈ signed.inputs, retiring.SpentBy i.scriptSig)
    (bare : ∀ i ∈ signed.inputs, i.witness = []) :
    (∀ i ∈ signed.inputs, i.scriptSig.length ≤ retiring.scriptSigSizeEstimate) ∧
      ∃ total estimated, sumChecked (m.spent.map Utxo.value) = .ok total ∧
        estimatedFee (s.feeRate env.constants)
            (signedSize retiring (transaction m.spent total active.p2shScript)) = .ok estimated ∧
        m.fee = min estimated (total - threshold (s.feeRate env.constants)) ∧
        signed.encode.length ≤
          signedSize retiring (transaction m.spent total active.p2shScript) ∧
        (m.fee = estimated →
          (s.feeRate env.constants).toNat * signed.encode.length / 1000 ≤ m.fee.toNat) := by
  refine ⟨fun i member => Federation.length_le_of_spentBy (spent i member), ?_⟩
  cases migrateBatch_moved moves with
  | batch worth made _ =>
    obtain ⟨total, estimated, summed, priced, rfl⟩ := moveBatch_eq_ok_iff.1 made
    have size := length_encode_le_signedSize unsigned_transaction
      (fun none => worth (List.map_eq_nil_iff.1 none)) same spent bare
    rw [signedSize_transaction retiring _ _ total] at size
    refine ⟨total, estimated, summed, priced, rfl, size, fun uncapped => ?_⟩
    rw [uncapped, toNat_of_estimatedFee priced]
    exact Nat.div_le_div_right (Nat.mul_le_mul_left _ size)

set_option maxRecDepth 100000 in
/-- An output of 50000 satoshis is moved for a fee that is not capped. With signatures of the greatest
    length the transaction has just the size that was estimated. -/
theorem migrateBatch_fee_covers_longest_signatures :
    ∃ (s s' : State) (env : Env) (retiring active : Federation) (m : MigrationTransaction)
      (signed : Transaction),
      s.migrateBatch env retiring active = .ok (some m, s') ∧ m.transaction.SameBody signed ∧
      (∀ i ∈ signed.inputs, retiring.SpentBy i.scriptSig) ∧
      (∀ i ∈ signed.inputs, i.witness = []) ∧ s.feeRate env.constants = 10000 ∧
      signedSize retiring m.transaction = 341 ∧ signed.encode.length = 341 ∧ m.fee = 3410 ∧
      10000 * signed.encode.length / 1000 ≤ m.fee.toNat := by
  obtain ⟨_, b, _, seen⟩ := Bridge.exists_runs_of_play
    (P := fun _ b => b.env.toOption.any (fun env =>
      (b.state.retiringFederation env).toOption.any (fun retiring? => retiring?.any fun retiring =>
      (b.state.activeFederation env).toOption.any (fun active =>
      (b.state.migrateBatch env retiring active).toOption.any fun done => done.1.any fun m =>
      decide (m.transaction = transaction m.spent 46590 active.p2shScript ∧
        b.state.feeRate env.constants = 10000 ∧ signedSize retiring m.transaction = 341 ∧
        (m.transaction.fill (retiring.spendingScript
          (List.replicate retiring.threshold (List.replicate 73 0)))).encode.length = 341 ∧
        m.fee = 3410)))) = true)
    (b := .startAt Scenario.indexed ⟨5, 0⟩ (Scenario.indexed.activations.atBlock 5))
    (.perform (.depositNew (Scenario.output 0 50000)) :: Scenario.change ++
      [Scenario.goTo Scenario.indexed 30])
    (by decide +kernel)
  obtain ⟨env, _, seen⟩ := (Option.any_eq_true _ _).1 seen
  obtain ⟨_, _, seen⟩ := (Option.any_eq_true _ _).1 seen
  obtain ⟨retiring, _, seen⟩ := (Option.any_eq_true _ _).1 seen
  obtain ⟨active, _, seen⟩ := (Option.any_eq_true _ _).1 seen
  obtain ⟨⟨_, s'⟩, migrated, seen⟩ := (Option.any_eq_true _ _).1 seen
  obtain ⟨m, emitted, seen⟩ := (Option.any_eq_true _ _).1 seen
  obtain ⟨written, rate, size, sent, fee⟩ := of_decide_eq_true seen
  rw [toOption_eq_some_iff] at migrated
  cases emitted
  obtain ⟨script, isScript⟩ : ∃ script, script = retiring.spendingScript
      (List.replicate retiring.threshold (List.replicate 73 0)) := ⟨_, rfl⟩
  rw [← isScript] at sent
  have same := m.transaction.sameBody_fill script
  have spent : ∀ i ∈ (m.transaction.fill script).inputs, retiring.SpentBy i.scriptSig := by
    intro i member
    obtain ⟨_, _, rfl⟩ := List.mem_map.1 member
    refine ⟨_, List.length_replicate, fun signature given => ?_, isScript⟩
    cases List.eq_of_mem_replicate given
    exact Nat.le_of_eq List.length_replicate
  have bare : ∀ i ∈ (m.transaction.fill script).inputs, i.witness = [] := by
    rw [written]
    intro i member
    obtain ⟨_, unsigned, rfl⟩ := List.mem_map.1 member
    obtain ⟨_, _, rfl⟩ := List.mem_map.1 unsigned
    rfl
  obtain ⟨_, total, estimated, _, priced, _, _, covers⟩ :=
    migrateBatch_fee_covers_signed migrated same spent bare
  have uncapped : m.fee = estimated := by
    rw [← signedSize_transaction retiring _ 46590 total, ← written, size, rate] at priced
    exact fee.trans (Except.ok.inj priced)
  rw [rate] at covers
  exact ⟨b.state, s', env, retiring, active, m, _, migrated, same, spent, bare, rate, size, sent, fee,
    covers uncapped⟩

end State

end TwoWayPeg
