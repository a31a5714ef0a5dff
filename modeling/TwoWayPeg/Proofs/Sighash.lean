import TwoWayPeg.Migration
import TwoWayPeg.Proofs.Decoding

/-!
# What a signature of the first input commits to

The bytes that a signature of the first input commits to depend on the transaction as it stands
before it is signed, and they tell the transaction and the script.
-/

namespace TwoWayPeg

namespace Transaction

/-- The transaction as it stands before any input is signed. -/
def unsigned (t : Transaction) : Transaction := { t with inputs := t.inputs.map TxIn.unsigned }

@[simp] theorem inputsForFirst_unsigned (script : Script) (inputs : List TxIn) :
    inputsForFirst script (inputs.map TxIn.unsigned) = inputsForFirst script inputs := by
  cases inputs with
  | nil => rfl
  | cons first rest => simp [inputsForFirst, TxIn.unsigned]

theorem firstInputPreimage_unsigned (t : Transaction) (script : Script) :
    t.unsigned.firstInputPreimage script = t.firstInputPreimage script := by
  simp [firstInputPreimage, unsigned]

/-- Signing a transaction does not change what the signature of its first input commits to. -/
theorem firstInputSighash?_unsigned (t : Transaction) (script : Script) :
    t.unsigned.firstInputSighash? script = t.firstInputSighash? script := by
  rw [firstInputSighash?, firstInputPreimage_unsigned, firstInputSighash?]
  simp [unsigned]

variable {t t' : Transaction} {script script' : Script}

/-- The transaction that is written for a signature can be told from a marked one. -/
theorem Plain.forFirst (plain : t.Plain) (short : script.length < 2 ^ 64) :
    Plain { t with inputs := inputsForFirst script t.inputs } := by
  obtain ⟨first, rest, inputs⟩ := List.exists_cons_of_ne_nil plain.spends
  have fits := plain.inputs_fit
  rw [inputs] at fits
  constructor <;> simp only [inputs, inputsForFirst]
  · exact List.cons_ne_nil _ _
  · simp [TxIn.unsigned]
  · simpa using fits
  · exact plain.outputs_fit
  · simpa [TxIn.unsigned] using short
  · exact plain.scriptPubkey_fits

theorem inputsForFirst_inj {inputs inputs' : List TxIn} (spends : inputs ≠ [])
    (spends' : inputs' ≠ [])
    (same : inputsForFirst script inputs = inputsForFirst script' inputs') :
    script = script' ∧ inputs.map TxIn.unsigned = inputs'.map TxIn.unsigned := by
  obtain ⟨first, rest, rfl⟩ := List.exists_cons_of_ne_nil spends
  obtain ⟨first', rest', rfl⟩ := List.exists_cons_of_ne_nil spends'
  rw [inputsForFirst, inputsForFirst, List.cons.injEq] at same
  obtain ⟨head, tail⟩ := same
  simp only [TxIn.unsigned, TxIn.mk.injEq, and_true] at head
  obtain ⟨previous, rfl, sequence⟩ := head
  refine ⟨rfl, ?_⟩
  rw [List.map_cons, List.map_cons, tail]
  simp [TxIn.unsigned, previous, sequence]

/-- The bytes that a signature of the first input commits to tell the transaction and the script. -/
theorem eq_of_firstInputPreimage (plain : t.Plain) (plain' : t'.Plain)
    (short : script.length < 2 ^ 64) (short' : script'.length < 2 ^ 64)
    (same : t.firstInputPreimage script = t'.firstInputPreimage script') :
    t.unsigned = t'.unsigned ∧ script = script' := by
  have written := (List.append_inj' same rfl).1
  have whole := (plain.forFirst short).eq_of_encode (plain'.forFirst short') written
  rw [Transaction.mk.injEq] at whole
  obtain ⟨version, lockTime, inputs, outputs⟩ := whole
  obtain ⟨scripts, spent⟩ := inputsForFirst_inj plain.spends plain'.spends inputs
  refine ⟨?_, scripts⟩
  rw [unsigned, unsigned, Transaction.mk.injEq]
  exact ⟨version, lockTime, spent, outputs⟩

end Transaction

/-- Two different byte strings have one hash. -/
def Collide (bytes bytes' : Bytes) : Prop :=
  bytes ≠ bytes' ∧ doubleSha256 bytes = doubleSha256 bytes'

namespace Transaction

variable {t t' : Transaction} {script script' : Script}

theorem Plain.firstInputSighash?_eq (plain : t.Plain) (script : Script) :
    t.firstInputSighash? script = some (doubleSha256 (t.firstInputPreimage script)) := by
  rw [firstInputSighash?, if_neg]
  rw [List.isEmpty_iff]
  exact plain.spends

/-- The hashes that signatures of first inputs commit to are the same for the same unsigned
    transaction and script, and else only by a collision. -/
theorem firstInputSighash?_eq_iff (plain : t.Plain) (plain' : t'.Plain)
    (short : script.length < 2 ^ 64) (short' : script'.length < 2 ^ 64) :
    t.firstInputSighash? script = t'.firstInputSighash? script' ↔
      t.unsigned = t'.unsigned ∧ script = script' ∨
        Collide (t.firstInputPreimage script) (t'.firstInputPreimage script') := by
  rw [plain.firstInputSighash?_eq, plain'.firstInputSighash?_eq, Option.some.injEq]
  constructor
  · intro same
    by_cases equal : t.firstInputPreimage script = t'.firstInputPreimage script'
    · exact .inl (eq_of_firstInputPreimage plain plain' short short' equal)
    · exact .inr ⟨equal, same⟩
  · rintro (⟨unsigned, rfl⟩ | ⟨_, same⟩)
    · rw [← firstInputPreimage_unsigned, unsigned, firstInputPreimage_unsigned]
    · exact same

end Transaction

namespace Migration

variable {batch : List Utxo} {value : UInt64} {script : Script}

theorem unsigned_transaction :
    (transaction batch value script).unsigned = transaction batch value script := by
  simp [Transaction.unsigned, transaction, TxIn.unsigned]

theorem plain_transaction (worth : batch ≠ []) (few : batch.length < 2 ^ 64)
    (short : script.length < 2 ^ 64) : (transaction batch value script).Plain where
  spends := by simpa [transaction] using worth
  bare := by simp [transaction]
  inputs_fit := by
    rw [transaction, List.length_map]
    exact few
  outputs_fit := by simp [transaction]
  scriptSig_fits := by simp [transaction]
  scriptPubkey_fits := by
    intro o member
    rw [transaction, List.mem_singleton] at member
    rw [member]
    exact short

end Migration

end TwoWayPeg
