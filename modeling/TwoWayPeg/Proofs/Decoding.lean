import TwoWayPeg.Proofs.Digits
import TwoWayPeg.Transaction.Decoding

/-!
# Reading transactions back

A reader reads what was written if it takes just those bytes, whatever follows them. Readers that do
can be put one after another. A transaction is read back, in either form, if the lengths of its
parts can be sent and its witnesses are within the limits of the reader. Nothing else is read as a
transaction.
-/

namespace TwoWayPeg

namespace ByteReader

variable {α β : Type}

/-- The reader takes the bytes and gives the value, whatever follows. -/
def Reads (reader : ByteReader α) (bytes : Bytes) (a : α) : Prop :=
  ∀ rest, reader.run (bytes ++ rest) = some (a, rest)

theorem Reads.bind {reader : ByteReader α} {next : α → ByteReader β} {bytes bytes' : Bytes} {a : α}
    {b : β} (first : Reads reader bytes a) (second : Reads (next a) bytes' b) :
    Reads (reader >>= next) (bytes ++ bytes') b := by
  intro rest
  rw [StateT.run_bind, List.append_assoc, first]
  exact second rest

theorem reads_pure (a : α) : Reads (pure a) [] a := fun _ => rfl

theorem Reads.map {reader : ByteReader α} {f : α → β} {bytes : Bytes} {a : α}
    (first : Reads reader bytes a) : Reads (reader >>= fun a => pure (f a)) bytes (f a) := by
  have both : Reads (reader >>= fun a => pure (f a)) (bytes ++ []) (f a) :=
    first.bind (reads_pure (f a))
  rwa [List.append_nil] at both

theorem reads_take {n : Nat} {bytes : Bytes} (length : bytes.length = n) :
    Reads (take n) bytes bytes := by
  intro rest
  subst length
  show (if _ then _ else _) = _
  rw [if_pos (by simp), List.take_left, List.drop_left]

theorem reads_number {width n : Nat} (below : n < Bytes.capacity width) :
    Reads (number width) (Bytes.littleEndian width n) n := by
  have read := (reads_take (Bytes.length_littleEndian width n)).map (f := Bytes.toNatLE)
  rwa [Bytes.toNatLE_littleEndian, Nat.mod_eq_of_lt below] at read

theorem reads_numberFrom {width least n : Nat} (below : n < Bytes.capacity width)
    (enough : least ≤ n) : Reads (numberFrom width least) (Bytes.littleEndian width n) n := by
  have accepted : Reads (if least ≤ n then pure n else failure : ByteReader Nat) [] n := by
    rw [if_pos enough]
    exact reads_pure n
  have read : Reads (numberFrom width least) (Bytes.littleEndian width n ++ []) n :=
    (reads_number below).bind accepted
  rwa [List.append_nil] at read

/-- A count is read back in each of its forms. -/
theorem reads_count {n : Nat} (below : n < 2 ^ 64) : Reads count (compactSize n) n := by
  have marked {first : UInt8} {bytes : Bytes} (reader : ByteReader Nat)
      (next : (if first.toNat = 0xfd then numberFrom 2 0xfd
        else if first.toNat = 0xfe then numberFrom 4 0x10000
        else if first.toNat = 0xff then numberFrom 8 0x100000000
        else pure first.toNat) = reader)
      (read : Reads reader bytes n) : Reads count (first :: bytes) n := by
    have head : Reads (number 1) [first] first.toNat := by
      have single : Reads (number 1) (Bytes.littleEndian 1 first.toNat) first.toNat :=
        reads_number first.toNat_lt
      rwa [Bytes.littleEndian, Bytes.littleEndian, UInt8.ofNat_toNat] at single
    subst next
    exact head.bind read
  unfold compactSize
  split
  · next small =>
    have value : (UInt8.ofNat n).toNat = n := by
      rw [UInt8.toNat_ofNat']
      omega
    apply marked (pure n)
    · rw [value, if_neg (by omega), if_neg (by omega), if_neg (by omega)]
    · exact reads_pure n
  split
  · next short => exact marked _ rfl (reads_numberFrom short (by omega))
  split
  · next short => exact marked _ rfl (reads_numberFrom short (by omega))
  · exact marked _ rfl (reads_numberFrom below (by omega))

theorem reads_sized {bytes : Bytes} (below : bytes.length < 2 ^ 64) :
    Reads sized (sizedBytes bytes) bytes :=
  (reads_count below).bind (reads_take rfl)

/-- Items that are read back are read back one after another. -/
theorem reads_times {item : ByteReader α} {write : α → Bytes} {l : List α}
    (each : ∀ a ∈ l, Reads item (write a) a) : Reads (times item l.length) (l.flatMap write) l := by
  induction l with
  | nil => exact reads_pure []
  | cons a l ih =>
    have rest := ih fun b member => each b (List.mem_cons_of_mem _ member)
    rw [List.flatMap_cons]
    exact (each a List.mem_cons_self).bind rest.map

theorem length_le_flatMap {write : α → Bytes} {l : List α} (each : ∀ a ∈ l, write a ≠ []) :
    l.length ≤ (l.flatMap write).length := by
  induction l with
  | nil => exact Nat.zero_le _
  | cons a l ih =>
    have rest := ih fun b member => each b (List.mem_cons_of_mem _ member)
    have positive := List.length_pos_iff.2 (each a List.mem_cons_self)
    rw [List.flatMap_cons, List.length_append, List.length_cons]
    omega

theorem length_le_flatMap_of_mem (write : α → Bytes) {l : List α} {a : α} (member : a ∈ l) :
    (write a).length ≤ (l.flatMap write).length := by
  rw [List.flatMap_def]
  exact (List.sublist_flatten_of_mem (List.mem_map_of_mem member)).length_le

/-- Items after their count are read back, if each of them takes some bytes. -/
theorem reads_counted {item : ByteReader α} {write : α → Bytes} {l : List α}
    (each : ∀ a ∈ l, Reads item (write a) a) (some' : ∀ a ∈ l, write a ≠ [])
    (below : l.length < 2 ^ 64) :
    Reads (counted item) (compactSize l.length ++ l.flatMap write) l := by
  refine (reads_count below).bind ?_
  intro rest
  have enough : l.length ≤ (l.flatMap write ++ rest).length := by
    have := length_le_flatMap some'
    rw [List.length_append]
    omega
  show StateT.run (if l.length ≤ (l.flatMap write ++ rest).length then times item l.length
    else failure) (l.flatMap write ++ rest) = _
  rw [if_pos enough]
  exact reads_times each rest

end ByteReader

open ByteReader

/-- The input without its witness, which is written apart. -/
def TxIn.bare (i : TxIn) : TxIn := { i with witness := [] }

theorem TxIn.bare_eq_self {i : TxIn} (none : i.witness = []) : i.bare = i := by
  cases i
  cases none
  rfl

theorem TxIn.reads_encode {i : TxIn} (short : i.scriptSig.length < 2 ^ 64) :
    Reads TxIn.read i.encode i.bare := by
  have bytes : i.encode = i.previous.txid.toList ++ (Bytes.littleEndian 4 i.previous.vout.toNat ++
      (sizedBytes i.scriptSig ++ (Bytes.littleEndian 4 i.sequence.toNat ++ []))) := by
    simp [TxIn.encode, OutPoint.encode]
  rw [bytes]
  refine (reads_take i.previous.txid.length_eq).bind ?_
  refine (reads_number i.previous.vout.toNat_lt).bind ?_
  refine (reads_sized short).bind ?_
  refine (reads_number i.sequence.toNat_lt).bind ?_
  rw [FixedBytes.ofList?_toList]
  simp only [UInt32.ofNat_toNat]
  exact reads_pure _

/-- The witness of an input is not larger than a reader takes. -/
def TxIn.WitnessFits (i : TxIn) : Prop :=
  i.witness.length ≤ witnessLimit ∧ witnessSize i.witness ≤ witnessLimit

instance (i : TxIn) : Decidable i.WitnessFits := inferInstanceAs (Decidable (_ ∧ _))

theorem compactSize_ne_nil (n : Nat) : compactSize n ≠ [] := by
  unfold compactSize
  split
  · simp
  split
  · simp
  split <;> simp

theorem sizedBytes_ne_nil (bytes : Bytes) : sizedBytes bytes ≠ [] := by
  intro empty
  exact compactSize_ne_nil _ (List.append_eq_nil_iff.1 empty).1

theorem length_le_sizedBytes (bytes : Bytes) : bytes.length ≤ (sizedBytes bytes).length := by
  rw [sizedBytes, List.length_append]
  exact Nat.le_add_left _ _

theorem TxIn.reads_encodeWitness {i : TxIn} (fits : i.WitnessFits) :
    Reads TxIn.readWitness i.encodeWitness i.witness := by
  have limit : witnessLimit < 2 ^ 64 := by decide
  have short : ∀ item ∈ i.witness, item.length < 2 ^ 64 := by
    intro item member
    have part : (sizedBytes item).length ≤ witnessSize i.witness := length_le_flatMap_of_mem _ member
    have := length_le_sizedBytes item
    have := fits.2
    omega
  have items : Reads (counted sized) i.encodeWitness i.witness :=
    reads_counted (fun item member => reads_sized (short item member))
      (fun item _ => sizedBytes_ne_nil item) (Nat.lt_of_le_of_lt fits.1 limit)
  have accepted : Reads (if i.witness.length ≤ witnessLimit ∧ witnessSize i.witness ≤ witnessLimit
      then pure i.witness else failure : ByteReader (List Bytes)) [] i.witness := by
    rw [if_pos (show _ ∧ _ from fits)]
    exact reads_pure i.witness
  have read : Reads TxIn.readWitness (i.encodeWitness ++ []) i.witness := items.bind accepted
  rwa [List.append_nil] at read

theorem TxOut.reads_encode {o : TxOut} (short : o.scriptPubkey.length < 2 ^ 64) :
    Reads TxOut.read o.encode o := by
  refine (reads_number o.value.toNat_lt).bind ?_
  rw [UInt64.ofNat_toNat]
  exact (reads_sized short).map

theorem TxIn.encode_ne_nil (i : TxIn) : i.encode ≠ [] := by
  intro empty
  have length := congrArg List.length empty
  simp [TxIn.encode, OutPoint.encode, i.previous.txid.length_eq] at length

theorem TxOut.encode_ne_nil (o : TxOut) : o.encode ≠ [] := by
  intro empty
  have length := congrArg List.length empty
  simp [TxOut.encode] at length

namespace Transaction

/-- A transaction without witnesses that can be told from a marked one, and that can be sent. -/
structure Plain (t : Transaction) : Prop where
  spends : t.inputs ≠ []
  bare : ∀ i ∈ t.inputs, i.witness = []
  inputs_fit : t.inputs.length < 2 ^ 64
  outputs_fit : t.outputs.length < 2 ^ 64
  scriptSig_fits : ∀ i ∈ t.inputs, i.scriptSig.length < 2 ^ 64
  scriptPubkey_fits : ∀ o ∈ t.outputs, o.scriptPubkey.length < 2 ^ 64

variable {t t' : Transaction}

/-- The lengths of the parts of a transaction can be sent, and its witnesses are read. -/
structure Sendable (t : Transaction) : Prop where
  inputs_fit : t.inputs.length < 2 ^ 64
  outputs_fit : t.outputs.length < 2 ^ 64
  scriptSig_fits : ∀ i ∈ t.inputs, i.scriptSig.length < 2 ^ 64
  scriptPubkey_fits : ∀ o ∈ t.outputs, o.scriptPubkey.length < 2 ^ 64
  witness_fits : ∀ i ∈ t.inputs, i.WitnessFits

namespace Sendable

theorem reads_inputs (sendable : t.Sendable) :
    Reads (counted TxIn.read) t.encodeInputs (t.inputs.map TxIn.bare) := by
  have read : Reads (counted TxIn.read)
      (compactSize (t.inputs.map TxIn.bare).length ++ (t.inputs.map TxIn.bare).flatMap TxIn.encode)
      (t.inputs.map TxIn.bare) := by
    refine reads_counted ?_ (fun i _ => i.encode_ne_nil) ?_
    · intro i member
      obtain ⟨signed, among, rfl⟩ := List.mem_map.1 member
      exact TxIn.reads_encode (i := signed.bare) (sendable.scriptSig_fits signed among)
    · rw [List.length_map]
      exact sendable.inputs_fit
  rwa [List.length_map, List.flatMap_map] at read

theorem reads_outputs (sendable : t.Sendable) :
    Reads (counted TxOut.read) t.encodeOutputs t.outputs :=
  reads_counted (fun o member => TxOut.reads_encode (sendable.scriptPubkey_fits o member))
    (fun o _ => o.encode_ne_nil) sendable.outputs_fit

/-- The witnesses of inputs are read back to them in turn. -/
theorem reads_witnesses {inputs : List TxIn} (each : ∀ i ∈ inputs, i.WitnessFits) :
    Reads (readWitnesses (inputs.map TxIn.bare)) (inputs.flatMap TxIn.encodeWitness) inputs := by
  induction inputs with
  | nil => exact reads_pure []
  | cons i inputs ih =>
    have rest := ih fun other member => each other (List.mem_cons_of_mem _ member)
    rw [List.map_cons, List.flatMap_cons]
    exact (TxIn.reads_encodeWitness (each i List.mem_cons_self)).bind rest.map

theorem reads_marked (sendable : t.Sendable)
    (marked : (t.inputs.isEmpty || t.hasWitness) = true) :
    Reads readMarked ([0x01] ++ (t.encodeInputs ++ (t.encodeOutputs ++
      (t.inputs.flatMap TxIn.encodeWitness ++ [])))) (t.inputs, t.outputs) := by
  have flag : Reads (number 1) [0x01] 1 := reads_number (show 1 < Bytes.capacity 1 by decide)
  refine flag.bind ?_
  rw [if_neg (not_not_intro rfl)]
  refine sendable.reads_inputs.bind ?_
  refine sendable.reads_outputs.bind ?_
  refine (reads_witnesses sendable.witness_fits).bind ?_
  rw [show (t.inputs.isEmpty || t.inputs.any fun i => !i.witness.isEmpty) = true from marked,
    if_pos rfl]
  exact reads_pure _

/-- A transaction is read back from its bytes. -/
theorem reads_encode (sendable : t.Sendable) : Reads Transaction.read t.encode t := by
  cases marked : t.inputs.isEmpty || t.hasWitness with
  | true =>
    -- the mark is read as an empty list of inputs
    have none : ∀ i ∈ ([] : List TxIn), Reads TxIn.read i.encode i := by simp
    have mark : Reads (counted TxIn.read) [0x00] [] := reads_counted none (by simp) (by decide)
    have bytes : t.encode = t.encodeVersion ++ ([0x00] ++ (([0x01] ++ (t.encodeInputs ++
        (t.encodeOutputs ++ (t.inputs.flatMap TxIn.encodeWitness ++ [])))) ++
        (t.encodeLockTime ++ []))) := by
      simp [encode, marked]
    rw [bytes]
    refine (reads_number t.version.toUInt32.toNat_lt).bind ?_
    refine mark.bind ?_
    simp only [List.isEmpty_nil, if_true]
    refine (sendable.reads_marked marked).bind ?_
    refine (reads_number t.lockTime.toNat_lt).bind ?_
    simp only [UInt32.ofNat_toNat]
    exact reads_pure _
  | false =>
    rw [Bool.or_eq_false_iff] at marked
    have bare : t.inputs.map TxIn.bare = t.inputs := by
      rw [List.map_congr_left (g := id), List.map_id]
      intro i member
      apply TxIn.bare_eq_self
      simpa using List.any_eq_false.1 marked.2 i member
    have inputs := sendable.reads_inputs
    rw [bare] at inputs
    have bytes : t.encode = t.encodeVersion ++ (t.encodeInputs ++ (t.encodeOutputs ++
        (t.encodeLockTime ++ []))) := by
      simp [encode, marked.1, marked.2, encodeBase]
    rw [bytes]
    refine (reads_number t.version.toUInt32.toNat_lt).bind ?_
    refine inputs.bind ?_
    simp only [marked.1, Bool.false_eq_true, if_false]
    refine sendable.reads_outputs.bind ?_
    rw [pure_bind]
    refine (reads_number t.lockTime.toNat_lt).bind ?_
    simp only [UInt32.ofNat_toNat]
    exact reads_pure _

theorem decode?_encode (sendable : t.Sendable) : decode? t.encode = some t := by
  have read := sendable.reads_encode []
  rw [List.append_nil] at read
  rw [decode?, show Transaction.read t.encode = some (t, []) from read]

end Sendable

theorem Plain.sendable (plain : t.Plain) : t.Sendable where
  inputs_fit := plain.inputs_fit
  outputs_fit := plain.outputs_fit
  scriptSig_fits := plain.scriptSig_fits
  scriptPubkey_fits := plain.scriptPubkey_fits
  witness_fits i member := by
    rw [TxIn.WitnessFits, plain.bare i member]
    decide

/-- The parts of a transaction are not longer than the whole. -/
theorem sendable_of_length (short : t.encode.length < 2 ^ 64)
    (witnesses : ∀ i ∈ t.inputs, i.WitnessFits) : t.Sendable := by
  have inputs : (t.inputs.flatMap TxIn.encode).length ≤ t.encode.length := by
    unfold encode encodeBase encodeInputs
    split <;> simp only [List.length_append] <;> omega
  have outputs : (t.outputs.flatMap TxOut.encode).length ≤ t.encode.length := by
    unfold encode encodeBase encodeOutputs
    split <;> simp only [List.length_append] <;> omega
  constructor
  · have count : t.inputs.length ≤ (t.inputs.flatMap TxIn.encode).length :=
      length_le_flatMap fun i _ => i.encode_ne_nil
    omega
  · have count : t.outputs.length ≤ (t.outputs.flatMap TxOut.encode).length :=
      length_le_flatMap fun o _ => o.encode_ne_nil
    omega
  · intro i member
    have part := length_le_flatMap_of_mem TxIn.encode member
    have inside : i.scriptSig.length ≤ i.encode.length := by
      have := length_le_sizedBytes i.scriptSig
      simp only [TxIn.encode, List.length_append]
      omega
    omega
  · intro o member
    have part := length_le_flatMap_of_mem TxOut.encode member
    have inside : o.scriptPubkey.length ≤ o.encode.length := by
      have := length_le_sizedBytes o.scriptPubkey
      simp only [TxOut.encode, List.length_append]
      omega
    omega
  · exact witnesses

/-- Two transactions without witnesses are not written as the same bytes. -/
theorem Plain.eq_of_encode (plain : t.Plain) (plain' : t'.Plain) (same : t.encode = t'.encode) :
    t = t' := by
  have read := plain.sendable.reads_encode []
  rw [same, plain'.sendable.reads_encode []] at read
  cases read
  rfl

end Transaction

/-! ## Only what is written is read -/

namespace ByteReader

variable {α β : Type}

/-- What the reader gives is valid, and the bytes that it takes are what is written for it. -/
def Takes (reader : ByteReader α) (Valid : α → Prop) (write : α → Bytes) : Prop :=
  ∀ bytes a rest, reader.run bytes = some (a, rest) → Valid a ∧ bytes = write a ++ rest

section

variable {bytes rest : Bytes}

theorem run_bind_eq_some_iff {reader : ByteReader α} {next : α → ByteReader β} {b : β} :
    (reader >>= next).run bytes = some (b, rest) ↔
      ∃ a middle, reader.run bytes = some (a, middle) ∧ (next a).run middle = some (b, rest) := by
  rw [StateT.run_bind]
  exact Option.bind_eq_some_iff.trans Prod.exists

theorem run_pure_eq_some_iff {a b : α} :
    (pure a : ByteReader α).run bytes = some (b, rest) ↔ a = b ∧ bytes = rest := by
  show some (a, bytes) = some (b, rest) ↔ _
  rw [Option.some.injEq, Prod.mk.injEq]

/-- A reader that may refuse what it has read gives it only if it accepts it. -/
theorem run_ite_eq_some_iff {accepted : Prop} [Decidable accepted] {reader : ByteReader α} {a : α} :
    (if accepted then reader else failure).run bytes = some (a, rest) ↔
      accepted ∧ reader.run bytes = some (a, rest) := by
  by_cases accepts : accepted
  · simp [accepts]
  · rw [if_neg accepts]
    exact ⟨nofun, fun ⟨accepts', _⟩ => absurd accepts' accepts⟩

end

theorem takes_take (n : Nat) : Takes (take n) (·.length = n) id := by
  intro bytes a rest taken
  replace taken : (if n ≤ bytes.length then some (bytes.take n, bytes.drop n) else none) =
      some (a, rest) := taken
  split at taken
  · next enough =>
    cases taken
    exact ⟨List.length_take_of_le enough, (List.take_append_drop n bytes).symm⟩
  · cases taken

theorem takes_number (width : Nat) :
    Takes (number width) (· < Bytes.capacity width) (Bytes.littleEndian width) := by
  intro bytes n rest taken
  obtain ⟨digits, middle, first, last⟩ := run_bind_eq_some_iff.1 taken
  obtain ⟨rfl, rfl⟩ := run_pure_eq_some_iff.1 last
  obtain ⟨rfl, rfl⟩ := takes_take width _ _ _ first
  exact ⟨Bytes.toNatLE_lt digits, by rw [Bytes.littleEndian_toNatLE, id_eq]⟩

theorem takes_numberFrom (width least : Nat) :
    Takes (numberFrom width least) (fun n => least ≤ n ∧ n < Bytes.capacity width)
      (Bytes.littleEndian width) := by
  intro bytes n rest taken
  obtain ⟨m, middle, first, last⟩ := run_bind_eq_some_iff.1 taken
  obtain ⟨enough, given⟩ := run_ite_eq_some_iff.1 last
  obtain ⟨rfl, rfl⟩ := run_pure_eq_some_iff.1 given
  obtain ⟨below, written⟩ := takes_number width _ _ _ first
  exact ⟨⟨enough, below⟩, written⟩

/-- A count is taken in its shortest form only. -/
theorem takes_count : Takes count (· < 2 ^ 64) compactSize := by
  intro bytes n rest taken
  obtain ⟨first, middle, head, tail⟩ := run_bind_eq_some_iff.1 taken
  obtain ⟨below, rfl⟩ := takes_number 1 _ _ _ head
  have byte : Bytes.littleEndian 1 first = [UInt8.ofNat first] := rfl
  have below : first < 256 := below
  rw [byte, List.singleton_append]
  unfold compactSize
  split at tail
  · next marker =>
    obtain ⟨⟨enough, short⟩, rfl⟩ := takes_numberFrom _ _ _ _ _ tail
    have short : n < 0x10000 := short
    refine ⟨by omega, ?_⟩
    rw [if_neg (by omega), if_pos short, marker]
    rfl
  split at tail
  · next marker =>
    obtain ⟨⟨enough, short⟩, rfl⟩ := takes_numberFrom _ _ _ _ _ tail
    have short : n < 0x100000000 := short
    refine ⟨by omega, ?_⟩
    rw [if_neg (by omega), if_neg (by omega), if_pos short, marker]
    rfl
  split at tail
  · next marker =>
    obtain ⟨⟨enough, short⟩, rfl⟩ := takes_numberFrom _ _ _ _ _ tail
    refine ⟨short, ?_⟩
    rw [if_neg (by omega), if_neg (by omega), if_neg (by omega), marker]
    rfl
  · obtain ⟨rfl, rfl⟩ := run_pure_eq_some_iff.1 tail
    refine ⟨by omega, ?_⟩
    rw [if_pos (by omega)]
    rfl

theorem takes_sized : Takes sized (·.length < 2 ^ 64) sizedBytes := by
  intro bytes a rest taken
  obtain ⟨n, middle, first, last⟩ := run_bind_eq_some_iff.1 taken
  obtain ⟨rfl, rfl⟩ := takes_take n _ _ _ last
  obtain ⟨below, rfl⟩ := takes_count _ _ _ first
  exact ⟨below, by rw [sizedBytes, List.append_assoc, id_eq]⟩

section

variable {item : ByteReader α} {Valid : α → Prop} {write : α → Bytes}

theorem takes_times (each : Takes item Valid write) (n : Nat) :
    Takes (times item n) (fun l => l.length = n ∧ ∀ a ∈ l, Valid a) (List.flatMap write) := by
  induction n with
  | zero =>
    intro bytes l rest taken
    obtain ⟨rfl, rfl⟩ := run_pure_eq_some_iff.1 taken
    exact ⟨⟨rfl, by simp⟩, rfl⟩
  | succ n ih =>
    intro bytes l rest taken
    obtain ⟨a, _, first, others⟩ := run_bind_eq_some_iff.1 taken
    obtain ⟨l', _, later, ended⟩ := run_bind_eq_some_iff.1 others
    obtain ⟨rfl, rfl⟩ := run_pure_eq_some_iff.1 ended
    obtain ⟨valid, rfl⟩ := each _ _ _ first
    obtain ⟨⟨length, allValid⟩, rfl⟩ := ih _ _ _ later
    refine ⟨⟨by rw [List.length_cons, length], ?_⟩, ?_⟩
    · exact List.forall_mem_cons.2 ⟨valid, allValid⟩
    · rw [List.flatMap_cons, List.append_assoc]

theorem takes_counted (each : Takes item Valid write) :
    Takes (counted item) (fun l => l.length < 2 ^ 64 ∧ ∀ a ∈ l, Valid a)
      fun l => compactSize l.length ++ l.flatMap write := by
  intro bytes l rest taken
  obtain ⟨n, middle, first, others⟩ := run_bind_eq_some_iff.1 taken
  replace others : (if n ≤ middle.length then times item n else failure).run middle =
      some (l, rest) := others
  obtain ⟨_, items⟩ := run_ite_eq_some_iff.1 others
  obtain ⟨⟨rfl, allValid⟩, rfl⟩ := takes_times each n _ _ _ items
  obtain ⟨below, rfl⟩ := takes_count _ _ _ first
  exact ⟨⟨below, allValid⟩, by rw [List.append_assoc]⟩

end

end ByteReader

open ByteReader

theorem TxIn.takes_read :
    Takes TxIn.read (fun i => i.witness = [] ∧ i.scriptSig.length < 2 ^ 64) TxIn.encode := by
  intro bytes i rest taken
  obtain ⟨id, _, first, afterId⟩ := run_bind_eq_some_iff.1 taken
  obtain ⟨vout, _, second, afterVout⟩ := run_bind_eq_some_iff.1 afterId
  obtain ⟨script, _, third, afterScript⟩ := run_bind_eq_some_iff.1 afterVout
  obtain ⟨sequence, _, fourth, last⟩ := run_bind_eq_some_iff.1 afterScript
  obtain ⟨length, rfl⟩ := takes_take 32 _ _ _ first
  obtain ⟨voutBelow, rfl⟩ := takes_number 4 _ _ _ second
  obtain ⟨short, rfl⟩ := takes_sized _ _ _ third
  obtain ⟨sequenceBelow, rfl⟩ := takes_number 4 _ _ _ fourth
  rw [show FixedBytes.ofList? id = some (⟨id, length⟩ : Txid) from dif_pos length] at last
  obtain ⟨rfl, rfl⟩ := run_pure_eq_some_iff.1 last
  refine ⟨⟨rfl, short⟩, ?_⟩
  simp only [TxIn.encode, OutPoint.encode, List.append_assoc, id_eq]
  rw [UInt32.toNat_ofNat_of_lt' voutBelow, UInt32.toNat_ofNat_of_lt' sequenceBelow]

theorem TxIn.takes_readWitness : Takes TxIn.readWitness
    (fun witness => witness.length ≤ witnessLimit ∧ witnessSize witness ≤ witnessLimit)
    fun witness => compactSize witness.length ++ witness.flatMap sizedBytes := by
  intro bytes witness rest taken
  obtain ⟨_, _, items, last⟩ := run_bind_eq_some_iff.1 taken
  obtain ⟨fits, given⟩ := run_ite_eq_some_iff.1 last
  obtain ⟨rfl, rfl⟩ := run_pure_eq_some_iff.1 given
  exact ⟨fits, (takes_counted takes_sized _ _ _ items).2⟩

theorem TxOut.takes_read :
    Takes TxOut.read (fun o => o.scriptPubkey.length < 2 ^ 64) TxOut.encode := by
  intro bytes o rest taken
  obtain ⟨value, _, first, afterValue⟩ := run_bind_eq_some_iff.1 taken
  obtain ⟨script, _, second, last⟩ := run_bind_eq_some_iff.1 afterValue
  obtain ⟨rfl, rfl⟩ := run_pure_eq_some_iff.1 last
  obtain ⟨below, rfl⟩ := takes_number 8 _ _ _ first
  obtain ⟨short, rfl⟩ := takes_sized _ _ _ second
  refine ⟨short, ?_⟩
  rw [TxOut.encode, UInt64.toNat_ofNat_of_lt' below, List.append_assoc]

namespace Transaction

/-- Inputs that get their witnesses stay as they are otherwise. -/
theorem takes_readWitnesses {inputs : List TxIn} (bare : ∀ i ∈ inputs, i.witness = []) :
    Takes (readWitnesses inputs)
      (fun signed => signed.map TxIn.bare = inputs ∧ ∀ i ∈ signed, i.WitnessFits)
      (List.flatMap TxIn.encodeWitness) := by
  induction inputs with
  | nil =>
    intro bytes signed rest taken
    obtain ⟨rfl, rfl⟩ := run_pure_eq_some_iff.1 taken
    exact ⟨⟨rfl, by simp⟩, rfl⟩
  | cons i inputs ih =>
    intro bytes signed rest taken
    obtain ⟨witness, _, first, others⟩ := run_bind_eq_some_iff.1 taken
    obtain ⟨signed', _, later, last⟩ := run_bind_eq_some_iff.1 others
    obtain ⟨rfl, rfl⟩ := run_pure_eq_some_iff.1 last
    obtain ⟨fits, rfl⟩ := TxIn.takes_readWitness _ _ _ first
    rw [List.forall_mem_cons] at bare
    obtain ⟨⟨rfl, allFit⟩, rfl⟩ := ih bare.2 _ _ _ later
    refine ⟨⟨?_, List.forall_mem_cons.2 ⟨fits, allFit⟩⟩, ?_⟩
    · exact congrArg (· :: _) (TxIn.bare_eq_self bare.1)
    · simp only [TxIn.encodeWitness, List.flatMap_cons, List.append_assoc]

variable {t : Transaction} {bytes rest : Bytes}

theorem encodeInputs_eq : t.encodeInputs = compactSize (t.inputs.map TxIn.bare).length ++
    (t.inputs.map TxIn.bare).flatMap TxIn.encode := by
  rw [List.length_map, List.flatMap_map]
  rfl

/-- What is read after the mark belongs to a transaction that is written with the mark. -/
theorem of_run_readMarked (taken : readMarked.run bytes = some ((t.inputs, t.outputs), rest)) :
    t.Sendable ∧ (t.inputs.isEmpty || t.hasWitness) = true ∧
      bytes = [0x01] ++ (t.encodeInputs ++ (t.encodeOutputs ++
        (t.inputs.flatMap TxIn.encodeWitness ++ rest))) := by
  obtain ⟨flag, _, first, afterFlag⟩ := run_bind_eq_some_iff.1 taken
  obtain ⟨-, rfl⟩ := takes_number 1 _ _ _ first
  by_cases marked : flag = 1
  · rw [if_neg (not_not_intro marked)] at afterFlag
    obtain ⟨bare, _, second, afterInputs⟩ := run_bind_eq_some_iff.1 afterFlag
    obtain ⟨outputs, _, third, afterOutputs⟩ := run_bind_eq_some_iff.1 afterInputs
    obtain ⟨signed, _, fourth, last⟩ := run_bind_eq_some_iff.1 afterOutputs
    obtain ⟨needed, given⟩ := run_ite_eq_some_iff.1 last
    obtain ⟨same, rfl⟩ := run_pure_eq_some_iff.1 given
    cases same
    obtain ⟨⟨inputsFit, scripts⟩, rfl⟩ := takes_counted TxIn.takes_read _ _ _ second
    obtain ⟨⟨outputsFit, outputScripts⟩, rfl⟩ := takes_counted TxOut.takes_read _ _ _ third
    obtain ⟨⟨rfl, witnesses⟩, rfl⟩ :=
      takes_readWitnesses (fun i member => (scripts i member).1) _ _ _ fourth
    refine ⟨⟨?_, outputsFit, ?_, outputScripts, witnesses⟩, needed, ?_⟩
    · rwa [List.length_map] at inputsFit
    · exact fun i member => (scripts i.bare (List.mem_map_of_mem member)).2
    · rw [marked, encodeInputs_eq, encodeOutputs]
      rfl
  · rw [if_pos marked] at afterFlag
    cases afterFlag

/-- A transaction that is read can be sent, and the bytes that are taken are its own. -/
theorem takes_read : Takes Transaction.read Sendable encode := by
  intro bytes t rest taken
  obtain ⟨version, _, first, afterVersion⟩ := run_bind_eq_some_iff.1 taken
  obtain ⟨inputs, _, second, afterInputs⟩ := run_bind_eq_some_iff.1 afterVersion
  obtain ⟨versionBelow, rfl⟩ := takes_number 4 _ _ _ first
  obtain ⟨⟨inputsFit, scripts⟩, rfl⟩ := takes_counted TxIn.takes_read _ _ _ second
  have versionBytes : (UInt32.ofNat version).toInt32.toUInt32.toNat = version := by
    rw [UInt32.toUInt32_toInt32, UInt32.toNat_ofNat_of_lt' versionBelow]
  cases empty : inputs.isEmpty with
  | true =>
    simp only [empty, if_true] at afterInputs
    obtain ⟨parts, _, third, afterParts⟩ := run_bind_eq_some_iff.1 afterInputs
    obtain ⟨lockTime, _, fourth, last⟩ := run_bind_eq_some_iff.1 afterParts
    obtain ⟨lockTimeBelow, rfl⟩ := takes_number 4 _ _ _ fourth
    obtain ⟨same, rfl⟩ := run_pure_eq_some_iff.1 last
    obtain rfl : parts = (t.inputs, t.outputs) := by rw [← same]
    obtain ⟨sendable, marked, rfl⟩ := of_run_readMarked third
    refine ⟨sendable, ?_⟩
    -- the mark is an empty list of inputs
    cases List.isEmpty_iff.1 empty
    rw [encode, if_pos marked, encodeVersion, encodeLockTime, ← same, versionBytes,
      UInt32.toNat_ofNat_of_lt' lockTimeBelow]
    simp [compactSize]
  | false =>
    simp only [empty, Bool.false_eq_true, if_false] at afterInputs
    obtain ⟨outputs, _, third, afterParts⟩ := run_bind_eq_some_iff.1 afterInputs
    rw [pure_bind] at afterParts
    obtain ⟨lockTime, _, fourth, last⟩ := run_bind_eq_some_iff.1 afterParts
    obtain ⟨⟨outputsFit, outputScripts⟩, rfl⟩ := takes_counted TxOut.takes_read _ _ _ third
    obtain ⟨lockTimeBelow, rfl⟩ := takes_number 4 _ _ _ fourth
    obtain ⟨same, rfl⟩ := run_pure_eq_some_iff.1 last
    obtain rfl : t.inputs = inputs := by rw [← same]
    obtain rfl : t.outputs = outputs := by rw [← same]
    have witnesses : ∀ i ∈ t.inputs, i.WitnessFits := by
      intro i member
      rw [TxIn.WitnessFits, (scripts i member).1]
      decide
    have unmarked : t.hasWitness = false :=
      List.any_eq_false.2 fun i member => by simp [(scripts i member).1]
    refine ⟨⟨inputsFit, outputsFit, fun i member => (scripts i member).2, outputScripts,
      witnesses⟩, ?_⟩
    rw [encode, unmarked, empty, if_neg (by decide), encodeBase, encodeVersion, encodeLockTime,
      ← same, versionBytes, UInt32.toNat_ofNat_of_lt' lockTimeBelow]
    simp only [encodeInputs, encodeOutputs, List.append_assoc]

/-- The bytes of a transaction that can be sent are read as that transaction, and no others are. -/
theorem decode?_eq_some_iff {bytes : Bytes} :
    decode? bytes = some t ↔ t.Sendable ∧ t.encode = bytes := by
  constructor
  · intro decoded
    unfold decode? at decoded
    split at decoded
    · next t' taken =>
      cases decoded
      obtain ⟨sendable, rfl⟩ := takes_read _ _ _ taken
      exact ⟨sendable, (List.append_nil _).symm⟩
    · cases decoded
  · rintro ⟨sendable, rfl⟩
    exact sendable.decode?_encode

end Transaction

end TwoWayPeg
