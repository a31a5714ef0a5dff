import TwoWayPeg.Proofs.Canonical

/-!
# Stored parts that stand as they are written

For each part of the state a check of bytes: it holds just if the part that is read from them is
written as those bytes. Besides items that do not stand as they are written, the readers accept keys
in other forms than the 33-byte one, sets and maps in any order and with repetitions, items behind
the second one of a pair, and emergency keys of a federation that has none.
-/

namespace TwoWayPeg

open Rlp

namespace FixedBytes

variable {n : Nat}

/-- Reads a byte string of one length from an item. -/
def ofRlp? (item : Bytes) : Option (FixedBytes n) := payload? item >>= ofList?

theorem canonical : Canonical (ofRlp? (n := n)) (fun a => encodeBytes a.toList) isPlain := by
  refine canonical_payload.through ?_ fun _ => .bytes _
  intro item a read
  obtain ⟨bytes, payload, fixed⟩ := Option.bind_eq_some_iff.1 read
  exact ⟨bytes, payload, by rw [ofList?_eq_some_iff.1 fixed]⟩

theorem ofRlp?_encodeBytes (a : FixedBytes n) (short : (encodeBytes a.toList).length < 2 ^ 64) :
    ofRlp? (encodeBytes a.toList) = some a := by
  rw [ofRlp?, payload?_encodeBytes (Nat.lt_of_le_of_lt (length_le_encodeBytes _) short)]
  exact ofList?_toList a

/-- Whether a set of byte strings of one length stands as it is written. -/
def isCanonicalSet (n : Nat) : Bytes → Bool := isOrderedListOf (ofRlp? (n := n)) isPlain compare

theorem canonical_set :
    Canonical (fun item => (listOf? (ofRlp? (n := n)) item).map OrderedSet.ofList)
    (fun s => encodeList (s.toList.map fun a => encodeBytes a.toList)) (isCanonicalSet n) :=
  canonical.collected ofRlp?_encodeBytes fun _ => OrderedSet.toList_ofList_iff

end FixedBytes

namespace PublicKey

/-- Whether the 33-byte form of a key stands as it is written. -/
def isCanonical (item : Bytes) : Bool := isPlain item && item.length = 34

theorem length_of_length_encodeBytes {bytes : Bytes} (length : (encodeBytes bytes).length = 34) :
    bytes.length = 33 := by
  rcases encodeBytes_eq bytes with ⟨b, rfl, _, written⟩ | ⟨_, written⟩
  · rw [written] at length
    cases length
  · rw [written, List.length_append] at length
    have short : bytes.length ≤ 55 := by omega
    rw [header, if_pos short, List.length_singleton] at length
    omega

theorem canonical : Canonical ofRlp? toRlp isCanonical where
  written key := .bytes _
  write_eq_iff {item key} short read := by
    obtain ⟨bytes, payload, point⟩ := Option.bind_eq_some_iff.1 read
    rw [isCanonical, Bool.and_eq_true, decide_eq_true_iff]
    constructor
    · rintro rfl
      exact ⟨isPlain_encodeBytes (by simp), length_toRlp key⟩
    · rintro ⟨plain, length⟩
      obtain ⟨bytes', payload', rfl⟩ := isPlain_iff.1 plain
      cases payload.symm.trans payload'
      rw [toRlp, compressed_of_ofBytes? (length_of_length_encodeBytes length) point]

end PublicKey

namespace Member

/-- Whether a member stands as it is written. -/
def isCanonical : Bytes → Bool := isListOf PublicKey.isCanonical

theorem canonical : Canonical ofRlp? toRlp isCanonical where
  written m := .list _
  write_eq_iff {item m} short read := by
    obtain ⟨parts, list, fields⟩ := Option.bind_eq_some_iff.1 read
    split at fields
    · next btc chain mst =>
      obtain ⟨x, readBtc, fields⟩ := Option.bind_eq_some_iff.1 fields
      obtain ⟨y, readChain, fields⟩ := Option.bind_eq_some_iff.1 fields
      obtain ⟨z, readMst, fields⟩ := Option.bind_eq_some_iff.1 fields
      cases fields
      rw [isCanonical, isListOf, Bool.and_eq_true, items_eq_of_list? list]
      refine encodeList_eq_iff short list ?_ ?_
      · simp [PublicKey.canonical.written]
      · intro lengths
        simp only [List.forall_mem_cons] at lengths
        obtain ⟨first, second, third, -⟩ := lengths
        have btc := PublicKey.canonical.write_eq_iff first readBtc
        have chain := PublicKey.canonical.write_eq_iff second readChain
        have mst := PublicKey.canonical.write_eq_iff third readMst
        simp [btc, chain, mst]
    · cases fields

theorem canonical_set : Canonical (fun item => (listOf? ofRlp? item).map OrderedSet.ofList)
    (fun s => encodeList (s.toList.map toRlp)) (isOrderedListOf ofRlp? isCanonical compare) :=
  canonical.collected (fun m _ => ofRlp?_toRlp m) fun _ => OrderedSet.toList_ofList_iff

end Member

/-- A pending federation stands as it is written if its members do. -/
theorem PendingFederation.canonical :
    Canonical ofRlp? toRlp (isListOf Member.isCanonical) := by
  refine Member.canonical.listOf.through ?_ fun _ => .list _
  intro item p read
  obtain ⟨members, list, rfl⟩ := Option.map_eq_some_iff.1 read
  exact ⟨members, list, rfl⟩

namespace Utxo

/-- Whether an unspent output stands as it is written. -/
def isCanonical : Bytes → Bool := isListOf isPlain

theorem canonical : Canonical ofRlp? toRlp isCanonical where
  written u := .list _
  write_eq_iff {item u} short read := by
    obtain ⟨parts, list, fields⟩ := Option.bind_eq_some_iff.1 read
    split at fields
    · next txid vout value height script =>
      obtain ⟨id, readId, fields⟩ := Option.bind_eq_some_iff.1 fields
      obtain ⟨index, readVout, fields⟩ := Option.bind_eq_some_iff.1 fields
      obtain ⟨satoshis, readValue, fields⟩ := Option.bind_eq_some_iff.1 fields
      obtain ⟨block, readHeight, fields⟩ := Option.bind_eq_some_iff.1 fields
      obtain ⟨program, readScript, fields⟩ := Option.bind_eq_some_iff.1 fields
      cases fields
      rw [isCanonical, isListOf, Bool.and_eq_true, items_eq_of_list? list]
      refine encodeList_eq_iff short list ?_ ?_
      · simp [Written.bytes, encodeNat]
      · intro lengths
        simp only [List.forall_mem_cons] at lengths
        obtain ⟨first, second, third, fourth, fifth, -⟩ := lengths
        have txid := FixedBytes.canonical.write_eq_iff first readId
        have vout := canonical_uint32.write_eq_iff second readVout
        have value := canonical_uint64.write_eq_iff third readValue
        have height := canonical_uint32.write_eq_iff fourth readHeight
        have script := canonical_bytes.write_eq_iff fifth readScript
        simp [txid, vout, value, height, script]
    · cases fields

end Utxo

namespace CallSpec

/-- Whether a call stands as it is written. Of more than two items the reader passes some over. -/
def isCanonical (item : Bytes) : Bool :=
  isWhole item && match items item with
    | [function, arguments] => isPlain function && isListOf isPlain arguments
    | _ => false

theorem canonical : Canonical ofRlp? toRlp isCanonical where
  written spec := .list _
  write_eq_iff {item spec} short read := by
    obtain ⟨parts, list, fields⟩ := Option.bind_eq_some_iff.1 read
    split at fields
    · next function arguments passedOver =>
      obtain ⟨text, readFunction, fields⟩ := Option.bind_eq_some_iff.1 fields
      obtain ⟨values, readArguments, fields⟩ := Option.bind_eq_some_iff.1 fields
      cases fields
      rw [isCanonical, Bool.and_eq_true, items_eq_of_list? list]
      refine encodeList_eq_iff short list ?_ ?_
      · simp [Written.bytes, Written.list]
      · intro lengths
        simp only [List.forall_mem_cons] at lengths
        obtain ⟨first, second, -⟩ := lengths
        have function := canonical_text.write_eq_iff first readFunction
        have arguments := canonical_bytes.listOf.write_eq_iff second readArguments
        cases passedOver with
        | nil => simp [function, arguments]
        | cons => simp
    · cases fields

end CallSpec

namespace Votes

/-- Whether the votes for a call stand as they are written, the voters in order. -/
def isCanonicalEntry (item : Bytes) : Bool :=
  isWhole item && match items item with
    | [spec, voters] =>
      CallSpec.isCanonical spec && FixedBytes.isCanonicalSet 20 voters
    | _ => false

theorem canonical_entry : Canonical entryOfRlp? entryToRlp isCanonicalEntry where
  written entry := .list _
  write_eq_iff {item entry} short read := by
    obtain ⟨parts, list, fields⟩ := Option.bind_eq_some_iff.1 read
    split at fields
    · next spec voters passedOver =>
      obtain ⟨call, readSpec, fields⟩ := Option.bind_eq_some_iff.1 fields
      obtain ⟨accounts, readVoters, fields⟩ := Option.bind_eq_some_iff.1 fields
      cases fields
      rw [isCanonicalEntry, Bool.and_eq_true, items_eq_of_list? list]
      refine encodeList_eq_iff short list ?_ ?_
      · simp [CallSpec.canonical.written, Written.list]
      · intro lengths
        simp only [List.forall_mem_cons] at lengths
        obtain ⟨first, second, -⟩ := lengths
        have spec := CallSpec.canonical.write_eq_iff first readSpec
        have voters := FixedBytes.canonical_set.write_eq_iff second
          (congrArg (Option.map OrderedSet.ofList) readVoters)
        cases passedOver with
        | nil => simp [spec, voters]
        | cons => simp
    · cases fields

/-- Whether votes stand as they are written, the calls in order. -/
def isCanonical : Bytes → Bool :=
  isOrderedListOf entryOfRlp? isCanonicalEntry fun a b => compare a.1 b.1

theorem canonical : Canonical ofRlp? toRlp isCanonical :=
  canonical_entry.collected (fun _ short => (entryOfRlp?_entryToRlp short).2)
    fun _ => OrderedMap.entries_ofList_iff

end Votes

namespace WaitingPegout

/-- Whether a transaction that waits stands as it is written. Of more than two items the reader
    passes some over. -/
def isCanonical (item : Bytes) : Bool := isListOf isPlain item && (items item).length = 2

theorem canonical : Canonical ofRlp? toRlp isCanonical where
  written p := .list _
  write_eq_iff {item p} short read := by
    obtain ⟨parts, list, fields⟩ := Option.bind_eq_some_iff.1 read
    split at fields
    · next created transaction passedOver =>
      obtain ⟨block, readCreated, fields⟩ := Option.bind_eq_some_iff.1 fields
      obtain ⟨t, readTransaction, fields⟩ := Option.bind_eq_some_iff.1 fields
      cases fields
      rw [isCanonical, isListOf, Bool.and_assoc, Bool.and_eq_true, items_eq_of_list? list]
      refine encodeList_eq_iff short list ?_ ?_
      · simp [Written.bytes, encodeNat]
      · intro lengths
        simp only [List.forall_mem_cons] at lengths
        obtain ⟨first, second, -⟩ := lengths
        have created := canonical_uint64.write_eq_iff first readCreated
        have transaction := canonical_transaction.write_eq_iff second readTransaction
        cases passedOver with
        | nil => simp [created, transaction]
        | cons => simp
    · cases fields

end WaitingPegout

namespace Federation

/-- Whether a federation stands as it is written: the members in order, and no emergency keys and
    no delay for a script that has none. -/
def isCanonical (bytes : Bytes) : Bool :=
  isWhole bytes && match items bytes with
    | [members, time, block, tag, keys, delay] =>
      isOrderedListOf Member.ofRlp? Member.isCanonical compare members && isPlain time &&
        isPlain block && isPlain tag && isListOf PublicKey.isCanonical keys && isPlain delay &&
        (tag ≠ encodeNat 0 || keys = encodeList [] && delay = encodeNat 0)
    | _ => false

/-- The form of the script stands as it is written if its parts do, and if there are no emergency
    keys and no delay where they are read and passed over. -/
theorem kind_eq_iff {tag keys delay : Bytes} {number : Nat} {recovery : Recovery}
    {kind : FederationKind} (tagShort : tag.length < 2 ^ 64) (keysShort : keys.length < 2 ^ 64)
    (delayShort : delay.length < 2 ^ 64) (readTag : nat? 1 tag = some number)
    (readKeys : listOf? PublicKey.ofRlp? keys = some recovery.keys)
    (readDelay : uint64? delay = some recovery.delay)
    (readKind : kindOfTag? number recovery = some kind) :
    encodeNat kind.tag = tag ∧ encodeList (kind.recoveryKeys.map PublicKey.toRlp) = keys ∧
        encodeNat (kind.delay?.getD 0).toNat = delay ↔
      isPlain tag = true ∧ isListOf PublicKey.isCanonical keys = true ∧ isPlain delay = true ∧
        (tag ≠ encodeNat 0 ∨ keys = encodeList [] ∧ delay = encodeNat 0) := by
  have sameTag := (canonical_nat 1).write_eq_iff tagShort readTag
  have sameKeys := PublicKey.canonical.listOf.write_eq_iff keysShort readKeys
  have sameDelay := canonical_uint64.write_eq_iff delayShort readDelay
  rcases of_kindOfTag? readKind with ⟨rfl, rfl⟩ | ⟨nonzero, rfl, ownKeys, ownDelay⟩
  · have zero : isPlain (encodeNat 0) = true :=
      isPlain_encodeBytes (by simp [Bytes.minimalBE, Bytes.minimalLE])
    constructor
    · rintro ⟨rfl, rfl, rfl⟩
      exact ⟨zero, by decide, zero, .inr ⟨rfl, rfl⟩⟩
    · rintro ⟨plain, _, _, without⟩
      have written : encodeNat 0 = tag := sameTag.2 plain
      obtain ⟨rfl, rfl⟩ := without.resolve_left (not_not_intro written.symm)
      exact ⟨written, rfl, rfl⟩
  · have tagged : tag ≠ encodeNat 0 := by
      rintro rfl
      have zero : nat? 1 (encodeNat 0) = some 0 := nat?_encodeNat (by decide) (by decide)
      exact nonzero (Option.some.inj (readTag.symm.trans zero))
    rw [ownKeys, ownDelay, Option.getD_some, sameTag, sameKeys, sameDelay]
    simp [tagged]

theorem toRlp_eq_iff {bytes : Bytes} {stored : Stored} {network : Network} {f : Federation}
    (short : bytes.length < 2 ^ 64) (read : Stored.ofRlp? bytes = some stored)
    (built : stored.build network = .ok f) : f.toRlp = bytes ↔ isCanonical bytes = true := by
  obtain ⟨parts, list, fields⟩ := Option.bind_eq_some_iff.1 read
  split at fields
  · next members time block tag keys delay =>
    obtain ⟨l, readMembers, fields⟩ := Option.bind_eq_some_iff.1 fields
    obtain ⟨creationTime, readTime, fields⟩ := Option.bind_eq_some_iff.1 fields
    obtain ⟨creationBlock, readBlock, fields⟩ := Option.bind_eq_some_iff.1 fields
    obtain ⟨number, readTag, fields⟩ := Option.bind_eq_some_iff.1 fields
    obtain ⟨recoveryKeys, readKeys, fields⟩ := Option.bind_eq_some_iff.1 fields
    obtain ⟨activationDelay, readDelay, fields⟩ := Option.bind_eq_some_iff.1 fields
    obtain ⟨kind, readKind, fields⟩ := Option.bind_eq_some_iff.1 fields
    cases fields
    obtain ⟨ordered, rfl, rfl, -, rfl⟩ := parts_of_ofMembers built
    rw [isCanonical, Bool.and_eq_true, items_eq_of_list? list]
    refine encodeList_eq_iff short list ?_ ?_
    · simp [Written.bytes, Written.list, encodeNat]
    · intro lengths
      simp only [List.forall_mem_cons] at lengths
      obtain ⟨first, second, third, fourth, fifth, sixth, -⟩ := lengths
      have members := Member.canonical_set.write_eq_iff first
        (congrArg (Option.map OrderedSet.ofList) readMembers)
      rw [← ordered] at members
      have time := canonical_uint64.write_eq_iff second readTime
      have block := canonical_uint64.write_eq_iff third readBlock
      have kind := kind_eq_iff fourth fifth sixth readTag readKeys readDelay readKind
      simp [Federation.members, members, time, block, kind, and_assoc]
  · cases fields

end Federation

end TwoWayPeg
