import TwoWayPeg.Proofs.Decoding
import TwoWayPeg.Proofs.Rlp

/-!
# Reading back the stored parts of a state

Each part of a state is read from its stored form as it was. The network of a federation is not
stored: it is the one that the reader names.
-/

namespace TwoWayPeg

theorem Bytes.toText?_ofText (text : String) : toText? (ofText text) = some text :=
  dif_pos text.isValidUTF8

theorem Bytes.ofText_of_toText? {bytes : Bytes} {text : String} (read : toText? bytes = some text) :
    ofText text = bytes := by
  unfold toText? String.fromUTF8? at read
  split at read
  · cases read
    rfl
  · cases read

open Rlp

namespace PublicKey

theorem ofBytes?_compressed (key : PublicKey) : ofBytes? key.compressed = some key := by
  have below : key.x < Bytes.capacity 32 := Nat.lt_trans key.x_lt (by decide)
  have coordinate : Bytes.toNatBE (Bytes.bigEndian 32 key.x) = key.x := by
    rw [Bytes.toNatBE_bigEndian, Nat.mod_eq_of_lt below]
  have point (odd : Bool) (same : key.odd = odd) : ofX? key.x odd = some key := by
    rw [ofX?, dif_pos key.onCurve]
    cases key
    cases same
    rfl
  rw [compressed, ofBytes?, if_pos (by simp), coordinate]
  cases parity : key.odd with
  | false => simpa using point false parity
  | true => simpa using point true parity

theorem compressed_of_ofX? {x : Nat} {odd : Bool} {key : PublicKey}
    (point : ofX? x odd = some key) :
    key.compressed = (if odd then 0x03 else 0x02) :: Bytes.bigEndian 32 x := by
  unfold ofX? at point
  split at point
  · cases point
    rfl
  · cases point

/-- A key that is read from 33 bytes is written as they are. -/
theorem compressed_of_ofBytes? {bytes : Bytes} {key : PublicKey} (length : bytes.length = 33)
    (read : ofBytes? bytes = some key) : key.compressed = bytes := by
  cases bytes with
  | nil => cases length
  | cons form rest =>
    have coordinate : rest.length = 32 := Nat.succ.inj length
    have digits : Bytes.bigEndian 32 (Bytes.toNatBE rest) = rest := by
      rw [← coordinate, Bytes.bigEndian_toNatBE]
    rw [ofBytes?, if_pos coordinate] at read
    split at read
    · next even =>
      rw [compressed_of_ofX? read, digits, even]
      rfl
    split at read
    · next odd =>
      rw [compressed_of_ofX? read, digits, odd]
      rfl
    · cases read

theorem isItem_toRlp (key : PublicKey) : IsItem key.toRlp := isItem_encodeBytes (by simp)

theorem ofRlp?_toRlp (key : PublicKey) : ofRlp? key.toRlp = some key := by
  rw [ofRlp?, toRlp, payload?_encodeBytes (by simp)]
  exact ofBytes?_compressed key

theorem length_toRlp (key : PublicKey) : key.toRlp.length = 34 := by
  have size := key.length_compressed
  rcases encodeBytes_eq key.compressed with ⟨b, single, _⟩ | ⟨_, written⟩
  · rw [single] at size
    cases size
  · rw [toRlp, written, List.length_append, size]
    rfl

end PublicKey

namespace Member

theorem length_flatten_keys (m : Member) :
    [m.btc.toRlp, m.chain.toRlp, m.mst.toRlp].flatten.length = 102 := by
  simp [PublicKey.length_toRlp]

theorem isItem_toRlp (m : Member) : IsItem m.toRlp := by
  apply isItem_encodeList
  rw [length_flatten_keys]
  decide

theorem ofRlp?_toRlp (m : Member) : ofRlp? m.toRlp = some m := by
  have items : list? m.toRlp = some [m.btc.toRlp, m.chain.toRlp, m.mst.toRlp] := by
    apply list?_encodeList
    · simp [PublicKey.isItem_toRlp]
    · rw [length_flatten_keys]
      decide
  rw [ofRlp?, items]
  simp [PublicKey.ofRlp?_toRlp]

theorem listOf?_toRlp {l : List Member} (fits : (encodeList (l.map toRlp)).length < 2 ^ 64) :
    listOf? ofRlp? (encodeList (l.map toRlp)) = some l :=
  listOf?_encodeList (fun m _ => ⟨isItem_toRlp m, ofRlp?_toRlp m⟩)
    (Nat.lt_of_le_of_lt (length_flatten_le_encodeList _) fits)

end Member

namespace Federation

/-- The federation with another network. -/
def withNetwork (f : Federation) (network : Network) : Federation := { f with network }

@[simp] theorem redeemScript_withNetwork (f : Federation) (network : Network) :
    (f.withNetwork network).redeemScript = f.redeemScript := rfl

@[simp] theorem creationBlock_withNetwork (f : Federation) (network : Network) :
    (f.withNetwork network).creationBlock = f.creationBlock := rfl

/-- The members of a federation are those of the federation. -/
theorem ofMembers_members (f : Federation) (network : Network) :
    ofMembers f.members f.creationTime f.creationBlock network f.kind =
      .ok (f.withNetwork network) := by
  have same : OrderedSet.ofList f.members = f.memberSet := OrderedSet.ofList_toList f.memberSet
  unfold ofMembers
  simp only [same]
  rw [dif_pos f.nonempty, dif_pos f.delay_writable, dif_pos f.script_fits]
  rfl

/-- The parts of the federation of a list of members. -/
theorem parts_of_ofMembers {members : List Member} {time block : UInt64} {network : Network}
    {kind : FederationKind} {f : Federation}
    (built : ofMembers members time block network kind = .ok f) :
    f.memberSet = OrderedSet.ofList members ∧ f.creationTime = time ∧ f.creationBlock = block ∧
      f.network = network ∧ f.kind = kind := by
  unfold ofMembers at built
  dsimp only at built
  repeat' split at built
  all_goals cases built
  exact ⟨rfl, rfl, rfl, rfl, rfl⟩

theorem kindOfTag?_tag (kind : FederationKind) :
    kindOfTag? kind.tag ⟨kind.recoveryKeys, kind.delay?.getD 0⟩ = some kind := by
  cases kind <;> rfl

theorem of_kindOfTag? {tag : Nat} {recovery : Recovery} {kind : FederationKind}
    (read : kindOfTag? tag recovery = some kind) :
    tag = 0 ∧ kind = .standard ∨
      tag ≠ 0 ∧ kind.tag = tag ∧ kind.recoveryKeys = recovery.keys ∧
        kind.delay? = some recovery.delay := by
  unfold kindOfTag? at read
  split at read <;> cases read
  · exact .inl ⟨rfl, rfl⟩
  · exact .inr ⟨by decide, rfl, rfl, rfl⟩
  · exact .inr ⟨by decide, rfl, rfl, rfl⟩

/-- The stored form of a federation says what the federation is, its network apart. -/
theorem ofRlp?_toRlp {f : Federation} (fits : f.toRlp.length < 2 ^ 64) :
    Stored.ofRlp? f.toRlp =
      some ⟨f.members, f.creationTime, f.creationBlock, f.kind⟩ := by
  have part (item : Bytes) (member : item ∈ [
      encodeList (f.members.map Member.toRlp), encodeNat f.creationTime.toNat,
      encodeNat f.creationBlock.toNat, encodeNat f.kind.tag,
      encodeList (f.kind.recoveryKeys.map PublicKey.toRlp),
      encodeNat (f.kind.delay?.getD 0).toNat]) : item.length < 2 ^ 64 :=
    Nat.lt_of_le_of_lt (length_le_encodeList member) fits
  have members := part (encodeList (f.members.map Member.toRlp)) (by simp)
  have keys := part (encodeList (f.kind.recoveryKeys.map PublicKey.toRlp)) (by simp)
  have tag : f.kind.tag < 256 := by cases f.kind <;> simp [FederationKind.tag]
  have items : list? f.toRlp = some [
      encodeList (f.members.map Member.toRlp), encodeNat f.creationTime.toNat,
      encodeNat f.creationBlock.toNat, encodeNat f.kind.tag,
      encodeList (f.kind.recoveryKeys.map PublicKey.toRlp),
      encodeNat (f.kind.delay?.getD 0).toNat] := by
    apply list?_encodeList _ (Nat.lt_of_le_of_lt (length_flatten_le_encodeList _) fits)
    have list {l : List Bytes} (fits : (encodeList l).length < 2 ^ 64) : IsItem (encodeList l) :=
      isItem_encodeList (Nat.lt_of_le_of_lt (length_flatten_le_encodeList _) fits)
    have number (n : UInt64) : IsItem (encodeNat n.toNat) := isItem_encodeNat n.toNat_lt
    simp only [List.forall_mem_cons]
    exact ⟨list members, number _, number _, isItem_encodeNat (by omega), list keys, number _,
      by simp⟩
  have readTag : nat? 1 (encodeNat f.kind.tag) = some f.kind.tag :=
    nat?_encodeNat (by decide) tag
  have readKeys : listOf? PublicKey.ofRlp? (encodeList (f.kind.recoveryKeys.map PublicKey.toRlp)) =
      some f.kind.recoveryKeys :=
    listOf?_encodeList (fun key _ => ⟨PublicKey.isItem_toRlp key, PublicKey.ofRlp?_toRlp key⟩)
      (Nat.lt_of_le_of_lt (length_flatten_le_encodeList _) keys)
  rw [Stored.ofRlp?, items]
  simp [Member.listOf?_toRlp members, uint64?_encodeNat, readTag, readKeys, kindOfTag?_tag]

end Federation

namespace PendingFederation

theorem ofRlp?_toRlp {p : PendingFederation} (fits : p.toRlp.length < 2 ^ 64) :
    ofRlp? p.toRlp = some p := by
  rw [ofRlp?, toRlp, Member.listOf?_toRlp fits]
  rfl

end PendingFederation

namespace Utxo

theorem ofRlp?_toRlp {u : Utxo} (fits : u.toRlp.length < 2 ^ 64) :
    IsItem u.toRlp ∧ ofRlp? u.toRlp = some u := by
  have txid : u.outpoint.txid.toList.length < 2 ^ 64 := by
    rw [u.outpoint.txid.length_eq]
    decide
  have script : u.scriptPubkey.length < 2 ^ 64 :=
    Nat.lt_of_le_of_lt (length_le_encodeBytes _)
      (Nat.lt_of_le_of_lt (length_le_encodeList (by simp)) fits)
  have whole := Nat.lt_of_le_of_lt (length_flatten_le_encodeList _) fits
  refine ⟨isItem_encodeList whole, ?_⟩
  have items : list? u.toRlp = some [
      encodeBytes u.outpoint.txid.toList, encodeNat u.outpoint.vout.toNat,
      encodeNat u.value.toNat, encodeNat u.height.toNat, encodeBytes u.scriptPubkey] := by
    apply list?_encodeList _ whole
    have vout := u.outpoint.vout.toNat_lt
    have height := u.height.toNat_lt
    simp only [List.forall_mem_cons]
    exact ⟨isItem_encodeBytes txid, isItem_encodeNat (by omega), isItem_encodeNat u.value.toNat_lt,
      isItem_encodeNat (by omega), isItem_encodeBytes script, by simp⟩
  rw [ofRlp?, items]
  simp [payload?_encodeBytes txid, uint32?_encodeNat, uint64?_encodeNat, bytes?_encodeBytes script]

theorem listOf?_toRlp {l : List Utxo} (fits : (encodeList (l.map toRlp)).length < 2 ^ 64) :
    listOf? ofRlp? (encodeList (l.map toRlp)) = some l := by
  apply listOf?_encodeList _ (Nat.lt_of_le_of_lt (length_flatten_le_encodeList _) fits)
  intro u member
  exact ofRlp?_toRlp
    (Nat.lt_of_le_of_lt (length_le_encodeList (List.mem_map_of_mem member)) fits)

end Utxo

theorem CallSpec.ofRlp?_toRlp {spec : CallSpec} (fits : spec.toRlp.length < 2 ^ 64) :
    IsItem spec.toRlp ∧ CallSpec.ofRlp? spec.toRlp = some spec := by
  have function : (Bytes.ofText spec.function).length < 2 ^ 64 :=
    Nat.lt_of_le_of_lt (length_le_encodeBytes _)
      (Nat.lt_of_le_of_lt (length_le_encodeList (by simp)) fits)
  have arguments : (encodeList (spec.arguments.map encodeBytes)).length < 2 ^ 64 :=
    Nat.lt_of_le_of_lt (length_le_encodeList (by simp)) fits
  have whole := Nat.lt_of_le_of_lt (length_flatten_le_encodeList _) fits
  have inside := Nat.lt_of_le_of_lt (length_flatten_le_encodeList _) arguments
  refine ⟨isItem_encodeList whole, ?_⟩
  have items : list? spec.toRlp = some [
      encodeBytes (Bytes.ofText spec.function), encodeList (spec.arguments.map encodeBytes)] := by
    apply list?_encodeList _ whole
    simp only [List.forall_mem_cons]
    exact ⟨isItem_encodeBytes function, isItem_encodeList inside, by simp⟩
  have read : listOf? bytes? (encodeList (spec.arguments.map encodeBytes)) =
      some spec.arguments := by
    apply listOf?_encodeList _ inside
    intro argument member
    have short : argument.length < 2 ^ 64 :=
      Nat.lt_of_le_of_lt (length_le_encodeBytes argument)
        (Nat.lt_of_le_of_lt (length_le_encodeList (List.mem_map_of_mem member)) arguments)
    exact ⟨isItem_encodeBytes short, bytes?_encodeBytes short⟩
  rw [CallSpec.ofRlp?, items]
  simp [bytes?_encodeBytes function, Bytes.toText?_ofText, read]

/-- Byte strings of one length that were written one after another are read as they were. -/
theorem FixedBytes.listOf?_encodeList {n : Nat} (short : n < 2 ^ 64) {l : List (FixedBytes n)}
    (fits : (encodeList (l.map fun a => encodeBytes a.toList)).length < 2 ^ 64) :
    listOf? (fun item => payload? item >>= FixedBytes.ofList?)
      (encodeList (l.map fun a => encodeBytes a.toList)) = some l := by
  apply Rlp.listOf?_encodeList _ (Nat.lt_of_le_of_lt (length_flatten_le_encodeList _) fits)
  intro a _
  have length : a.toList.length < 2 ^ 64 := by
    rw [a.length_eq]
    exact short
  refine ⟨isItem_encodeBytes length, ?_⟩
  rw [payload?_encodeBytes length]
  exact ofList?_toList a

namespace Votes

theorem entryOfRlp?_entryToRlp {entry : CallSpec × OrderedSet ChainAddress}
    (fits : (entryToRlp entry).length < 2 ^ 64) :
    IsItem (entryToRlp entry) ∧ entryOfRlp? (entryToRlp entry) = some entry := by
  have spec : entry.1.toRlp.length < 2 ^ 64 :=
    Nat.lt_of_le_of_lt (length_le_encodeList (by simp)) fits
  have voters : (encodeList (entry.2.toList.map fun voter => encodeBytes voter.toList)).length
      < 2 ^ 64 :=
    Nat.lt_of_le_of_lt (length_le_encodeList (by simp)) fits
  have whole := Nat.lt_of_le_of_lt (length_flatten_le_encodeList _) fits
  have call := CallSpec.ofRlp?_toRlp spec
  refine ⟨isItem_encodeList whole, ?_⟩
  have items : list? (entryToRlp entry) = some [
      entry.1.toRlp, encodeList (entry.2.toList.map fun voter => encodeBytes voter.toList)] := by
    apply list?_encodeList _ whole
    simp only [List.forall_mem_cons]
    exact ⟨call.1,
      isItem_encodeList (Nat.lt_of_le_of_lt (length_flatten_le_encodeList _) voters), by simp⟩
  have read := FixedBytes.listOf?_encodeList (by decide) voters
  simp only [Option.bind_eq_bind] at read
  rw [entryOfRlp?, items]
  simp [call.2, read]

theorem ofRlp?_toRlp {votes : Votes} (fits : (toRlp votes).length < 2 ^ 64) :
    ofRlp? (toRlp votes) = some votes := by
  have read : listOf? entryOfRlp? (toRlp votes) = some votes.entries := by
    apply listOf?_encodeList _ (Nat.lt_of_le_of_lt (length_flatten_le_encodeList _) fits)
    intro entry member
    exact entryOfRlp?_entryToRlp
      (Nat.lt_of_le_of_lt (length_le_encodeList (List.mem_map_of_mem member)) fits)
  rw [ofRlp?, read, Option.map_some, OrderedMap.ofList_entries]

end Votes

namespace WaitingPegout

theorem ofRlp?_toRlp {p : WaitingPegout} (fits : p.toRlp.length < 2 ^ 64)
    (witnesses : ∀ i ∈ p.transaction.inputs, i.WitnessFits) :
    IsItem p.toRlp ∧ ofRlp? p.toRlp = some p := by
  have transaction : p.transaction.encode.length < 2 ^ 64 :=
    Nat.lt_of_le_of_lt (length_le_encodeBytes _)
      (Nat.lt_of_le_of_lt (length_le_encodeList (by simp)) fits)
  have sendable := Transaction.sendable_of_length transaction witnesses
  have whole := Nat.lt_of_le_of_lt (length_flatten_le_encodeList _) fits
  refine ⟨isItem_encodeList whole, ?_⟩
  have items : list? p.toRlp =
      some [encodeNat p.created.toNat, encodeBytes p.transaction.encode] := by
    apply list?_encodeList _ whole
    simp only [List.forall_mem_cons]
    exact ⟨isItem_encodeNat p.created.toNat_lt, isItem_encodeBytes transaction, by simp⟩
  rw [ofRlp?, items]
  simp [uint64?_encodeNat, payload?_encodeBytes transaction, sendable.decode?_encode]

theorem listOf?_toRlp {l : List WaitingPegout} (fits : (encodeList (l.map toRlp)).length < 2 ^ 64)
    (witnesses : ∀ p ∈ l, ∀ i ∈ p.transaction.inputs, i.WitnessFits) :
    listOf? ofRlp? (encodeList (l.map toRlp)) = some l := by
  apply listOf?_encodeList _ (Nat.lt_of_le_of_lt (length_flatten_le_encodeList _) fits)
  intro p member
  exact ofRlp?_toRlp (Nat.lt_of_le_of_lt (length_le_encodeList (List.mem_map_of_mem member)) fits)
    (witnesses p member)

end WaitingPegout

theorem sighashesOfRlp?_toRlp {hashes : OrderedSet Hash256}
    (fits : (sighashesToRlp hashes).length < 2 ^ 64) :
    sighashesOfRlp? (sighashesToRlp hashes) = some hashes := by
  have read : listOf? (fun hash => payload? hash >>= FixedBytes.ofList?)
      (sighashesToRlp hashes) = some hashes.toList :=
    FixedBytes.listOf?_encodeList (by decide) fits
  rw [sighashesOfRlp?, read, Option.map_some, OrderedSet.ofList_toList]

end TwoWayPeg
