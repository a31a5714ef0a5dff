import TwoWayPeg.Rlp.Reader
import TwoWayPeg.Rlp.Writer
import TwoWayPeg.State
import TwoWayPeg.Transaction.Decoding

/-!
The stored form of each part of the state, in the recursive length-prefix format. Lists are written
in their order, and sets and maps in increasing order, so that a state has one stored form.
-/

namespace TwoWayPeg

/-- The values of the items of a list, each read by `item?`. -/
def Rlp.listOf? {α : Type} (item? : Bytes → Option α) (bytes : Bytes) : Option (List α) := do
  let items ← Rlp.list? bytes
  items.mapM item?

/-- A 64-bit number read from an item. -/
def Rlp.uint64? (item : Bytes) : Option UInt64 := (Rlp.nat? 8 item).map UInt64.ofNat

/-- A 32-bit number read from an item. -/
def Rlp.uint32? (item : Bytes) : Option UInt32 := (Rlp.nat? 4 item).map UInt32.ofNat

namespace PublicKey

/-- The stored form of a key. -/
def toRlp (key : PublicKey) : Bytes := Rlp.encodeBytes key.compressed

/-- Reads a key from an item. -/
def ofRlp? (item : Bytes) : Option PublicKey := Rlp.payload? item >>= PublicKey.ofBytes?

end PublicKey

namespace Member

/-- The stored form of a member. -/
def toRlp (m : Member) : Bytes := Rlp.encodeList [m.btc.toRlp, m.chain.toRlp, m.mst.toRlp]

/-- Reads a member from an item. -/
def ofRlp? (item : Bytes) : Option Member := do
  match ← Rlp.list? item with
  | [btc, chain, mst] =>
    return ⟨← PublicKey.ofRlp? btc, ← PublicKey.ofRlp? chain, ← PublicKey.ofRlp? mst⟩
  | _ => none

end Member

namespace Federation

/-- The stored form of a federation; the network is not a part of it. -/
def toRlp (f : Federation) : Bytes :=
  Rlp.encodeList [
    Rlp.encodeList (f.members.map Member.toRlp),
    Rlp.encodeNat f.creationTime.toNat,
    Rlp.encodeNat f.creationBlock.toNat,
    Rlp.encodeNat f.kind.tag,
    Rlp.encodeList (f.kind.recoveryKeys.map PublicKey.toRlp),
    Rlp.encodeNat (f.kind.delay?.getD 0).toNat]

/-- What the stored form of a federation says. -/
structure Stored where
  members : List Member
  creationTime : UInt64
  creationBlock : UInt64
  kind : FederationKind

/-- The form of the script with a number. -/
def kindOfTag? (tag : Nat) (recovery : Recovery) : Option FederationKind :=
  match tag with
  | 0 => some .standard
  | 1 => some (.nonStandardErp recovery)
  | 2 => some (.p2shErp recovery)
  | _ => none

/-- Reads what the stored form of a federation says. -/
def Stored.ofRlp? (bytes : Bytes) : Option Stored := do
  match ← Rlp.list? bytes with
  | [members, time, block, tag, keys, delay] =>
    let members ← Rlp.listOf? Member.ofRlp? members
    let creationTime ← Rlp.uint64? time
    let creationBlock ← Rlp.uint64? block
    let tag ← Rlp.nat? 1 tag
    let keys ← Rlp.listOf? PublicKey.ofRlp? keys
    let delay ← Rlp.uint64? delay
    let kind ← kindOfTag? tag ⟨keys, delay⟩
    return { members, creationTime, creationBlock, kind }
  | _ => none

/-- The federation that a stored form describes. -/
def Stored.build (f : Stored) (network : Network) : Except PegError Federation :=
  Federation.ofMembers f.members f.creationTime f.creationBlock network f.kind

end Federation

namespace PendingFederation

/-- The stored form of a pending federation. -/
def toRlp (p : PendingFederation) : Bytes := Rlp.encodeList (p.members.map Member.toRlp)

/-- Reads a pending federation. -/
def ofRlp? (bytes : Bytes) : Option PendingFederation :=
  (Rlp.listOf? Member.ofRlp? bytes).map PendingFederation.mk

end PendingFederation

namespace Utxo

/-- The stored form of an unspent output. -/
def toRlp (u : Utxo) : Bytes :=
  Rlp.encodeList [
    Rlp.encodeBytes u.outpoint.txid.toList,
    Rlp.encodeNat u.outpoint.vout.toNat,
    Rlp.encodeNat u.value.toNat,
    Rlp.encodeNat u.height.toNat,
    Rlp.encodeBytes u.scriptPubkey]

/-- Reads an unspent output from an item. -/
def ofRlp? (item : Bytes) : Option Utxo := do
  match ← Rlp.list? item with
  | [txid, vout, value, height, script] =>
    let txid ← Rlp.payload? txid >>= FixedBytes.ofList?
    let vout ← Rlp.uint32? vout
    let value ← Rlp.uint64? value
    let height ← Rlp.uint32? height
    let scriptPubkey ← Rlp.bytes? script
    return { outpoint := { txid, vout }, value, height, scriptPubkey }
  | _ => none

end Utxo

namespace CallSpec

/-- The stored form of a call. -/
def toRlp (spec : CallSpec) : Bytes :=
  Rlp.encodeList [
    Rlp.encodeBytes (Bytes.ofText spec.function),
    Rlp.encodeList (spec.arguments.map Rlp.encodeBytes)]

/-- Reads a call from an item. Items after the second are passed over. -/
def ofRlp? (item : Bytes) : Option CallSpec := do
  match ← Rlp.list? item with
  | function :: arguments :: _ =>
    let function ← Rlp.bytes? function >>= Bytes.toText?
    let arguments ← Rlp.listOf? Rlp.bytes? arguments
    return { function, arguments }
  | _ => none

end CallSpec

namespace Votes

/-- The stored form of the votes for a call. -/
def entryToRlp (entry : CallSpec × OrderedSet ChainAddress) : Bytes :=
  Rlp.encodeList [
    entry.1.toRlp,
    Rlp.encodeList (entry.2.toList.map fun voter => Rlp.encodeBytes voter.toList)]

/-- The stored form of the votes of an election. -/
def toRlp (votes : Votes) : Bytes := Rlp.encodeList (votes.entries.map entryToRlp)

/-- Reads the votes for a call from an item. Items after the second are passed over. -/
def entryOfRlp? (item : Bytes) : Option (CallSpec × OrderedSet ChainAddress) := do
  match ← Rlp.list? item with
  | spec :: voters :: _ =>
    let spec ← CallSpec.ofRlp? spec
    let voters ← Rlp.listOf? (fun voter => Rlp.payload? voter >>= FixedBytes.ofList?) voters
    return (spec, OrderedSet.ofList voters)
  | _ => none

/-- Reads the votes of an election; of two entries for a call the later one counts. -/
def ofRlp? (bytes : Bytes) : Option Votes :=
  (Rlp.listOf? entryOfRlp? bytes).map OrderedMap.ofList

end Votes

namespace WaitingPegout

/-- The stored form of a transaction that waits to be signed. -/
def toRlp (p : WaitingPegout) : Bytes :=
  Rlp.encodeList [Rlp.encodeNat p.created.toNat, Rlp.encodeBytes p.transaction.encode]

/-- Reads a transaction that waits to be signed from an item. Items after the second are passed
    over. -/
def ofRlp? (item : Bytes) : Option WaitingPegout := do
  match ← Rlp.list? item with
  | created :: transaction :: _ =>
    let created ← Rlp.uint64? created
    let transaction ← Rlp.payload? transaction >>= Transaction.decode?
    return { created, transaction }
  | _ => none

end WaitingPegout

/-- The stored form of a set of hashes. -/
def sighashesToRlp (hashes : OrderedSet Hash256) : Bytes :=
  Rlp.encodeList (hashes.toList.map fun hash => Rlp.encodeBytes hash.toList)

/-- Reads a set of hashes. -/
def sighashesOfRlp? (bytes : Bytes) : Option (OrderedSet Hash256) :=
  (Rlp.listOf? (fun hash => Rlp.payload? hash >>= FixedBytes.ofList?) bytes).map
    OrderedSet.ofList

end TwoWayPeg
