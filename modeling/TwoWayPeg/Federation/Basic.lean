import TwoWayPeg.Checked
import TwoWayPeg.Federation.RedeemScript
import TwoWayPeg.Ordered.Set

/-!
Federations: the members that guard outputs together, the script that they guard them with, and
the address of that script.
-/

namespace TwoWayPeg

/-- A federation. Its members are kept in order and without repetition, there is at least one,
    and its script can be written and paid to by its hash. -/
structure Federation where
  memberSet : OrderedSet Member
  /-- The time of the block that created it, in milliseconds. -/
  creationTime : UInt64
  creationBlock : UInt64
  network : Network
  kind : FederationKind
  nonempty : memberSet.toList ≠ []
  delay_writable : kind.delay? ≠ some RedeemScript.unwritableDelay
  script_fits :
    (RedeemScript.build (memberSet.toList.map Member.btc) kind).length ≤ RedeemScript.maxLength
deriving DecidableEq

namespace Federation

/-- The federation of a list of members, in any order and with any repetitions. -/
def ofMembers (members : List Member) (creationTime creationBlock : UInt64) (network : Network)
    (kind : FederationKind) : Except PegError Federation :=
  let memberSet := OrderedSet.ofList members
  if nonempty : memberSet.toList ≠ [] then
    if delay_writable : kind.delay? ≠ some RedeemScript.unwritableDelay then
      if script_fits : (RedeemScript.build (memberSet.toList.map Member.btc) kind).length
          ≤ RedeemScript.maxLength then
        .ok { memberSet, creationTime, creationBlock, network, kind, nonempty, delay_writable,
              script_fits }
      else .error (.address .scriptTooLong)
    else .error (.overflow .negate)
  else .error .emptyFederation

variable (f : Federation)

/-- The members in order. -/
def members : List Member := f.memberSet.toList

/-- The number of members. -/
def size : Nat := f.members.length

/-- The number of members that have to sign. -/
def threshold : Nat := majority f.size

/-- The members' signing keys, in the order of the members. -/
def btcKeys : List PublicKey := f.members.map Member.btc

/-- The script that guards the outputs of the federation. -/
def redeemScript : Script := RedeemScript.build f.btcKeys f.kind

/-- The script of the members alone, without any emergency branch. -/
def defaultRedeemScript : Script := RedeemScript.build f.btcKeys .standard

/-- The script of the outputs of the federation. -/
def p2shScript : Script := Script.toP2sh f.redeemScript

/-- The address of the federation. -/
def address : Address := Address.p2sh f.redeemScript f.network

/-- The key of the member at an index. -/
def keyAt (index : UInt64) (role : KeyRole) : Except PegError PublicKey :=
  match f.members[index.toNat]? with
  | some m => .ok (m.key role)
  | none => .error (.memberIndex index f.size)

/-- Whether a key signs for some member. -/
def hasBtcKey (key : PublicKey) : Bool := f.members.any (·.btc = key)

/-- Whether some member controls a host-chain account. -/
def hasChainAddress (address : ChainAddress) : Bool := f.members.any (·.chainAddress = address)

/-- The largest number of bytes that pushes a signature with its type byte. -/
def signaturePushSize : Nat := 74

/-- The number of bytes that push data of a length. -/
def pushSize (length : Nat) : Nat :=
  if length ≤ 75 then 1 + length
  else if length < 0x100 then 2 + length
  else if length < 0x10000 then 3 + length
  else 5 + length

/-- The size of the script that spends an output once fully signed: an empty item, the signatures,
    the choice of the members' branch and the push of the redeem script. -/
def scriptSigSizeEstimate : Nat :=
  1 + f.threshold * signaturePushSize + f.kind.selectorSize + pushSize f.redeemScript.length

/-- Whether two federations are the same custody: when they were created does not count. -/
def sameCustody (f g : Federation) : Bool :=
  f.network = g.network ∧ f.kind = g.kind ∧ f.memberSet = g.memberSet

end Federation

end TwoWayPeg
