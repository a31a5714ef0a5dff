import TwoWayPeg.Constants.Basic
import TwoWayPeg.Rlp.Writer

/-!
Federations that votes are assembling.
-/

namespace TwoWayPeg

/-- A federation that votes are assembling: its members in the order in which they were added. -/
structure PendingFederation where
  members : List Member := []
deriving DecidableEq, Inhabited

namespace PendingFederation

/-- The smallest federation that may be committed. -/
def minimumSize : Nat := 2

variable (p : PendingFederation)

/-- The number of members. -/
def size : Nat := p.members.length

/-- Whether the federation is large enough to be committed. -/
def isComplete : Bool := minimumSize ≤ p.size

/-- The federation with one more member. -/
def add (m : Member) : PendingFederation := ⟨p.members ++ [m]⟩

/-- Whether some member uses a key of `m` in the same role. -/
def conflictsWith (m : Member) : Bool := p.members.any (·.sharesKey m)

/-- The key of the member at an index. -/
def keyAt (index : UInt64) (role : KeyRole) : Except PegError PublicKey :=
  match p.members[index.toNat]? with
  | some m => .ok (m.key role)
  | none => .error (.memberIndex index p.size)

/-- The hash by which voters commit the federation: that of the list of the members' signing keys
    in the order of the members. -/
def hash : Hash256 :=
  keccak256 <| Rlp.encodeList <|
    (Ordered.sort p.members).map fun m => Rlp.encodeBytes m.btc.compressed

/-- The form of the script of a federation that is committed while the given rules are in
    force. -/
def kindFor (constants : Constants) (activations : Activations) : FederationKind :=
  if activations.p2shErpFederations then .p2shErp constants.recovery
  else if activations.erpFederations then .nonStandardErp constants.recovery
  else .standard

/-- The federation that is committed. -/
def build (creationTime creationBlock : UInt64) (constants : Constants)
    (activations : Activations) : Except PegError Federation :=
  Federation.ofMembers p.members creationTime creationBlock constants.network
    (kindFor constants activations)

end PendingFederation

end TwoWayPeg
