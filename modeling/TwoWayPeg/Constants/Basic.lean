import TwoWayPeg.Activation
import TwoWayPeg.Election
import TwoWayPeg.Federation.Basic

/-!
The constants of a peg, and what follows from them alone.
-/

namespace TwoWayPeg

/-- The constants of a peg. -/
structure Constants where
  network : Network
  /-- The keys of the federation that is active before any vote. -/
  genesisKeys : List PublicKey
  /-- When the genesis federation was created, in milliseconds. -/
  genesisCreationTime : UInt64
  federationAuthorizer : Authorizer
  feeAuthorizer : Authorizer
  /-- The number of blocks for which a committed federation waits, before and from the rule that
      updates it. -/
  activationAgeLegacy : UInt64
  activationAge : UInt64
  /-- The number of blocks after activation from which retiring funds move. -/
  migrationAgeBegin : UInt64
  /-- The number of blocks after activation from which a retiring federation is dropped. -/
  migrationAgeEnd : UInt64
  /-- Satoshis. -/
  minimumPeginValue : UInt64
  /-- Satoshis for a thousand bytes. -/
  genesisFeePerKb : UInt64
  maxFeePerKb : UInt64
  recoveryKeys : List PublicKey
  /-- The age of an output, in blocks, at which the emergency keys may spend it. -/
  recoveryDelay : UInt64
  /-- The address of the federation from before federations were recorded. -/
  oldFederationAddress : Option String
  pegoutIndexHeight : UInt64
  pegoutIndexGracePeriod : UInt64
  maxMigrationInputs : UInt64
  /-- The number of host-chain blocks for which a pegout waits before it is signed. -/
  pegoutConfirmations : UInt64
  activations : ActivationHeights
deriving DecidableEq

namespace Constants

variable (c : Constants)

/-- The emergency branch of federations. -/
def recovery : Recovery := ⟨c.recoveryKeys, c.recoveryDelay⟩

/-- The federation that is active before any vote. -/
def genesisFederation : Except PegError Federation :=
  Federation.ofMembers (c.genesisKeys.map Member.ofKey) c.genesisCreationTime 0 c.network
    .standard

/-- The number of blocks for which a committed federation waits. -/
def activationAgeUnder (activations : Activations) : UInt64 :=
  if activations.federationActivationAgeUpdate then c.activationAge else c.activationAgeLegacy

/-- The address of the federation from before federations were recorded, which has to be usable
    on the network. -/
def oldFederation : Except PegError (Option Address) :=
  match c.oldFederationAddress with
  | none => .ok none
  | some text =>
    match Address.parse text >>= (·.require c.network) with
    | .ok a => .ok (some a)
    | .error cause => .error (.address cause)

end Constants

end TwoWayPeg
