import TwoWayPeg.State

/-!
What the operations of one block share, and which federations are active and retiring in it.
-/

namespace TwoWayPeg

/-- A block of the host chain. -/
structure Block where
  number : UInt64
  /-- Milliseconds. -/
  timestamp : UInt64
deriving DecidableEq, Inhabited

/-- What the operations of one block share. -/
structure Env where
  constants : Constants
  activations : Activations
  block : Block
  genesis : Federation
  isGenesis : constants.genesisFederation = .ok genesis

namespace Env

/-- The surroundings of a block, if the constants have a genesis federation. -/
def create (constants : Constants) (activations : Activations) (block : Block) :
    Except PegError Env :=
  match h : constants.genesisFederation with
  | .ok genesis => .ok { constants, activations, block, genesis, isGenesis := h }
  | .error e => .error e

variable (env : Env)

/-- The number of blocks for which a committed federation waits. -/
def activationAge : UInt64 := env.constants.activationAgeUnder env.activations

/-- Whether a creation height lies the activation age behind. -/
def isPast (created : UInt64) : Except PegError Bool := do
  let due ← addChecked created env.activationAge
  return decide (due ≤ env.block.number)

/-- Whether a federation has waited long enough to be active. -/
def shouldBeActive (f : Federation) : Except PegError Bool := env.isPast f.creationBlock

end Env

namespace State

variable (s : State) (env : Env)

/-- The active federation: the new one once it has waited long enough; until then the old one,
    or the genesis federation if there is none. -/
def activeFederation : Except PegError Federation := do
  match s.newFederation with
  | none => return env.genesis
  | some new =>
    if ← env.shouldBeActive new then return new
    else return s.oldFederation.getD env.genesis

/-- The retiring federation: the old one while the new one is active. -/
def retiringFederation : Except PegError (Option Federation) := do
  match s.newFederation with
  | none => return none
  | some new => if ← env.shouldBeActive new then return s.oldFederation else return none

/-- The recorded creation height of the active federation, 0 before any is recorded. -/
def activeCreation : Except PegError UInt64 := do
  let recorded := s.activeCreationHeight.getD 0
  match s.nextCreationHeight with
  | none => return recorded
  | some next => if ← env.isPast next then return next else return recorded

/-- Records the creation height of the new federation as that of the active one once it is
    active. -/
def updateCreationHeights : Except PegError State := do
  match s.nextCreationHeight with
  | none => return s
  | some next =>
    if ← env.isPast next then
      return { s with activeCreationHeight := some next, nextCreationHeight := none }
    else return s

end State

end TwoWayPeg
