import TwoWayPeg.Federation.Member
import TwoWayPeg.Ordered.Sort
import TwoWayPeg.Script.Basic

/-!
The scripts that federations guard their outputs with.
-/

namespace TwoWayPeg

/-- The emergency branch of a federation: keys that may spend once an output has reached an age. -/
structure Recovery where
  keys : List PublicKey
  delay : UInt64
deriving DecidableEq

/-- The forms of the script of a federation. -/
inductive FederationKind where
  /-- The members alone. -/
  | standard
  /-- The members or the emergency keys, with one check of signatures after both branches. -/
  | nonStandardErp (recovery : Recovery)
  /-- The members or the emergency keys, with a check of signatures in each branch. -/
  | p2shErp (recovery : Recovery)
deriving DecidableEq

namespace FederationKind

/-- The number that stands for a form. -/
def tag : FederationKind → Nat
  | .standard => 0
  | .nonStandardErp _ => 1
  | .p2shErp _ => 2

/-- The emergency branch. -/
def recovery? : FederationKind → Option Recovery
  | .standard => none
  | .nonStandardErp r | .p2shErp r => some r

/-- The emergency keys. -/
def recoveryKeys (k : FederationKind) : List PublicKey := k.recovery?.elim [] Recovery.keys

/-- The age at which the emergency keys may spend. -/
def delay? (k : FederationKind) : Option UInt64 := k.recovery?.map Recovery.delay

/-- The number of bytes that a spender adds to select the branch of the members. -/
def selectorSize (k : FederationKind) : Nat := if k.recovery?.isSome then 1 else 0

end FederationKind

/-- More than half of `n`. -/
def majority (n : Nat) : Nat := n / 2 + 1

namespace RedeemScript

/-- A majority of keys: the number needed, the keys, their number. -/
def majorityOf (keys : List PublicKey) : List Instruction :=
  Instruction.number (majority keys.length) ::
    keys.map (.push ·.compressed) ++ [Instruction.number keys.length]

/-- The delay as the script writes it, read as a signed number. -/
def delayNumber (delay : UInt64) : Int := delay.toInt64.toInt

/-- The delay that a script cannot write, because its negation is out of range. -/
def unwritableDelay : UInt64 := 0x8000000000000000

/-- The check of the age of an output. -/
def checkDelay (delay : UInt64) : List Instruction :=
  [Instruction.number (delayNumber delay), .checkSequence, .drop]

/-- The instructions of a script for sorted members' keys. -/
def instructions (keys : List PublicKey) : FederationKind → List Instruction
  | .standard => majorityOf keys ++ [.checkMultisig]
  | .nonStandardErp r =>
    .notIf :: majorityOf keys ++ .otherwise :: checkDelay r.delay
      ++ majorityOf (Ordered.sort r.keys) ++ [.endIf, .checkMultisig]
  | .p2shErp r =>
    .notIf :: majorityOf keys ++ .checkMultisig :: .otherwise :: checkDelay r.delay
      ++ majorityOf (Ordered.sort r.keys) ++ [.checkMultisig, .endIf]

/-- The script for the members' keys, which it lists in order. -/
def build (keys : List PublicKey) (kind : FederationKind) : Script :=
  Script.ofInstructions (instructions (Ordered.sort keys) kind)

/-- The longest script that can be paid to by its hash. -/
def maxLength : Nat := 520

end RedeemScript

end TwoWayPeg
