/-!
Rules that change the peg from a block height on, and the rules in force at one block.
-/

namespace TwoWayPeg

/-- A rule that takes force at a block height. -/
inductive Rule where
  /-- Federations carry an emergency branch. -/
  | erpFederations
  /-- The emergency branch is built so that it can be spent through a script hash. -/
  | p2shErpFederations
  /-- A new federation waits for the updated number of blocks before it is active. -/
  | federationActivationAgeUpdate
  /-- Pegouts are known by the signature hash of their first input. -/
  | pegoutTxIndex
deriving DecidableEq, Inhabited

namespace Rule

/-- The rules in the order in which they are listed. -/
def all : List Rule :=
  [.erpFederations, .p2shErpFederations, .federationActivationAgeUpdate, .pegoutTxIndex]

/-- The name of a rule in a constants file. -/
def name : Rule → String
  | .erpFederations => "erpFederations"
  | .p2shErpFederations => "p2shErpFederations"
  | .federationActivationAgeUpdate => "federationActivationAgeUpdate"
  | .pegoutTxIndex => "pegoutTxIndex"

/-- The name of a rule in reports. -/
def label : Rule → String
  | .erpFederations => "erp_federations"
  | .p2shErpFederations => "p2sh_erp_federations"
  | .federationActivationAgeUpdate => "federation_activation_age_update"
  | .pegoutTxIndex => "pegout_tx_index"

/-- The rule with a name in a constants file. -/
def ofName? (s : String) : Option Rule := all.find? fun r => r.name == s

theorem ofName?_name (r : Rule) : ofName? r.name = some r := by cases r <;> rfl

theorem mem_all (r : Rule) : r ∈ all := by cases r <;> decide

end Rule

/-- The height from which each rule is in force; a rule without a height never is. -/
structure ActivationHeights where
  erpFederations : Option UInt64 := none
  p2shErpFederations : Option UInt64 := none
  federationActivationAgeUpdate : Option UInt64 := none
  pegoutTxIndex : Option UInt64 := none
deriving DecidableEq, Inhabited

/-- The rules in force at one block. -/
structure Activations where
  erpFederations : Bool
  p2shErpFederations : Bool
  federationActivationAgeUpdate : Bool
  pegoutTxIndex : Bool
deriving DecidableEq, Inhabited

namespace ActivationHeights

/-- The height from which a rule is in force. -/
def height? (h : ActivationHeights) : Rule → Option UInt64
  | .erpFederations => h.erpFederations
  | .p2shErpFederations => h.p2shErpFederations
  | .federationActivationAgeUpdate => h.federationActivationAgeUpdate
  | .pegoutTxIndex => h.pegoutTxIndex

/-- The heights with one of them replaced. -/
def withRule (h : ActivationHeights) (r : Rule) (height : UInt64) : ActivationHeights :=
  match r with
  | .erpFederations => { h with erpFederations := some height }
  | .p2shErpFederations => { h with p2shErpFederations := some height }
  | .federationActivationAgeUpdate => { h with federationActivationAgeUpdate := some height }
  | .pegoutTxIndex => { h with pegoutTxIndex := some height }

/-- Every rule is in force from one height on. -/
def allFrom (height : UInt64) : ActivationHeights :=
  Rule.all.foldl (fun h r => h.withRule r height) {}

/-- Whether a rule is in force at a block. -/
def reached (h : ActivationHeights) (block : UInt64) (r : Rule) : Bool :=
  match h.height? r with
  | some height => decide (height ≤ block)
  | none => false

/-- The rules in force at a block. -/
def atBlock (h : ActivationHeights) (block : UInt64) : Activations where
  erpFederations := h.reached block .erpFederations
  p2shErpFederations := h.reached block .p2shErpFederations
  federationActivationAgeUpdate := h.reached block .federationActivationAgeUpdate
  pegoutTxIndex := h.reached block .pegoutTxIndex

end ActivationHeights

namespace Activations

/-- Whether a rule is in force. -/
def isActive (a : Activations) : Rule → Bool
  | .erpFederations => a.erpFederations
  | .p2shErpFederations => a.p2shErpFederations
  | .federationActivationAgeUpdate => a.federationActivationAgeUpdate
  | .pegoutTxIndex => a.pegoutTxIndex

/-- Exactly the listed rules are in force. -/
def ofRules (rules : List Rule) : Activations where
  erpFederations := rules.contains .erpFederations
  p2shErpFederations := rules.contains .p2shErpFederations
  federationActivationAgeUpdate := rules.contains .federationActivationAgeUpdate
  pegoutTxIndex := rules.contains .pegoutTxIndex

/-- Every rule is in force. -/
def all : Activations := ofRules Rule.all

/-- No rule is in force. -/
def none : Activations := ofRules []

/-- The rules in force, in the order in which they are listed. -/
def active (a : Activations) : List Rule := Rule.all.filter a.isActive

theorem isActive_ofRules (rules : List Rule) (r : Rule) :
    (ofRules rules).isActive r = rules.contains r := by cases r <;> rfl

end Activations

theorem ActivationHeights.isActive_atBlock (h : ActivationHeights) (block : UInt64) (r : Rule) :
    (h.atBlock block).isActive r = h.reached block r := by cases r <;> rfl

end TwoWayPeg
