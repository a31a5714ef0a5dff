import TwoWayPeg.Lifecycle.Env

/-!
Classification of transactions of the guarded coin. Up to a height the scripts that inputs reveal
tell pegouts from other transactions; from then on the hash that the signature of the first input
commits to does.
-/

namespace TwoWayPeg

/-- What a transaction means for the peg. -/
inductive PegTxType where
  | pegin
  | pegoutOrMigration
  | unknown
deriving DecidableEq, Inhabited

/-- The name of a type in reports. -/
def PegTxType.label : PegTxType → String
  | .pegin => "pegin"
  | .pegoutOrMigration => "pegout_or_migration"
  | .unknown => "unknown"

/-- The ways to classify a transaction. -/
inductive Strategy where
  /-- By the scripts that inputs reveal. -/
  | legacyWatchWallet
  /-- By the hash that the signature of the first input commits to. -/
  | pegoutIndex
deriving DecidableEq, Inhabited

/-- The name of a strategy in reports. -/
def Strategy.name : Strategy → String
  | .legacyWatchWallet => "legacy_watch_wallet"
  | .pegoutIndex => "pegout_index"

/-- What classification looks at. -/
structure ClassificationContext where
  activations : Activations
  sighashes : OrderedSet Hash256
  /-- Satoshis. -/
  minimumPeginValue : UInt64
  pegoutIndexHeight : UInt64
  pegoutIndexGracePeriod : UInt64
  /-- The script of the federation from before federations were recorded. -/
  oldScript : Option Script
  lastRetiredScript : Option Script
  active : Federation
  retiring : Option Federation

namespace ClassificationContext

variable (ctx : ClassificationContext)

/-- The active federation and the retiring one. -/
def liveFederations : List Federation := ctx.active :: ctx.retiring.toList

/-- The output scripts of the active federation and of the retiring one. -/
def liveScripts : List Script := ctx.liveFederations.map Federation.p2shScript

/-- The output scripts that the peg controls or has controlled. -/
def watchedScripts : List Script :=
  ctx.liveScripts ++ ctx.oldScript.toList ++ ctx.lastRetiredScript.toList

/-- The satoshis that a transaction pays to the active and the retiring federation. -/
def valueToLive (t : Transaction) : Except PegError UInt64 :=
  sumChecked ((t.outputs.filter fun o => ctx.liveScripts.contains o.scriptPubkey).map TxOut.value)

/-- Whether an input reveals a script whose outputs are watched. -/
def revealsWatched (i : TxIn) : Bool :=
  match i.scriptSig.lastPush? with
  | some redeemScript => ctx.watchedScripts.contains (Script.toP2sh redeemScript)
  | none => false

/-- Whether the first input of a transaction is that of a known pegout of some federation. -/
def isKnownPegout (t : Transaction) : Bool :=
  ctx.liveFederations.any fun f =>
    match t.firstInputSighash? f.redeemScript with
    | some hash => hash ∈ ctx.sighashes
    | none => false

/-- The height from which the index of pegouts decides. -/
def switchHeight : Except PegError UInt64 :=
  addChecked ctx.pegoutIndexHeight ctx.pegoutIndexGracePeriod

/-- The strategy for transactions at a height. -/
def strategyAt (height : UInt64) : Except PegError Strategy := do
  let switch ← ctx.switchHeight
  if ctx.activations.pegoutTxIndex ∧ switch ≤ height then return .pegoutIndex
  else return .legacyWatchWallet

end ClassificationContext

/-- Classifies a transaction. -/
def Strategy.classify (strategy : Strategy) (ctx : ClassificationContext) (t : Transaction) :
    Except PegError PegTxType :=
  match strategy with
  | .pegoutIndex => do
    if ctx.isKnownPegout t then return .pegoutOrMigration
    let value ← ctx.valueToLive t
    return if 0 < value then .pegin else .unknown
  | .legacyWatchWallet => do
    if t.inputs.any ctx.revealsWatched then return .pegoutOrMigration
    let value ← ctx.valueToLive t
    return if ctx.minimumPeginValue ≤ value then .pegin else .unknown

/-- Classifies a transaction by the strategy for its height, and tells which one that is. -/
def ClassificationContext.classify (ctx : ClassificationContext) (t : Transaction)
    (height : UInt64) : Except PegError (Strategy × PegTxType) := do
  let strategy ← ctx.strategyAt height
  let type ← strategy.classify ctx t
  return (strategy, type)

namespace State

/-- What classification looks at in a state. -/
def classificationContext (s : State) (env : Env) : Except PegError ClassificationContext := do
  let old ← env.constants.oldFederation
  let active ← s.activeFederation env
  let retiring ← s.retiringFederation env
  return {
    activations := env.activations
    sighashes := s.pegoutSighashes
    minimumPeginValue := env.constants.minimumPeginValue
    pegoutIndexHeight := env.constants.pegoutIndexHeight
    pegoutIndexGracePeriod := env.constants.pegoutIndexGracePeriod
    oldScript := old.map Address.scriptPubkey
    lastRetiredScript := s.lastRetiredScript
    active
    retiring }

end State

end TwoWayPeg
