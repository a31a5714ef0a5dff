import TwoWayPeg.Lifecycle.Change

/-!
Votes on changes of the federation. A call is tried in a dry run before the vote for it counts, and
carried out once it has won.
-/

namespace TwoWayPeg

/-- The functions that can be voted on. -/
inductive ChangeFunction where
  | create
  | add
  | addMulti
  | rollback
  | commit
deriving DecidableEq, Inhabited

namespace ChangeFunction

/-- The functions in the order in which they are listed. -/
def all : List ChangeFunction := [.create, .add, .addMulti, .rollback, .commit]

/-- The name of a function. -/
def name : ChangeFunction → String
  | .create => "create"
  | .add => "add"
  | .addMulti => "add-multi"
  | .rollback => "rollback"
  | .commit => "commit"

/-- The function with a name. -/
def ofName? (s : String) : Option ChangeFunction := all.find? fun f => f.name == s

end ChangeFunction

/-- The member whose keys are the `expected` arguments: one key for all roles, or one for each. -/
def Member.ofArguments? (arguments : List Bytes) (expected : Nat) : Option Member := do
  if arguments.length ≠ expected then none
  match ← arguments.mapM PublicKey.ofBytes? with
  | [key] => return Member.ofKey key
  | [btc, chain, mst] => return ⟨btc, chain, mst⟩
  | _ => none

namespace State

variable (s : State) (env : Env)

/-- Adds the member whose keys are the `expected` arguments. -/
def addArguments (dryRun : Bool) (arguments : List Bytes) (expected : Nat) :
    ChangeResult × State :=
  match Member.ofArguments? arguments expected with
  | some m => s.addMember dryRun m
  | none => ({ response := .malformedKey }, s)

/-- Carries out a call of a function. -/
def executeFunction (dryRun : Bool) (function : ChangeFunction) (arguments : List Bytes) :
    Except PegError (ChangeResult × State) :=
  match function with
  | .create => s.createFederation env dryRun
  | .add => pure (s.addArguments dryRun arguments 1)
  | .addMulti => pure (s.addArguments dryRun arguments 3)
  | .rollback => pure (s.rollbackFederation dryRun)
  | .commit =>
    match arguments with
    | [hash] =>
      match FixedBytes.ofList? hash with
      | some hash => s.commitFederation env dryRun hash
      | none => pure ({ response := .genericError }, s)
    | _ => pure ({ response := .genericError }, s)

/-- Carries out a call. -/
def execute (dryRun : Bool) (spec : CallSpec) : Except PegError (ChangeResult × State) :=
  match ChangeFunction.ofName? spec.function with
  | some function => s.executeFunction env dryRun function spec.arguments
  | none => pure ({ response := .nonExistingFunction }, s)

/-- Votes for a call: the voter has to be authorised, the function has to exist, and a dry run of
    the call has to succeed. Once a call has won it is carried out. -/
def voteFederationChange (sender : ChainAddress) (spec : CallSpec) :
    Except PegError (ChangeResult × State) := do
  if !s.federationElection.authorizer.allows sender then
    return ({ response := .unauthorizedCaller }, s)
  if (ChangeFunction.ofName? spec.function).isNone then
    return ({ response := .nonExistingFunction }, s)
  let (tried, _) ← s.execute env true spec
  if !tried.response.isSuccess then return ({ response := tried.response }, s)
  let (outcome, s) ← Election.voteAndApplyWithin State.federationElection
    (fun s e => { s with federationElection := e }) s spec sender
    fun s winner => s.execute env false winner
  match outcome with
  | .rejected => return ({ response := .genericError }, s)
  | .recorded => return ({ response := .voteRecorded }, s)
  | .applied result => return (result, s)

end State

end TwoWayPeg
