import TwoWayPeg.Constants.Presets
import TwoWayPeg.Proofs.Run

/-!
# Runs that are written out

A run on given inputs can be computed. A commit by the hash of the pending federation is an order
of its own: that the hash is right need not be computed.
-/

namespace TwoWayPeg

namespace State

/-- What a commit does once the hash has turned out to be right. -/
def commitAssembled (s : State) (env : Env) (pending : PendingFederation) :
    Except PegError (ChangeResult × State) := do
  if !pending.isComplete then return ({ response := .incompleteFederation }, s)
  match pending.build env.block.timestamp env.block.number env.constants env.activations with
  | .error (.overflow cause) => throw (.overflow cause)
  | .error _ => return ({ response := .genericError }, s)
  | .ok new =>
    let active ← s.activeFederation env
    let activationBlock ← addChecked env.block.number env.activationAge
    let event : CommitEvent :=
      { block := env.block.number, oldFederation := active, newFederation := new, activationBlock }
    return ({ response := .success, event := some event }, s.installed env new active)

theorem commitFederation_hash {s : State} {env : Env} {pending : PendingFederation}
    (assembling : s.pending = some pending) :
    s.commitFederation env false pending.hash = s.commitAssembled env pending := by
  unfold commitFederation commitAssembled
  simp only [assembling]
  split
  · rfl
  · rw [if_neg (fun differs => differs rfl)]
    rfl

end State

/-- What is to happen next. -/
inductive Order where
  | perform (operation : Operation)
  /-- The pending federation is committed. -/
  | commitPending (log : Bool)

namespace Bridge

/-- The step that an order leads to. Without a pending federation there is nothing to commit. -/
def obey (b : Bridge) : Order → Except PegError Step
  | .perform operation => do
    let (output, c) ← b.perform operation
    return ⟨b, operation, output, c⟩
  | .commitPending log => do
    match b.state.pending with
    | none => throw .emptyFederation
    | some pending =>
      let (result, state) ← b.state.commitAssembled (← b.env) pending
      return ⟨b, .commit log false pending.hash, .change result.response,
        b.recordChange log result state⟩

/-- The steps that orders lead to, and the peg after them. -/
def play (b : Bridge) : List Order → Except PegError (List Step × Bridge)
  | [] => return ([], b)
  | order :: rest => do
    let step ← b.obey order
    let (later, last) ← step.after.play rest
    return (step :: later, last)

variable {b c : Bridge} {step : Step} {history : List Step}

theorem performed_of_obey {order : Order} (obeyed : b.obey order = .ok step) :
    step.before = b ∧ b.perform step.operation = .ok (step.output, step.after) := by
  cases order with
  | perform operation =>
    obtain ⟨⟨output, next⟩, performed, obeyed⟩ := bind_eq_ok_iff.1 obeyed
    cases obeyed
    exact ⟨rfl, performed⟩
  | commitPending log =>
    simp only [obey] at obeyed
    split at obeyed
    · cases obeyed
    next pending assembling =>
    obtain ⟨env, surroundings, obeyed⟩ := bind_eq_ok_iff.1 obeyed
    obtain ⟨⟨result, state⟩, committed, obeyed⟩ := bind_eq_ok_iff.1 obeyed
    cases obeyed
    rw [← State.commitFederation_hash assembling] at committed
    refine ⟨rfl, ?_⟩
    simp only [perform, commit, surroundings, committed, bind, Except.bind]
    rfl

theorem runs_of_play {orders : List Order} (played : b.play orders = .ok (history, c)) :
    Runs b history c := by
  induction orders generalizing b history with
  | nil =>
    cases played
    exact .refl
  | cons order rest ih =>
    obtain ⟨step, obeyed, played⟩ := bind_eq_ok_iff.1 played
    obtain ⟨⟨later, last⟩, others, played⟩ := bind_eq_ok_iff.1 played
    cases played
    obtain ⟨same, performed⟩ := performed_of_obey obeyed
    subst same
    exact .cons performed (ih others)

/-- What can be seen of a run that is computed holds of some run. -/
theorem exists_runs_of_play {P : List Step → Bridge → Prop}
    [∀ history c, Decidable (P history c)] (orders : List Order)
    (seen : (b.play orders).toOption.any (fun r => decide (P r.1 r.2)) = true) :
    ∃ history c, Runs b history c ∧ P history c := by
  cases played : b.play orders with
  | error e =>
    rw [played] at seen
    cases seen
  | ok r =>
    rw [played] at seen
    exact ⟨r.1, r.2, runs_of_play played, of_decide_eq_true seen⟩

/-- A run that is computed and one more step, of which something can be seen. -/
theorem exists_step_of_play {P : List Step → Step → Prop}
    [∀ history step, Decidable (P history step)] (orders : List Order) (order : Order)
    (seen : (b.play orders).toOption.any (fun r =>
      (r.2.obey order).toOption.any fun step => decide (P r.1 step)) = true) :
    ∃ history step, Runs b history step.before ∧ Runs step.before [step] step.after ∧
      P history step := by
  cases played : b.play orders with
  | error e =>
    rw [played] at seen
    cases seen
  | ok r =>
    rw [played] at seen
    have seen : (r.2.obey order).toOption.any (fun step => decide (P r.1 step)) = true := seen
    cases obeyed : r.2.obey order with
    | error e =>
      rw [obeyed] at seen
      cases seen
    | ok step =>
      rw [obeyed] at seen
      obtain ⟨same, performed⟩ := performed_of_obey obeyed
      rw [← same] at performed
      exact ⟨r.1, step, same ▸ runs_of_play played, .cons performed .refl, of_decide_eq_true seen⟩

end Bridge

namespace Scenario

/-- The first voter of the development network. -/
def first : ChainAddress := Constants.account 0x2e80ab37dfb510a64526296fd1f295c42ef19c29

/-- The second voter of the development network. -/
def second : ChainAddress := Constants.account 0x7e5f4552091a69125d5dfcb7b8c2659029395bdf

/-- An output of some transaction. -/
def output (vout : UInt32) (value : UInt64) : Utxo where
  outpoint := ⟨⟨List.replicate 32 1, rfl⟩, vout⟩
  value
  height := 1
  scriptPubkey := []

/-- Two members with a key each become a federation. -/
def change : List Order :=
  .perform (.create false) ::
    Constants.developmentRecoveryKeys.map (fun key => .perform (.addMember false (.ofKey key))) ++
    [.commitPending true]

/-- The development network with the larger activation age from block 17 on and no other rule. -/
def laterAge : Constants :=
  { Constants.regtest with activations := { federationActivationAgeUpdate := some 17 } }

/-- The development network with the index of pegouts and no other rule. -/
def indexed : Constants :=
  { Constants.regtest with activations := { pegoutTxIndex := some 0 } }

/-- The development network with one output for each migration transaction and no rule. -/
def single : Constants :=
  { Constants.regtest with activations := {}, maxMigrationInputs := 1 }

/-- The host chain goes to a block, with the rules of the block. -/
def goTo (c : Constants) (number : UInt64) : Order :=
  .perform (.enterBlock ⟨number, 0⟩ (c.activations.atBlock number))

end Scenario

end TwoWayPeg
