import TwoWayPeg.Bridge
import TwoWayPeg.Proofs.Computation

/-!
# Runs of the peg

A run is a list of steps, each an operation that a running peg has carried out. An operation that
fails is no step. The constants are the same in a whole run; the blocks and the rules in force in
them are whatever the host chain says.
-/

namespace TwoWayPeg

/-- What may happen to a running peg. -/
inductive Operation where
  /-- The host chain goes to a block, in which some rules are in force. -/
  | enterBlock (block : Block) (activations : Activations)
  | vote (log : Bool) (sender : ChainAddress) (spec : CallSpec)
  | create (dryRun : Bool)
  | addMember (dryRun : Bool) (m : Member)
  | rollback (dryRun : Bool)
  | commit (log dryRun : Bool) (hash : Hash256)
  | voteFee (sender : ChainAddress) (fee : Int64)
  | updateHeights
  | migrate
  | takeConfirmed
  /-- An output is paid to the federation that was committed last. -/
  | depositNew (u : Utxo)
  /-- An output is paid to the federation before it. -/
  | depositOld (u : Utxo)
  /-- The state is saved to a store and loaded from it again. -/
  | reload (store : Store)

/-- Whether the state is loaded from a store. -/
def Operation.reloads : Operation → Bool
  | .reload _ => true
  | _ => false

/-- What an operation gives back. -/
inductive Output where
  | nothing
  | change (response : ChangeResponse)
  | fee (response : FeeResponse)
  | migration (outcome : MigrationOutcome)
  | taken (transactions : List Transaction)

/-- The announcements of a change that are recorded. -/
def ChangeResult.recorded (result : ChangeResult) (log : Bool) : List CommitEvent :=
  if log then result.event.toList else []

namespace Bridge

/-- A new peg in some block. -/
def startAt (constants : Constants) (block : Block) (activations : Activations) : Bridge where
  constants
  activations
  block
  state := .initial constants

/-- The state that is loaded from a store once it has been saved there. -/
def reloaded (b : Bridge) (store : Store) : Except PegError State :=
  match store.save (fun _ => false) b.state with
  | (.ok (), saved) => saved.load (fun _ => false) b.constants
  | (.error e, _) => .error e

/-- Carries out an operation. -/
def perform (b : Bridge) : Operation → Except PegError (Output × Bridge)
  | .enterBlock block activations => return (.nothing, { b with block, activations })
  | .vote log sender spec => do
    let (response, b) ← b.vote log sender spec
    return (.change response, b)
  | .create dryRun => do
    let (response, b) ← b.create dryRun
    return (.change response, b)
  | .addMember dryRun m => do
    let (response, b) ← b.addMember dryRun m
    return (.change response, b)
  | .rollback dryRun => do
    let (response, b) ← b.rollback dryRun
    return (.change response, b)
  | .commit log dryRun hash => do
    let (response, b) ← b.commit log dryRun hash
    return (.change response, b)
  | .voteFee sender fee =>
    let (response, b) := b.voteFee sender fee
    return (.fee response, b)
  | .updateHeights => do
    let b ← b.updateHeights
    return (.nothing, b)
  | .migrate => do
    let (outcome, b) ← b.migrate
    return (.migration outcome, b)
  | .takeConfirmed => do
    let (taken, b) ← b.takeConfirmed
    return (.taken taken, b)
  | .depositNew u =>
    return (.nothing, { b with state := { b.state with newUtxos := b.state.newUtxos ++ [u] } })
  | .depositOld u =>
    return (.nothing, { b with state := { b.state with oldUtxos := b.state.oldUtxos ++ [u] } })
  | .reload store => do
    let state ← b.reloaded store
    return (.nothing, { b with state })

/-- A peg in the same block, with the same constants and rules. -/
def SameSetting (b c : Bridge) : Prop :=
  c.constants = b.constants ∧ c.activations = b.activations ∧ c.block = b.block

/-- A peg in the same setting that has made some more announcements. -/
structure Proceeds (b : Bridge) (announced : List CommitEvent) (c : Bridge) : Prop where
  setting : b.SameSetting c
  events : c.events = b.events ++ announced

variable {b c : Bridge} {output : Output}

theorem perform_vote {log : Bool} {sender : ChainAddress} {spec : CallSpec}
    (performed : b.perform (.vote log sender spec) = .ok (output, c)) :
    ∃ env result, b.env = .ok env ∧
      b.state.voteFederationChange env sender spec = .ok (result, c.state) ∧
      output = .change result.response ∧ b.Proceeds (result.recorded log) c := by
  obtain ⟨_, voted, performed⟩ := bind_eq_ok_iff.1 performed
  obtain ⟨env, surroundings, voted⟩ := bind_eq_ok_iff.1 voted
  obtain ⟨⟨result, t⟩, done, voted⟩ := bind_eq_ok_iff.1 voted
  cases voted
  cases performed
  exact ⟨env, result, surroundings, done, rfl, ⟨rfl, rfl, rfl⟩, rfl⟩

theorem perform_create {dryRun : Bool}
    (performed : b.perform (.create dryRun) = .ok (output, c)) :
    ∃ env result, b.env = .ok env ∧
      b.state.createFederation env dryRun = .ok (result, c.state) ∧
      output = .change result.response ∧ b.Proceeds (result.recorded true) c := by
  obtain ⟨_, created, performed⟩ := bind_eq_ok_iff.1 performed
  obtain ⟨env, surroundings, created⟩ := bind_eq_ok_iff.1 created
  obtain ⟨⟨result, t⟩, done, created⟩ := bind_eq_ok_iff.1 created
  cases created
  cases performed
  exact ⟨env, result, surroundings, done, rfl, ⟨rfl, rfl, rfl⟩, rfl⟩

theorem perform_addMember {dryRun : Bool} {m : Member}
    (performed : b.perform (.addMember dryRun m) = .ok (output, c)) :
    ∃ env result, b.env = .ok env ∧ b.state.addMember dryRun m = (result, c.state) ∧
      output = .change result.response ∧ b.Proceeds (result.recorded true) c := by
  obtain ⟨_, added, performed⟩ := bind_eq_ok_iff.1 performed
  obtain ⟨env, surroundings, added⟩ := bind_eq_ok_iff.1 added
  cases added
  cases performed
  exact ⟨env, _, surroundings, rfl, rfl, ⟨rfl, rfl, rfl⟩, rfl⟩

theorem perform_rollback {dryRun : Bool}
    (performed : b.perform (.rollback dryRun) = .ok (output, c)) :
    ∃ env result, b.env = .ok env ∧ b.state.rollbackFederation dryRun = (result, c.state) ∧
      output = .change result.response ∧ b.Proceeds (result.recorded true) c := by
  obtain ⟨_, rolled, performed⟩ := bind_eq_ok_iff.1 performed
  obtain ⟨env, surroundings, rolled⟩ := bind_eq_ok_iff.1 rolled
  cases rolled
  cases performed
  exact ⟨env, _, surroundings, rfl, rfl, ⟨rfl, rfl, rfl⟩, rfl⟩

theorem perform_commit {log dryRun : Bool} {hash : Hash256}
    (performed : b.perform (.commit log dryRun hash) = .ok (output, c)) :
    ∃ env result, b.env = .ok env ∧
      b.state.commitFederation env dryRun hash = .ok (result, c.state) ∧
      output = .change result.response ∧ b.Proceeds (result.recorded log) c := by
  obtain ⟨_, committed, performed⟩ := bind_eq_ok_iff.1 performed
  obtain ⟨env, surroundings, committed⟩ := bind_eq_ok_iff.1 committed
  obtain ⟨⟨result, t⟩, done, committed⟩ := bind_eq_ok_iff.1 committed
  cases committed
  cases performed
  exact ⟨env, result, surroundings, done, rfl, ⟨rfl, rfl, rfl⟩, rfl⟩

theorem perform_migrate (performed : b.perform .migrate = .ok (output, c)) :
    ∃ env outcome, b.env = .ok env ∧ b.state.processMigration env = .ok (outcome, c.state) ∧
      output = .migration outcome ∧ b.Proceeds [] c := by
  obtain ⟨_, migrated, performed⟩ := bind_eq_ok_iff.1 performed
  obtain ⟨env, surroundings, migrated⟩ := bind_eq_ok_iff.1 migrated
  obtain ⟨⟨outcome, t⟩, done, migrated⟩ := bind_eq_ok_iff.1 migrated
  cases migrated
  cases performed
  exact ⟨env, outcome, surroundings, done, rfl, ⟨rfl, rfl, rfl⟩, (List.append_nil _).symm⟩

theorem perform_updateHeights (performed : b.perform .updateHeights = .ok (output, c)) :
    ∃ env, b.env = .ok env ∧ b.state.updateCreationHeights env = .ok c.state ∧
      output = .nothing ∧ b.Proceeds [] c := by
  obtain ⟨_, updated, performed⟩ := bind_eq_ok_iff.1 performed
  obtain ⟨env, surroundings, updated⟩ := bind_eq_ok_iff.1 updated
  obtain ⟨t, done, updated⟩ := bind_eq_ok_iff.1 updated
  cases updated
  cases performed
  exact ⟨env, surroundings, done, rfl, ⟨rfl, rfl, rfl⟩, (List.append_nil _).symm⟩

theorem perform_takeConfirmed (performed : b.perform .takeConfirmed = .ok (output, c)) :
    ∃ taken, b.state.takeConfirmed b.constants b.block.number = .ok (taken, c.state) ∧
      output = .taken taken ∧ b.Proceeds [] c := by
  obtain ⟨_, took, performed⟩ := bind_eq_ok_iff.1 performed
  obtain ⟨⟨taken, t⟩, done, took⟩ := bind_eq_ok_iff.1 took
  cases took
  cases performed
  exact ⟨taken, done, rfl, ⟨rfl, rfl, rfl⟩, (List.append_nil _).symm⟩

theorem perform_voteFee {sender : ChainAddress} {fee : Int64}
    (performed : b.perform (.voteFee sender fee) = .ok (output, c)) :
    ∃ response, b.state.voteFee b.constants sender fee = (response, c.state) ∧
      output = .fee response ∧ b.Proceeds [] c := by
  cases performed
  exact ⟨_, rfl, rfl, ⟨rfl, rfl, rfl⟩, (List.append_nil _).symm⟩

theorem perform_reload {store : Store} (performed : b.perform (.reload store) = .ok (output, c)) :
    b.reloaded store = .ok c.state ∧ output = .nothing ∧ b.Proceeds [] c := by
  obtain ⟨state, loaded, performed⟩ := bind_eq_ok_iff.1 performed
  cases performed
  exact ⟨loaded, rfl, ⟨rfl, rfl, rfl⟩, (List.append_nil _).symm⟩

/-- All operations but going to a block keep the block and the rules. -/
theorem sameSetting_of_perform {operation : Operation}
    (performed : b.perform operation = .ok (output, c)) :
    b.SameSetting c ∨ ∃ block activations, operation = .enterBlock block activations ∧
      c = { b with block, activations } := by
  cases operation with
  | enterBlock block activations =>
    cases performed
    exact .inr ⟨block, activations, rfl, rfl⟩
  | vote log sender spec =>
    obtain ⟨_, _, _, _, _, same⟩ := perform_vote performed
    exact .inl same.setting
  | create dryRun =>
    obtain ⟨_, _, _, _, _, same⟩ := perform_create performed
    exact .inl same.setting
  | addMember dryRun m =>
    obtain ⟨_, _, _, _, _, same⟩ := perform_addMember performed
    exact .inl same.setting
  | rollback dryRun =>
    obtain ⟨_, _, _, _, _, same⟩ := perform_rollback performed
    exact .inl same.setting
  | commit log dryRun hash =>
    obtain ⟨_, _, _, _, _, same⟩ := perform_commit performed
    exact .inl same.setting
  | voteFee sender fee =>
    obtain ⟨_, _, _, same⟩ := perform_voteFee performed
    exact .inl same.setting
  | updateHeights =>
    obtain ⟨_, _, _, _, same⟩ := perform_updateHeights performed
    exact .inl same.setting
  | migrate =>
    obtain ⟨_, _, _, _, _, same⟩ := perform_migrate performed
    exact .inl same.setting
  | takeConfirmed =>
    obtain ⟨_, _, _, same⟩ := perform_takeConfirmed performed
    exact .inl same.setting
  | depositNew u =>
    cases performed
    exact .inl ⟨rfl, rfl, rfl⟩
  | depositOld u =>
    cases performed
    exact .inl ⟨rfl, rfl, rfl⟩
  | reload store => exact .inl (perform_reload performed).2.2.setting

theorem constants_of_perform {operation : Operation}
    (performed : b.perform operation = .ok (output, c)) : c.constants = b.constants := by
  rcases sameSetting_of_perform performed with setting | ⟨block, activations, rfl, rfl⟩
  · exact setting.1
  · rfl

theorem env_eq_ok {env : Env} (surroundings : b.env = .ok env) :
    env.constants = b.constants ∧ env.activations = b.activations ∧ env.block = b.block := by
  unfold Bridge.env Env.create at surroundings
  split at surroundings
  · cases surroundings
    exact ⟨rfl, rfl, rfl⟩
  · cases surroundings

end Bridge

/-- An operation that was carried out, with the peg before and after it. -/
structure Step where
  before : Bridge
  operation : Operation
  output : Output
  after : Bridge

/-- From one peg to another by steps, first step first. -/
inductive Runs (a : Bridge) : List Step → Bridge → Prop
  | refl : Runs a [] a
  | step {b c : Bridge} {history : List Step} {operation : Operation} {output : Output}
      (run : Runs a history b) (performed : b.perform operation = .ok (output, c)) :
      Runs a (history ++ [⟨b, operation, output, c⟩]) c

namespace Runs

variable {a b c : Bridge} {history later : List Step}

theorem append (run : Runs a history b) (rest : Runs b later c) :
    Runs a (history ++ later) c := by
  induction rest with
  | refl => simpa using run
  | step _ performed ih =>
    rw [← List.append_assoc]
    exact .step ih performed

/-- All steps of a run that goes on are those before and the last one. -/
theorem forall_mem_concat {P : Step → Prop} {step : Step} :
    (∀ other ∈ history ++ [step], P other) ↔ (∀ other ∈ history, P other) ∧ P step := by
  rw [List.forall_mem_append, List.forall_mem_singleton]

/-- What holds at the start and is kept by each operation holds at the end. -/
theorem invariant {P : Bridge → Prop} (run : Runs a history b) (start : P a)
    (kept : ∀ {b c operation output}, P b → b.perform operation = .ok (output, c) → P c) : P b := by
  induction run with
  | refl => exact start
  | step _ performed ih => exact kept ih performed

theorem constants_eq (run : Runs a history b) : b.constants = a.constants :=
  run.invariant (P := fun b => b.constants = a.constants) rfl fun same performed =>
    (Bridge.constants_of_perform performed).trans same

/-- The step of a run with a number, and the runs before and after it. -/
theorem split_at (run : Runs a history b) {number : Nat} {step : Step}
    (found : history[number]? = some step) :
    ∃ past later, history = past ++ step :: later ∧ past.length = number ∧
      Runs a past step.before ∧
      step.before.perform step.operation = .ok (step.output, step.after) ∧
      Runs step.after later b := by
  induction run with
  | refl => cases found
  | @step b c history operation output run performed ih =>
    by_cases inside : number < history.length
    · rw [List.getElem?_append_left inside] at found
      obtain ⟨past, later, rfl, length, before, this, after⟩ := ih found
      exact ⟨past, later ++ [_], by simp, length, before, this, .step after performed⟩
    · rw [List.getElem?_append_right (Nat.le_of_not_lt inside), List.getElem?_singleton] at found
      split at found
      · next last =>
        cases found
        exact ⟨history, [], rfl, by omega, run, performed, .refl⟩
      · cases found

/-- A step of a run, and the runs before and after it. -/
theorem split (run : Runs a history b) {step : Step} (member : step ∈ history) :
    ∃ past later, history = past ++ step :: later ∧ Runs a past step.before ∧
      step.before.perform step.operation = .ok (step.output, step.after) ∧
      Runs step.after later b := by
  obtain ⟨number, found⟩ := List.getElem?_of_mem member
  obtain ⟨past, later, whole, _, rest⟩ := run.split_at found
  exact ⟨past, later, whole, rest⟩

/-- The runs before and after a step of a run. -/
theorem around {past : List Step} {step : Step} (run : Runs a (past ++ step :: later) b) :
    Runs a past step.before ∧ step.before.perform step.operation = .ok (step.output, step.after) ∧
      Runs step.after later b := by
  have found : (past ++ step :: later)[past.length]? = some step := by simp
  obtain ⟨past', later', whole, length, rest⟩ := run.split_at found
  obtain ⟨rfl, same⟩ := List.append_inj whole length.symm
  cases same
  exact rest

theorem cons {operation : Operation} {output : Output}
    (performed : a.perform operation = .ok (output, b)) (rest : Runs b later c) :
    Runs a (⟨a, operation, output, b⟩ :: later) c :=
  (Runs.step .refl performed).append rest

/-- The part of a run from one step to a later one. -/
theorem segment (run : Runs a history b) {start stop : Nat} {first last : Step}
    (found : history[start]? = some first) (found' : history[stop]? = some last)
    (within : start ≤ stop) :
    Runs first.before ((history.drop start).take (stop - start)) last.before := by
  obtain ⟨past, later, rfl, rfl, before, _, _⟩ := run.split_at found'
  rw [List.drop_append_of_le_length within, List.take_append_of_le_length (by simp),
    List.take_of_length_le (by simp)]
  by_cases same : start = past.length
  · subst same
    rw [List.getElem?_append_right (Nat.le_refl _), Nat.sub_self] at found
    cases found
    rw [List.drop_length]
    exact .refl
  · rw [List.getElem?_append_left (by omega)] at found
    obtain ⟨earlier, middle, rfl, rfl, _, performed, rest⟩ := before.split_at found
    rw [List.drop_left]
    exact cons performed rest

end Runs

end TwoWayPeg
