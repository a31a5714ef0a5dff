import TwoWayPeg.Proofs.Ballot
import TwoWayPeg.Proofs.Migration

/-!
# Who holds the outputs of the peg

The custody is the part of the state that says which federations there are, which outputs they hold
and which pegouts of theirs are known. `Step.Effect` lists what a step can do to it; the invariants
of the custody go by its cases.
-/

namespace TwoWayPeg

/-- The federations, the outputs that they hold, and the hashes of the known pegouts. -/
structure Custody where
  newFederation : Option Federation
  oldFederation : Option Federation
  pending : Option PendingFederation
  newUtxos : List Utxo
  oldUtxos : List Utxo
  pegoutSighashes : OrderedSet Hash256

/-- The custody that a state tells of. -/
def State.custody (s : State) : Custody where
  newFederation := s.newFederation
  oldFederation := s.oldFederation
  pending := s.pending
  newUtxos := s.newUtxos
  oldUtxos := s.oldUtxos
  pegoutSighashes := s.pegoutSighashes

namespace Step

/-- The outputs that a step adds to the custody. -/
def deposited (step : Step) : List Utxo :=
  match step.operation with
  | .depositNew u | .depositOld u => [u]
  | _ => []

/-- What the migration did in a step. -/
def outcome? (step : Step) : Option MigrationOutcome :=
  match step.output with
  | .migration outcome => some outcome
  | _ => none

/-- The migration transaction of a step. -/
def emitted? (step : Step) : Option MigrationTransaction :=
  step.outcome?.bind MigrationOutcome.migration

/-- Whether the retiring federation is decommissioned in a step. -/
def decommissions (step : Step) : Bool := step.outcome?.any MigrationOutcome.decommissioned

/-- What a step can do to the custody. -/
inductive Effect (step : Step) : Prop
  | kept (quiet : step.deposited = []) (still : step.outcome? = none)
      (same : step.after.state.custody = step.before.state.custody) : Effect step
  /-- A change is carried out, by a vote or without one. -/
  | carried {env : Env} {function : ChangeFunction} {event : Option CommitEvent} {s t : State}
      (quiet : step.deposited = []) (still : step.outcome? = none)
      (surroundings : step.before.env = .ok env) (starts : s.custody = step.before.state.custody)
      (done : s.Carried env function event t) (reaches : step.after.state.custody = t.custody) :
      Effect step
  | migrated {env : Env} {outcome : MigrationOutcome} (quiet : step.deposited = [])
      (told : step.outcome? = some outcome) (surroundings : step.before.env = .ok env)
      (done : step.before.state.Migrated env outcome step.after.state) : Effect step
  | depositedNew {u : Utxo} (paid : step.operation = .depositNew u) (still : step.outcome? = none)
      (same : step.after.state.custody = { step.before.state.custody with
        newUtxos := step.before.state.newUtxos ++ [u] }) : Effect step
  | depositedOld {u : Utxo} (paid : step.operation = .depositOld u) (still : step.outcome? = none)
      (same : step.after.state.custody = { step.before.state.custody with
        oldUtxos := step.before.state.oldUtxos ++ [u] }) : Effect step
  | reloaded {store : Store} (read : step.operation = .reload store)
      (still : step.outcome? = none)
      (loaded : step.before.reloaded store = .ok step.after.state) : Effect step

end Step

namespace State

@[simp] theorem custody_newFederation (s : State) : s.custody.newFederation = s.newFederation := rfl

@[simp] theorem custody_oldFederation (s : State) : s.custody.oldFederation = s.oldFederation := rfl

@[simp] theorem custody_pending (s : State) : s.custody.pending = s.pending := rfl

@[simp] theorem custody_newUtxos (s : State) : s.custody.newUtxos = s.newUtxos := rfl

@[simp] theorem custody_oldUtxos (s : State) : s.custody.oldUtxos = s.oldUtxos := rfl

@[simp] theorem custody_pegoutSighashes (s : State) :
    s.custody.pegoutSighashes = s.pegoutSighashes := rfl

@[simp] theorem custody_withElection (s : State) (e : Election) :
    (s.withElection e).custody = s.custody := rfl

variable {s t : State} {env : Env}

/-- Voting for a fee rate changes the votes for it and the rate at most. -/
theorem voteFee_eq (s : State) (c : Constants) (sender : ChainAddress) (fee : Int64) :
    ∃ e rate, (s.voteFee c sender fee).2 = { s with feeElection := e, feePerKb := rate } := by
  unfold voteFee
  split
  · exact ⟨_, _, rfl⟩
  split
  · exact ⟨_, _, rfl⟩
  split
  · exact ⟨_, _, rfl⟩
  split <;> exact ⟨_, _, rfl⟩

theorem updateCreationHeights_eq (h : s.updateCreationHeights env = .ok t) :
    ∃ active next, t = { s with activeCreationHeight := active, nextCreationHeight := next } := by
  unfold updateCreationHeights at h
  split at h
  · cases h
    exact ⟨_, _, rfl⟩
  · obtain ⟨past, _, h⟩ := bind_eq_ok_iff.1 h
    split at h <;> cases h <;> exact ⟨_, _, rfl⟩

theorem takeConfirmed_eq {c : Constants} {block : UInt64} {taken : List Transaction}
    (h : s.takeConfirmed c block = .ok (taken, t)) :
    ∃ waiting, t = { s with waitingPegouts := waiting } := by
  unfold takeConfirmed at h
  obtain ⟨judged, _, h⟩ := bind_eq_ok_iff.1 h
  cases h
  exact ⟨_, rfl⟩

end State

namespace Step

variable {step : Step} {env : Env} {s t : State}

/-- A change of a state with the custody from before a step. -/
theorem effect_of_ends {dryRun : Bool} {function : Option ChangeFunction} {result : ChangeResult}
    (quiet : step.deposited = []) (still : step.outcome? = none)
    (surroundings : step.before.env = .ok env) (starts : s.custody = step.before.state.custody)
    (ends : s.Ends env dryRun function result t)
    (reaches : step.after.state.custody = t.custody) : Effect step := by
  cases ends with
  | untouched => exact .kept quiet still (reaches.trans starts)
  | carried _ _ done => exact .carried quiet still surroundings starts done reaches

/-- A vote is a change or leaves the custody alone. -/
theorem effect_of_cast {sender : ChainAddress} {spec : CallSpec} {ballot : Ballot}
    (quiet : step.deposited = []) (still : step.outcome? = none)
    (surroundings : step.before.env = .ok env)
    (cast : step.before.state.Cast env sender spec ballot t)
    (reaches : step.after.state.custody = t.custody) : Effect step := by
  cases cast with
  | refused => exact .kept quiet still reaches
  | recorded => exact .kept quiet still reaches
  | @executed voted _ _ _ _ _ done =>
    exact effect_of_ends (s := step.before.state.withElection voted) quiet still surroundings rfl
      (State.execute_ends done) reaches

theorem custody_voteFee (s : State) (c : Constants) (sender : ChainAddress) (fee : Int64) :
    (s.voteFee c sender fee).2.custody = s.custody := by
  obtain ⟨e, rate, same⟩ := s.voteFee_eq c sender fee
  rw [same]
  rfl

theorem custody_updateCreationHeights (h : s.updateCreationHeights env = .ok t) :
    t.custody = s.custody := by
  obtain ⟨active, next, rfl⟩ := State.updateCreationHeights_eq h
  rfl

theorem custody_takeConfirmed {c : Constants} {block : UInt64} {taken : List Transaction}
    (h : s.takeConfirmed c block = .ok (taken, t)) : t.custody = s.custody := by
  obtain ⟨waiting, rfl⟩ := State.takeConfirmed_eq h
  rfl

theorem effect_of_performed {b c : Bridge} {operation : Operation} {output : Output}
    (performed : b.perform operation = .ok (output, c)) : Effect ⟨b, operation, output, c⟩ := by
  cases operation with
  | enterBlock block activations =>
    cases performed
    exact .kept rfl rfl rfl
  | vote log sender spec =>
    obtain ⟨env, result, surroundings, done, rfl, _⟩ := Bridge.perform_vote performed
    obtain ⟨ballot, _, _, cast⟩ := State.voteFederationChange_cast done
    exact effect_of_cast rfl rfl surroundings cast rfl
  | create dryRun =>
    obtain ⟨env, result, surroundings, done, rfl, _⟩ := Bridge.perform_create performed
    exact effect_of_ends rfl rfl surroundings rfl (State.createFederation_ends done) rfl
  | addMember dryRun m =>
    obtain ⟨env, result, surroundings, done, rfl, _⟩ := Bridge.perform_addMember performed
    exact effect_of_ends rfl rfl surroundings rfl
      (State.addMember_ends (.inl (Eq.refl ChangeFunction.add)) done) rfl
  | rollback dryRun =>
    obtain ⟨env, result, surroundings, done, rfl, _⟩ := Bridge.perform_rollback performed
    exact effect_of_ends rfl rfl surroundings rfl (State.rollbackFederation_ends done) rfl
  | commit log dryRun hash =>
    obtain ⟨env, result, surroundings, done, rfl, _⟩ := Bridge.perform_commit performed
    exact effect_of_ends rfl rfl surroundings rfl (State.commitFederation_ends done) rfl
  | voteFee sender fee =>
    obtain ⟨response, done, rfl, _⟩ := Bridge.perform_voteFee performed
    refine .kept rfl rfl ?_
    rw [← custody_voteFee b.state b.constants sender fee, done]
  | updateHeights =>
    obtain ⟨env, _, done, rfl, _⟩ := Bridge.perform_updateHeights performed
    exact .kept rfl rfl (custody_updateCreationHeights done)
  | migrate =>
    obtain ⟨env, outcome, surroundings, done, rfl, _⟩ := Bridge.perform_migrate performed
    exact .migrated rfl rfl surroundings (State.processMigration_migrated done)
  | takeConfirmed =>
    obtain ⟨taken, done, rfl, _⟩ := Bridge.perform_takeConfirmed performed
    exact .kept rfl rfl (custody_takeConfirmed done)
  | depositNew u =>
    cases performed
    exact .depositedNew rfl rfl rfl
  | depositOld u =>
    cases performed
    exact .depositedOld rfl rfl rfl
  | reload store =>
    obtain ⟨loaded, rfl, _⟩ := Bridge.perform_reload performed
    exact .reloaded rfl rfl loaded

end Step

end TwoWayPeg
