import TwoWayPeg.Proofs.Announcement
import TwoWayPeg.Proofs.FeeVote
import TwoWayPeg.Proofs.Queue

/-!
# What a step does to the state

`Step.Transition` lists what a step can do to the whole state. A state that a run reaches is loaded
as it was saved, so a reload is none of its cases; `State.Storable` is what that rests on.
-/

namespace TwoWayPeg

/-- The part of the state that changes of the federation leave alone, the outputs, the known pegouts
    and the recorded heights apart. -/
structure Upkeep where
  feeElection : Election
  feePerKb : Option UInt64
  lastRetiredScript : Option Script
  waitingPegouts : List WaitingPegout

namespace State

/-- The upkeep that a state tells of. -/
def upkeep (s : State) : Upkeep where
  feeElection := s.feeElection
  feePerKb := s.feePerKb
  lastRetiredScript := s.lastRetiredScript
  waitingPegouts := s.waitingPegouts

/-- What all states of a run have in common with states that can be stored and read back. -/
structure Storable (s : State) (c : Constants) : Prop where
  on : s.custody.IsOn c.network
  federationAuthorizer : s.federationElection.authorizer = c.federationAuthorizer
  feeAuthorizer : s.feeElection.authorizer = c.feeAuthorizer
  readable : s.QueueReadable

variable {s t : State} {c : Constants} {env : Env}

theorem Storable.persistable (storable : s.Storable c) (fits : s.Fits) : s.Persistable c :=
  ⟨storable.on.new, storable.on.old, storable.federationAuthorizer, storable.feeAuthorizer,
    storable.readable, fits⟩

theorem storable_startAt (c : Constants) (block : Block) (activations : Activations) :
    (Bridge.startAt c block activations).state.Storable c := by
  refine ⟨Bridge.isOn_startAt c block activations, rfl, rfl, ?_⟩
  intro p member
  cases member

theorem Ends.upkeep {dryRun : Bool} {function : Option ChangeFunction} {result : ChangeResult}
    (ends : s.Ends env dryRun function result t) : t.upkeep = s.upkeep := by
  cases ends with
  | untouched => rfl
  | carried _ _ done => cases done <;> rfl

/-- A change keeps the votes on changes or takes all of them away. -/
theorem Ends.kept_or_cleared {dryRun : Bool} {function : Option ChangeFunction}
    {result : ChangeResult} {e : Election} (ends : s.Ends env dryRun function result t)
    (held : s.federationElection = e) :
    t.federationElection = e ∨ t.federationElection = e.clear := by
  subst held
  cases ends with
  | untouched => exact .inl rfl
  | carried _ _ done =>
    cases done with
    | create => exact .inl rfl
    | add => exact .inl rfl
    | rollback => exact .inr rfl
    | commit => exact .inr rfl

theorem upkeep_of_ballot {sender : ChainAddress} {spec : CallSpec} {ballot : Ballot}
    (cast : s.ballot env sender spec = .ok (ballot, t)) : t.upkeep = s.upkeep := by
  cases ballot_cast cast with
  | refused => rfl
  | recorded => rfl
  | executed _ _ done => exact (execute_ends done).upkeep

theorem authorizer_of_ballot {sender : ChainAddress} {spec : CallSpec} {ballot : Ballot}
    (cast : s.ballot env sender spec = .ok (ballot, t)) :
    t.federationElection.authorizer = s.federationElection.authorizer := by
  cases ballot_cast cast with
  | refused => rfl
  | recorded counted => exact Election.authorizer_vote? counted
  | @executed voted _ _ t counted _ done =>
    have kept : t.federationElection.authorizer = voted.authorizer := by
      rcases (execute_ends done).kept_or_cleared rfl with same | cleared
      · rw [same]
        rfl
      · rw [cleared]
        rfl
    exact (Election.authorizer_clearWinner _).trans
      (kept.trans (Election.authorizer_vote? counted))

theorem Migrated.elections {outcome : MigrationOutcome} (done : s.Migrated env outcome t) :
    t.federationElection = s.federationElection ∧ t.feeElection = s.feeElection := by
  cases done with
  | idle => exact ⟨rfl, rfl⟩
  | moved _ _ moves => cases moves <;> exact ⟨rfl, rfl⟩
  | retired _ _ moves => cases moves <;> exact ⟨rfl, rfl⟩

end State

namespace Step

/-- What a step can do to the state. -/
inductive Transition (step : Step) : Prop
  /-- The host chain goes to a block, or the state is loaded as it was saved. -/
  | idle (told : step.output = .nothing) (same : step.after.state = step.before.state) :
      Transition step
  | changed {env : Env} {dryRun : Bool} {function : Option ChangeFunction} {result : ChangeResult}
      (told : step.output = .change result.response) (surroundings : step.before.env = .ok env)
      (ends : step.before.state.Ends env dryRun function result step.after.state) :
      Transition step
  | voted {env : Env} {log : Bool} {sender : ChainAddress} {spec : CallSpec} {ballot : Ballot}
      (called : step.operation = .vote log sender spec)
      (told : step.output = .change ballot.result.response)
      (surroundings : step.before.env = .ok env)
      (cast : step.before.state.ballot env sender spec = .ok (ballot, step.after.state)) :
      Transition step
  | votedFee {sender : ChainAddress} {fee : Int64} {ballot : FeeBallot}
      (called : step.operation = .voteFee sender fee) (told : step.output = .fee ballot.response)
      (cast : step.before.state.feeBallot step.before.constants sender fee =
        (ballot, step.after.state)) : Transition step
  | updated {env : Env} (told : step.output = .nothing) (surroundings : step.before.env = .ok env)
      (done : step.before.state.updateCreationHeights env = .ok step.after.state) :
      Transition step
  | migrated {env : Env} {outcome : MigrationOutcome} (told : step.output = .migration outcome)
      (surroundings : step.before.env = .ok env)
      (done : step.before.state.Migrated env outcome step.after.state) : Transition step
  | took {taken : List Transaction} (told : step.output = .taken taken)
      (done : step.before.state.takeConfirmed step.before.constants step.before.block.number =
        .ok (taken, step.after.state)) : Transition step
  | deposited {new old : List Utxo} (told : step.output = .nothing)
      (same : step.after.state = { step.before.state with newUtxos := new, oldUtxos := old }) :
      Transition step

/-- A state that can be stored is loaded as it was saved. -/
theorem eq_of_reloaded {b : Bridge} {store : Store} {t : State}
    (storable : b.state.Storable b.constants) (fits : b.state.Fits)
    (loaded : b.reloaded store = .ok t) : t = b.state := by
  obtain ⟨saved, ended, read⟩ := Store.load_save (storable.persistable fits) store
  unfold Bridge.reloaded at loaded
  rw [ended] at loaded
  exact Except.ok.inj (loaded.symm.trans read)

theorem transition_of_performed {b c : Bridge} {operation : Operation} {output : Output}
    (performed : b.perform operation = .ok (output, c))
    (storable : b.state.Storable b.constants)
    (stored : operation.reloads = true → b.state.Fits) :
    Transition ⟨b, operation, output, c⟩ := by
  cases operation with
  | enterBlock block activations =>
    cases performed
    exact .idle rfl rfl
  | vote log sender spec =>
    obtain ⟨env, ballot, surroundings, cast, _, told, _⟩ := ballot?_of_vote performed
    exact .voted rfl told surroundings cast
  | create dryRun =>
    obtain ⟨env, result, surroundings, done, told, _⟩ := Bridge.perform_create performed
    exact .changed told surroundings (State.createFederation_ends done)
  | addMember dryRun m =>
    obtain ⟨env, result, surroundings, done, told, _⟩ := Bridge.perform_addMember performed
    have ends : b.state.Ends env dryRun (some .add) result c.state :=
      State.addMember_ends (.inl rfl) done
    exact .changed told surroundings ends
  | rollback dryRun =>
    obtain ⟨env, result, surroundings, done, told, _⟩ := Bridge.perform_rollback performed
    have ends : b.state.Ends env dryRun (some .rollback) result c.state :=
      State.rollbackFederation_ends done
    exact .changed told surroundings ends
  | commit log dryRun hash =>
    obtain ⟨env, result, surroundings, done, told, _⟩ := Bridge.perform_commit performed
    exact .changed told surroundings (State.commitFederation_ends done)
  | voteFee sender fee =>
    obtain ⟨response, done, told, _⟩ := Bridge.perform_voteFee performed
    rw [State.voteFee_eq_feeBallot, Prod.mk.injEq] at done
    obtain ⟨rfl, same⟩ := done
    exact .votedFee rfl told (Prod.ext rfl same)
  | updateHeights =>
    obtain ⟨env, surroundings, done, told, _⟩ := Bridge.perform_updateHeights performed
    exact .updated told surroundings done
  | migrate =>
    obtain ⟨env, outcome, surroundings, done, told, _⟩ := Bridge.perform_migrate performed
    exact .migrated told surroundings (State.processMigration_migrated done)
  | takeConfirmed =>
    obtain ⟨taken, done, told, _⟩ := Bridge.perform_takeConfirmed performed
    exact .took told done
  | depositNew u =>
    cases performed
    exact .deposited rfl rfl
  | depositOld u =>
    cases performed
    exact .deposited rfl rfl
  | reload store =>
    obtain ⟨loaded, told, _⟩ := Bridge.perform_reload performed
    exact .idle told (eq_of_reloaded storable (stored rfl) loaded)

variable {step : Step}

/-- What a step can do to the upkeep. -/
inductive Upkept (step : Step) : Prop
  | kept (quiet : step.outcome? = none) (still : step.taken = [])
      (same : step.after.state.upkeep = step.before.state.upkeep) : Upkept step
  | votedFee {sender : ChainAddress} {fee : Int64} {ballot : FeeBallot}
      (called : step.operation = .voteFee sender fee) (told : step.output = .fee ballot.response)
      (cast : step.before.state.feeBallot step.before.constants sender fee =
        (ballot, step.after.state)) : Upkept step
  | migrated {env : Env} {outcome : MigrationOutcome} (told : step.output = .migration outcome)
      (surroundings : step.before.env = .ok env)
      (done : step.before.state.Migrated env outcome step.after.state) : Upkept step
  | took {taken : List Transaction} (told : step.output = .taken taken)
      (done : step.before.state.takeConfirmed step.before.constants step.before.block.number =
        .ok (taken, step.after.state)) : Upkept step

/-- Only a vote can do more to the votes on changes than take them all away. -/
theorem Transition.federationElection (transition : step.Transition) :
    (step.after.state.federationElection = step.before.state.federationElection ∨
      step.after.state.federationElection = step.before.state.federationElection.clear) ∨
    ∃ env log sender spec ballot, step.operation = .vote log sender spec ∧
      step.before.state.ballot env sender spec = .ok (ballot, step.after.state) := by
  cases transition with
  | idle _ same => exact .inl (.inl (by rw [same]))
  | changed _ _ ends => exact .inl (ends.kept_or_cleared rfl)
  | voted called _ _ cast => exact .inr ⟨_, _, _, _, _, called, cast⟩
  | votedFee _ _ cast =>
    obtain ⟨election, rate, same⟩ := State.feeBallot_eq cast
    exact .inl (.inl (by rw [same]))
  | updated _ _ done =>
    obtain ⟨active, next, same⟩ := State.updateCreationHeights_eq done
    exact .inl (.inl (by rw [same]))
  | migrated _ _ done => exact .inl (.inl done.elections.1)
  | took _ done =>
    obtain ⟨waiting, same⟩ := State.takeConfirmed_eq done
    exact .inl (.inl (by rw [same]))
  | deposited _ same => exact .inl (.inl (by rw [same]))

theorem Transition.upkept (transition : step.Transition) : step.Upkept := by
  cases transition with
  | idle told same => exact .kept (by simp [outcome?, told]) (by simp [taken, told]) (by rw [same])
  | changed told _ ends =>
    exact .kept (by simp [outcome?, told]) (by simp [taken, told]) ends.upkeep
  | voted _ told _ cast =>
    exact .kept (by simp [outcome?, told]) (by simp [taken, told]) (State.upkeep_of_ballot cast)
  | votedFee called told cast => exact .votedFee called told cast
  | updated told _ done =>
    obtain ⟨active, next, same⟩ := State.updateCreationHeights_eq done
    exact .kept (by simp [outcome?, told]) (by simp [taken, told]) (by rw [same]; rfl)
  | migrated told surroundings done => exact .migrated told surroundings done
  | took told done => exact .took told done
  | deposited told same =>
    exact .kept (by simp [outcome?, told]) (by simp [taken, told]) (by rw [same]; rfl)

/-- The script of the retiring federation is recorded when it is decommissioned, and only then is
    another script recorded. -/
theorem Upkept.lastRetiredScript (upkept : step.Upkept) :
    (step.decommissions = false →
      step.after.state.lastRetiredScript = step.before.state.lastRetiredScript) ∧
    ∀ retiring, step.decommissions = true → step.before.retiring = .ok (some retiring) →
      step.after.state.lastRetiredScript = some retiring.p2shScript := by
  have kept (quiet : step.outcome? = none)
      (same : step.after.state.lastRetiredScript = step.before.state.lastRetiredScript) :
      (step.decommissions = false →
        step.after.state.lastRetiredScript = step.before.state.lastRetiredScript) ∧
      ∀ retiring, step.decommissions = true → step.before.retiring = .ok (some retiring) →
        step.after.state.lastRetiredScript = some retiring.p2shScript := by
    refine ⟨fun _ => same, fun retiring gone => ?_⟩
    rw [decommissions, quiet] at gone
    cases gone
  cases upkept with
  | kept quiet _ same => exact kept quiet (congrArg Upkeep.lastRetiredScript same)
  | votedFee _ told cast =>
    obtain ⟨election, rate, same⟩ := State.feeBallot_eq cast
    exact kept (by simp [outcome?, told]) (by rw [same])
  | @migrated env outcome told surroundings done =>
    have gone : step.decommissions = outcome.decommissioned := by
      simp [decommissions, outcome?, told]
    rw [gone]
    generalize step.after.state = t at done ⊢
    cases done with
    | idle => exact ⟨fun _ => rfl, fun _ gone => Bool.noConfusion gone⟩
    | moved _ _ moves =>
      refine ⟨fun _ => ?_, fun _ gone => Bool.noConfusion gone⟩
      cases moves <;> rfl
    | retired replaced =>
      refine ⟨fun stays => Bool.noConfusion stays, fun retiring _ found => ?_⟩
      obtain ⟨env', surroundings', found⟩ := bind_eq_ok_iff.1 found
      cases surroundings.symm.trans surroundings'
      cases replaced.symm.trans found
      rfl
  | took told done =>
    obtain ⟨waiting, same⟩ := State.takeConfirmed_eq done
    exact kept (by simp [outcome?, told]) (by rw [same])

/-- A step only loads a state that it has stored, so the state stays one that can be stored. -/
theorem Transition.storable {c : Constants} (transition : step.Transition) (effect : step.Effect)
    (stored : step.operation.reloads = true → step.before.state.Fits)
    (same : step.before.constants = c) (storable : step.before.state.Storable c) :
    step.after.state.Storable c := by
  subst same
  constructor
  case on => exact effect.isOn stored storable.on
  case federationAuthorizer =>
    rw [← storable.federationAuthorizer]
    rcases transition.federationElection with (kept | cleared) | ⟨_, _, _, _, _, _, cast⟩
    · rw [kept]
    · rw [cleared]
      rfl
    · exact State.authorizer_of_ballot cast
  case feeAuthorizer =>
    rw [← storable.feeAuthorizer]
    cases transition.upkept with
    | kept _ _ same => exact congrArg (fun u => u.feeElection.authorizer) same
    | votedFee _ _ cast => exact (State.feeBallot_cast cast).authorizer
    | migrated _ _ done => rw [done.elections.2]
    | took _ done =>
      obtain ⟨waiting, same⟩ := State.takeConfirmed_eq done
      rw [same]
  case readable =>
    cases transition.upkept with
    | kept _ _ same =>
      have queue : step.after.state.waitingPegouts = step.before.state.waitingPegouts :=
        congrArg Upkeep.waitingPegouts same
      rw [State.QueueReadable, queue]
      exact storable.readable
    | votedFee _ _ cast =>
      obtain ⟨election, rate, same⟩ := State.feeBallot_eq cast
      rw [same]
      exact storable.readable
    | migrated _ _ done =>
      intro p member i input
      rw [done.waitingPegouts, List.mem_append] at member
      rcases member with before | added
      · exact storable.readable p before i input
      · obtain ⟨m, made, rfl⟩ := Option.map_eq_some_iff.1 (Option.mem_toList.1 added)
        rw [TxIn.WitnessFits, done.witness_eq_nil made i input]
        exact ⟨Nat.zero_le _, by decide⟩
    | took _ done =>
      obtain ⟨_, _, same⟩ := State.takeConfirmed_eq_ok_iff.1 done
      intro p member
      rw [same] at member
      exact storable.readable p (List.mem_of_mem_filter member)

end Step

namespace Runs

variable {a b : Bridge} {history : List Step}

theorem storable (run : Runs a history b)
    (stored : ∀ step ∈ history, step.operation.reloads = true → step.before.state.Fits)
    (start : a.state.Storable a.constants) : b.state.Storable b.constants := by
  induction run with
  | refl => exact start
  | step _ performed ih =>
    obtain ⟨earlier, last⟩ := forall_mem_concat.1 stored
    have before := ih earlier
    rw [Bridge.constants_of_perform performed]
    exact (Step.transition_of_performed performed before last).storable
      (Step.effect_of_performed performed) last rfl before

end Runs

end TwoWayPeg
