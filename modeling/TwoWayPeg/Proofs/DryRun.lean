import TwoWayPeg.Proofs.Drain
import TwoWayPeg.Proofs.Rejection

/-!
# What a dry run tells

A dry run of a change looks at the state as the change itself does and stops before anything is
changed. Only whether a federation can be built is found out after that, so the commit of one that
cannot be built is the one change that a dry run gets wrong.
-/

namespace TwoWayPeg

/-- A change of the federation that is asked for directly, without a vote. -/
inductive DirectCall where
  | create
  | addMember (m : Member)
  | rollback
  | commit (log : Bool) (hash : Hash256)

namespace DirectCall

/-- The operation that makes the change, or tries it. -/
def operation (dryRun : Bool) : DirectCall → Operation
  | .create => .create dryRun
  | .addMember m => .addMember dryRun m
  | .rollback => .rollback dryRun
  | .commit log hash => .commit log dryRun hash

/-- Whether an announcement that the change makes is recorded. -/
def logs : DirectCall → Bool
  | .commit log _ => log
  | _ => true

/-- The function that can be voted on for the same change. -/
def function : DirectCall → ChangeFunction
  | .create => .create
  | .addMember _ => .add
  | .rollback => .rollback
  | .commit _ _ => .commit

/-- What the change does to a state. -/
def apply (s : State) (env : Env) (dryRun : Bool) :
    DirectCall → Except PegError (ChangeResult × State)
  | .create => s.createFederation env dryRun
  | .addMember m => .ok (s.addMember dryRun m)
  | .rollback => .ok (s.rollbackFederation dryRun)
  | .commit _ hash => s.commitFederation env dryRun hash

/-- The change commits a federation that cannot be built. -/
def Unbuildable (s : State) (env : Env) : DirectCall → Prop
  | .commit _ _ => ∃ p e, s.pending = some p ∧
      p.build env.block.timestamp env.block.number env.constants env.activations = .error e
  | _ => False

variable {b : Bridge} {s t t' : State} {env : Env} {dryRun : Bool} {call : DirectCall}
  {result told answer : ChangeResult}

theorem perform_operation (call : DirectCall) (dryRun : Bool) (surroundings : b.env = .ok env) :
    b.perform (call.operation dryRun) = call.apply b.state env dryRun >>= fun (result, t) =>
      .ok (.change result.response, b.recordChange call.logs result t) := by
  cases call with
  | create =>
    simp only [operation, Bridge.perform, Bridge.create, surroundings, apply, bind, Except.bind]
    cases b.state.createFederation env dryRun <;> rfl
  | addMember m =>
    simp only [operation, Bridge.perform, Bridge.addMember, surroundings]
    rfl
  | rollback =>
    simp only [operation, Bridge.perform, Bridge.rollback, surroundings]
    rfl
  | commit log hash =>
    simp only [operation, Bridge.perform, Bridge.commit, surroundings, apply, bind, Except.bind]
    cases b.state.commitFederation env dryRun hash <;> rfl

theorem ends_of_apply (done : call.apply s env dryRun = .ok (result, t)) :
    s.Ends env dryRun (some call.function) result t := by
  cases call with
  | create => exact State.createFederation_ends done
  | addMember m => exact State.addMember_ends (.inl rfl) (Except.ok.inj done)
  | rollback => exact State.rollbackFederation_ends (Except.ok.inj done)
  | commit log hash => exact State.commitFederation_ends done

end DirectCall

namespace Env

theorem overflow_of_isPast {env : Env} {created : UInt64} {e : PegError}
    (failed : env.isPast created = .error e) : ∃ cause, e = .overflow cause := by
  rcases bind_eq_error_iff.1 failed with due | ⟨_, _, failed⟩
  · exact overflow_of_addChecked due
  · cases failed

end Env

namespace State

variable {s t t' : State} {env : Env} {e : PegError} {hash : Hash256} {told answer : ChangeResult}

theorem overflow_of_awaiting (failed : s.awaiting env = .error e) : ∃ cause, e = .overflow cause := by
  unfold awaiting at failed
  split at failed
  · next new _ =>
    cases decided : env.shouldBeActive new with
    | error e' =>
      rw [decided] at failed
      cases failed
      exact Env.overflow_of_isPast decided
    | ok past =>
      rw [decided] at failed
      cases failed
  · cases failed

theorem overflow_of_retiringFederation (failed : s.retiringFederation env = .error e) :
    ∃ cause, e = .overflow cause := by
  unfold retiringFederation at failed
  split at failed
  · cases failed
  · rcases bind_eq_error_iff.1 failed with undecided | ⟨_, _, failed⟩
    · exact Env.overflow_of_isPast undecided
    · split at failed <;> cases failed

theorem overflow_of_activeFederation (failed : s.activeFederation env = .error e) :
    ∃ cause, e = .overflow cause := by
  unfold activeFederation at failed
  split at failed
  · cases failed
  · rcases bind_eq_error_iff.1 failed with undecided | ⟨_, _, failed⟩
    · exact Env.overflow_of_isPast undecided
    · split at failed <;> cases failed

theorem overflow_of_createFederation {dryRun : Bool}
    (failed : s.createFederation env dryRun = .error e) : ∃ cause, e = .overflow cause := by
  rw [createFederation_eq] at failed
  split at failed
  · cases failed
  rcases bind_eq_error_iff.1 failed with undecided | ⟨_, _, failed⟩
  · exact overflow_of_awaiting undecided
  split at failed
  · cases failed
  rcases bind_eq_error_iff.1 failed with undecided | ⟨_, _, failed⟩
  · exact overflow_of_retiringFederation undecided
  split at failed
  · cases failed
  · split at failed <;> cases failed

/-- A commit of the pending federation fails only by an overflow. -/
theorem overflow_of_commitAssembled {p : PendingFederation}
    (failed : s.commitAssembled env p = .error e) : ∃ cause, e = .overflow cause := by
  unfold commitAssembled at failed
  split at failed
  · cases failed
  split at failed
  · cases failed
    exact ⟨_, rfl⟩
  · cases failed
  rcases bind_eq_error_iff.1 failed with active | ⟨_, _, failed⟩
  · exact overflow_of_activeFederation active
  rcases bind_eq_error_iff.1 failed with due | ⟨_, _, failed⟩
  · exact overflow_of_addChecked due
  · cases failed

/-- A commit is refused whether it is a dry run or not, or it is that of the pending federation. -/
theorem commitFederation_cases (s : State) (env : Env) (hash : Hash256) :
    (∃ response, response ≠ .success ∧
      ∀ dryRun, s.commitFederation env dryRun hash = .ok ({ response }, s)) ∨
    ∃ p, s.pending = some p ∧ p.isComplete = true ∧
      s.commitFederation env true hash = .ok ({ response := .success }, s) ∧
      s.commitFederation env false hash = s.commitAssembled env p := by
  cases assembling : s.pending with
  | none =>
    refine .inl ⟨.noPendingFederation, by decide, fun dryRun => ?_⟩
    simp only [commitFederation, assembling]
    rfl
  | some p =>
    by_cases complete : p.isComplete = true
    · by_cases named : p.hash = hash
      · subst named
        exact .inr ⟨p, rfl, complete, commitFederation_dryRun assembling complete,
          commitFederation_hash assembling⟩
      · refine .inl ⟨.hashMismatch, by decide, fun dryRun => ?_⟩
        simp only [commitFederation, assembling, complete]
        rw [if_neg (by decide), if_pos named]
        rfl
    · refine .inl ⟨.incompleteFederation, by decide, fun dryRun => ?_⟩
      rw [Bool.not_eq_true] at complete
      simp only [commitFederation, assembling, complete]
      rfl

/-- The commit of the pending federation succeeds just if the federation can be built. -/
theorem answer_of_commitAssembled {p : PendingFederation} (complete : p.isComplete = true)
    (done : s.commitAssembled env p = .ok (answer, t)) :
    (∃ new, p.build env.block.timestamp env.block.number env.constants env.activations = .ok new) ∧
        answer.response = .success ∨
      (∃ e, p.build env.block.timestamp env.block.number env.constants env.activations = .error e) ∧
        answer.response = .genericError := by
  unfold commitAssembled at done
  rw [complete, if_neg (by decide)] at done
  split at done
  · cases done
  · next cause _ built =>
    cases done
    exact .inr ⟨⟨cause, built⟩, rfl⟩
  · next new built =>
    obtain ⟨active, _, done⟩ := bind_eq_ok_iff.1 done
    obtain ⟨due, _, done⟩ := bind_eq_ok_iff.1 done
    cases done
    exact .inl ⟨⟨new, built⟩, rfl⟩

end State

namespace DirectCall

variable {b : Bridge} {s t t' : State} {env : Env} {call : DirectCall}
  {told answer : ChangeResult}

/-- A change fails only by an overflow. If it does not, a dry run of it does not either. -/
theorem exists_apply (call : DirectCall)
    (sound : ∀ cause, call.apply s env false ≠ .error (.overflow cause)) :
    ∃ told t answer t', call.apply s env true = .ok (told, t) ∧
      call.apply s env false = .ok (answer, t') := by
  have ended {e : PegError} (failed : call.apply s env false = .error e)
      (overflow : ∃ cause, e = .overflow cause) : False := by
    obtain ⟨cause, rfl⟩ := overflow
    exact sound cause failed
  cases call with
  | create =>
    have same := State.createFederation_answer s env s.federationElection true false
    cases done : s.createFederation env false with
    | error e => exact (ended done (State.overflow_of_createFederation done)).elim
    | ok r =>
      cases tried : s.createFederation env true with
      | error e =>
        rw [done, show s.withElection s.federationElection = s from rfl, tried] at same
        cases same
      | ok r' => exact ⟨r'.1, r'.2, r.1, r.2, tried, done⟩
  | addMember m => exact ⟨_, _, _, _, rfl, rfl⟩
  | rollback => exact ⟨_, _, _, _, rfl, rfl⟩
  | commit log hash =>
    rcases s.commitFederation_cases env hash with ⟨response, _, refused⟩ | ⟨p, _, _, tried, real⟩
    · exact ⟨_, _, _, _, refused true, refused false⟩
    · cases done : s.commitAssembled env p with
      | error e => exact (ended (real.trans done) (State.overflow_of_commitAssembled done)).elim
      | ok r => exact ⟨_, _, r.1, r.2, tried, real.trans done⟩

/-- The answers of a dry run and of the change differ only if the change commits a federation that
    cannot be built. -/
theorem answer_of_dryRun (tried : call.apply s env true = .ok (told, t))
    (done : call.apply s env false = .ok (answer, t')) :
    (told.response = .success → (answer.response = .genericError ↔ call.Unbuildable s env)) ∧
      (¬ (told.response = .success ∧ call.Unbuildable s env) →
        answer.response = told.response) := by
  have agree (same : answer = told) (buildable : ¬ call.Unbuildable s env) :
      (told.response = .success → (answer.response = .genericError ↔ call.Unbuildable s env)) ∧
        (¬ (told.response = .success ∧ call.Unbuildable s env) →
          answer.response = told.response) := by
    subst same
    exact ⟨fun success => iff_of_false (by rw [success]; decide) buildable, fun _ => rfl⟩
  cases call with
  | create =>
    have same := State.createFederation_answer s env s.federationElection true false
    rw [show s.createFederation env false = .ok (answer, t') from done,
      show (s.withElection s.federationElection).createFederation env true = .ok (told, t)
        from tried] at same
    exact agree (Except.ok.inj same).symm id
  | addMember m =>
    have same := State.addMember_answer s s.federationElection false true m
    rw [show s.addMember true m = (told, t) from Except.ok.inj tried,
      show (s.withElection s.federationElection).addMember false m = (answer, t')
        from Except.ok.inj done] at same
    exact agree same id
  | rollback =>
    have same := State.rollbackFederation_answer s s.federationElection false true
    rw [show s.rollbackFederation true = (told, t) from Except.ok.inj tried,
      show (s.withElection s.federationElection).rollbackFederation false = (answer, t')
        from Except.ok.inj done] at same
    exact agree same id
  | commit log hash =>
    rcases s.commitFederation_cases env hash with
      ⟨response, failure, refused⟩ | ⟨p, assembling, complete, success, real⟩
    · cases (refused true).symm.trans tried
      cases (refused false).symm.trans done
      exact ⟨fun success => absurd success failure, fun _ => rfl⟩
    · cases success.symm.trans tried
      have built := State.answer_of_commitAssembled complete (real.symm.trans done)
      have unbuildable : Unbuildable s env (.commit log hash) ↔ ∃ e, p.build env.block.timestamp
          env.block.number env.constants env.activations = .error e := by
        constructor
        · rintro ⟨q, e, assembling', failed⟩
          cases assembling.symm.trans assembling'
          exact ⟨e, failed⟩
        · rintro ⟨e, failed⟩
          exact ⟨p, e, assembling, failed⟩
      rw [unbuildable]
      rcases built with ⟨⟨new, built⟩, answered⟩ | ⟨failed, answered⟩
      · rw [answered, built]
        simp
      · rw [answered]
        exact ⟨fun _ => iff_of_true rfl failed, fun differs => absurd ⟨rfl, failed⟩ differs⟩

/-- Let a change not end in an overflow. A dry run of it leaves the state and the announcements alone,
    and so does the change itself unless it succeeds. Both have the same answer, unless the dry run
    succeeds and the change commits a federation that cannot be built: then the answer to the change
    is a general error, which is never so otherwise after a dry run that succeeds. -/
theorem dry_run_foretells (call : DirectCall) (surroundings : b.env = .ok env)
    (sound : ∀ cause, b.perform (call.operation false) ≠ .error (.overflow cause)) :
    ∃ told dry answer real,
      b.perform (call.operation true) = .ok (.change told, dry) ∧
      b.perform (call.operation false) = .ok (.change answer, real) ∧
      (dry.state = b.state ∧ dry.events = b.events) ∧
      (answer ≠ .success → real.state = b.state ∧ real.events = b.events) ∧
      (told = .success → (answer = .genericError ↔ call.Unbuildable b.state env)) ∧
      (¬ (told = .success ∧ call.Unbuildable b.state env) → answer = told) := by
  rw [perform_operation call false surroundings] at sound ⊢
  rw [perform_operation call true surroundings]
  obtain ⟨told, dry, answer, real, tried, done⟩ := call.exists_apply fun cause failed =>
    sound cause (bind_eq_error_iff.2 (.inl failed))
  obtain ⟨failing, agreeing⟩ := answer_of_dryRun tried done
  have untouched {response : ChangeResponse} :
      (b.recordChange call.logs { response } b.state).state = b.state ∧
        (b.recordChange call.logs { response } b.state).events = b.events := by
    refine ⟨rfl, ?_⟩
    cases logged : call.logs <;> exact List.append_nil _
  refine ⟨_, _, _, _, by rw [tried]; rfl, by rw [done]; rfl, ?_, ?_, failing, agreeing⟩
  · cases ends_of_apply tried with
    | untouched => exact untouched
    | carried real => cases real
  · intro failure
    cases ends_of_apply done with
    | untouched => exact untouched
    | carried => exact absurd rfl failure

/-- A dry run of the commit of fourteen members succeeds, and the commit ends with a general error.
    Neither changes anything. -/
theorem dry_run_foretells_of_crowd :
    ∃ (b : Bridge) (env : Env) (dry real : Bridge), b.env = .ok env ∧
      b.state.pending = some Scenario.crowd ∧
      (∀ cause, b.perform (.commit true false Scenario.crowd.hash) ≠ .error (.overflow cause)) ∧
      b.perform (.commit true true Scenario.crowd.hash) = .ok (.change .success, dry) ∧
      b.perform (.commit true false Scenario.crowd.hash) = .ok (.change .genericError, real) ∧
      (dry.state = b.state ∧ dry.events = b.events) ∧
      real.state = b.state ∧ real.events = b.events := by
  let b : Bridge := { Bridge.startAt .regtest ⟨5, 0⟩ .all with
    state := { State.initial .regtest with pending := some Scenario.crowd } }
  have set : b.env.toOption.isSome = true := by decide +kernel
  obtain ⟨env, surroundings⟩ := Option.isSome_iff_exists.1 set
  rw [toOption_eq_some_iff] at surroundings
  obtain ⟨constants, activations, block⟩ := Bridge.env_eq_ok surroundings
  have assembling : b.state.pending = some Scenario.crowd := rfl
  have complete : Scenario.crowd.isComplete = true := by decide
  have failed : Scenario.crowd.build env.block.timestamp env.block.number env.constants
      env.activations = .error (.address .scriptTooLong) := by
    rw [constants, activations, block]
    exact Scenario.build_crowd
  have done : b.perform (operation false (.commit true Scenario.crowd.hash)) =
      .ok (.change .genericError, b.recordChange true { response := .genericError } b.state) := by
    rw [perform_operation _ _ surroundings, apply, State.commitFederation_hash assembling,
      State.commitAssembled, complete, failed]
    rfl
  have sound : ∀ cause, b.perform (operation false (.commit true Scenario.crowd.hash)) ≠
      .error (.overflow cause) := by
    rw [done]
    simp
  obtain ⟨told, dry, answer, real, tried, done', silent, untouched, _⟩ :=
    dry_run_foretells _ surroundings sound
  have success := tried
  rw [perform_operation _ _ surroundings, apply, State.commitFederation_dryRun assembling complete]
    at success
  cases success
  cases done.symm.trans done'
  exact ⟨b, env, _, _, surroundings, assembling, sound, tried, done, silent, untouched (by decide)⟩

end DirectCall

end TwoWayPeg
