import TwoWayPeg.Proofs.ActiveFederation

/-!
# What a commit announces

A commit announces the federation that it installs, the one that was active until then, and the
block from which the new one is active. `Step.Succession` lists what a step can do to the two
federations and what it announces. As long as the activation age stays and no other federation is
committed, the announcement, the block and whether the old federation has been decommissioned tell
which federation is active and which is retiring.
-/

namespace TwoWayPeg

/-- Whether an announcement of the operation is recorded. -/
def Operation.logs : Operation → Bool
  | .vote log _ _ | .commit log _ _ => log
  | _ => true

/-- The new and the old federation are on a network. -/
structure Custody.IsOn (c : Custody) (network : Network) : Prop where
  new : ∀ f ∈ c.newFederation, f.network = network
  old : ∀ f ∈ c.oldFederation, f.network = network

theorem Federation.network_of_ofMembers {members : List Member} {time created : UInt64}
    {network : Network} {kind : FederationKind} {f : Federation}
    (built : ofMembers members time created network kind = .ok f) : f.network = network :=
  (parts_of_ofMembers built).2.2.2.1

namespace State

variable {s t : State} {env : Env} {f : Federation}

/-- Which federation is active depends on the two federations only. -/
theorem activeFederation_congr (same : s.custody = t.custody) :
    s.activeFederation env = t.activeFederation env := by
  have new : s.newFederation = t.newFederation := congrArg Custody.newFederation same
  have old : s.oldFederation = t.oldFederation := congrArg Custody.oldFederation same
  rw [activeFederation, activeFederation, new, old]

theorem network_of_active (on : s.custody.IsOn env.constants.network)
    (active : s.activeFederation env = .ok f) : f.network = env.constants.network := by
  unfold activeFederation at active
  split at active
  · cases active
    exact Federation.network_of_ofMembers env.isGenesis
  next new found =>
  obtain ⟨past, _, active⟩ := bind_eq_ok_iff.1 active
  split at active
  · cases active
    exact on.new f found
  · cases active
    cases old : s.oldFederation with
    | none => exact Federation.network_of_ofMembers env.isGenesis
    | some old' => exact on.old old' old

theorem Carried.isOn {function : ChangeFunction} {event : Option CommitEvent}
    (done : s.Carried env function event t) (on : s.custody.IsOn env.constants.network) :
    t.custody.IsOn env.constants.network := by
  cases done with
  | create => exact ⟨on.new, on.old⟩
  | add => exact ⟨on.new, on.old⟩
  | rollback => exact ⟨on.new, on.old⟩
  | commit _ _ built replaces _ =>
    constructor
    · intro f found
      cases found
      exact Federation.network_of_ofMembers built
    · intro f found
      cases found
      exact network_of_active on replaces

theorem Migrated.isOn {outcome : MigrationOutcome} {network : Network}
    (done : s.Migrated env outcome t) (on : s.custody.IsOn network) : t.custody.IsOn network := by
  cases done with
  | idle => exact on
  | moved _ _ moves _ =>
    obtain ⟨new, old, _⟩ := moves.keeps
    constructor
    · intro f found
      exact on.new f (new.symm.trans found)
    · intro f found
      exact on.old f (old.symm.trans found)
  | retired _ _ moves _ =>
    constructor
    · intro f found
      exact on.new f (moves.keeps.1.symm.trans found)
    · intro f found
      cases found

/-- Federations on the network of the constants are loaded as they were. -/
theorem Restores.federations {network : Network} (restores : s.Restores t network)
    (on : s.custody.IsOn network) :
    t.newFederation = s.newFederation ∧ t.oldFederation = s.oldFederation := by
  exact ⟨restores.newFederation.trans (map_withNetwork on.new),
    restores.oldFederation.trans (map_withNetwork on.old)⟩

end State

namespace Bridge

theorem isOn_startAt (c : Constants) (block : Block) (activations : Activations) :
    (startAt c block activations).state.custody.IsOn c.network := by
  constructor
  · intro f found
    cases found
  · intro f found
    cases found

/-- The retiring federation in the block of the peg. -/
def retiring (b : Bridge) : Except PegError (Option Federation) :=
  b.env >>= b.state.retiringFederation

variable {b c : Bridge} {env : Env}

/-- The genesis federation depends on the constants only. -/
theorem env_of_constants (same : c.constants = b.constants) (surroundings : b.env = .ok env) :
    ∃ env', c.env = .ok env' := by
  unfold Bridge.env Env.create at surroundings ⊢
  split at surroundings
  · next genesis isGenesis =>
    rw [same]
    split
    · exact ⟨_, rfl⟩
    · next failed =>
      rw [isGenesis] at failed
      cases failed
  · cases surroundings

end Bridge

namespace Step

/-- What the commit in a step announces. -/
structure Announces (step : Step) (event : CommitEvent) : Prop where
  block : event.block = step.before.block.number
  replaced : step.before.active = .ok event.oldFederation
  built : ∃ pending, step.before.state.pending = some pending ∧
    pending.build step.before.block.timestamp step.before.block.number step.before.constants
      step.before.activations = .ok event.newFederation
  installed : step.after.state.newFederation = some event.newFederation
  due : event.activationBlock.toNat =
    step.before.block.number.toNat + step.before.activationAge.toNat

/-- What a step can do to the two federations, and what it announces. -/
inductive Succession (step : Step) : Prop
  | kept (quiet : ¬ step.Commits) (silent : step.after.events = step.before.events)
      (stays : step.decommissions = false)
      (new : step.after.state.newFederation = step.before.state.newFederation)
      (old : step.after.state.oldFederation = step.before.state.oldFederation) : Succession step
  | committed {event : CommitEvent} (commits : step.Commits) (announces : step.Announces event)
      (told : step.after.events =
        step.before.events ++ if step.operation.logs then [event] else [])
      (setting : step.before.SameSetting step.after) (stays : step.decommissions = false)
      (old : step.after.state.oldFederation = some event.oldFederation) : Succession step
  | retired {retiring : Federation} (quiet : ¬ step.Commits)
      (silent : step.after.events = step.before.events) (gone : step.decommissions = true)
      (replaced : step.before.retiring = .ok (some retiring))
      (setting : step.before.SameSetting step.after)
      (new : step.after.state.newFederation = step.before.state.newFederation)
      (old : step.after.state.oldFederation = none) : Succession step

variable {step : Step}

/-- Whether a commit that is no vote succeeds. -/
def commitsDirectly (step : Step) : Bool :=
  match step.operation, step.output with
  | .commit _ false _, .change response => response = .success
  | _, _ => false

/-- Whether a commit that has won a vote succeeds. -/
def commitsByVote (step : Step) : Bool :=
  match step.ballot? with
  | some (.executed call result) =>
    ChangeFunction.ofName? call.function = some .commit ∧ result.response.isSuccess
  | _ => false

theorem commitsDirectly_iff : step.commitsDirectly = true ↔
    ∃ log hash, step.operation = .commit log false hash ∧ step.output = .change .success := by
  unfold commitsDirectly
  split
  · next called answer =>
    rw [called, answer]
    simp
  · next other =>
    refine iff_of_false Bool.false_ne_true ?_
    rintro ⟨log, hash, called, answer⟩
    exact other _ _ _ called answer

theorem commitsByVote_iff : step.commitsByVote = true ↔
    ∃ call result, step.ballot? = some (.executed call result) ∧
      ChangeFunction.ofName? call.function = some .commit ∧ result.response.isSuccess := by
  unfold commitsByVote
  split
  · next call result known =>
    rw [known]
    simp
  · next other =>
    refine iff_of_false Bool.false_ne_true ?_
    rintro ⟨call, result, known, _⟩
    exact other _ _ known

instance (step : Step) : Decidable step.Commits :=
  decidable_of_iff (step.commitsDirectly = true ∨ step.commitsByVote = true)
    (or_congr commitsDirectly_iff commitsByVote_iff)

/-- Only a commit for real and a vote can commit a federation. -/
theorem not_commits (called : ∀ log hash, step.operation ≠ .commit log false hash)
    (unvoted : step.ballot? = none) : ¬ step.Commits := by
  rintro (⟨log, hash, direct, _⟩ | ⟨call, result, known, _⟩)
  · exact called log hash direct
  · rw [unvoted] at known
    cases known

theorem commits_iff_of_ballot {ballot : Ballot} (known : step.ballot? = some ballot) :
    step.Commits ↔ ∃ call result, ballot = .executed call result ∧
      ChangeFunction.ofName? call.function = some .commit ∧ result.response.isSuccess = true := by
  constructor
  · rintro (⟨log, hash, direct, _⟩ | ⟨call, result, executed, named, success⟩)
    · obtain ⟨_, _, _, _, _, voted, _⟩ := ballot?_eq_some known
      rw [direct] at voted
      cases voted
    · rw [known] at executed
      exact ⟨call, result, Option.some.inj executed, named, success⟩
  · rintro ⟨call, result, rfl, named, success⟩
    exact .inr ⟨call, result, known, named, success⟩

/-- The event of a commit that is carried out announces what the step does. -/
theorem announces_of_carried {env : Env} {s t : State} {event : CommitEvent}
    (surroundings : step.before.env = .ok env) (starts : s.custody = step.before.state.custody)
    (reaches : step.after.state.custody = t.custody)
    (done : s.Carried env .commit (some event) t) : step.Announces event := by
  obtain ⟨constants, activations, block⟩ := Bridge.env_eq_ok surroundings
  cases done with
  | @commit pending new active due assembling _ built replaces added =>
    constructor
    case block => rw [block]
    case replaced =>
      rw [State.activeFederation_congr starts] at replaces
      exact bind_eq_ok_iff.2 ⟨env, surroundings, replaces⟩
    case built =>
      refine ⟨pending, ?_, ?_⟩
      · exact (congrArg Custody.pending starts).symm.trans assembling
      · rw [← constants, ← activations, ← block]
        exact built
    case installed => exact congrArg Custody.newFederation reaches
    case due =>
      rw [addChecked_eq_ok_iff, Bridge.activationAge_env surroundings, block] at added
      exact added.symm

/-- A change of a state with the custody from before a step. -/
theorem succession_of_ends {env : Env} {s t : State} {dryRun : Bool}
    {function : Option ChangeFunction} {result : ChangeResult}
    (surroundings : step.before.env = .ok env) (starts : s.custody = step.before.state.custody)
    (ends : s.Ends env dryRun function result t) (reaches : step.after.state.custody = t.custody)
    (proceeds : step.before.Proceeds (result.recorded step.operation.logs) step.after)
    (stays : step.decommissions = false)
    (commits : step.Commits ↔
      dryRun = false ∧ function = some .commit ∧ result.response.isSuccess = true) :
    Succession step := by
  have kept (quiet : ¬ step.Commits) (silent : result.event = none)
      (new : t.newFederation = s.newFederation) (old : t.oldFederation = s.oldFederation) :
      Succession step := by
    refine .kept quiet ?_ stays ?_ ?_
    · rw [proceeds.events, ChangeResult.recorded, silent]
      simp
    · exact (congrArg Custody.newFederation reaches).trans
        (new.trans (congrArg Custody.newFederation starts))
    · exact (congrArg Custody.oldFederation reaches).trans
        (old.trans (congrArg Custody.oldFederation starts))
  cases ends with
  | untouched real =>
    refine kept ?_ rfl rfl rfl
    rw [commits]
    rintro ⟨wet, _, success⟩
    rw [real wet] at success
    cases success
  | carried real named done =>
    have other {f : ChangeFunction} (differs : f ≠ .commit) (named : function = some f) :
        ¬ step.Commits := by
      rw [commits, named]
      rintro ⟨_, same, _⟩
      exact differs (Option.some.inj same)
    cases done with
    | create => exact kept (other (by decide) named) rfl rfl rfl
    | add adds =>
      refine kept (other ?_ named) rfl rfl rfl
      rcases adds with rfl | rfl <;> decide
    | rollback => exact kept (other (by decide) named) rfl rfl rfl
    | commit assembling complete built replaces added =>
      have announces := announces_of_carried surroundings starts reaches
        (.commit assembling complete built replaces added)
      refine .committed (commits.2 ⟨real, named, rfl⟩) announces ?_ proceeds.setting stays
        (congrArg Custody.oldFederation reaches)
      exact proceeds.events

/-- A vote is a change or leaves the federations alone. -/
theorem succession_of_cast {env : Env} {sender : ChainAddress} {spec : CallSpec} {ballot : Ballot}
    {t : State} (surroundings : step.before.env = .ok env)
    (cast : step.before.state.Cast env sender spec ballot t)
    (reaches : step.after.state.custody = t.custody) (known : step.ballot? = some ballot)
    (proceeds : step.before.Proceeds (ballot.result.recorded step.operation.logs) step.after)
    (stays : step.decommissions = false) : Succession step := by
  have kept (quiet : ∀ call result, ballot ≠ .executed call result)
      (silent : ballot.result.event = none)
      (same : step.after.state.custody = step.before.state.custody) : Succession step := by
    refine .kept ?_ ?_ stays (congrArg Custody.newFederation same)
      (congrArg Custody.oldFederation same)
    · rw [commits_iff_of_ballot known]
      rintro ⟨call, result, executed, _⟩
      exact quiet call result executed
    · rw [proceeds.events, ChangeResult.recorded, silent]
      simp
  cases cast with
  | refused => exact kept (by simp) rfl reaches
  | recorded => exact kept (by simp) rfl reaches
  | @executed voted winner result t counted won done =>
    have starts : (step.before.state.withElection voted).custody = step.before.state.custody := rfl
    refine succession_of_ends surroundings starts (State.execute_ends done) reaches proceeds stays ?_
    rw [commits_iff_of_ballot known]
    constructor
    · rintro ⟨_, _, executed, named, success⟩
      cases executed
      exact ⟨rfl, named, success⟩
    · rintro ⟨_, named, success⟩
      exact ⟨winner, result, rfl, named, success⟩

/-- A migration keeps the federations or decommissions the retiring one. -/
theorem succession_of_migrated {b c : Bridge} {env : Env} {outcome : MigrationOutcome}
    (surroundings : b.env = .ok env) (done : b.state.Migrated env outcome c.state)
    (proceeds : b.Proceeds [] c) : Succession ⟨b, .migrate, .migration outcome, c⟩ := by
  have quiet : ¬ Commits ⟨b, .migrate, .migration outcome, c⟩ :=
    not_commits (by simp) rfl
  have silent : c.events = b.events := by rw [proceeds.events, List.append_nil]
  generalize after : c.state = t at done
  cases done with
  | idle => exact .kept quiet silent rfl (congrArg _ after) (congrArg _ after)
  | moved _ _ moves _ =>
    obtain ⟨new, old, _⟩ := moves.keeps
    rw [← after] at new old
    exact .kept quiet silent rfl new old
  | retired replaced _ moves _ =>
    refine .retired quiet silent rfl (bind_eq_ok_iff.2 ⟨env, surroundings, replaced⟩)
      proceeds.setting ?_ ?_
    · exact (congrArg State.newFederation after).trans moves.keeps.1
    · exact congrArg State.oldFederation after

/-- Federations that are on the network of the constants are not changed by a reload. -/
theorem succession_of_performed {b c : Bridge} {operation : Operation} {output : Output}
    (performed : b.perform operation = .ok (output, c))
    (stored : operation.reloads = true → b.state.Fits)
    (on : b.state.custody.IsOn b.constants.network) :
    Succession ⟨b, operation, output, c⟩ := by
  have kept (quiet : ¬ Commits ⟨b, operation, output, c⟩)
      (stays : decommissions ⟨b, operation, output, c⟩ = false)
      (proceeds : b.Proceeds [] c) (same : c.state.custody = b.state.custody) :
      Succession ⟨b, operation, output, c⟩ := by
    refine .kept quiet ?_ stays (congrArg Custody.newFederation same)
      (congrArg Custody.oldFederation same)
    rw [proceeds.events, List.append_nil]
  cases operation with
  | enterBlock block activations =>
    cases performed
    exact .kept (not_commits (by simp) rfl) rfl rfl rfl rfl
  | vote log sender spec =>
    obtain ⟨env, ballot, surroundings, voted, known, rfl, proceeds⟩ := ballot?_of_vote performed
    exact succession_of_cast surroundings (State.ballot_cast voted) rfl known proceeds rfl
  | create dryRun =>
    obtain ⟨env, result, surroundings, done, rfl, proceeds⟩ := Bridge.perform_create performed
    exact succession_of_ends surroundings rfl (State.createFederation_ends done) rfl proceeds rfl
      (iff_of_false (not_commits (by simp) rfl) (by simp))
  | addMember dryRun m =>
    obtain ⟨env, result, surroundings, done, rfl, proceeds⟩ := Bridge.perform_addMember performed
    exact succession_of_ends surroundings rfl
      (State.addMember_ends (.inl (Eq.refl ChangeFunction.add)) done) rfl proceeds rfl
      (iff_of_false (not_commits (by simp) rfl) (by simp))
  | rollback dryRun =>
    obtain ⟨env, result, surroundings, done, rfl, proceeds⟩ := Bridge.perform_rollback performed
    exact succession_of_ends surroundings rfl (State.rollbackFederation_ends done) rfl proceeds rfl
      (iff_of_false (not_commits (by simp) rfl) (by simp))
  | commit log dryRun hash =>
    obtain ⟨env, result, surroundings, done, rfl, proceeds⟩ := Bridge.perform_commit performed
    have ends := State.commitFederation_ends done
    refine succession_of_ends surroundings rfl ends rfl proceeds rfl ?_
    constructor
    · rintro (⟨_, _, called, answer⟩ | ⟨_, _, executed, _⟩)
      · cases called
        rw [Output.change.injEq] at answer
        rw [answer]
        exact ⟨rfl, rfl, rfl⟩
      · cases executed
    · rintro ⟨rfl, _, success⟩
      refine .inl ⟨log, hash, rfl, ?_⟩
      generalize c.state = t at ends
      cases ends with
      | untouched real =>
        rw [real rfl] at success
        cases success
      | carried => rfl
  | voteFee sender fee =>
    obtain ⟨response, done, rfl, proceeds⟩ := Bridge.perform_voteFee performed
    refine kept (not_commits (by simp) rfl) rfl proceeds ?_
    rw [← custody_voteFee b.state b.constants sender fee, done]
  | updateHeights =>
    obtain ⟨env, _, done, rfl, proceeds⟩ := Bridge.perform_updateHeights performed
    exact kept (not_commits (by simp) rfl) rfl proceeds (custody_updateCreationHeights done)
  | migrate =>
    obtain ⟨env, outcome, surroundings, done, rfl, proceeds⟩ := Bridge.perform_migrate performed
    exact succession_of_migrated surroundings (State.processMigration_migrated done) proceeds
  | takeConfirmed =>
    obtain ⟨taken, done, rfl, proceeds⟩ := Bridge.perform_takeConfirmed performed
    exact kept (not_commits (by simp) rfl) rfl proceeds (custody_takeConfirmed done)
  | depositNew u =>
    cases performed
    exact .kept (not_commits (by simp) rfl) rfl rfl rfl rfl
  | depositOld u =>
    cases performed
    exact .kept (not_commits (by simp) rfl) rfl rfl rfl rfl
  | reload store =>
    obtain ⟨loaded, rfl, proceeds⟩ := Bridge.perform_reload performed
    obtain ⟨new, old⟩ := (Bridge.reloaded_restores (stored rfl) loaded).federations on
    refine .kept (not_commits (by simp) rfl) ?_ rfl new old
    rw [proceeds.events, List.append_nil]

/-- A step keeps the federations on the network of the constants. -/
theorem Effect.isOn (effect : Effect step)
    (stored : step.operation.reloads = true → step.before.state.Fits)
    (on : step.before.state.custody.IsOn step.before.constants.network) :
    step.after.state.custody.IsOn step.before.constants.network := by
  cases effect with
  | kept _ _ same => exact same ▸ on
  | @carried env function event s t _ _ surroundings starts done reaches =>
    rw [← (Bridge.env_eq_ok surroundings).1] at on ⊢
    rw [reaches]
    exact done.isOn (starts ▸ on)
  | migrated _ _ _ done => exact done.isOn on
  | depositedNew _ _ same =>
    rw [same]
    exact ⟨on.new, on.old⟩
  | depositedOld _ _ same =>
    rw [same]
    exact ⟨on.new, on.old⟩
  | reloaded read _ loaded =>
    have fits := stored (by rw [read]; rfl)
    obtain ⟨new, old⟩ := (Bridge.reloaded_restores fits loaded).federations on
    constructor
    · intro f found
      exact on.new f (new.symm.trans found)
    · intro f found
      exact on.old f (old.symm.trans found)

end Step

namespace Bridge

/-- The federations are those of an announcement; the old one may be gone, but not before the new
    one became active. -/
structure Follows (b : Bridge) (event : CommitEvent) (gone : Bool) : Prop where
  new : b.state.newFederation = some event.newFederation
  old : b.state.oldFederation = if gone then none else some event.oldFederation
  past : gone = true → event.activationBlock ≤ b.block.number
  due : event.activationBlock.toNat =
    event.newFederation.creationBlock.toNat + b.activationAge.toNat

variable {b : Bridge} {env : Env} {event : CommitEvent} {gone : Bool}

theorem Follows.shouldBeActive (follows : b.Follows event gone) (surroundings : b.env = .ok env) :
    env.shouldBeActive event.newFederation =
      .ok (decide (event.activationBlock ≤ b.block.number)) := by
  have due : addChecked event.newFederation.creationBlock env.activationAge =
      .ok event.activationBlock := by
    rw [addChecked_eq_ok_iff, activationAge_env surroundings]
    exact follows.due.symm
  rw [Env.shouldBeActive, Env.isPast, due, (env_eq_ok surroundings).2.2]
  rfl

theorem Follows.active (follows : b.Follows event gone) (surroundings : b.env = .ok env) :
    b.active = .ok (if event.activationBlock ≤ b.block.number then event.newFederation
      else event.oldFederation) := by
  refine bind_eq_ok_iff.2 ⟨env, surroundings, ?_⟩
  rw [State.activeFederation, follows.new]
  refine bind_eq_ok_iff.2 ⟨_, follows.shouldBeActive surroundings, ?_⟩
  by_cases active : event.activationBlock ≤ b.block.number
  · rw [decide_eq_true active, if_pos rfl, if_pos active]
    rfl
  · have still : gone = false := by
      rw [← Bool.not_eq_true]
      exact fun left => active (follows.past left)
    rw [decide_eq_false active, if_neg Bool.false_ne_true, if_neg active, follows.old, still]
    rfl

theorem Follows.retiring (follows : b.Follows event gone) (surroundings : b.env = .ok env) :
    b.retiring = .ok (if event.activationBlock ≤ b.block.number ∧ gone = false
      then some event.oldFederation else none) := by
  refine bind_eq_ok_iff.2 ⟨env, surroundings, ?_⟩
  rw [State.retiringFederation, follows.new]
  refine bind_eq_ok_iff.2 ⟨_, follows.shouldBeActive surroundings, ?_⟩
  by_cases active : event.activationBlock ≤ b.block.number
  · rw [decide_eq_true active, if_pos rfl, follows.old]
    cases gone <;> simp [active]
  · rw [decide_eq_false active, if_neg Bool.false_ne_true, if_neg (fun both => active both.1)]
    rfl

end Bridge

namespace Step

variable {step : Step} {event : CommitEvent} {gone : Bool}

theorem Announces.creationBlock (announces : step.Announces event) :
    event.newFederation.creationBlock = step.before.block.number := by
  obtain ⟨_, _, built⟩ := announces.built
  exact Federation.creationBlock_of_ofMembers built

/-- A federation that has to wait was not created in the same block as the one that it replaces,
    unless that is block 0. -/
theorem Announces.newFederation_ne (announces : step.Announces event)
    (vacant : step.before.state.custody.Vacant) (positive : step.before.block.number ≠ 0)
    (waits : step.before.block.number < event.activationBlock) :
    event.newFederation ≠ event.oldFederation := by
  intro same
  have assembling : step.before.dates.old = none := by
    obtain ⟨pending, found, _⟩ := announces.built
    rw [Bridge.dates, Custody.dates, vacant.assembling (by simp [State.custody, found])]
    rfl
  have created := Bridge.creationBlock_active announces.replaced
  rw [← same, announces.creationBlock, Bridge.activeDate, Dates.active] at created
  split at created
  · exact positive created
  · split at created
    · next active =>
      rw [← created, ← announces.due] at active
      rw [UInt64.lt_iff_toNat_lt] at waits
      omega
    · rw [assembling] at created
      exact positive created

theorem Succession.silent (succession : step.Succession) (last : ¬ step.Commits) :
    step.after.events = step.before.events := by
  cases succession with
  | kept _ silent => exact silent
  | committed commits => exact absurd commits last
  | retired _ silent => exact silent

/-- Without another commit the federations stay those of the announcement. -/
theorem Succession.follows (succession : step.Succession) (last : ¬ step.Commits)
    (later : step.before.block.number ≤ step.after.block.number)
    (sameAge : step.after.activationAge = step.before.activationAge)
    (follows : step.before.Follows event gone) :
    step.after.Follows event (gone || step.decommissions) := by
  have due := follows.due
  rw [← sameAge] at due
  cases succession with
  | kept _ _ stays new old =>
    rw [stays, Bool.or_false]
    exact ⟨new.trans follows.new, old.trans follows.old,
      fun left => UInt64.le_trans (follows.past left) later, due⟩
  | committed commits => exact absurd commits last
  | retired _ _ left replaced _ new old =>
    rw [left, Bool.or_true]
    refine ⟨new.trans follows.new, old, fun _ => UInt64.le_trans ?_ later, due⟩
    -- there is a retiring federation, so the new one is active
    obtain ⟨env, surroundings, _⟩ := bind_eq_ok_iff.1 replaced
    rw [follows.retiring surroundings] at replaced
    by_contra waiting
    rw [if_neg fun both => waiting both.1] at replaced
    cases replaced

end Step

namespace Runs

variable {c : Constants} {block : Block} {activations : Activations} {a b : Bridge}
  {history later : List Step} {commit : Step} {event : CommitEvent}

theorem vacant (run : Runs a history b)
    (stored : ∀ step ∈ history, step.operation.reloads = true → step.before.state.Fits)
    (start : a.state.custody.Vacant) : b.state.custody.Vacant := by
  induction run with
  | refl => exact start
  | step _ performed ih =>
    obtain ⟨earlier, last⟩ := forall_mem_concat.1 stored
    exact (Step.effect_of_performed performed).vacant last (ih earlier)

theorem isOn (run : Runs a history b)
    (stored : ∀ step ∈ history, step.operation.reloads = true → step.before.state.Fits)
    (start : a.state.custody.IsOn a.constants.network) :
    b.state.custody.IsOn b.constants.network := by
  induction run with
  | refl => exact start
  | step _ performed ih =>
    obtain ⟨earlier, last⟩ := forall_mem_concat.1 stored
    rw [Bridge.constants_of_perform performed]
    exact (Step.effect_of_performed performed).isOn last (ih earlier)

/-- One announcement is recorded for each commit that records it, in their order. -/
theorem announcements (run : Runs a history b)
    (stored : ∀ step ∈ history, step.operation.reloads = true → step.before.state.Fits)
    (start : a.state.custody.IsOn a.constants.network) :
    ∃ announced, b.events = a.events ++ announced ∧
      List.Forall₂ Step.Announces
        (history.filter fun step => decide (step.Commits ∧ step.operation.logs = true))
        announced := by
  induction run with
  | refl => exact ⟨[], (List.append_nil _).symm, .nil⟩
  | @step b c history operation output run performed ih =>
    obtain ⟨earlier, last⟩ := forall_mem_concat.1 stored
    obtain ⟨announced, events, each⟩ := ih earlier
    rw [List.filter_append, List.filter_singleton]
    have quietly (quiet : ¬ Step.Commits ⟨b, operation, output, c⟩) (silent : c.events = b.events) :
        ∃ announced, c.events = a.events ++ announced ∧ List.Forall₂ Step.Announces
          ((history.filter fun step => decide (step.Commits ∧ step.operation.logs = true)) ++
            bif decide (Step.Commits ⟨b, operation, output, c⟩ ∧ operation.logs = true)
              then [⟨b, operation, output, c⟩] else []) announced := by
      refine ⟨announced, silent.trans events, ?_⟩
      rw [decide_eq_false fun both => quiet both.1, cond_false, List.append_nil]
      exact each
    cases Step.succession_of_performed performed last (run.isOn earlier start) with
    | kept quiet silent => exact quietly quiet silent
    | retired quiet silent => exact quietly quiet silent
    | @committed event commits announces told =>
      cases logs : operation.logs with
      | true =>
        refine ⟨announced ++ [event], ?_, ?_⟩
        · rw [← List.append_assoc, ← events, told, logs]
          rfl
        · rw [decide_eq_true ⟨commits, rfl⟩]
          exact List.rel_append each (.cons announces .nil)
      | false =>
        refine ⟨announced, ?_, ?_⟩
        · rw [← events, told, logs]
          simp
        · simpa [logs] using each

theorem forward (run : Runs a history b)
    (steps : ∀ step ∈ history, step.before.block.number ≤ step.after.block.number) :
    a.block.number ≤ b.block.number := by
  induction run with
  | refl => exact UInt64.le_refl _
  | step _ _ ih =>
    obtain ⟨earlier, last⟩ := forall_mem_concat.1 steps
    exact UInt64.le_trans (ih earlier) last

/-- While no other federation is committed, those of an announcement are the ones there are, and no
    other announcement is made. -/
theorem follows (run : Runs a later b) {gone : Bool}
    (stored : ∀ step ∈ later, step.operation.reloads = true → step.before.state.Fits)
    (on : a.state.custody.IsOn a.constants.network) (last : ∀ step ∈ later, ¬ step.Commits)
    (forward : ∀ step ∈ later, step.before.block.number ≤ step.after.block.number)
    (sameAge : ∀ step ∈ later, step.after.activationAge = a.activationAge)
    (start : a.Follows event gone) :
    b.Follows event (gone || later.any Step.decommissions) ∧
      b.activationAge = a.activationAge ∧ b.events = a.events := by
  induction run with
  | refl => exact ⟨by simpa using start, rfl, rfl⟩
  | @step b c later operation output run performed ih =>
    obtain ⟨storedBefore, stored⟩ := forall_mem_concat.1 stored
    obtain ⟨lastBefore, last⟩ := forall_mem_concat.1 last
    obtain ⟨forwardBefore, forward⟩ := forall_mem_concat.1 forward
    obtain ⟨sameBefore, sameAge⟩ := forall_mem_concat.1 sameAge
    obtain ⟨follows, age, events⟩ := ih storedBefore lastBefore forwardBefore sameBefore
    have succession :=
      Step.succession_of_performed performed stored (run.isOn storedBefore on)
    have after := succession.follows last forward (sameAge.trans age.symm) follows
    refine ⟨?_, sameAge, (succession.silent last).trans events⟩
    rw [List.any_append, List.any_cons, List.any_nil, Bool.or_false, ← Bool.or_assoc]
    exact after

/-- A commit announces the federation that is active until then, the new one, and the block from
    which the new one is active. From the commit to the next one, while the blocks do not go back and
    the activation age stays, the new federation is active from the announced block on and the old
    one before it; the old one is retiring from the announced block on until it is decommissioned. A
    commit makes one announcement, and the announcements are recorded in the order of the
    commits. -/
theorem activation_as_announced
    (run : Runs (.startAt c block activations) (history ++ commit :: later) b)
    (stored : ∀ step ∈ history ++ commit :: later,
      step.operation.reloads = true → step.before.state.Fits)
    (commits : commit.Commits) (last : ∀ step ∈ later, ¬ step.Commits)
    (forward : ∀ step ∈ later, step.before.block.number ≤ step.after.block.number)
    (sameAge : ∀ step ∈ later, step.after.activationAge = commit.before.activationAge) :
    ∃ event, commit.Announces event ∧
      b.events = commit.before.events ++ (if commit.operation.logs then [event] else []) ∧
      List.Forall₂ Step.Announces
        ((history ++ commit :: later).filter fun step =>
          decide (step.Commits ∧ step.operation.logs = true)) b.events ∧
      b.active = .ok (if event.activationBlock ≤ b.block.number then event.newFederation
        else event.oldFederation) ∧
      (commit.before.block.number ≠ 0 →
        (b.active = .ok event.newFederation ↔ event.activationBlock ≤ b.block.number)) ∧
      b.retiring = .ok (if event.activationBlock ≤ b.block.number ∧
          later.any Step.decommissions = false
        then some event.oldFederation else none) := by
  obtain ⟨before, performed, after⟩ := run.around
  obtain ⟨storedBefore, storedLater⟩ := List.forall_mem_append.1 stored
  obtain ⟨storedCommit, storedAfter⟩ := List.forall_mem_cons.1 storedLater
  have start := Bridge.isOn_startAt c block activations
  have on := before.isOn storedBefore start
  have vacant := before.vacant storedBefore (State.vacant_initial c)
  have onAfter : commit.after.state.custody.IsOn commit.after.constants.network := by
    rw [Bridge.constants_of_perform performed]
    exact (Step.effect_of_performed performed).isOn storedCommit on
  obtain ⟨announced, events, each⟩ := run.announcements stored start
  cases Step.succession_of_performed performed storedCommit on with
  | kept quiet => exact absurd commits quiet
  | retired quiet => exact absurd commits quiet
  | @committed event _ announces told setting _ old =>
    have age : commit.after.activationAge = commit.before.activationAge := by
      rw [Bridge.activationAge, Bridge.activationAge, setting.1, setting.2.1]
    have started : commit.after.Follows event false := by
      constructor
      case new => exact announces.installed
      case old => exact old
      case past =>
        intro gone
        cases gone
      case due => rw [announces.due, announces.creationBlock, age]
    obtain ⟨follows, _, silent⟩ := after.follows storedAfter onAfter last forward
      (fun step member => (sameAge step member).trans age.symm) started
    have forward : commit.before.block.number ≤ b.block.number := by
      rw [← setting.2.2]
      exact after.forward forward
    obtain ⟨env, surroundings, _⟩ := bind_eq_ok_iff.1 announces.replaced
    obtain ⟨env, surroundings⟩ :=
      Bridge.env_of_constants (after.constants_eq.trans setting.1) surroundings
    have active := follows.active surroundings
    refine ⟨event, announces, silent.trans told, ?_, active, ?_, ?_⟩
    · rw [events]
      exact each
    · intro positive
      rw [active]
      by_cases due : event.activationBlock ≤ b.block.number
      · simp [due]
      · rw [if_neg due, Except.ok.injEq]
        refine iff_of_false (fun same => ?_) due
        refine announces.newFederation_ne vacant positive ?_ same.symm
        exact UInt64.lt_of_le_of_lt forward (UInt64.not_le.1 due)
    · have retiring := follows.retiring surroundings
      rw [Bool.false_or] at retiring
      exact retiring

set_option maxRecDepth 100000 in
/-- A federation that is committed in block 5 is active in block 15, after a reload and a step of
    the migration, and the genesis federation is the retiring one. -/
theorem activation_as_announced_of_change :
    ∃ history commit later b event,
      Runs (.startAt .regtest ⟨5, 0⟩ .none) (history ++ commit :: later) b ∧
      (∀ step ∈ history ++ commit :: later,
        step.operation.reloads = true → step.before.state.Fits) ∧
      (commit.Commits ∧ ∀ step ∈ later, ¬ step.Commits) ∧
      (∀ step ∈ later, step.before.block.number ≤ step.after.block.number) ∧
      (∀ step ∈ later, step.after.activationAge = commit.before.activationAge) ∧
      later.length = 3 ∧ commit.Announces event ∧ b.events = [event] ∧
      b.active = .ok event.newFederation ∧ b.retiring = .ok (some event.oldFederation) := by
  obtain ⟨history, b, run, stored, ⟨last, forward, sameAge, length, still⟩, seen⟩ :=
    Bridge.exists_runs_of_play
    (P := fun history b =>
      (∀ step ∈ history, step.operation.reloads = true → step.before.state.Fits) ∧
      ((∀ step ∈ history.drop 5, ¬ step.Commits) ∧
        (∀ step ∈ history.drop 5, step.before.block.number ≤ step.after.block.number) ∧
        (∀ step ∈ history.drop 5, step.after.activationAge = 10) ∧
        (history.drop 5).length = 3 ∧ (history.drop 5).any Step.decommissions = false) ∧
      history[4]?.any (fun step : Step => decide (step.Commits ∧ step.operation.logs = true ∧
        step.before.events = [] ∧ step.before.activationAge = 10 ∧
        step.before.block.number.toNat + 10 ≤ b.block.number.toNat)) = true)
    (b := .startAt .regtest ⟨5, 0⟩ .none)
    (.perform (.depositNew (Scenario.output 0 50000)) :: Scenario.change ++
      [.perform (.enterBlock ⟨15, 0⟩ .none), .perform (.reload {}), .perform .migrate])
    (by decide +kernel)
  obtain ⟨commit, found, seen⟩ := (Option.any_eq_true _ _).1 seen
  obtain ⟨commits, logs, silent, age, due⟩ := of_decide_eq_true seen
  obtain ⟨past, later, rfl, number, _⟩ := run.split_at found
  have rest : (past ++ commit :: later).drop 5 = later := by
    rw [List.drop_append, number, List.drop_eq_nil_of_le (by omega)]
    rfl
  rw [rest] at last forward sameAge length still
  obtain ⟨event, announces, told, _, active, _, retiring⟩ :=
    activation_as_announced run stored commits last forward
      fun step member => (sameAge step member).trans age.symm
  have reached : event.activationBlock ≤ b.block.number := by
    rw [UInt64.le_iff_toNat_le, announces.due, age]
    exact due
  rw [if_pos reached] at active
  rw [if_pos ⟨reached, still⟩] at retiring
  rw [silent, logs] at told
  exact ⟨past, commit, later, b, event, run, stored, ⟨commits, last⟩, forward,
    fun step member => (sameAge step member).trans age.symm, length, announces, told, active,
    retiring⟩

end Runs

end TwoWayPeg
