import TwoWayPeg.Proofs.Commitment
import TwoWayPeg.Proofs.Winner

/-!
# Votes that are rejected

A vote for a change is recorded before the call that has won is carried out, so that it is rejected
without a trace only if the dry run before it tells how the call ends. The dry run gives the answer
of the call in all cases but one: whether the script of a federation is too long to be paid to by its
hash is found out when the federation is built. Then the answer is an error and the votes for the
commit are gone; all else stays as it was.
-/

namespace TwoWayPeg

namespace PendingFederation

/-- A federation that is complete can be built unless its script is too long or its delay cannot be
    written. -/
theorem build_eq_error {p : PendingFederation} {time number : UInt64} {c : Constants}
    {activations : Activations} {e : PegError} (complete : p.isComplete = true)
    (failed : p.build time number c activations = .error e) :
    e = .address .scriptTooLong ∨ e = .overflow .negate := by
  unfold build Federation.ofMembers at failed
  dsimp only at failed
  split at failed
  · split at failed
    · split at failed
      · cases failed
      · cases failed
        exact .inl rfl
    · cases failed
      exact .inr rfl
  · next empty =>
    rw [not_not, OrderedSet.toList_ofList_eq_nil_iff] at empty
    rw [isComplete, size, empty] at complete
    cases complete

end PendingFederation

namespace State

variable {s t t' : State} {env : Env} {e : Election} {sender : ChainAddress} {spec : CallSpec}
  {trial result : ChangeResult}

/-- The answer to the creation of a federation depends neither on the votes nor on whether it is a
    dry run. -/
theorem createFederation_answer (s : State) (env : Env) (e : Election) (dryRun dryRun' : Bool) :
    ((s.withElection e).createFederation env dryRun).map Prod.fst =
      (s.createFederation env dryRun').map Prod.fst := by
  rw [createFederation_eq, createFederation_eq]
  change (if s.pending.isSome then _ else s.awaiting env >>= fun awaiting =>
    if awaiting then _ else s.retiringFederation env >>= _).map _ = _
  split
  · rfl
  cases s.awaiting env with
  | error e => rfl
  | ok awaiting =>
    simp only [bind, Except.bind]
    split
    · rfl
    cases s.retiringFederation env with
    | error e => rfl
    | ok retiring =>
      dsimp only
      split
      · rfl
      cases dryRun <;> cases dryRun' <;> rfl

theorem addMember_answer (s : State) (e : Election) (dryRun dryRun' : Bool) (m : Member) :
    ((s.withElection e).addMember dryRun m).1 = (s.addMember dryRun' m).1 := by
  have same : (s.withElection e).pending = s.pending := rfl
  unfold addMember
  rw [same]
  cases s.pending with
  | none => rfl
  | some pending =>
    dsimp only
    split
    · rfl
    · cases dryRun <;> cases dryRun' <;> rfl

theorem addArguments_answer (s : State) (e : Election) (dryRun dryRun' : Bool)
    (arguments : List Bytes) (expected : Nat) :
    ((s.withElection e).addArguments dryRun arguments expected).1 =
      (s.addArguments dryRun' arguments expected).1 := by
  unfold addArguments
  split
  · exact addMember_answer ..
  · rfl

theorem rollbackFederation_answer (s : State) (e : Election) (dryRun dryRun' : Bool) :
    ((s.withElection e).rollbackFederation dryRun).1 = (s.rollbackFederation dryRun').1 := by
  unfold rollbackFederation
  change (if s.pending.isNone then _ else _ : ChangeResult × State).1 = _
  split
  · rfl
  cases dryRun <;> cases dryRun' <;> rfl

theorem execute_of_names {dryRun : Bool} {p : PendingFederation}
    (named : ChangeFunction.ofName? spec.function = some .commit) (names : spec.Names p) :
    s.execute env dryRun spec = s.commitFederation env dryRun p.hash := by
  obtain ⟨_, bytes, argument, read⟩ := names
  simp only [execute, named, executeFunction, argument, read]

/-- A dry run of the commit of the pending federation succeeds. -/
theorem commitFederation_dryRun {p : PendingFederation} (assembling : s.pending = some p)
    (complete : p.isComplete = true) :
    s.commitFederation env true p.hash = .ok ({ response := .success }, s) := by
  unfold commitFederation
  simp only [assembling, complete]
  rw [if_neg (by decide), if_neg (fun differs => differs rfl), if_pos trivial]
  rfl

/-- A dry run of a commit succeeds for the pending federation that it names. -/
theorem execute_dryRun_of_names {p : PendingFederation}
    (named : ChangeFunction.ofName? spec.function = some .commit) (assembling : s.pending = some p)
    (names : spec.Names p) : s.execute env true spec = .ok ({ response := .success }, s) := by
  rw [execute_of_names named names, commitFederation_dryRun assembling names.1]

/-- The call commits a federation whose script is too long to be paid to by its hash. -/
def Oversized (s : State) (env : Env) (spec : CallSpec) : Prop :=
  ChangeFunction.ofName? spec.function = some .commit ∧ ∃ p, s.pending = some p ∧ spec.Names p ∧
    p.build env.block.timestamp env.block.number env.constants env.activations =
      .error (.address .scriptTooLong)

theorem Oversized.execute (oversized : s.Oversized env spec) :
    s.execute env false spec = .ok ({ response := .genericError }, s) := by
  obtain ⟨named, p, assembling, names, failed⟩ := oversized
  rw [execute_of_names named names, commitFederation_hash assembling, commitAssembled, names.1,
    failed]
  rfl

/-- A dry run that succeeds tells that the call succeeds, whatever the votes then are, unless it
    commits a federation with too long a script. -/
theorem success_of_dryRun (tried : s.execute env true spec = .ok (trial, t))
    (success : trial.response.isSuccess = true)
    (done : (s.withElection e).execute env false spec = .ok (result, t')) :
    result.response.isSuccess = true ∨ s.Oversized env spec := by
  cases named : ChangeFunction.ofName? spec.function with
  | none =>
    simp only [execute, named] at tried
    cases tried
    cases success
  | some function =>
    have answered (same : ((s.withElection e).execute env false spec).map Prod.fst =
        (s.execute env true spec).map Prod.fst) : result.response.isSuccess = true := by
      rw [tried, done] at same
      cases same
      exact success
    cases function with
    | create =>
      refine .inl (answered ?_)
      simp only [execute, named, executeFunction]
      exact createFederation_answer ..
    | add =>
      refine .inl (answered ?_)
      simp only [execute, named, executeFunction]
      exact congrArg Except.ok (addArguments_answer ..)
    | addMulti =>
      refine .inl (answered ?_)
      simp only [execute, named, executeFunction]
      exact congrArg Except.ok (addArguments_answer ..)
    | rollback =>
      refine .inl (answered ?_)
      simp only [execute, named, executeFunction]
      exact congrArg Except.ok (rollbackFederation_answer ..)
    | commit =>
      obtain ⟨p, assembling, names⟩ := names_of_execute named tried success
      have assembling' : (s.withElection e).pending = some p := assembling
      rw [execute_of_names named names, commitFederation_hash assembling', commitAssembled,
        names.1] at done
      rw [if_neg (by decide)] at done
      cases built : p.build env.block.timestamp env.block.number env.constants env.activations with
      | error cause =>
        rcases PendingFederation.build_eq_error names.1 built with rfl | rfl
        · exact .inr ⟨named, p, assembling, names, built⟩
        · rw [built] at done
          cases done
      | ok new =>
        rw [built] at done
        obtain ⟨active, _, done⟩ := bind_eq_ok_iff.1 done
        obtain ⟨activationBlock, _, done⟩ := bind_eq_ok_iff.1 done
        cases done
        exact .inl rfl

/-- The vote is the last one that the commit of a federation with too long a script needs. -/
structure CommitFails (s : State) (env : Env) (sender : ChainAddress) (spec : CallSpec) : Prop where
  allowed : s.federationElection.authorizer.allows sender = true
  fresh : sender ∉ s.federationElection.tally spec
  enough : s.federationElection.authorizer.required ≤
    ((s.federationElection.tally spec).insert sender).size
  oversized : s.Oversized env spec

/-- A vote for the pending federation that its call names is recorded, and with enough votes the
    call is carried out. -/
theorem ballot_of_names {p : PendingFederation} (env : Env)
    (undecided : s.federationElection.winner? = none)
    (allowed : s.federationElection.authorizer.allows sender = true)
    (fresh : sender ∉ s.federationElection.tally spec)
    (named : ChangeFunction.ofName? spec.function = some .commit) (assembling : s.pending = some p)
    (names : spec.Names p) :
    ∃ voted, s.federationElection.vote? spec sender = some voted ∧
      s.ballot env sender spec =
        if s.federationElection.authorizer.required ≤
            ((s.federationElection.tally spec).insert sender).size then
          (s.withElection voted).execute env false spec >>= fun (result, t) =>
            .ok (.executed spec result, t.withElection t.federationElection.clearWinner)
        else .ok (.recorded, s.withElection voted) := by
  have counted := Election.vote?_of_fresh allowed fresh
  refine ⟨_, counted, ?_⟩
  unfold State.ballot
  rw [allowed, named, execute_dryRun_of_names named assembling names, counted]
  dsimp only [bind, Except.bind]
  rw [if_neg (by decide), if_neg (by decide), if_neg (by decide),
    Election.winner?_of_vote? undecided counted]
  by_cases enough : s.federationElection.authorizer.required ≤
      ((s.federationElection.tally spec).insert sender).size
  · rw [if_pos enough, if_pos enough]
  · rw [if_neg enough, if_neg enough]

theorem CommitFails.ballot (fails : s.CommitFails env sender spec)
    (undecided : s.federationElection.winner? = none) :
    s.ballot env sender spec = .ok (.executed spec { response := .genericError },
      s.withElection (s.federationElection.remove spec)) := by
  obtain ⟨named, p, assembling, names, failed⟩ := fails.oversized
  obtain ⟨voted, counted, cast⟩ :=
    ballot_of_names env undecided fails.allowed fails.fresh named assembling names
  have oversized : (s.withElection voted).Oversized env spec :=
    ⟨named, p, assembling, names, failed⟩
  have won : voted.winner? = some spec := by
    rw [Election.winner?_of_vote? undecided counted, if_pos fails.enough]
  rw [cast, if_pos fails.enough, oversized.execute]
  show Except.ok (_, s.withElection voted.clearWinner) = _
  rw [Election.clearWinner_eq_remove won, Election.remove_voted counted]

/-- A rejected vote on a change announces nothing, and it leaves the state alone unless it is the last
    one for such a commit. -/
theorem untouched_of_rejected {ballot : Ballot} (undecided : s.Undecided)
    (cast : s.ballot env sender spec = .ok (ballot, t))
    (rejected : ballot.result.response.isSuccess = false) :
    ballot.result.event = none ∧ (t = s ∨ s.CommitFails env sender spec) := by
  cases ballot_cast cast with
  | refused => exact ⟨rfl, .inl rfl⟩
  | recorded => cases rejected
  | @executed voted _ result _ counted _ done =>
    obtain ⟨_, enough⟩ := quorum_of_executed undecided.change cast
    obtain ⟨same, trial, after, tried, success⟩ := undecided.tried cast
    subst same
    refine ⟨?_, .inr ?_⟩
    · cases execute_ends done with
      | untouched => rfl
      | carried => cases rejected
    · obtain ⟨allowed, fresh, _⟩ := Election.vote?_eq_some counted
      rcases success_of_dryRun tried success done with carried | oversized
      · rw [show result.response.isSuccess = false from rejected] at carried
        cases carried
      · exact ⟨allowed, fresh, enough, oversized⟩

/-- A rejected vote on the fee rate leaves the state alone. -/
theorem eq_of_rejected {c : Constants} {fee : Int64} {ballot : FeeBallot}
    (undecided : s.Undecided) (cast : s.feeBallot c sender fee = (ballot, t))
    (rejected : ballot.response.code ≠ 1) : t = s := by
  have does := feeBallot_cast cast
  cases ballot with
  | refused response =>
    cases does
    rfl
  | recorded => exact absurd rfl rejected
  | executed call =>
    obtain ⟨rfl, _⟩ := does.executes undecided.fee
    simp [FeeBallot.response, FeeResponse.code] at rejected

end State

namespace Bridge

/-- A vote on a change is answered as its ballot says. -/
theorem perform_vote_of_ballot {b : Bridge} {env : Env} {sender : ChainAddress} {spec : CallSpec}
    {ballot : Ballot} {t : State} (log : Bool) (surroundings : b.env = .ok env)
    (cast : b.state.ballot env sender spec = .ok (ballot, t)) :
    ∃ c, b.perform (.vote log sender spec) = .ok (.change ballot.result.response, c) ∧
      c.state = t ∧ c.env = .ok env := by
  have voted : b.state.voteFederationChange env sender spec = .ok (ballot.result, t) := by
    rw [State.voteFederationChange_eq_ballot, cast]
    rfl
  let c := b.recordChange log ballot.result t
  refine ⟨{ c with metrics := c.metrics.add (.federationVotes spec ballot.result.response) 1 },
    ?_, rfl, surroundings⟩
  simp only [perform, vote, surroundings, voted, bind, Except.bind]
  rfl

end Bridge

namespace Runs

variable {c : Constants} {block : Block} {activations : Activations} {b : Bridge}
  {history : List Step}

theorem undecided_of_start (run : Runs (.startAt c block activations) history b)
    (stored : ∀ step ∈ history, step.operation.reloads = true → step.before.state.Fits) :
    b.state.Undecided :=
  run.undecided stored (State.storable_startAt c block activations) (State.undecided_initial c)

/-- In each state of a run a rejected vote announces nothing and changes nothing of the state, but
    for one case: if it is the last vote that a commit needs and the script of the federation turns
    out to be too long, then the answer is a general error and the votes for the commit are gone. -/
theorem rejected_vote_changes_nothing (run : Runs (.startAt c block activations) history b)
    (stored : ∀ step ∈ history, step.operation.reloads = true → step.before.state.Fits) :
    (∀ log sender spec response b',
      b.perform (.vote log sender spec) = .ok (.change response, b') → response.code ≠ 1 →
      b'.events = b.events ∧ ∃ env, b.env = .ok env ∧
        (¬ b.state.CommitFails env sender spec → b'.state = b.state) ∧
        (b.state.CommitFails env sender spec → response = .genericError ∧
          b'.state = b.state.withElection (b.state.federationElection.remove spec))) ∧
    ∀ sender fee response b',
      b.perform (.voteFee sender fee) = .ok (.fee response, b') → response.code ≠ 1 →
      b'.events = b.events ∧ b'.state = b.state := by
  have undecided := run.undecided_of_start stored
  constructor
  · intro log sender spec response b' performed rejected
    obtain ⟨env, ballot, surroundings, cast, _, answer, proceeds⟩ := Step.ballot?_of_vote performed
    cases answer
    have failure : ballot.result.response.isSuccess = false := decide_eq_false rejected
    obtain ⟨silent, untouched⟩ := State.untouched_of_rejected undecided cast failure
    refine ⟨?_, env, surroundings, untouched.resolve_right, fun fails => ?_⟩
    · rw [proceeds.events, ChangeResult.recorded, silent]
      cases log <;> exact List.append_nil _
    · have both := (fails.ballot undecided.change).symm.trans cast
      rw [Except.ok.injEq, Prod.mk.injEq] at both
      rw [← both.1, ← both.2]
      exact ⟨rfl, rfl⟩
  · intro sender fee response b' performed rejected
    obtain ⟨_, done, answer, proceeds⟩ := Bridge.perform_voteFee performed
    cases answer
    rw [State.voteFee_eq_feeBallot, Prod.mk.injEq] at done
    rw [← done.1] at rejected
    exact ⟨proceeds.events.trans (List.append_nil _),
      State.eq_of_rejected undecided (Prod.ext rfl done.2) rejected⟩

end Runs

namespace Scenario

/-- Two more multiples of the base point. -/
def furtherKeys : List PublicKey :=
  [ ⟨0xfff97bd5755eeea420453a14355235d382f6472f8568a18b2f057a1460297556, false,
      by decide +kernel⟩,
    ⟨0x5cbdf0646e5db4eaa398f365f2ea7a0e3d419b7e0330e39ce92bddedcac4f9bc, false,
      by decide +kernel⟩ ]

/-- Fourteen members with a key each: seven keys and their opposites. -/
def crowd : PendingFederation :=
  ⟨(Constants.developmentKeys ++ Constants.developmentRecoveryKeys ++ furtherKeys).flatMap
    fun key => [.ofKey key, .ofKey { key with odd := !key.odd }]⟩

/-- The call that commits the crowd. -/
def commitCrowd : CallSpec where
  function := "commit"
  arguments := [crowd.hash.toList]

theorem build_crowd : crowd.build 0 5 .regtest .all = .error (.address .scriptTooLong) := by
  unfold PendingFederation.build Federation.ofMembers
  dsimp only
  rw [dif_pos (by decide +kernel), dif_pos (by decide +kernel), dif_neg (by decide +kernel)]

theorem names_crowd : commitCrowd.Names crowd :=
  ⟨by decide +kernel, _, rfl, FixedBytes.ofList?_toList _⟩

/-- The crowd is assembled, and the first of three voters has voted for its commit. -/
theorem exists_crowd :
    ∃ history b env, Runs (.startAt .regtest ⟨5, 0⟩ .all) history b ∧
      (∀ step ∈ history, step.operation.reloads = true → step.before.state.Fits) ∧
      b.env = .ok env ∧ first ∈ b.state.federationElection.tally commitCrowd ∧
      b.state.feeElection.authorizer = Constants.regtest.feeAuthorizer ∧
      b.state.CommitFails env second commitCrowd := by
  obtain ⟨history, b, run, stored, assembling, votes, feeVoters, ready⟩ :=
    Bridge.exists_runs_of_play
      (P := fun history b =>
        (∀ step ∈ history, step.operation.reloads = true → step.before.state.Fits) ∧
        b.state.pending = some crowd ∧
        b.state.federationElection = { authorizer := Constants.regtest.federationAuthorizer } ∧
        b.state.feeElection.authorizer = Constants.regtest.feeAuthorizer ∧
        b.env.toOption.any fun env =>
          env.constants = .regtest ∧ env.activations = .all ∧ env.block = ⟨5, 0⟩)
      (b := .startAt .regtest ⟨5, 0⟩ .all)
      (.perform (.create false) :: crowd.members.map fun m => .perform (.addMember false m))
      (by decide +kernel)
  obtain ⟨env, surroundings, setting⟩ := (Option.any_eq_true _ _).1 ready
  obtain ⟨constants, activations, block⟩ := of_decide_eq_true setting
  have voteless : b.state.federationElection.tally commitCrowd = .empty := by
    rw [votes]
    rfl
  -- The first vote is recorded: one voter is less than a majority of three.
  have undecided : b.state.federationElection.winner? = none := by
    rw [votes]
    rfl
  have allowed : b.state.federationElection.authorizer.allows first = true := by
    rw [votes]
    decide
  have fresh : first ∉ b.state.federationElection.tally commitCrowd := by
    rw [voteless]
    exact OrderedSet.not_mem_empty
  obtain ⟨voted, counted, cast⟩ :=
    State.ballot_of_names env undecided allowed fresh (by decide) assembling names_crowd
  rw [voteless, votes, if_neg (by decide)] at cast
  obtain ⟨c, performed, state, surroundings'⟩ :=
    Bridge.perform_vote_of_ballot true (toOption_eq_some_iff.1 surroundings) cast
  have tally := Election.tally_vote?_self counted
  have authorizer := Election.authorizer_vote? counted
  rw [voteless] at tally
  rw [votes] at authorizer
  refine ⟨_, c, env, run.step performed, ?_, surroundings', ?_, ?_, ?_⟩
  · exact Runs.forall_mem_concat.2 ⟨stored, fun reloads => by cases reloads⟩
  · rw [state, State.federationElection_withElection, tally]
    exact OrderedSet.mem_insert.2 (.inl rfl)
  · rw [state]
    exact feeVoters
  · rw [state]
    constructor
    case allowed =>
      rw [State.federationElection_withElection, authorizer]
      decide
    case fresh =>
      rw [State.federationElection_withElection, tally, OrderedSet.mem_insert]
      simp only [OrderedSet.not_mem_empty, or_false]
      decide
    case enough =>
      rw [State.federationElection_withElection, tally, authorizer]
      decide
    case oversized =>
      refine ⟨by decide, crowd, assembling, names_crowd, ?_⟩
      rw [constants, activations, block]
      exact build_crowd

end Scenario

namespace Runs

/-- A rejected vote can change the state: the votes for the commit of fourteen members are gone. -/
theorem not_every_rejected_vote_changes_nothing :
    ¬ ∀ c block activations history b, Runs (.startAt c block activations) history b →
      (∀ step ∈ history, step.operation.reloads = true → step.before.state.Fits) →
      ∀ log sender spec response b',
        b.perform (.vote log sender spec) = .ok (.change response, b') → response.code ≠ 1 →
        b'.state = b.state ∧ b'.events = b.events := by
  intro claim
  obtain ⟨history, b, env, run, stored, surroundings, voted, _, fails⟩ := Scenario.exists_crowd
  have undecided := run.undecided_of_start stored
  obtain ⟨b', performed, state, _⟩ :=
    Bridge.perform_vote_of_ballot true surroundings (fails.ballot undecided.change)
  have same := (claim _ _ _ _ _ run stored _ _ _ _ _ performed (by decide)).1
  rw [← same, state, State.federationElection_withElection, Election.tally_remove_self] at voted
  exact OrderedSet.not_mem_empty voted

/-- Once the crowd is assembled and the first of three voters has voted for its commit, the second
    vote for it is rejected and takes the first one away; and a fee rate of zero is rejected. -/
theorem rejected_vote_changes_nothing_of_crowd :
    ∃ history b b' b'', Runs (.startAt .regtest ⟨5, 0⟩ .all) history b ∧
      (∀ step ∈ history, step.operation.reloads = true → step.before.state.Fits) ∧
      b.perform (.vote true Scenario.second Scenario.commitCrowd) =
        .ok (.change .genericError, b') ∧
      b'.events = b.events ∧ b'.state =
        b.state.withElection (b.state.federationElection.remove Scenario.commitCrowd) ∧
      b.perform (.voteFee Scenario.first 0) = .ok (.fee .negativeFee, b'') ∧
      b''.events = b.events ∧ b''.state = b.state := by
  obtain ⟨history, b, env, run, stored, surroundings, _, feeVoters, fails⟩ :=
    Scenario.exists_crowd
  have undecided := run.undecided_of_start stored
  obtain ⟨b', performed, _⟩ :=
    Bridge.perform_vote_of_ballot true surroundings (fails.ballot undecided.change)
  have feeRefused : (b.voteFee Scenario.first 0).1 = .negativeFee := by
    have allowed : b.state.feeElection.authorizer.allows Scenario.first = true := by
      rw [feeVoters]
      decide
    simp only [Bridge.voteFee, State.voteFee, allowed]
    rfl
  have performed' : b.perform (.voteFee Scenario.first 0) =
      .ok (.fee .negativeFee, (b.voteFee Scenario.first 0).2) := by
    rw [← feeRefused]
    rfl
  obtain ⟨votes, fees⟩ := run.rejected_vote_changes_nothing stored
  obtain ⟨silent, env', same, _, dropped⟩ := votes _ _ _ _ _ performed (by decide)
  obtain ⟨silent', untouched⟩ := fees _ _ _ _ performed' (by decide)
  cases surroundings.symm.trans same
  exact ⟨history, b, b', _, run, stored, performed, silent, (dropped fails).2, performed', silent',
    untouched⟩

end Runs

end TwoWayPeg
