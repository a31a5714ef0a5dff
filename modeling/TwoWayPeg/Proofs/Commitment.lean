import Mathlib.Data.Set.Function
import TwoWayPeg.Proofs.Authorization
import TwoWayPeg.Proofs.Reload
import TwoWayPeg.Proofs.Sorting

/-!
# What voters commit to

The hash by which a federation is committed covers one key of each member only. Voters commit all
three nevertheless: a vote for a commit counts only if the pending federation has the hash, and from
then on members are only added until all votes are cleared. So two pending federations with the same
hash, one at a vote that counts and one at the commit, have the same number of members, and the
first is the beginning of the second.
-/

namespace TwoWayPeg

open Rlp

namespace PendingFederation

/-- The list of keys of which the hash is taken. -/
def encodedKeys (p : PendingFederation) : Bytes :=
  encodeList ((Ordered.sort p.members).map fun m => m.btc.toRlp)

theorem length_flatten_toRlp (l : List Member) :
    (l.map fun m => m.btc.toRlp).flatten.length = 34 * l.length := by
  induction l with
  | nil => rfl
  | cons m l ih =>
    rw [List.map_cons, List.flatten_cons, List.length_append, ih, PublicKey.length_toRlp,
      List.length_cons]
    omega

/-- The list of keys tells the number of members. -/
theorem size_of_encodedKeys {p q : PendingFederation} (same : p.encodedKeys = q.encodedKeys) :
    p.size = q.size := by
  have payload := length_flatten_of_length_encodeList (congrArg List.length same)
  rw [length_flatten_toRlp, length_flatten_toRlp, (Ordered.perm_sort _).length_eq,
    (Ordered.perm_sort _).length_eq] at payload
  exact Nat.eq_of_mul_eq_mul_left (by decide) payload

/-- A pending federation that others were added to has other keys. -/
theorem eq_of_encodedKeys {p q : PendingFederation} (grown : p.members <+: q.members)
    (same : p.encodedKeys = q.encodedKeys) : p = q := by
  have members := grown.eq_of_length (size_of_encodedKeys same)
  cases p
  cases q
  cases members
  rfl

end PendingFederation

/-- A call names a pending federation by its hash. -/
def CallSpec.Names (spec : CallSpec) (p : PendingFederation) : Prop :=
  p.isComplete = true ∧ ∃ bytes, spec.arguments = [bytes] ∧ FixedBytes.ofList? bytes = some p.hash

theorem CallSpec.Names.hash {spec : CallSpec} {p q : PendingFederation} (names : spec.Names p)
    (names' : spec.Names q) : p.hash = q.hash := by
  obtain ⟨_, bytes, argument, read⟩ := names
  obtain ⟨_, bytes', argument', read'⟩ := names'
  cases argument.symm.trans argument'
  exact Option.some.inj (read.symm.trans read')

namespace State

variable {s t : State} {env : Env} {dryRun : Bool} {spec : CallSpec} {result : ChangeResult}

theorem commitFederation_success {hash : Hash256}
    (done : s.commitFederation env dryRun hash = .ok (result, t))
    (success : result.response.isSuccess = true) :
    ∃ p, s.pending = some p ∧ p.isComplete = true ∧ p.hash = hash := by
  unfold commitFederation at done
  split at done
  · cases done
    cases success
  next pending assembling =>
  split at done
  · cases done
    cases success
  next complete =>
  rw [Bool.not_eq_true, Bool.not_eq_false'] at complete
  split at done
  · cases done
    cases success
  · next right =>
    exact ⟨pending, assembling, complete, not_not.1 right⟩

/-- A commit succeeds, be it in a dry run, only for the pending federation that it names. -/
theorem names_of_execute (named : ChangeFunction.ofName? spec.function = some .commit)
    (done : s.execute env dryRun spec = .ok (result, t))
    (success : result.response.isSuccess = true) :
    ∃ p, s.pending = some p ∧ spec.Names p := by
  simp only [execute, named, executeFunction] at done
  split at done
  · next bytes argument =>
    split at done
    · next hash read =>
      obtain ⟨p, assembling, complete, right⟩ := commitFederation_success done success
      exact ⟨p, assembling, complete, bytes, argument, right ▸ read⟩
    · cases done
      cases success
  · cases done
    cases success

theorem Migrated.assembly {outcome : MigrationOutcome} (done : s.Migrated env outcome t) :
    t.pending = s.pending ∧ t.federationElection = s.federationElection := by
  cases done with
  | idle => exact ⟨rfl, rfl⟩
  | moved _ _ moves => cases moves <;> exact ⟨rfl, rfl⟩
  | retired _ _ moves => cases moves <;> exact ⟨rfl, rfl⟩

/-- What is carried out clears all votes or only adds to the pending federation. -/
theorem Carried.grows {function : ChangeFunction} {event : Option CommitEvent}
    (done : s.Carried env function event t) (stays : function.resets = false)
    {p : PendingFederation} (assembling : s.pending = some p) :
    ∃ q, t.pending = some q ∧ p.members <+: q.members := by
  cases done with
  | create idle =>
    rw [idle] at assembling
    cases assembling
  | @add _ pending m _ found =>
    cases found.symm.trans assembling
    exact ⟨_, rfl, List.prefix_append _ _⟩
  | rollback => cases stays
  | commit => cases stays

end State

/-- Whether an operation changes the federation without a vote. -/
def Operation.isDirect : Operation → Bool
  | .create _ | .addMember _ _ | .rollback _ | .commit .. => true
  | _ => false

namespace Step

/-- The pending federation and the votes are not changed without a vote, and what is loaded could be
    stored. -/
def KeepsToVotes (step : Step) : Prop :=
  (step.operation.isDirect → step.after.state.pending = step.before.state.pending ∧
    step.after.state.federationElection = step.before.state.federationElection) ∧
  (step.operation.reloads → step.before.state.Fits)

instance (step : Step) : Decidable step.KeepsToVotes := inferInstanceAs (Decidable (_ ∧ _))

variable {step : Step} {spec : CallSpec} {voter : ChainAddress}

theorem ballot?_eq_none (unvoted : ∀ log sender spec, step.operation ≠ .vote log sender spec) :
    step.ballot? = none := by
  rw [Option.eq_none_iff_forall_ne_some]
  intro ballot known
  obtain ⟨log, sender, spec, _, _, called, _⟩ := ballot?_eq_some known
  exact unvoted log sender spec called

/-- Without a vote the pending federation and the votes stay as they are. The voters are not stored
    with the votes, so a reload restores them only if they are those of the constants. -/
theorem assembly_of_unvoted {b c : Bridge} {operation : Operation} {output : Output}
    (performed : b.perform operation = .ok (output, c))
    (keeps : KeepsToVotes ⟨b, operation, output, c⟩)
    (unvoted : ∀ log sender spec, operation ≠ .vote log sender spec) :
    c.state.pending = b.state.pending ∧
      (b.state.federationElection.authorizer = b.constants.federationAuthorizer →
        c.state.federationElection = b.state.federationElection) := by
  cases operation with
  | enterBlock block activations =>
    cases performed
    exact ⟨rfl, fun _ => rfl⟩
  | vote log sender spec => exact absurd rfl (unvoted log sender spec)
  | create dryRun => exact ⟨(keeps.1 rfl).1, fun _ => (keeps.1 rfl).2⟩
  | addMember dryRun m => exact ⟨(keeps.1 rfl).1, fun _ => (keeps.1 rfl).2⟩
  | rollback dryRun => exact ⟨(keeps.1 rfl).1, fun _ => (keeps.1 rfl).2⟩
  | commit log dryRun hash => exact ⟨(keeps.1 rfl).1, fun _ => (keeps.1 rfl).2⟩
  | voteFee sender fee =>
    obtain ⟨response, done, _⟩ := Bridge.perform_voteFee performed
    obtain ⟨e, rate, same⟩ := b.state.voteFee_eq b.constants sender fee
    rw [done] at same
    rw [show c.state = _ from same]
    exact ⟨rfl, fun _ => rfl⟩
  | updateHeights =>
    obtain ⟨env, _, done, _⟩ := Bridge.perform_updateHeights performed
    obtain ⟨active, next, same⟩ := State.updateCreationHeights_eq done
    rw [same]
    exact ⟨rfl, fun _ => rfl⟩
  | migrate =>
    obtain ⟨env, outcome, _, done, _⟩ := Bridge.perform_migrate performed
    obtain ⟨pending, election⟩ := (State.processMigration_migrated done).assembly
    exact ⟨pending, fun _ => election⟩
  | takeConfirmed =>
    obtain ⟨taken, done, _⟩ := Bridge.perform_takeConfirmed performed
    obtain ⟨waiting, same⟩ := State.takeConfirmed_eq done
    rw [same]
    exact ⟨rfl, fun _ => rfl⟩
  | depositNew u =>
    cases performed
    exact ⟨rfl, fun _ => rfl⟩
  | depositOld u =>
    cases performed
    exact ⟨rfl, fun _ => rfl⟩
  | reload store =>
    obtain ⟨loaded, _⟩ := Bridge.perform_reload performed
    have fits := keeps.2 rfl
    refine ⟨(Bridge.reloaded_restores fits loaded).pending, fun authorizer => ?_⟩
    rw [Bridge.federationElection_of_reloaded fits loaded, ← authorizer]

theorem tallying_of_keepsToVotes {b c : Bridge} {operation : Operation} {output : Output}
    (performed : b.perform operation = .ok (output, c))
    (keeps : KeepsToVotes ⟨b, operation, output, c⟩)
    (authorizer : b.state.federationElection.authorizer = b.constants.federationAuthorizer)
    (undecided : b.state.federationElection.winner? = none) :
    Tallying ⟨b, operation, output, c⟩ := by
  by_cases voted : ∃ log sender spec, operation = .vote log sender spec
  · obtain ⟨log, sender, spec, rfl⟩ := voted
    exact tallying_of_vote performed undecided
  · simp only [not_exists] at voted
    have same := (assembly_of_unvoted performed keeps voted).2 authorizer
    exact tallying_of_unvoted (ballot?_eq_none voted) same undecided

/-- As long as the votes for some call are not cleared, members are only added. -/
theorem pending_grows {b c : Bridge} {operation : Operation} {output : Output}
    (performed : b.perform operation = .ok (output, c))
    (keeps : KeepsToVotes ⟨b, operation, output, c⟩)
    (stays : ¬ Clears ⟨b, operation, output, c⟩ spec) {p : PendingFederation}
    (assembling : b.state.pending = some p) :
    ∃ q, c.state.pending = some q ∧ p.members <+: q.members := by
  by_cases voted : ∃ log sender spec, operation = .vote log sender spec
  · obtain ⟨log, sender, call, rfl⟩ := voted
    obtain ⟨env, ballot, _, cast, known, _⟩ := ballot?_of_vote performed
    generalize c.state = after at cast
    cases State.ballot_cast cast with
    | refused => exact ⟨p, assembling, List.prefix_rfl⟩
    | recorded => exact ⟨p, assembling, List.prefix_rfl⟩
    | executed _ _ done =>
      cases State.execute_ends done with
      | untouched => exact ⟨p, assembling, List.prefix_rfl⟩
      | @carried function _ _ _ named done =>
        refine done.grows ?_ assembling
        rw [← Bool.not_eq_true]
        intro resets
        refine stays ⟨_, known, ?_⟩
        simp [Ballot.clears, Ballot.resets, named, resets, ChangeResponse.isSuccess,
          ChangeResponse.code]
  · simp only [not_exists] at voted
    have same := (assembly_of_unvoted performed keeps voted).1
    exact ⟨p, same.trans assembling, List.prefix_rfl⟩

/-- A vote for a commit counts only while the pending federation is the one that the call names. -/
theorem Supports.names (supports : step.Supports spec voter)
    (named : ChangeFunction.ofName? spec.function = some .commit) :
    ∃ p, step.before.state.pending = some p ∧ spec.Names p := by
  obtain ⟨log, ballot, called, known, counts⟩ := supports
  obtain ⟨_, _, _, env, after, called', _, cast⟩ := ballot?_eq_some known
  cases called.symm.trans called'
  rcases State.tried_of_ballot cast with ⟨response, rfl⟩ | ⟨tried, t, done, success⟩
  · cases counts
  · exact State.names_of_execute named done success

/-- A commit that is carried out with success builds the federation from the pending one. -/
theorem built_of_executed {b c : Bridge} {operation : Operation} {output : Output}
    (performed : b.perform operation = .ok (output, c)) {result : ChangeResult}
    (known : ballot? ⟨b, operation, output, c⟩ = some (.executed spec result))
    (named : ChangeFunction.ofName? spec.function = some .commit)
    (success : result.response.isSuccess = true) {p : PendingFederation}
    (assembling : b.state.pending = some p) :
    ∃ f, p.build b.block.timestamp b.block.number b.constants b.activations = .ok f ∧
      c.state.newFederation = some f := by
  obtain ⟨log, sender, call, _, _, called, _⟩ := ballot?_eq_some known
  cases called
  obtain ⟨env, ballot, surroundings, cast, known', _⟩ := ballot?_of_vote performed
  cases known.symm.trans known'
  generalize c.state = after at cast
  cases State.ballot_cast cast with
  | executed _ _ done =>
    obtain ⟨function, same, done⟩ := (State.execute_ends done).carried_of_success success
    cases named.symm.trans same
    generalize result.event = event at done
    cases done with
    | add adds => simp at adds
    | @commit pending new _ _ found _ built =>
      cases (show b.state.pending = some pending from found).symm.trans assembling
      obtain ⟨constants, activations, block⟩ := Bridge.env_eq_ok surroundings
      rw [constants, activations, block] at built
      exact ⟨new, built, rfl⟩

end Step

namespace Scenario

/-- A pending federation of two members with a key each. -/
def pair : PendingFederation := ⟨Constants.developmentRecoveryKeys.map Member.ofKey⟩

/-- The call that commits the pair by its hash. -/
def commitPair : CallSpec where
  function := "commit"
  arguments := [Bytes.bigEndian 32 0x372e1e4113b6acd7236407d6f184a729a79c965e2a1957e1b291826bbf3f0c39]

/-- Two voters vote for a call. -/
def agree (spec : CallSpec) : List Order :=
  [.perform (.vote true first spec), .perform (.vote true second spec)]

/-- Two voters have the pair assembled. -/
def assemblePair : List Order :=
  agree ⟨"create", []⟩ ++
    Constants.developmentRecoveryKeys.flatMap fun key => agree ⟨"add", [key.compressed]⟩

end Scenario

/-- The lists of keys of the complete pending federations that there are in a run. -/
def keyLists (history : List Step) : Set Bytes :=
  {keys | ∃ step ∈ history, ∃ p, step.before.state.pending = some p ∧ p.isComplete = true ∧
    keys = p.encodedKeys}

namespace Runs

variable {c : Constants} {block : Block} {activations : Activations} {a b : Bridge}
  {history : List Step} {spec : CallSpec}

theorem pending_grows (run : Runs a history b) (keeps : ∀ step ∈ history, step.KeepsToVotes)
    (stays : ∀ step ∈ history, ¬ step.Clears spec) {p : PendingFederation}
    (assembling : a.state.pending = some p) :
    ∃ q, b.state.pending = some q ∧ p.members <+: q.members := by
  induction run with
  | refl => exact ⟨p, assembling, List.prefix_rfl⟩
  | step _ performed ih =>
    obtain ⟨keepsBefore, keeps⟩ := forall_mem_concat.1 keeps
    obtain ⟨staysBefore, stays⟩ := forall_mem_concat.1 stays
    obtain ⟨q, assembling, grown⟩ := ih keepsBefore staysBefore
    obtain ⟨r, assembling, further⟩ := Step.pending_grows performed keeps stays assembling
    exact ⟨r, assembling, grown.trans further⟩

theorem tallied_of_keepsToVotes (run : Runs (.startAt c block activations) history b)
    (keeps : ∀ step ∈ history, step.KeepsToVotes) :
    Tallied c.federationAuthorizer history b.state.federationElection := by
  apply run.tallied_of_tallying
  intro step member authorizer undecided
  obtain ⟨_, _, _, before, performed, _⟩ := run.split member
  rw [← show step.before.constants = c from before.constants_eq] at authorizer
  exact Step.tallying_of_keepsToVotes performed (keeps step member) authorizer undecided

/-- The pending federation at a vote that counts is the beginning of the one at the call. -/
theorem grown_of_counted (run : Runs a history b) (keeps : ∀ step ∈ history, step.KeepsToVotes)
    {number vote : Nat} {voter : ChainAddress} {step cast : Step}
    (counted : Counted history number spec vote voter) (found : history[number]? = some step)
    (found' : history[vote]? = some cast) {p : PendingFederation}
    (assembling : cast.before.state.pending = some p) :
    ∃ q, step.before.state.pending = some q ∧ p.members <+: q.members := by
  obtain ⟨within, _, stands⟩ := counted
  have part := run.segment found' found within
  have kept : ∀ between ∈ (history.drop vote).take (number - vote), between.KeepsToVotes :=
    fun between member => keeps between (List.mem_of_mem_drop (List.mem_of_mem_take member))
  have stays : ∀ between ∈ (history.drop vote).take (number - vote), ¬ between.Clears spec := by
    intro between member
    obtain ⟨i, inside, rfl⟩ := List.mem_take_iff_getElem.1 member
    rw [List.getElem_drop]
    exact stands (vote + i) _ (by omega) (by omega) (List.getElem?_eq_getElem _)
  exact part.pending_grows kept stays assembling

/-- If a run changes the pending federation by votes only and has no two lists of keys with the same
    hash, then all votes that count for a commit were cast while the pending federation was the one
    that is committed, with all keys of all members. These votes are those in the tally and the last
    one, and the new federation is built from just these members. -/
theorem committed_as_voted (run : Runs (.startAt c block activations) history b)
    (keeps : ∀ step ∈ history, step.KeepsToVotes)
    (injective : Set.InjOn keccak256 (keyLists history)) {number : Nat} {step : Step}
    (found : history[number]? = some step) (executes : step.Executes spec)
    (named : ChangeFunction.ofName? spec.function = some .commit) :
    ∃ p, step.before.state.pending = some p ∧ spec.Names p ∧
      (∀ vote voter, Counted history number spec vote voter →
        ∃ cast, history[vote]? = some cast ∧ cast.Supports spec voter ∧
          cast.before.state.pending = some p) ∧
      (∃ last, step.Supports spec last ∧ ∀ voter,
        voter ∈ (step.before.state.federationElection.tally spec).insert last ↔
          ∃ vote, Counted history number spec vote voter) ∧
      ∀ result, step.ballot? = some (.executed spec result) → result.response.isSuccess = true →
        ∃ f, p.build step.before.block.timestamp step.before.block.number step.before.constants
            step.before.activations = .ok f ∧
          step.after.state.newFederation = some f := by
  obtain ⟨past, later, rfl, rfl, before, performed, _⟩ := run.split_at found
  have tallied := before.tallied_of_keepsToVotes (List.forall_mem_append.1 keeps).1
  have authorizer : step.before.state.federationElection.authorizer =
      step.before.constants.federationAuthorizer := by
    rw [tallied.authorizer, before.constants_eq]
    rfl
  have tallying : step.Tallying :=
    Step.tallying_of_keepsToVotes performed (keeps step (by simp)) authorizer tallied.undecided
  obtain ⟨last, supports, _⟩ := tallying.quorum spec executes
  obtain ⟨p, assembling, names⟩ := supports.names named
  refine ⟨p, assembling, names, ?_, ⟨last, supports, ?_⟩, ?_⟩
  · intro vote voter counted
    obtain ⟨cast, found', supports'⟩ := counted.2.1
    obtain ⟨q, assembling', names'⟩ := supports'.names named
    refine ⟨cast, found', supports', ?_⟩
    have grown : q.members <+: p.members := by
      obtain ⟨r, same, grown⟩ := run.grown_of_counted keeps counted found found' assembling'
      cases same.symm.trans assembling
      exact grown
    have keys : q.encodedKeys = p.encodedKeys := by
      apply injective
      · exact ⟨cast, List.mem_of_getElem? found', q, assembling', names'.1, rfl⟩
      · exact ⟨step, by simp, p, assembling, names.1, rfl⟩
      · exact names'.hash names
    rw [assembling', PendingFederation.eq_of_encodedKeys grown keys]
  · intro voter
    rw [OrderedSet.mem_insert, tallied.exists_counted_iff later]
    constructor
    · rintro (rfl | member)
      · exact .inr supports
      · exact .inl member
    · rintro (member | supports')
      · exact .inr member
      · exact .inl (supports'.unique supports).2
  · intro result known success
    exact Step.built_of_executed performed known named success assembling

set_option maxRecDepth 100000 in
/-- Two of three voters have a federation assembled and commit it. The state is saved and loaded
    between their votes for the commit. -/
theorem committed_as_voted_of_pair :
    ∃ history b step vote cast f, Runs (.startAt .regtest ⟨5, 0⟩ .none) history b ∧
      (∀ step ∈ history, step.KeepsToVotes) ∧ Set.InjOn keccak256 (keyLists history) ∧
      history[8]? = some step ∧ step.Executes Scenario.commitPair ∧
      Counted history 8 Scenario.commitPair vote Scenario.first ∧ history[vote]? = some cast ∧
      cast.before.state.pending = some Scenario.pair ∧
      step.before.state.pending = some Scenario.pair ∧
      Scenario.pair.build 0 5 .regtest .none = .ok f ∧
      step.after.state.newFederation = some f := by
  obtain ⟨history, b, run, keeps, single, seen⟩ := Bridge.exists_runs_of_play
    (P := fun history _ => (∀ step ∈ history, step.KeepsToVotes) ∧
      (∀ step ∈ history, ∀ p ∈ step.before.state.pending, p.isComplete = true →
        p = Scenario.pair) ∧
      history[8]?.any (fun step : Step =>
        step.ballot?.any (fun ballot => ballot.executes Scenario.commitPair &&
          ballot.result.response.isSuccess) &&
        decide (Scenario.first ∈
          step.before.state.federationElection.tally Scenario.commitPair) &&
        decide (step.before.block = ⟨5, 0⟩ ∧ step.before.activations = .none)) = true)
    (b := .startAt .regtest ⟨5, 0⟩ .none)
    (Scenario.assemblePair ++ [.perform (.vote true Scenario.first Scenario.commitPair),
      .perform (.reload {}), .perform (.vote true Scenario.second Scenario.commitPair)])
    (by decide +kernel)
  obtain ⟨step, found, seen⟩ := (Option.any_eq_true _ _).1 seen
  simp only [Bool.and_eq_true, decide_eq_true_eq] at seen
  obtain ⟨⟨seen, before⟩, block, activations⟩ := seen
  obtain ⟨ballot, known, seen⟩ := (Option.any_eq_true _ _).1 seen
  rw [Bool.and_eq_true] at seen
  obtain ⟨result, rfl⟩ := Ballot.executes_iff.1 seen.1
  have injective : Set.InjOn keccak256 (keyLists history) := by
    rintro _ ⟨step, member, p, assembling, complete, rfl⟩ _ ⟨step', member', q, assembling',
      complete', rfl⟩ _
    rw [single step member p assembling complete, single step' member' q assembling' complete']
  obtain ⟨p, assembling, names, votes, ⟨last, _, counted⟩, built⟩ :=
    run.committed_as_voted keeps injective found ⟨result, known⟩ (by decide)
  have pair := single step (List.mem_of_getElem? found) p assembling names.1
  subst pair
  obtain ⟨vote, counts⟩ := (counted Scenario.first).1 (OrderedSet.mem_insert.2 (.inr before))
  obtain ⟨cast, found', _, saw⟩ := votes vote Scenario.first counts
  obtain ⟨f, made, installed⟩ := built result known seen.2
  have constants : step.before.constants = .regtest := by
    obtain ⟨_, _, _, past, _⟩ := run.split (List.mem_of_getElem? found)
    exact past.constants_eq
  rw [block, activations, constants] at made
  exact ⟨history, b, step, vote, cast, f, run, keeps, injective, found, ⟨result, known⟩, counts,
    found', saw, assembling, made, installed⟩

end Runs

end TwoWayPeg
