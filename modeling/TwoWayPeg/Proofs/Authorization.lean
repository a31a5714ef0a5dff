import Mathlib.Logic.ExistsUnique
import TwoWayPeg.Proofs.Custody
import TwoWayPeg.Proofs.Scenario
import TwoWayPeg.Proofs.Standing
import TwoWayPeg.Proofs.Tally

/-!
# No change without enough votes

In a run of votes a call is carried out only when enough voters have voted for it since the votes
for it were last cleared. `Counted` tells from the run alone which votes those are, and
`Runs.tallied` that they are the ones in the tally.
-/

namespace TwoWayPeg

namespace ChangeFunction

/-- Whether a function takes away all votes. -/
def resets : ChangeFunction → Bool
  | .rollback | .commit => true
  | _ => false

end ChangeFunction

namespace Ballot

/-- Whether the vote counts. -/
def counts : Ballot → Bool
  | .refused _ => false
  | _ => true

/-- Whether the vote carries out a call. -/
def executes (spec : CallSpec) : Ballot → Bool
  | .executed call _ => call = spec
  | _ => false

theorem executes_iff {spec : CallSpec} {ballot : Ballot} :
    ballot.executes spec = true ↔ ∃ result, ballot = .executed spec result := by
  cases ballot <;> simp [executes]

/-- Whether the vote carries out a call that takes away all votes, and does so with success. -/
def resets : Ballot → Bool
  | .executed call result =>
    result.response.isSuccess && (ChangeFunction.ofName? call.function).any ChangeFunction.resets
  | _ => false

/-- Whether the votes for a call are gone after the vote. -/
def clears (spec : CallSpec) (ballot : Ballot) : Bool := ballot.executes spec || ballot.resets

end Ballot

namespace State

variable {s t : State} {env : Env} {sender : ChainAddress} {spec call : CallSpec}

/-- What a call does to the election: a rollback and a commit clear it, and the others leave it. -/
theorem Ends.federationElection {function : Option ChangeFunction} {result : ChangeResult}
    (ends : s.Ends env false function result t) :
    t.federationElection =
      if result.response.isSuccess && function.any ChangeFunction.resets then
        s.federationElection.clear
      else s.federationElection := by
  cases ends with
  | untouched real =>
    rw [real rfl]
    rfl
  | carried _ named done =>
    subst named
    cases done with
    | add adds => rcases adds with rfl | rfl <;> rfl
    | _ => rfl

/-- What is left of the tallies after a vote, if no call had won before it. -/
structure TalliesAfter (s : State) (sender : ChainAddress) (spec : CallSpec) (ballot : Ballot)
    (t : State) : Prop where
  authorizer : t.federationElection.authorizer = s.federationElection.authorizer
  undecided : t.federationElection.winner? = none
  tallies : ∀ call voter, voter ∈ t.federationElection.tally call ↔
    ballot.clears call = false ∧
      (voter ∈ s.federationElection.tally call ∨
        ballot.counts = true ∧ call = spec ∧ voter = sender)

theorem talliesAfter {ballot : Ballot} (undecided : s.federationElection.winner? = none)
    (cast : s.ballot env sender spec = .ok (ballot, t)) :
    s.TalliesAfter sender spec ballot t := by
  cases ballot_cast cast with
  | refused => exact ⟨rfl, undecided, by simp [Ballot.clears, Ballot.executes, Ballot.resets,
      Ballot.counts]⟩
  | recorded counted open' =>
    refine ⟨Election.authorizer_vote? counted, open', ?_⟩
    intro call voter
    have members := Election.mem_tally_vote? counted call voter
    simpa [Ballot.clears, Ballot.executes, Ballot.resets, Ballot.counts] using members
  | @executed voted winner result t counted won done =>
    have same := Election.winner_eq_voted undecided counted won
    subst same
    have election := (execute_ends done).federationElection
    rw [federationElection_withElection] at election
    have authorizer := Election.authorizer_vote? counted
    by_cases reset : (Ballot.executed winner result).resets = true
    · have cleared : t.federationElection = voted.clear := election.trans (if_pos reset)
      rw [cleared, Election.clearWinner_eq_self Election.winner?_clear]
      refine ⟨authorizer, rfl, ?_⟩
      intro call voter
      simp [Ballot.clears, reset]
    · have kept : t.federationElection = voted := election.trans (if_neg reset)
      rw [kept, Election.clearWinner_eq_remove won]
      refine ⟨authorizer, Election.winner?_remove_voted undecided counted, ?_⟩
      intro call voter
      have members := Election.mem_tally_vote? counted call voter
      rw [Bool.not_eq_true] at reset
      by_cases same : call = winner
      · subst same
        simp [Ballot.clears, Ballot.executes]
      · have stays : Ballot.clears call (.executed winner result) = false := by
          simp [Ballot.clears, Ballot.executes, reset, Ne.symm same]
        rw [federationElection_withElection, Election.tally_remove_of_ne same, members]
        simp [stays, same]

/-- A vote that counts is that of an authorised voter who has not voted for the call. -/
theorem allowed_of_counts {ballot : Ballot} (cast : s.ballot env sender spec = .ok (ballot, t))
    (counts : ballot.counts = true) :
    s.federationElection.authorizer.allows sender = true ∧
      sender ∉ s.federationElection.tally spec := by
  cases ballot_cast cast with
  | refused => cases counts
  | recorded counted =>
    rcases Election.vote?_eq_some counted with ⟨allowed, fresh, _⟩
    exact ⟨allowed, fresh⟩
  | executed counted =>
    rcases Election.vote?_eq_some counted with ⟨allowed, fresh, _⟩
    exact ⟨allowed, fresh⟩

/-- If no call had won before a vote, the call that the vote carries out is the one voted for, and
    it has enough voters with the one who votes. -/
theorem quorum_of_executed {result : ChangeResult}
    (undecided : s.federationElection.winner? = none)
    (cast : s.ballot env sender spec = .ok (.executed call result, t)) :
    call = spec ∧ s.federationElection.authorizer.required ≤
      ((s.federationElection.tally spec).insert sender).size := by
  cases ballot_cast cast with
  | executed counted won _ =>
    have same := Election.winner_eq_voted undecided counted won
    have enough := Election.required_le_of_winner? won
    subst same
    rw [Election.authorizer_vote? counted, Election.tally_vote?_self counted] at enough
    exact ⟨rfl, enough⟩

end State

/-- Whether an operation is a vote on a change, or goes to a block. -/
def Operation.isVoting : Operation → Bool
  | .vote .. | .enterBlock .. => true
  | _ => false

namespace Step

/-- A voter's vote for a call counts in the step. -/
def Supports (step : Step) (spec : CallSpec) (voter : ChainAddress) : Prop :=
  ∃ log ballot, step.operation = .vote log voter spec ∧ step.ballot? = some ballot ∧
    ballot.counts = true

/-- A call is carried out in the step. -/
def Executes (step : Step) (spec : CallSpec) : Prop :=
  ∃ result, step.ballot? = some (.executed spec result)

/-- A call is carried out in the step, or all votes are taken away by a rollback or a commit. -/
def Clears (step : Step) (spec : CallSpec) : Prop :=
  ∃ ballot, step.ballot? = some ballot ∧ ballot.clears spec = true

theorem Executes.clears {step : Step} {spec : CallSpec} (executes : step.Executes spec) :
    step.Clears spec := by
  rcases executes with ⟨result, known⟩
  exact ⟨_, known, by simp [Ballot.clears, Ballot.executes]⟩

/-- A vote is a vote for one call. -/
theorem Supports.unique {step : Step} {spec other : CallSpec} {voter voter' : ChainAddress}
    (supports : step.Supports spec voter) (supports' : step.Supports other voter') :
    spec = other ∧ voter = voter' := by
  rcases supports with ⟨_, _, called, _⟩
  rcases supports' with ⟨_, _, called', _⟩
  cases called.symm.trans called'
  exact ⟨rfl, rfl⟩

end Step

/-- A voter's vote with some number is one of those by which a call is carried out in the step with
    another number: the votes for the call have not been cleared in between. -/
def Counted (history : List Step) (number : Nat) (spec : CallSpec) (vote : Nat)
    (voter : ChainAddress) : Prop :=
  vote ≤ number ∧ (∃ step, history[vote]? = some step ∧ step.Supports spec voter) ∧
    ∀ between step, vote ≤ between → between < number → history[between]? = some step →
      ¬ step.Clears spec

namespace Counted

variable {history past later : List Step} {step : Step} {number vote : Nat} {spec : CallSpec}
  {voter : ChainAddress}

/-- What counts in a step is its own vote and what has counted before it. -/
theorem at_iff : Counted (past ++ step :: later) past.length spec vote voter ↔
    Counted past past.length spec vote voter ∨
      vote = past.length ∧ step.Supports spec voter :=
  Standing.at_iff

/-- What counts after a step has not been cleared in it. -/
theorem append_iff : Counted (past ++ [step]) (past ++ [step]).length spec vote voter ↔
    ¬ step.Clears spec ∧ Counted (past ++ [step]) past.length spec vote voter :=
  Standing.append_iff

/-- No vote counts for two calls that are carried out. -/
theorem number_unique {number' : Nat} {step' : Step} {other : CallSpec} {voter' : ChainAddress}
    (found : history[number]? = some step) (executes : step.Executes spec)
    (found' : history[number']? = some step') (executes' : step'.Executes other)
    (counted : Counted history number spec vote voter)
    (counted' : Counted history number' other vote voter') : number = number' := by
  rcases counted with ⟨within, ⟨supporter, voted, supports⟩, stands⟩
  rcases counted' with ⟨within', ⟨_, voted', supports'⟩, stands'⟩
  cases voted.symm.trans voted'
  rcases supports.unique supports' with ⟨rfl, rfl⟩
  rcases Nat.lt_trichotomy number number' with before | same | after
  · exact absurd executes.clears (stands' number step within before found)
  · exact same
  · exact absurd executes'.clears (stands number' step' within' after found')

end Counted

namespace Step

/-- What a step of a run of votes does to the election. -/
structure Tallying (step : Step) : Prop where
  authorizer : step.after.state.federationElection.authorizer =
    step.before.state.federationElection.authorizer
  undecided : step.after.state.federationElection.winner? = none
  tallies : ∀ call voter, voter ∈ step.after.state.federationElection.tally call ↔
    ¬ step.Clears call ∧
      (voter ∈ step.before.state.federationElection.tally call ∨ step.Supports call voter)
  admits : ∀ call voter, step.Supports call voter →
    step.before.state.federationElection.authorizer.allows voter = true ∧
      voter ∉ step.before.state.federationElection.tally call
  quorum : ∀ call, step.Executes call → ∃ voter, step.Supports call voter ∧
    step.before.state.federationElection.authorizer.required ≤
      ((step.before.state.federationElection.tally call).insert voter).size

/-- A step without a vote that leaves the election as it is. -/
theorem tallying_of_unvoted {step : Step} (unvoted : step.ballot? = none)
    (same : step.after.state.federationElection = step.before.state.federationElection)
    (undecided : step.before.state.federationElection.winner? = none) : step.Tallying := by
  have silent {ballot : Ballot} (known : step.ballot? = some ballot) : False := by
    rw [unvoted] at known
    cases known
  constructor
  case authorizer => rw [same]
  case undecided => rw [same, undecided]
  case tallies =>
    intro call voter
    rw [same]
    constructor
    · intro member
      refine ⟨?_, .inl member⟩
      rintro ⟨_, known, _⟩
      exact silent known
    · rintro ⟨_, member | ⟨_, _, _, known, _⟩⟩
      · exact member
      · exact (silent known).elim
  case admits =>
    rintro call voter ⟨_, _, _, known, _⟩
    exact (silent known).elim
  case quorum =>
    rintro call ⟨_, known⟩
    exact (silent known).elim

theorem tallying_of_vote {b c : Bridge} {log : Bool} {sender : ChainAddress} {spec : CallSpec}
    {output : Output} (performed : b.perform (.vote log sender spec) = .ok (output, c))
    (undecided : b.state.federationElection.winner? = none) :
    Tallying ⟨b, .vote log sender spec, output, c⟩ := by
  rcases ballot?_of_vote performed with ⟨env, ballot, surroundings, cast, known, _⟩
  have supports {call : CallSpec} {voter : ChainAddress} :
      Supports ⟨b, .vote log sender spec, output, c⟩ call voter ↔
        ballot.counts = true ∧ call = spec ∧ voter = sender := by
    constructor
    · rintro ⟨_, ballot', called, known', counts⟩
      cases known.symm.trans known'
      cases called
      exact ⟨counts, rfl, rfl⟩
    · rintro ⟨counts, rfl, rfl⟩
      exact ⟨log, ballot, rfl, known, counts⟩
  have clears {call : CallSpec} : Clears ⟨b, .vote log sender spec, output, c⟩ call ↔
      ballot.clears call = true := by
    constructor
    · rintro ⟨ballot', known', cleared⟩
      cases known.symm.trans known'
      exact cleared
    · intro cleared
      exact ⟨ballot, known, cleared⟩
  have after := State.talliesAfter undecided cast
  refine ⟨after.authorizer, after.undecided, ?_, ?_, ?_⟩
  · intro call voter
    rw [clears, supports, Bool.not_eq_true]
    exact after.tallies call voter
  · intro call voter supported
    rcases supports.1 supported with ⟨counts, rfl, rfl⟩
    exact State.allowed_of_counts cast counts
  · rintro call ⟨result, known'⟩
    cases known.symm.trans known'
    rcases State.quorum_of_executed undecided cast with ⟨rfl, enough⟩
    exact ⟨sender, supports.2 ⟨rfl, rfl, rfl⟩, enough⟩

theorem tallying {b c : Bridge} {operation : Operation} {output : Output}
    (voting : operation.isVoting = true)
    (performed : b.perform operation = .ok (output, c))
    (undecided : b.state.federationElection.winner? = none) :
    Tallying ⟨b, operation, output, c⟩ := by
  cases operation with
  | enterBlock block activations =>
    cases performed
    exact tallying_of_unvoted rfl rfl undecided
  | vote log sender spec => exact tallying_of_vote performed undecided
  | _ => cases voting

/-- The custody changes in a vote only as the call that is carried out changes it. -/
theorem custody_of_voting {b c : Bridge} {operation : Operation} {output : Output}
    (voting : operation.isVoting = true)
    (performed : b.perform operation = .ok (output, c)) :
    c.state.custody = b.state.custody ∨
      ∃ spec env voted result t, Executes ⟨b, operation, output, c⟩ spec ∧ b.env = .ok env ∧
        (b.state.withElection voted).execute env false spec = .ok (result, t) ∧
        c.state.custody = t.custody := by
  cases operation with
  | enterBlock block activations =>
    cases performed
    exact .inl rfl
  | vote log sender spec =>
    rcases ballot?_of_vote performed with ⟨env, ballot, surroundings, cast, known, _⟩
    generalize c.state = after at cast
    cases State.ballot_cast cast with
    | refused => exact .inl rfl
    | recorded => exact .inl rfl
    | @executed voted winner result t _ _ done =>
      exact .inr ⟨winner, env, voted, result, t, ⟨result, known⟩, surroundings, done, rfl⟩
  | _ => cases voting

end Step

/-- The tallies of an election are those of the votes that have been cast and not cleared. -/
structure Tallied (a : Authorizer) (history : List Step) (e : Election) : Prop where
  authorizer : e.authorizer = a
  undecided : e.winner? = none
  members : ∀ call voter,
    voter ∈ e.tally call ↔ ∃ vote, Counted history history.length call vote voter
  once : ∀ call voter vote vote', Counted history history.length call vote voter →
    Counted history history.length call vote' voter → vote = vote'
  allowed : ∀ call, ∀ voter ∈ e.tally call, a.allows voter = true

namespace Tallied

variable {a : Authorizer} {past later : List Step} {step : Step} {spec : CallSpec}

/-- The voters of a call with the one who votes in a step are those whose votes count in it. -/
theorem exists_counted_iff (tallied : Tallied a past step.before.state.federationElection)
    (later : List Step) {voter : ChainAddress} :
    (∃ vote, Counted (past ++ step :: later) past.length spec vote voter) ↔
      voter ∈ step.before.state.federationElection.tally spec ∨ step.Supports spec voter := by
  rw [tallied.members]
  constructor
  · rintro ⟨vote, counted⟩
    rcases Counted.at_iff.1 counted with before | ⟨_, supports⟩
    · exact .inl ⟨vote, before⟩
    · exact .inr supports
  · rintro (⟨vote, before⟩ | supports)
    · exact ⟨vote, Counted.at_iff.2 (.inl before)⟩
    · exact ⟨past.length, Counted.at_iff.2 (.inr ⟨rfl, supports⟩)⟩

/-- A voter has one vote that counts in a step. -/
theorem vote_unique (tallied : Tallied a past step.before.state.federationElection)
    (tallying : step.Tallying) {voter : ChainAddress} {vote vote' : Nat}
    (counted : Counted (past ++ step :: later) past.length spec vote voter)
    (counted' : Counted (past ++ step :: later) past.length spec vote' voter) : vote = vote' := by
  have apart {earlier : Nat} (before : Counted past past.length spec earlier voter)
      (supports : step.Supports spec voter) : False :=
    (tallying.admits spec voter supports).2 ((tallied.members spec voter).2 ⟨earlier, before⟩)
  rcases Counted.at_iff.1 counted with before | ⟨here, supports⟩
  · rcases Counted.at_iff.1 counted' with before' | ⟨_, supports'⟩
    · exact tallied.once spec voter vote vote' before before'
    · exact (apart before supports').elim
  · rcases Counted.at_iff.1 counted' with before' | ⟨here', _⟩
    · exact (apart before' supports).elim
    · exact here.trans here'.symm

theorem append (tallied : Tallied a past step.before.state.federationElection)
    (tallying : step.Tallying) :
    Tallied a (past ++ [step]) step.after.state.federationElection := by
  refine ⟨tallying.authorizer.trans tallied.authorizer, tallying.undecided, ?_, ?_, ?_⟩
  · intro call voter
    rw [tallying.tallies, ← tallied.exists_counted_iff []]
    simp only [Counted.append_iff, exists_and_left]
  · intro call voter vote vote' counted counted'
    exact tallied.vote_unique tallying (Counted.append_iff.1 counted).2
      (Counted.append_iff.1 counted').2
  · intro call voter member
    rcases ((tallying.tallies call voter).1 member).2 with before | supports
    · exact tallied.allowed call voter before
    · exact tallied.authorizer ▸ (tallying.admits call voter supports).1

end Tallied

namespace Runs

variable {c : Constants} {block : Block} {activations : Activations} {b : Bridge}
  {history : List Step}

/-- If each step tallies the votes as it should, the tallies after a run are those of its votes. -/
theorem tallied_of_tallying (run : Runs (.startAt c block activations) history b)
    (steps : ∀ step ∈ history,
      step.before.state.federationElection.authorizer = c.federationAuthorizer →
      step.before.state.federationElection.winner? = none → step.Tallying) :
    Tallied c.federationAuthorizer history b.state.federationElection := by
  induction run with
  | refl =>
    have nothing {call : CallSpec} {vote : Nat} {voter : ChainAddress} :
        ¬ Counted [] 0 call vote voter := by
      rintro ⟨_, ⟨_, found, _⟩, _⟩
      cases found
    refine ⟨rfl, rfl, ?_, ?_, ?_⟩
    · intro call voter
      constructor
      · intro member
        exact absurd member OrderedSet.not_mem_empty
      · rintro ⟨_, counted⟩
        exact (nothing counted).elim
    · intro call voter vote vote' counted
      exact (nothing counted).elim
    · intro call voter member
      exact absurd member OrderedSet.not_mem_empty
  | step _ performed ih =>
    rcases forall_mem_concat.1 steps with ⟨earlier, last⟩
    have tallied := ih earlier
    exact Tallied.append tallied (last tallied.authorizer tallied.undecided)

theorem tallied (run : Runs (.startAt c block activations) history b)
    (voting : ∀ step ∈ history, step.operation.isVoting = true) :
    Tallied c.federationAuthorizer history b.state.federationElection := by
  apply run.tallied_of_tallying
  intro step member _ undecided
  rcases run.split member with ⟨_, _, _, _, performed, _⟩
  exact Step.tallying (voting step member) performed undecided

/-- In a run of votes, each call that is carried out has at least as many voters as it takes. They
    are authorised, and each of them has cast one vote for just this call since the votes for it were
    last cleared. No vote counts for two calls that are carried out. The federations and their
    outputs change only as such a call changes them. -/
theorem executed_by_quorum (run : Runs (.startAt c block activations) history b)
    (voting : ∀ step ∈ history, step.operation.isVoting = true) :
    (∀ number step spec, history[number]? = some step → step.Executes spec →
      ∃ voters : List ChainAddress, voters.Nodup ∧
        c.federationAuthorizer.required ≤ voters.length ∧
        (∀ voter ∈ voters, c.federationAuthorizer.allows voter = true ∧
          ∃! vote, Counted history number spec vote voter) ∧
        ∀ vote voter, Counted history number spec vote voter → voter ∈ voters) ∧
      (∀ number number' step step' spec spec' vote voter voter',
        history[number]? = some step → step.Executes spec →
        history[number']? = some step' → step'.Executes spec' →
        Counted history number spec vote voter → Counted history number' spec' vote voter' →
        number = number') ∧
      ∀ step ∈ history, step.after.state.custody = step.before.state.custody ∨
        ∃ spec env voted result t, step.Executes spec ∧ step.before.env = .ok env ∧
          (step.before.state.withElection voted).execute env false spec = .ok (result, t) ∧
          step.after.state.custody = t.custody := by
  refine ⟨?_, ?_, ?_⟩
  · intro number step spec found executes
    rcases run.split_at found with ⟨past, later, rfl, rfl, before, performed, _⟩
    have tallied := before.tallied (List.forall_mem_append.1 voting).1
    have tallying : step.Tallying := Step.tallying (voting step (by simp)) performed
      tallied.undecided
    rcases tallying.quorum spec executes with ⟨caster, supports, enough⟩
    have counted_iff (voter : ChainAddress) :
        voter ∈ ((step.before.state.federationElection.tally spec).insert caster).toList ↔
          ∃ vote, Counted (past ++ step :: later) past.length spec vote voter := by
      rw [← OrderedSet.mem_def, OrderedSet.mem_insert, tallied.exists_counted_iff later]
      constructor
      · rintro (rfl | member)
        · exact .inr supports
        · exact .inl member
      · rintro (member | supports')
        · exact .inr member
        · exact .inl (supports'.unique supports).2
    refine ⟨_, OrderedSet.nodup_toList _, tallied.authorizer ▸ enough, ?_, ?_⟩
    · intro voter member
      rcases (counted_iff voter).1 member with ⟨vote, counted⟩
      refine ⟨?_, vote, counted, fun vote' counted' =>
        tallied.vote_unique tallying counted' counted⟩
      rcases (tallied.exists_counted_iff later).1 ⟨vote, counted⟩ with before | supports
      · exact tallied.allowed spec voter before
      · exact tallied.authorizer ▸ (tallying.admits spec voter supports).1
    · intro vote voter counted
      exact (counted_iff voter).2 ⟨vote, counted⟩
  · intro number number' step step' spec spec' vote voter voter' found executes found' executes'
    exact Counted.number_unique found executes found' executes'
  · intro step member
    rcases run.split member with ⟨past, later, rfl, before, performed, _⟩
    exact Step.custody_of_voting (voting step member) performed

/-- Two of three voters have a federation created, and two of them have it given up in a later
    block. -/
theorem executed_by_quorum_of_create_and_rollback :
    ∃ history b, Runs (.startAt .regtest ⟨5, 0⟩ .none) history b ∧
      (history[1]?.bind Step.ballot? = some (.executed ⟨"create", []⟩ { response := .success }) ∧
        history[4]?.bind Step.ballot? =
          some (.executed ⟨"rollback", []⟩ { response := .success })) ∧
      (∀ number step spec, history[number]? = some step → step.Executes spec →
        ∃ voters : List ChainAddress, voters.Nodup ∧
          Constants.regtest.federationAuthorizer.required ≤ voters.length ∧
          (∀ voter ∈ voters, Constants.regtest.federationAuthorizer.allows voter = true ∧
            ∃! vote, Counted history number spec vote voter) ∧
          ∀ vote voter, Counted history number spec vote voter → voter ∈ voters) ∧
      (∀ number number' step step' spec spec' vote voter voter',
        history[number]? = some step → step.Executes spec →
        history[number']? = some step' → step'.Executes spec' →
        Counted history number spec vote voter → Counted history number' spec' vote voter' →
        number = number') ∧
      ∀ step ∈ history, step.after.state.custody = step.before.state.custody ∨
        ∃ spec env voted result t, step.Executes spec ∧ step.before.env = .ok env ∧
          (step.before.state.withElection voted).execute env false spec = .ok (result, t) ∧
          step.after.state.custody = t.custody := by
  obtain ⟨history, b, run, voting, seen⟩ := Bridge.exists_runs_of_play
    (P := fun history _ => (∀ step ∈ history, step.operation.isVoting = true) ∧
      history[1]?.bind Step.ballot? = some (.executed ⟨"create", []⟩ { response := .success }) ∧
      history[4]?.bind Step.ballot? = some (.executed ⟨"rollback", []⟩ { response := .success }))
    (b := .startAt .regtest ⟨5, 0⟩ .none)
    ([.vote true Scenario.first ⟨"create", []⟩, .vote true Scenario.second ⟨"create", []⟩,
      .vote true Scenario.first ⟨"rollback", []⟩, .enterBlock ⟨6, 0⟩ .none,
      .vote true Scenario.second ⟨"rollback", []⟩].map .perform)
    (by decide +kernel)
  exact ⟨history, b, run, seen, run.executed_by_quorum voting⟩

end Runs

end TwoWayPeg
