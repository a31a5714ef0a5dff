import TwoWayPeg.Proofs.Authorization
import TwoWayPeg.Proofs.Transition

/-!
# No standing winner

A vote carries out the first call in order that has enough votes, while it is the call voted for that
was tried before. The two are the same call because no call is left with enough votes when an
operation ends: the winner's votes are taken away also if carrying it out fails, and what else
happens to the votes takes them away or stores and loads them.
-/

namespace TwoWayPeg

namespace State

/-- Neither election has a winner. -/
structure Undecided (s : State) : Prop where
  change : s.federationElection.winner? = none
  fee : s.feeElection.winner? = none

theorem undecided_initial (c : Constants) : (State.initial c).Undecided := ⟨rfl, rfl⟩

variable {s t : State} {env : Env} {sender : ChainAddress} {spec call : CallSpec}

/-- The call that a vote carries out is the one voted for, which was tried in the same state. -/
theorem Undecided.tried (undecided : s.Undecided) {result : ChangeResult}
    (cast : s.ballot env sender spec = .ok (.executed call result, t)) :
    call = spec ∧ ∃ tried t', s.execute env true call = .ok (tried, t') ∧
      tried.response.isSuccess = true := by
  obtain ⟨rfl, _⟩ := quorum_of_executed undecided.change cast
  refine ⟨rfl, ?_⟩
  rcases tried_of_ballot cast with ⟨response, refused⟩ | tried
  · cases refused
  · exact tried

end State

namespace Step

variable {step : Step}

theorem Transition.undecided (transition : step.Transition)
    (undecided : step.before.state.Undecided) : step.after.state.Undecided := by
  constructor
  case change =>
    rcases transition.federationElection with (kept | cleared) | ⟨_, _, _, _, _, _, cast⟩
    · rw [kept]
      exact undecided.change
    · rw [cleared]
      exact Election.winner?_clear
    · exact (State.talliesAfter undecided.change cast).undecided
  case fee =>
    cases transition.upkept with
    | kept _ _ same =>
      have votes : step.after.state.feeElection = step.before.state.feeElection :=
        congrArg Upkeep.feeElection same
      rw [votes]
      exact undecided.fee
    | votedFee _ _ cast => exact (State.feeBallot_cast cast).undecided undecided.fee
    | migrated _ _ done =>
      rw [done.elections.2]
      exact undecided.fee
    | took _ done =>
      obtain ⟨waiting, same⟩ := State.takeConfirmed_eq done
      rw [same]
      exact undecided.fee

end Step

namespace Runs

variable {c : Constants} {block : Block} {activations : Activations} {a b : Bridge}
  {history : List Step}

theorem undecided (run : Runs a history b)
    (stored : ∀ step ∈ history, step.operation.reloads = true → step.before.state.Fits)
    (storable : a.state.Storable a.constants) (start : a.state.Undecided) :
    b.state.Undecided := by
  induction run with
  | refl => exact start
  | step run performed ih =>
    obtain ⟨earlier, last⟩ := forall_mem_concat.1 stored
    exact (Step.transition_of_performed performed (run.storable earlier storable) last).undecided
      (ih earlier)

/-- After each operation of a run neither election has a winner. So a vote on a change that carries
    out a call carries out the one voted for, which was tried with success in the state before the
    vote; and a vote on the fee rate that carries out a call sets the rate voted for. -/
theorem no_standing_winner (run : Runs (.startAt c block activations) history b)
    (stored : ∀ step ∈ history, step.operation.reloads = true → step.before.state.Fits) :
    (b.state.federationElection.winner? = none ∧ b.state.feeElection.winner? = none) ∧
      (∀ step ∈ history, ∀ call result, step.ballot? = some (.executed call result) →
        ∃ log sender env tried t, step.operation = .vote log sender call ∧
          step.before.env = .ok env ∧
          step.before.state.execute env true call = .ok (tried, t) ∧
          tried.response.isSuccess = true) ∧
      ∀ step ∈ history, ∀ call, step.feeBallot? = some (.executed call) →
        ∃ sender fee, step.operation = .voteFee sender fee ∧ call = .setFee fee.toUInt64 ∧
          0 < fee ∧ fee.toUInt64 ≤ c.maxFeePerKb ∧
          step.after.state.feePerKb = some fee.toUInt64 := by
  have start := State.storable_startAt c block activations
  have initial := State.undecided_initial c
  have at_step {step : Step} (member : step ∈ history) :
      step.before.constants = c ∧ step.before.state.Undecided ∧
        step.before.perform step.operation = .ok (step.output, step.after) := by
    obtain ⟨past, later, whole, before, performed, _⟩ := run.split member
    rw [whole] at stored
    exact ⟨before.constants_eq,
      before.undecided (List.forall_mem_append.1 stored).1 start initial, performed⟩
  have last := run.undecided stored start initial
  refine ⟨⟨last.change, last.fee⟩, ?_, ?_⟩
  · intro step member call result executed
    obtain ⟨_, undecided, _⟩ := at_step member
    obtain ⟨log, sender, spec, env, t, called, surroundings, cast⟩ := Step.ballot?_eq_some executed
    obtain ⟨rfl, tried, t', done, success⟩ := undecided.tried cast
    exact ⟨log, sender, env, tried, t', called, surroundings, done, success⟩
  · intro step member call executed
    obtain ⟨constants, undecided, performed⟩ := at_step member
    obtain ⟨sender, fee, called, cast⟩ := Step.feeBallot?_eq_some performed executed
    rw [← constants]
    exact ⟨sender, fee, called, (State.feeBallot_cast cast).executes undecided.fee⟩

/-- Two of three voters have a federation created, the state is reloaded, and two of them set the fee
    rate. -/
theorem no_standing_winner_of_create_and_fee :
    ∃ history b, Runs (.startAt .regtest ⟨5, 0⟩ .none) history b ∧
      (∀ step ∈ history, step.operation.reloads = true → step.before.state.Fits) ∧
      (history[1]?.bind Step.ballot? = some (.executed ⟨"create", []⟩ { response := .success }) ∧
        history[4]?.bind Step.feeBallot? = some (.executed (.setFee 5000))) ∧
      (b.state.federationElection.winner? = none ∧ b.state.feeElection.winner? = none) ∧
      (∀ step ∈ history, ∀ call result, step.ballot? = some (.executed call result) →
        ∃ log sender env tried t, step.operation = .vote log sender call ∧
          step.before.env = .ok env ∧
          step.before.state.execute env true call = .ok (tried, t) ∧
          tried.response.isSuccess = true) ∧
      ∀ step ∈ history, ∀ call, step.feeBallot? = some (.executed call) →
        ∃ sender fee, step.operation = .voteFee sender fee ∧ call = .setFee fee.toUInt64 ∧
          0 < fee ∧ fee.toUInt64 ≤ Constants.regtest.maxFeePerKb ∧
          step.after.state.feePerKb = some fee.toUInt64 := by
  obtain ⟨history, b, run, stored, seen⟩ := Bridge.exists_runs_of_play
    (P := fun history _ =>
      (∀ step ∈ history, step.operation.reloads = true → step.before.state.Fits) ∧
      history[1]?.bind Step.ballot? = some (.executed ⟨"create", []⟩ { response := .success }) ∧
      history[4]?.bind Step.feeBallot? = some (.executed (.setFee 5000)))
    (b := .startAt .regtest ⟨5, 0⟩ .none)
    ([.vote true Scenario.first ⟨"create", []⟩, .vote true Scenario.second ⟨"create", []⟩,
      .reload {}, .voteFee Scenario.first 5000, .voteFee Scenario.second 5000].map .perform)
    (by decide +kernel)
  exact ⟨history, b, run, stored, seen, run.no_standing_winner stored⟩

end Runs

end TwoWayPeg
