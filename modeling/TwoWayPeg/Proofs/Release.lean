import TwoWayPeg.Proofs.Scenario
import TwoWayPeg.Proofs.Transition

/-!
# First in, first out

The queue tests each transaction, so that older ones leave it first is not in the code that takes
them out. It follows from the order of the queue: migrations put transactions at its end, in blocks
that do not go back, and a reload keeps the order.
-/

namespace TwoWayPeg

/-- Older transactions stand before younger ones, and none is from a later block. -/
structure State.InOrder (s : State) (block : UInt64) : Prop where
  ordered : s.waitingPegouts.Pairwise fun p q => p.created ≤ q.created
  past : ∀ p ∈ s.waitingPegouts, p.created ≤ block

theorem State.inOrder_initial (c : Constants) (block : UInt64) :
    (State.initial c).InOrder block := by
  constructor
  · exact .nil
  · intro p member
    cases member

namespace Step

variable {step : Step}

theorem queued_eq_nil (still : step.outcome? = none) : step.queued = [] := by
  rw [queued, emitted?, still]
  rfl

/-- A step puts at most one transaction at the end of the queue and takes some from its front. -/
theorem Upkept.moves (upkept : step.Upkept)
    (inOrder : step.before.state.InOrder step.before.block.number) :
    ∃ due, step.before.state.waitingPegouts ++ step.queued =
        due ++ step.after.state.waitingPegouts ∧
      step.taken = due.map WaitingPegout.transaction := by
  have kept (quiet : step.outcome? = none) (still : step.taken = [])
      (same : step.after.state.waitingPegouts = step.before.state.waitingPegouts) :
      ∃ due, step.before.state.waitingPegouts ++ step.queued =
          due ++ step.after.state.waitingPegouts ∧
        step.taken = due.map WaitingPegout.transaction := by
    refine ⟨[], ?_, still⟩
    rw [queued_eq_nil quiet, same, List.append_nil, List.nil_append]
  cases upkept with
  | kept quiet still same => exact kept quiet still (congrArg Upkeep.waitingPegouts same)
  | votedFee _ told cast =>
    obtain ⟨election, rate, same⟩ := State.feeBallot_eq cast
    exact kept (by simp [outcome?, told]) (by simp [taken, told]) (by rw [same])
  | migrated told surroundings done =>
    refine ⟨[], ?_, by simp [taken, told]⟩
    rw [List.nil_append, done.waitingPegouts, (Bridge.env_eq_ok surroundings).2.2]
    simp [queued, emitted?, outcome?, told]
  | took told done =>
    obtain ⟨due, front, rfl, _⟩ := State.waitingPegouts_of_takeConfirmed done inOrder.ordered
    refine ⟨due, ?_, by simp [taken, told]⟩
    rw [queued_eq_nil (by simp [outcome?, told]), List.append_nil, front]

/-- A queue in order stays in order. -/
theorem Upkept.inOrder (upkept : step.Upkept)
    (forward : step.before.block.number ≤ step.after.block.number)
    (inOrder : step.before.state.InOrder step.before.block.number) :
    step.after.state.InOrder step.after.block.number := by
  obtain ⟨due, moved, _⟩ := upkept.moves inOrder
  have youngest : ∀ p ∈ step.queued, p.created = step.before.block.number := by
    intro p member
    obtain ⟨m, _, rfl⟩ := Option.map_eq_some_iff.1 (Option.mem_toList.1 member)
    rfl
  have past : ∀ p ∈ step.before.state.waitingPegouts ++ step.queued,
      p.created ≤ step.before.block.number := by
    intro p member
    rcases List.mem_append.1 member with before | added
    · exact inOrder.past p before
    · exact UInt64.le_of_eq (youngest p added)
  have ordered : (step.before.state.waitingPegouts ++ step.queued).Pairwise
      fun p q => p.created ≤ q.created := by
    rw [List.pairwise_append]
    refine ⟨inOrder.ordered, ?_, ?_⟩
    · unfold queued
      cases step.emitted? <;> simp
    · intro p before q added
      rw [youngest q added]
      exact inOrder.past p before
  rw [moved] at past ordered
  constructor
  · exact (List.pairwise_append.1 ordered).2.1
  · intro p member
    exact UInt64.le_trans (past p (List.mem_append_right _ member)) forward

end Step

namespace Runs

variable {c : Constants} {block : Block} {activations : Activations} {a b : Bridge}
  {history : List Step}

/-- What has been put into the queue in a run has left it or is in it, in the same order. -/
theorem released (run : Runs a history b)
    (stored : ∀ step ∈ history, step.operation.reloads = true → step.before.state.Fits)
    (forward : ∀ step ∈ history, step.before.block.number ≤ step.after.block.number)
    (storable : a.state.Storable a.constants) (start : a.state.InOrder a.block.number) :
    b.state.InOrder b.block.number ∧
      ∃ gone, a.state.waitingPegouts ++ history.flatMap Step.queued =
          gone ++ b.state.waitingPegouts ∧
        history.flatMap Step.taken = gone.map WaitingPegout.transaction := by
  induction run with
  | refl => exact ⟨start, [], by simp, rfl⟩
  | step run performed ih =>
    obtain ⟨earlierStored, lastStored⟩ := forall_mem_concat.1 stored
    obtain ⟨earlierForward, lastForward⟩ := forall_mem_concat.1 forward
    obtain ⟨inOrder, gone, whole, left⟩ := ih earlierStored earlierForward
    have upkept := (Step.transition_of_performed performed (run.storable earlierStored storable)
      lastStored).upkept
    obtain ⟨due, moved, took⟩ := upkept.moves inOrder
    refine ⟨upkept.inOrder lastForward inOrder, gone ++ due, ?_, ?_⟩
    · rw [List.flatMap_append, ← List.append_assoc, whole, List.flatMap_singleton,
        List.append_assoc, List.append_assoc]
      exact congrArg (gone ++ ·) moved
    · rw [List.flatMap_append, List.flatMap_singleton, List.map_append, left]
      exact congrArg (gone.map _ ++ ·) took

/-- In a run whose blocks do not go back, the transactions that were taken out of the queue and
    those that are still in it are the ones that were emitted, in that order. A step that takes out
    transactions takes the ones after those that were taken before, all of which have waited long
    enough, and leaves none that has. It succeeds unless the block from which a transaction may be
    taken is out of range. -/
theorem queue_first_in_first_out (run : Runs (.startAt c block activations) history b)
    (stored : ∀ step ∈ history, step.operation.reloads = true → step.before.state.Fits)
    (forward : ∀ step ∈ history, step.before.block.number ≤ step.after.block.number) :
    history.flatMap Step.taken ++ b.state.waitingPegouts.map WaitingPegout.transaction =
        (history.filterMap Step.emitted?).map MigrationTransaction.transaction ∧
      (∀ past step later, history = past ++ step :: later → step.operation = .takeConfirmed →
        ∃ gone due, past.flatMap Step.queued = gone ++ due ++ step.after.state.waitingPegouts ∧
          past.flatMap Step.taken = gone.map WaitingPegout.transaction ∧
          step.taken = due.map WaitingPegout.transaction ∧
          (∀ p ∈ due, p.created.toNat + c.pegoutConfirmations.toNat ≤
            step.before.block.number.toNat) ∧
          ∀ p ∈ step.after.state.waitingPegouts,
            step.before.block.number.toNat < p.created.toNat + c.pegoutConfirmations.toNat) ∧
      ((∀ p ∈ b.state.waitingPegouts,
          p.created.toNat + c.pegoutConfirmations.toNat < UInt64.size) →
        ∃ taken b', b.perform .takeConfirmed = .ok (.taken taken, b')) := by
  have storable := State.storable_startAt c block activations
  have start := State.inOrder_initial c block.number
  refine ⟨?_, ?_, ?_⟩
  · obtain ⟨_, gone, whole, left⟩ := run.released stored forward storable start
    have emitted : (history.flatMap Step.queued).map WaitingPegout.transaction =
        (history.filterMap Step.emitted?).map MigrationTransaction.transaction := by
      rw [List.map_flatMap, List.map_filterMap, List.filterMap_eq_flatMap_toList]
      refine List.flatMap_congr fun step _ => ?_
      unfold Step.queued
      cases step.emitted? <;> rfl
    rw [left, ← List.map_append, ← whole, ← emitted]
    rfl
  · rintro past step later rfl called
    obtain ⟨before, performed, _⟩ := run.around
    obtain ⟨inOrder, gone, whole, left⟩ := before.released
      (List.forall_mem_append.1 stored).1 (List.forall_mem_append.1 forward).1 storable start
    rw [called] at performed
    obtain ⟨taken, done, told, _⟩ := Bridge.perform_takeConfirmed performed
    obtain ⟨due, front, rfl, ready, rest⟩ :=
      State.waitingPegouts_of_takeConfirmed done inOrder.ordered
    rw [before.constants_eq] at ready rest
    refine ⟨gone, due, ?_, left, by simp [Step.taken, told], ready, rest⟩
    rw [List.append_assoc, ← front]
    exact whole
  · intro fits
    rw [← show b.constants = c from run.constants_eq] at fits
    have took : b.state.takeConfirmed b.constants b.block.number = .ok (_, _) :=
      State.takeConfirmed_eq_ok_iff.2 ⟨fits, rfl, rfl⟩
    exact ⟨_, _, bind_eq_ok_iff.2 ⟨_, bind_eq_ok_iff.2 ⟨_, took, rfl⟩, rfl⟩⟩

/-- Two outputs are moved in blocks 30 and 31, with a reload between them. In block 33 the first of
    the two transactions is taken out and the second one stays. -/
theorem queue_first_in_first_out_of_two :
    ∃ history b, Runs (.startAt Scenario.single ⟨5, 0⟩ .none) history b ∧
      (∀ step ∈ history, step.operation.reloads = true → step.before.state.Fits) ∧
      (∀ step ∈ history, step.before.block.number ≤ step.after.block.number) ∧
      (history.flatMap Step.taken).length = 1 ∧ b.state.waitingPegouts.length = 1 ∧
      history.flatMap Step.taken ++ b.state.waitingPegouts.map WaitingPegout.transaction =
        (history.filterMap Step.emitted?).map MigrationTransaction.transaction ∧
      ∃ taken b', b.perform .takeConfirmed = .ok (.taken taken, b') := by
  obtain ⟨history, b, run, stored, forward, left, stays, fits⟩ := Bridge.exists_runs_of_play
    (P := fun history b =>
      (∀ step ∈ history, step.operation.reloads = true → step.before.state.Fits) ∧
      (∀ step ∈ history, step.before.block.number ≤ step.after.block.number) ∧
      (history.flatMap Step.taken).length = 1 ∧ b.state.waitingPegouts.length = 1 ∧
      ∀ p ∈ b.state.waitingPegouts, p.created.toNat + 3 < UInt64.size)
    (b := .startAt Scenario.single ⟨5, 0⟩ .none)
    (.perform (.depositNew (Scenario.output 0 50000)) ::
      .perform (.depositNew (Scenario.output 1 60000)) :: Scenario.change ++
      [.perform (.enterBlock ⟨30, 0⟩ .none), .perform .migrate,
        .perform (.enterBlock ⟨31, 0⟩ .none), .perform (.reload {}), .perform .migrate,
        .perform (.enterBlock ⟨33, 0⟩ .none), .perform .takeConfirmed])
    (by decide +kernel)
  obtain ⟨same, _, more⟩ := run.queue_first_in_first_out stored forward
  exact ⟨history, b, run, stored, forward, left, stays, same, more fits⟩

end Runs

end TwoWayPeg
