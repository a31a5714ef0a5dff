import Mathlib.Data.List.Nodup
import Mathlib.Data.List.Pairwise
import TwoWayPeg.Proofs.Custody
import TwoWayPeg.Proofs.Reload
import TwoWayPeg.Proofs.Scenario

/-!
# No output is lost

An output that was paid to the peg is held by the new federation or by the old one until a migration
spends it or it is given up with the old federation. A commit replaces the old federation and its
outputs without looking at them; `Custody.Settled` is why there are none by then.
-/

namespace TwoWayPeg

/-- The place of the old federation is free before the first commit, and while a federation is
    assembled. -/
structure Custody.Vacant (c : Custody) : Prop where
  assembling : c.pending ≠ none → c.oldFederation = none
  first : c.newFederation = none → c.oldFederation = none

/-- While a federation is assembled there is no old one, and outputs of an old federation are held
    only while there is one. -/
structure Custody.Settled (c : Custody) : Prop where
  assembling : c.pending ≠ none → c.oldFederation = none
  emptied : c.oldFederation = none → c.oldUtxos = []
  first : c.newFederation = none → c.oldFederation = none

theorem Custody.Settled.vacant {c : Custody} (settled : c.Settled) : c.Vacant :=
  ⟨settled.assembling, settled.first⟩

namespace State

theorem vacant_initial (c : Constants) : (State.initial c).custody.Vacant :=
  ⟨fun _ => rfl, fun _ => rfl⟩

theorem settled_initial (c : Constants) : (State.initial c).custody.Settled :=
  ⟨fun _ => rfl, fun _ => rfl, fun _ => rfl⟩

variable {s t : State} {env : Env} {retiring active : Federation}

/-- Once the new federation is active, the old one is the retiring one. -/
theorem oldFederation_eq_none (vacant : s.custody.Vacant)
    (active : ∀ new, s.newFederation = some new → env.shouldBeActive new = .ok true)
    (free : s.retiringFederation env = .ok none) : s.oldFederation = none := by
  cases found : s.newFederation with
  | none => exact vacant.first found
  | some new =>
    unfold retiringFederation at free
    simp only [found, active new found] at free
    exact Except.ok.inj free

theorem oldFederation_of_retiring (replaced : s.retiringFederation env = .ok (some retiring)) :
    s.oldFederation = some retiring := by
  unfold retiringFederation at replaced
  split at replaced
  · cases replaced
  · rcases bind_eq_ok_iff.1 replaced with ⟨past, _, replaced⟩
    split at replaced
    · exact Except.ok.inj replaced
    · cases replaced

/-- There is a retiring federation only once the new one is active. -/
theorem exists_new_of_retiring (replaced : s.retiringFederation env = .ok (some retiring)) :
    ∃ new, s.newFederation = some new ∧ env.shouldBeActive new = .ok true := by
  unfold retiringFederation at replaced
  split at replaced
  · cases replaced
  next new found =>
  obtain ⟨past, decided, replaced⟩ := bind_eq_ok_iff.1 replaced
  cases past with
  | true => exact ⟨new, found, decided⟩
  | false => cases replaced

theorem Carried.vacant {function : ChangeFunction} {event : Option CommitEvent}
    (done : s.Carried env function event t) (vacant : s.custody.Vacant) : t.custody.Vacant := by
  cases done with
  | create idle active free =>
    have none := oldFederation_eq_none vacant active free
    exact ⟨fun _ => none, vacant.first⟩
  | add _ assembling _ =>
    have none := vacant.assembling (by simp [custody, assembling])
    exact ⟨fun _ => none, vacant.first⟩
  | rollback => exact ⟨fun absurd => by simp [custody] at absurd, vacant.first⟩
  | commit => constructor <;> simp [custody, installed]

theorem Carried.settled {function : ChangeFunction} {event : Option CommitEvent}
    (done : s.Carried env function event t) (settled : s.custody.Settled) :
    t.custody.Settled := by
  have vacant := done.vacant settled.vacant
  refine ⟨vacant.assembling, ?_, vacant.first⟩
  cases done with
  | create => exact settled.emptied
  | add => exact settled.emptied
  | rollback => exact settled.emptied
  | commit => simp [custody, installed]

/-- A commit finds no old federation and no outputs of one. -/
theorem Carried.cleared {event : Option CommitEvent} (done : s.Carried env .commit event t)
    (settled : s.custody.Settled) : s.oldFederation = none ∧ s.oldUtxos = [] := by
  cases done with
  | add adds => simp at adds
  | commit assembling =>
    have none := settled.assembling (by simp [custody, assembling])
    exact ⟨none, settled.emptied none⟩

theorem Moved.keeps {migration : Option MigrationTransaction}
    (moves : s.Moved env retiring active migration t) :
    t.newFederation = s.newFederation ∧ t.oldFederation = s.oldFederation ∧
      t.pending = s.pending ∧ t.newUtxos = s.newUtxos := by
  cases moves <;> exact ⟨rfl, rfl, rfl, rfl⟩

theorem Migrated.vacant {outcome : MigrationOutcome} (done : s.Migrated env outcome t)
    (vacant : s.custody.Vacant) : t.custody.Vacant := by
  cases done with
  | idle => exact vacant
  | moved _ _ moves _ =>
    rcases moves.keeps with ⟨new, old, pending, _⟩
    constructor
    · intro assembling
      exact old.trans (vacant.assembling (by simpa [pending] using assembling))
    · intro absent
      exact old.trans (vacant.first (by simpa [new] using absent))
  | retired => exact ⟨fun _ => rfl, fun _ => rfl⟩

theorem Migrated.settled {outcome : MigrationOutcome} (done : s.Migrated env outcome t)
    (settled : s.custody.Settled) : t.custody.Settled := by
  have vacant := done.vacant settled.vacant
  refine ⟨vacant.assembling, ?_, vacant.first⟩
  cases done with
  | idle => exact settled.emptied
  | moved replaced _ moves _ =>
    have stays := moves.keeps.2.1.trans (oldFederation_of_retiring replaced)
    intro gone
    simp [stays] at gone
  | retired => exact fun _ => rfl

theorem Restores.vacant {network : Network} (restores : s.Restores t network)
    (vacant : s.custody.Vacant) : t.custody.Vacant := by
  have old : t.oldFederation = none ↔ s.oldFederation = none := by simp [restores.oldFederation]
  have new : t.newFederation = none ↔ s.newFederation = none := by simp [restores.newFederation]
  constructor
  · intro assembling
    exact old.2 (vacant.assembling (by simpa [restores.pending] using assembling))
  · intro absent
    exact old.2 (vacant.first (new.1 absent))

theorem Restores.settled {network : Network} (restores : s.Restores t network)
    (settled : s.custody.Settled) : t.custody.Settled := by
  have vacant := restores.vacant settled.vacant
  refine ⟨vacant.assembling, ?_, vacant.first⟩
  intro gone
  have before : s.oldFederation = none := by simpa [restores.oldFederation] using gone
  exact restores.oldUtxos.trans (settled.emptied before)

end State

namespace Operation

/-- Whether an output is paid to the old federation. -/
def paysOld : Operation → Bool
  | .depositOld _ => true
  | _ => false

end Operation

namespace Step

/-- The outputs that a migration transaction of the step spends. -/
def spent (step : Step) : List Utxo :=
  step.emitted?.elim [] MigrationTransaction.spent

/-- The outputs that are given up in the step. -/
def dropped (step : Step) : List Utxo := step.outcome?.elim [] MigrationOutcome.dropped

/-- The old federation is paid only while there is one, and what is loaded could be stored. -/
def Orderly (step : Step) : Prop :=
  (step.operation.paysOld → step.before.state.oldFederation ≠ none) ∧
    (step.operation.reloads → step.before.state.Fits)

instance (step : Step) : Decidable step.Orderly := inferInstanceAs (Decidable (_ ∧ _))

/-- A federation is committed, by a call or by the vote that it takes. -/
def Commits (step : Step) : Prop :=
  (∃ log hash, step.operation = .commit log false hash ∧ step.output = .change .success) ∨
    ∃ call result, step.ballot? = some (.executed call result) ∧
      ChangeFunction.ofName? call.function = some .commit ∧ result.response.isSuccess

variable {step : Step}

/-- Paying the old federation takes no place, so nothing is asked of the payments. -/
theorem Effect.vacant (effect : Effect step)
    (stored : step.operation.reloads = true → step.before.state.Fits)
    (vacant : step.before.state.custody.Vacant) : step.after.state.custody.Vacant := by
  cases effect with
  | kept _ _ same => exact same ▸ vacant
  | carried _ _ _ starts done reaches =>
    rw [reaches]
    exact done.vacant (starts ▸ vacant)
  | migrated _ _ _ done => exact done.vacant vacant
  | depositedNew _ _ same =>
    rw [same]
    exact ⟨vacant.assembling, vacant.first⟩
  | depositedOld _ _ same =>
    rw [same]
    exact ⟨vacant.assembling, vacant.first⟩
  | reloaded read _ loaded =>
    have fits := stored (by rw [read]; rfl)
    exact (Bridge.reloaded_restores fits loaded).vacant vacant

theorem Effect.settled (effect : Effect step) (orderly : step.Orderly)
    (settled : step.before.state.custody.Settled) : step.after.state.custody.Settled := by
  cases effect with
  | kept _ _ same => exact same ▸ settled
  | carried _ _ _ starts done reaches =>
    rw [reaches]
    exact done.settled (starts ▸ settled)
  | migrated _ _ _ done => exact done.settled settled
  | depositedNew _ _ same =>
    rw [same]
    exact ⟨settled.assembling, settled.emptied, settled.first⟩
  | depositedOld paid _ same =>
    rw [same]
    have there := orderly.1 (by rw [paid]; rfl)
    exact ⟨settled.assembling, fun none => absurd none there, settled.first⟩
  | reloaded read _ loaded =>
    have fits := orderly.2 (by rw [read]; rfl)
    exact (Bridge.reloaded_restores fits loaded).settled settled

theorem Commits.cleared (commits : step.Commits)
    (performed : step.before.perform step.operation = .ok (step.output, step.after))
    (settled : step.before.state.custody.Settled) :
    step.before.state.oldFederation = none ∧ step.before.state.oldUtxos = [] := by
  rcases commits with ⟨log, hash, called, answer⟩ |
    ⟨call, result, known, named, success⟩
  · rw [called] at performed
    rcases Bridge.perform_commit performed with ⟨env, result, _, done, told, _⟩
    have success : result.response = .success := by
      rw [answer, Output.change.injEq] at told
      exact told.symm
    obtain ⟨function, named, done⟩ :=
      (State.commitFederation_ends done).carried_of_success (by rw [success]; rfl)
    cases named
    exact done.cleared settled
  · rcases Step.ballot?_eq_some known with ⟨_, _, _, _, _, _, _, voted⟩
    cases State.ballot_cast voted with
    | executed _ _ done =>
      rcases (State.execute_ends done).carried_of_success success with ⟨function, same, done⟩
      cases named.symm.trans same
      exact done.cleared settled

end Step

/-- Among outputs with distinct outpoints, the outpoint tells whether an output is in a batch. -/
theorem contains_outpoint_iff {batch l : List Utxo} (part : batch ⊆ l)
    (distinct : (l.map Utxo.outpoint).Nodup) {u : Utxo} (member : u ∈ l) :
    (batch.map Utxo.outpoint).contains u.outpoint = true ↔ u ∈ batch := by
  rw [List.contains_iff_mem, List.mem_map]
  refine ⟨?_, fun inside => ⟨u, inside, rfl⟩⟩
  rintro ⟨v, inside, equal⟩
  rwa [← List.inj_on_of_nodup_map distinct (part inside) member equal]

/-- Taking a batch of outputs off a list and putting it in front only changes the order. -/
theorem batch_append_rest_perm {batch l : List Utxo} (part : batch.Sublist l)
    (distinct : (l.map Utxo.outpoint).Nodup) :
    (batch ++ l.filter fun u => !(batch.map Utxo.outpoint).contains u.outpoint).Perm l := by
  have same := fun u (member : u ∈ l) => contains_outpoint_iff part.subset distinct member
  have taken : (l.filter fun u => (batch.map Utxo.outpoint).contains u.outpoint).Perm batch := by
    have unique := distinct.of_map
    rw [List.perm_ext_iff_of_nodup (unique.filter _) (part.nodup unique)]
    intro u
    rw [List.mem_filter]
    exact ⟨fun inside => (same u inside.1).1 inside.2,
      fun inside => ⟨part.subset inside, (same u (part.subset inside)).2 inside⟩⟩
  exact (taken.symm.append_right _).trans (List.filter_append_perm _ l)

/-- The outputs that the two federations hold. -/
def Custody.held (c : Custody) : List Utxo := c.newUtxos ++ c.oldUtxos

namespace State

variable {s t : State} {env : Env} {retiring active : Federation}

theorem batch_sublist (s : State) (env : Env) : (s.batch env).Sublist s.oldUtxos :=
  (List.take_sublist _ _).trans List.filter_sublist

theorem Moved.balanced {migration : Option MigrationTransaction}
    (moves : s.Moved env retiring active migration t)
    (distinct : (s.oldUtxos.map Utxo.outpoint).Nodup) :
    (t.oldUtxos ++ migration.elim [] MigrationTransaction.spent).Perm s.oldUtxos := by
  cases moves with
  | nothing =>
    rw [Option.elim_none, List.append_nil]
  | @batch m sighash _ made _ =>
    have spent := (Migration.moveBatch_spec made).1
    have moved := batch_append_rest_perm (s.batch_sublist env) distinct
    rw [← spent] at moved
    exact List.perm_append_comm.trans moved

theorem Carried.balanced {function : ChangeFunction} {event : Option CommitEvent}
    (done : s.Carried env function event t) (settled : s.custody.Settled) :
    t.custody.held.Perm s.custody.held := by
  cases done with
  | create => exact .refl _
  | add => exact .refl _
  | rollback => exact .refl _
  | commit assembling complete built replaces due =>
    have cleared := (Carried.commit assembling complete built replaces due).cleared settled
    simp [Custody.held, custody, installed, cleared.2]

theorem Migrated.balanced {outcome : MigrationOutcome} (done : s.Migrated env outcome t)
    (distinct : (s.oldUtxos.map Utxo.outpoint).Nodup) :
    (t.custody.held ++ (outcome.migration.elim [] MigrationTransaction.spent ++
      outcome.dropped)).Perm s.custody.held := by
  cases done with
  | idle => simp
  | moved _ _ moves _ =>
    have balance := moves.balanced distinct
    simp only [Custody.held, custody, moves.keeps.2.2.2, List.append_nil, List.append_assoc]
    exact balance.append_left _
  | retired _ _ moves _ =>
    have balance := moves.balanced distinct
    simp only [Custody.held, custody, decommissioned, moves.keeps.2.2.2, List.append_nil]
    exact (List.perm_append_comm.trans balance).append_left _

end State

namespace Step

variable {step : Step}

theorem spent_eq_nil (still : step.outcome? = none) : step.spent = [] := by
  rw [spent, emitted?, still]
  rfl

theorem dropped_eq_nil (still : step.outcome? = none) : step.dropped = [] := by
  rw [dropped, still]
  rfl

/-- A step moves outputs but neither makes nor loses any. -/
theorem Effect.balanced (effect : Effect step) (orderly : step.Orderly)
    (settled : step.before.state.custody.Settled)
    (distinct : (step.before.state.oldUtxos.map Utxo.outpoint).Nodup) :
    (step.after.state.custody.held ++ (step.spent ++ step.dropped)).Perm
      (step.before.state.custody.held ++ step.deposited) := by
  have quietly (still : step.outcome? = none)
      (held : (step.after.state.custody.held).Perm
        (step.before.state.custody.held ++ step.deposited)) :
      (step.after.state.custody.held ++ (step.spent ++ step.dropped)).Perm
        (step.before.state.custody.held ++ step.deposited) := by
    rw [spent_eq_nil still, dropped_eq_nil still, List.append_nil, List.append_nil]
    exact held
  cases effect with
  | kept quiet still same =>
    apply quietly still
    rw [same, quiet, List.append_nil]
  | carried quiet still _ starts done reaches =>
    apply quietly still
    rw [reaches, quiet, List.append_nil, ← starts]
    exact done.balanced (starts ▸ settled)
  | @migrated env outcome quiet told _ done =>
    have spent : step.spent = outcome.migration.elim [] MigrationTransaction.spent := by
      rw [Step.spent, Step.emitted?, told]
      rfl
    have dropped : step.dropped = outcome.dropped := by
      rw [Step.dropped, told]
      rfl
    rw [spent, dropped, quiet, List.append_nil]
    exact done.balanced distinct
  | depositedNew paid still same =>
    apply quietly still
    simp only [same, deposited, paid, Custody.held, List.append_assoc]
    exact List.perm_append_comm.append_left _
  | depositedOld paid still same =>
    apply quietly still
    simp [same, deposited, paid, Custody.held]
  | reloaded read still loaded =>
    apply quietly still
    have fits := orderly.2 (by rw [read]; rfl)
    have restores := Bridge.reloaded_restores fits loaded
    simp [deposited, read, Custody.held, restores.newUtxos, restores.oldUtxos]

end Step

namespace Runs

variable {c : Constants} {block : Block} {activations : Activations} {b : Bridge}
  {history : List Step}

theorem settled {a : Bridge} (run : Runs a history b) (orderly : ∀ step ∈ history, step.Orderly)
    (start : a.state.custody.Settled) : b.state.custody.Settled := by
  induction run with
  | refl => exact start
  | step _ performed ih =>
    rcases forall_mem_concat.1 orderly with ⟨earlier, last⟩
    exact (Step.effect_of_performed performed).settled last (ih earlier)

/-- The outputs that are held, have been spent and have been given up are those that were paid. -/
theorem balanced (run : Runs (.startAt c block activations) history b)
    (fresh : ((history.flatMap Step.deposited).map Utxo.outpoint).Nodup)
    (orderly : ∀ step ∈ history, step.Orderly) :
    (b.state.custody.held ++ (history.flatMap Step.spent ++ history.flatMap Step.dropped)).Perm
      (history.flatMap Step.deposited) := by
  induction run with
  | refl => exact .refl _
  | @step b c' history operation output run performed ih =>
    rw [List.flatMap_append, List.map_append] at fresh
    rcases forall_mem_concat.1 orderly with ⟨earlier, last⟩
    have balance := ih (List.nodup_append.1 fresh).1 earlier
    have settled := run.settled earlier (State.settled_initial c)
    have distinct : (b.state.oldUtxos.map Utxo.outpoint).Nodup := by
      have all := ((balance.map Utxo.outpoint).nodup_iff).2 (List.nodup_append.1 fresh).1
      have part : b.state.oldUtxos.Sublist (b.state.custody.held ++
          (history.flatMap Step.spent ++ history.flatMap Step.dropped)) :=
        (List.sublist_append_right _ _).trans (List.sublist_append_left _ _)
      exact (part.map _).nodup all
    have change := (Step.effect_of_performed performed).balanced last settled distinct
    simp only [List.flatMap_append, List.flatMap_singleton]
    rw [List.perm_iff_count] at balance change ⊢
    intro u
    have before := balance u
    have now := change u
    simp only [List.count_append] at before now ⊢
    omega

end Runs

/-- Where an output that was paid to the peg can be. The steps of a run have numbers. -/
inductive Place where
  | new
  | old
  | spent (number : Nat)
  | dropped (number : Nat)
deriving DecidableEq

namespace Place

/-- The outputs at a place after a run. -/
def utxos (history : List Step) (s : State) : Place → List Utxo
  | .new => s.newUtxos
  | .old => s.oldUtxos
  | .spent number => history[number]?.elim [] Step.spent
  | .dropped number => history[number]?.elim [] Step.dropped

/-- The places that a run has. -/
def all (history : List Step) : List Place :=
  [.new, .old] ++ (List.range history.length).map .spent ++
    (List.range history.length).map .dropped

variable {history : List Step} {s : State}

theorem flatMap_range_getElem? {α : Type} (l : List Step) (f : Step → List α) :
    ((List.range l.length).flatMap fun number => l[number]?.elim [] f) = l.flatMap f := by
  have same : ((List.range l.length).map fun number => l[number]?.elim [] f) = l.map f := by
    apply List.ext_getElem
    · simp
    · intro number below _
      rw [List.length_map, List.length_range] at below
      simp [below]
  rw [List.flatMap_def, same, ← List.flatMap_def]

theorem flatMap_all :
    (all history).flatMap (utxos history s) =
      s.custody.held ++ (history.flatMap Step.spent ++ history.flatMap Step.dropped) := by
  simp only [all, List.flatMap_append, List.flatMap_map, utxos, flatMap_range_getElem?]
  simp [utxos, Custody.held]

theorem mem_all_of_mem {place : Place} {u : Utxo} (member : u ∈ place.utxos history s) :
    place ∈ all history := by
  have inside {number : Nat} {f : Step → List Utxo}
      (member : u ∈ history[number]?.elim [] f) : number < history.length := by
    by_contra outside
    rw [List.getElem?_eq_none (Nat.le_of_not_lt outside)] at member
    cases member
  cases place with
  | new => simp [all]
  | old => simp [all]
  | spent number => simp [all, inside member]
  | dropped number => simp [all, inside member]

/-- If no two outputs at all places have one outpoint, each is at one place only. -/
theorem eq_of_mem (distinct : (((all history).flatMap (utxos history s)).map
      Utxo.outpoint).Nodup) {place other : Place} {outpoint : OutPoint}
    (here : outpoint ∈ (place.utxos history s).map Utxo.outpoint)
    (there : outpoint ∈ (other.utxos history s).map Utxo.outpoint) : place = other := by
  rw [List.map_flatMap] at distinct
  have apart := (List.nodup_flatMap.1 distinct).2
  rcases List.mem_map.1 here with ⟨u, member, rfl⟩
  rcases List.mem_map.1 there with ⟨v, member', _⟩
  by_contra differ
  have symmetric : Std.Symm (Function.onFun List.Disjoint
      fun place : Place => (place.utxos history s).map Utxo.outpoint) :=
    ⟨fun _ _ disjoint _ first second => disjoint second first⟩
  exact apart.forall (mem_all_of_mem member) (mem_all_of_mem member') differ here there

end Place

namespace Runs

variable {c : Constants} {block : Block} {activations : Activations} {b : Bridge}
  {history : List Step}

/-- Outputs of distinct outpoints that are paid to a peg, to the old federation only while there is
    one, are at one place each, and nothing else is at any place. A commit takes the place neither
    of an old federation nor of its outputs. -/
theorem each_output_at_one_place (run : Runs (.startAt c block activations) history b)
    (fresh : ((history.flatMap Step.deposited).map Utxo.outpoint).Nodup)
    (orderly : ∀ step ∈ history, step.Orderly) :
    (∀ outpoint ∈ (history.flatMap Step.deposited).map Utxo.outpoint,
        ∃! place : Place, outpoint ∈ (place.utxos history b.state).map Utxo.outpoint) ∧
      ((Place.all history).flatMap (Place.utxos history b.state)).Perm
        (history.flatMap Step.deposited) ∧
      ∀ step ∈ history, step.Commits →
        step.before.state.oldFederation = none ∧ step.before.state.oldUtxos = [] := by
  have balance : ((Place.all history).flatMap (Place.utxos history b.state)).Perm
      (history.flatMap Step.deposited) := by
    rw [Place.flatMap_all]
    exact run.balanced fresh orderly
  refine ⟨?_, balance, ?_⟩
  · intro outpoint paid
    have distinct := ((balance.map Utxo.outpoint).nodup_iff).2 fresh
    rcases List.mem_map.1 ((balance.map Utxo.outpoint).mem_iff.2 paid) with ⟨u, found, rfl⟩
    rcases List.mem_flatMap.1 found with ⟨place, _, here⟩
    have here := List.mem_map_of_mem (f := Utxo.outpoint) here
    exact ⟨place, here, fun other there => Place.eq_of_mem distinct there here⟩
  · intro step member commits
    rcases run.split member with ⟨past, later, rfl, before, performed, _⟩
    have settled := before.settled (List.forall_mem_append.1 orderly).1 (State.settled_initial c)
    exact commits.cleared performed settled

set_option maxRecDepth 100000 in
/-- Two outputs are paid, and one of them is spent by a migration after a change and a reload. -/
theorem each_output_at_one_place_after_change :
    ∃ history b, Runs (.startAt .regtest ⟨5, 0⟩ .none) history b ∧
      (history.flatMap Step.spent = [Scenario.output 0 50000] ∧
        b.state.oldUtxos = [Scenario.output 1 100]) ∧
      (∀ outpoint ∈ (history.flatMap Step.deposited).map Utxo.outpoint,
        ∃! place : Place, outpoint ∈ (place.utxos history b.state).map Utxo.outpoint) ∧
      ((Place.all history).flatMap (Place.utxos history b.state)).Perm
        (history.flatMap Step.deposited) ∧
      ∀ step ∈ history, step.Commits →
        step.before.state.oldFederation = none ∧ step.before.state.oldUtxos = [] := by
  obtain ⟨history, b, run, fresh, orderly, seen⟩ := Bridge.exists_runs_of_play
    (P := fun history b => ((history.flatMap Step.deposited).map Utxo.outpoint).Nodup ∧
      (∀ step ∈ history, step.Orderly) ∧ history.flatMap Step.spent = [Scenario.output 0 50000] ∧
      b.state.oldUtxos = [Scenario.output 1 100])
    (b := .startAt .regtest ⟨5, 0⟩ .none)
    (.perform (.depositNew (Scenario.output 0 50000)) :: Scenario.change ++
      [.perform (.depositOld (Scenario.output 1 100)), .perform (.enterBlock ⟨30, 0⟩ .none),
        .perform (.reload {}), .perform .migrate])
    (by decide +kernel)
  exact ⟨history, b, run, seen, run.each_output_at_one_place fresh orderly⟩

end Runs

end TwoWayPeg
