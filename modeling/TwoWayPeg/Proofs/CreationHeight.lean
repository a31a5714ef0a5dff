import Mathlib.Data.List.Chain
import TwoWayPeg.Proofs.Line

/-!
# The recorded creation height

The creation height of the active federation is kept in two ways: as the creation block of the
federation itself, and as one of two recorded heights, that of the active federation and that of the
new one, which takes its place once the new federation is active. A commit overwrites the second
height. It does not lose a height that counts, because a federation is assembled only after the new
one has become active, and then its height has been put in place at the start of the block. The only
height that can still be overwritten is one of the same block, if there is no age to wait for.
-/

namespace TwoWayPeg

/-- The blocks that created the federations, whether another one is being assembled, and the
    recorded heights of the active and of the new federation. -/
structure Record where
  dates : Dates
  assembling : Bool
  active : Option UInt64
  next : Option UInt64

namespace Record

variable {r : Record} {age number number' : Nat}

/-- The creation height of the active federation as it is recorded. -/
def height (r : Record) (age number : Nat) : UInt64 :=
  match r.next with
  | none => r.active.getD 0
  | some next => if next.toNat + age ≤ number then next else r.active.getD 0

/-- From a block on the recorded height is that of the active federation. -/
structure Sound (r : Record) (age number : Nat) : Prop where
  agrees : ∀ later, number ≤ later → r.height age later = r.dates.active age later
  next : ∀ n, r.next = some n → r.dates.new = some n
  past : ∀ n, r.dates.new = some n → n.toNat ≤ number
  inRange : ∀ n, r.dates.new = some n → n.toNat + age < UInt64.size
  promoted : r.assembling = true → r.next = none ∨ age = 0

/-- The height of a federation that has become active is in place. -/
def Settled (r : Record) (age number : Nat) : Prop :=
  ∀ n, r.next = some n → number < n.toNat + age ∨ n.toNat = number

theorem Sound.later (sound : r.Sound age number) (later : number ≤ number') :
    r.Sound age number' where
  agrees n after := sound.agrees n (Nat.le_trans later after)
  next := sound.next
  past n found := Nat.le_trans (sound.past n found) later
  inRange := sound.inRange
  promoted := sound.promoted

theorem sound_initial : Sound ⟨⟨none, none⟩, false, none, none⟩ age number := by
  constructor <;> simp [height, Dates.active]

/-- When a federation starts to be assembled the new one is active, so its height is in place. -/
theorem Sound.created (sound : r.Sound age number) (settled : r.Settled age number)
    (active : ∀ new, r.dates.new = some new → new.toNat + age ≤ number) :
    Sound { r with assembling := true } age number where
  agrees := sound.agrees
  next := sound.next
  past := sound.past
  inRange := sound.inRange
  promoted _ := by
    cases found : r.next with
    | none => exact .inl rfl
    | some n =>
      have old := active n (sound.next n found)
      rcases settled n found with young | same <;> exact .inr (by omega)

theorem Sound.rolledBack (sound : r.Sound age number) :
    Sound { r with assembling := false } age number where
  agrees := sound.agrees
  next := sound.next
  past := sound.past
  inRange := sound.inRange
  promoted := nofun

/-- A commit overwrites no height that counts. -/
theorem Sound.committed {number : UInt64} (sound : r.Sound age number.toNat)
    (assembling : r.assembling = true) (fits : number.toNat + age < UInt64.size) :
    Sound ⟨⟨some number, some (r.dates.active age number.toNat)⟩, false, r.active, some number⟩ age
      number.toNat where
  agrees later after := by
    have kept : r.height age number.toNat = r.active.getD 0 ∨ age = 0 := by
      refine (sound.promoted assembling).imp_left fun none => ?_
      rw [height, none]
    by_cases active : number.toNat + age ≤ later
    · simp only [height, Dates.active, if_pos active]
    · rw [← sound.agrees number.toNat (Nat.le_refl _), kept.resolve_right (by omega)]
      simp only [height, Dates.active, if_neg active, Option.getD_some]
  next _ found := found
  past n found := by
    cases found
    exact Nat.le_refl _
  inRange n found := by
    cases found
    exact fits
  promoted := nofun

/-- A height is put in place once it counts. -/
theorem Sound.replaced {n : UInt64} (sound : r.Sound age number) (found : r.next = some n)
    (active : n.toNat + age ≤ number) :
    Sound { r with active := some n, next := none } age number where
  agrees later after := by
    rw [← sound.agrees later after]
    simp only [height, found]
    rw [if_pos (Nat.le_trans active after), Option.getD_some]
  next := nofun
  past := sound.past
  inRange := sound.inRange
  promoted _ := .inl rfl

/-- The old federation is decommissioned while the new one is active. -/
theorem Sound.retired {n : UInt64} (sound : r.Sound age number) (found : r.dates.new = some n)
    (active : n.toNat + age ≤ number) : Sound { r with dates := ⟨some n, none⟩ } age number where
  agrees later after := by
    have kept := sound.agrees later after
    have active := Nat.le_trans active after
    simp only [Dates.active, found, if_pos active] at kept ⊢
    exact kept
  next k scheduled := found.symm.trans (sound.next k scheduled)
  past k same := sound.past k (found.trans same)
  inRange k same := sound.inRange k (found.trans same)
  promoted := sound.promoted

end Record

namespace State

/-- The record that a state holds. -/
def record (s : State) : Record where
  dates := s.custody.dates
  assembling := s.pending.isSome
  active := s.activeCreationHeight
  next := s.nextCreationHeight

variable {s t : State} {env : Env}

theorem activeCreation_eq
    (inRange : ∀ n, s.nextCreationHeight = some n →
      n.toNat + env.activationAge.toNat < UInt64.size) :
    s.activeCreation env =
      .ok (s.record.height env.activationAge.toNat env.block.number.toNat) := by
  unfold activeCreation Record.height record
  dsimp only
  cases found : s.nextCreationHeight with
  | none => rfl
  | some n =>
    dsimp only
    rw [Env.isPast_eq (inRange n found)]
    by_cases active : n.toNat + env.activationAge.toNat ≤ env.block.number.toNat
    · rw [decide_eq_true active, if_pos active]
      rfl
    · rw [decide_eq_false active, if_neg active]
      rfl

theorem exists_activeFederation
    (inRange : ∀ n, s.custody.dates.new = some n →
      n.toNat + env.activationAge.toNat < UInt64.size) :
    ∃ f, s.activeFederation env = .ok f := by
  unfold activeFederation
  cases found : s.newFederation with
  | none => exact ⟨_, rfl⟩
  | some new =>
    have known : s.custody.dates.new = some new.creationBlock := by
      rw [Custody.dates, custody_newFederation, found]
      rfl
    dsimp only
    rw [Env.shouldBeActive, Env.isPast_eq (inRange _ known)]
    dsimp only [bind, Except.bind]
    split <;> exact ⟨_, rfl⟩

/-- The recorded height of a sound record is that of the active federation. -/
theorem activeCreation_of_sound
    (sound : s.record.Sound env.activationAge.toNat env.block.number.toNat) :
    ∃ f, s.activeFederation env = .ok f ∧ s.activeCreation env = .ok f.creationBlock := by
  obtain ⟨f, active⟩ : ∃ f, s.activeFederation env = .ok f :=
    exists_activeFederation sound.inRange
  refine ⟨f, active, ?_⟩
  rw [activeCreation_eq fun n found => sound.inRange n (sound.next n found),
    sound.agrees _ (Nat.le_refl _), creationBlock_active active]
  rfl

/-- The record of a state is sound in a block, and the height of a federation that has become active
    is in place. -/
structure InPlace (s : State) (age number : Nat) : Prop where
  sound : s.record.Sound age number
  settled : s.record.Settled age number

theorem Carried.inPlace {function : ChangeFunction} {event : Option CommitEvent}
    (done : s.Carried env function event t)
    (before : s.InPlace env.activationAge.toNat env.block.number.toNat) :
    t.InPlace env.activationAge.toNat env.block.number.toNat := by
  obtain ⟨sound, settled⟩ := before
  cases done with
  | create idle active free =>
    refine ⟨sound.created settled fun new found => ?_, settled⟩
    obtain ⟨f, present, rfl⟩ := Option.map_eq_some_iff.1 found
    have decided := Env.shouldBeActive_eq_ok (active f present)
    rwa [eq_comm, decide_eq_true_iff] at decided
  | @add _ pending m _ assembling =>
    have same : ({ s with pending := some (pending.add m) } : State).record = s.record := by
      simp only [record, assembling]
      rfl
    exact ⟨same ▸ sound, same ▸ settled⟩
  | rollback => exact ⟨sound.rolledBack, settled⟩
  | @commit pending new active due assembling complete built replaces added =>
    have fits : env.block.number.toNat + env.activationAge.toNat < UInt64.size := by
      rw [addChecked_eq_ok_iff.1 added]
      exact due.toNat_lt_size
    have record : (s.installed env new active).record = ⟨⟨some env.block.number,
        some (s.record.dates.active env.activationAge.toNat env.block.number.toNat)⟩, false,
        s.record.active, some env.block.number⟩ := by
      have created : new.creationBlock = env.block.number :=
        Federation.creationBlock_of_ofMembers built
      show Record.mk ⟨some new.creationBlock, some active.creationBlock⟩ _ _ _ = _
      rw [created, creationBlock_active replaces]
      rfl
    constructor
    case sound =>
      rw [record]
      exact sound.committed (by rw [State.record, assembling]; rfl) fits
    case settled =>
      rw [record]
      intro n same
      cases same
      exact .inr rfl

theorem Ends.inPlace {dryRun : Bool} {function : Option ChangeFunction} {result : ChangeResult}
    (ends : s.Ends env dryRun function result t)
    (before : s.InPlace env.activationAge.toNat env.block.number.toNat) :
    t.InPlace env.activationAge.toNat env.block.number.toNat := by
  cases ends with
  | untouched => exact before
  | carried _ _ done => exact done.inPlace before

/-- The votes are no part of the record. -/
theorem inPlace_of_ballot {sender : ChainAddress} {spec : CallSpec} {ballot : Ballot}
    (cast : s.ballot env sender spec = .ok (ballot, t))
    (before : s.InPlace env.activationAge.toNat env.block.number.toNat) :
    t.InPlace env.activationAge.toNat env.block.number.toNat := by
  cases ballot_cast cast with
  | refused => exact before
  | recorded => exact ⟨before.sound, before.settled⟩
  | @executed voted _ _ t _ _ done =>
    have voted : (s.withElection voted).InPlace env.activationAge.toNat env.block.number.toNat :=
      ⟨before.sound, before.settled⟩
    have after := (execute_ends done).inPlace voted
    exact ⟨after.sound, after.settled⟩

/-- An update puts the height in place also if it was not. -/
theorem inPlace_of_updateCreationHeights (done : s.updateCreationHeights env = .ok t)
    (sound : s.record.Sound env.activationAge.toNat env.block.number.toNat) :
    t.InPlace env.activationAge.toNat env.block.number.toNat := by
  unfold updateCreationHeights at done
  split at done
  · next none =>
    cases done
    refine ⟨sound, fun n found => ?_⟩
    rw [record, none] at found
    cases found
  · next next found =>
    obtain ⟨old, decided, done⟩ := bind_eq_ok_iff.1 done
    have decided := Env.isPast_eq_ok decided
    split at done
    · next active =>
      cases done
      rw [active, eq_comm, decide_eq_true_iff] at decided
      exact ⟨sound.replaced found decided, nofun⟩
    · next young =>
      cases done
      rw [Bool.not_eq_true] at young
      rw [young, eq_comm, decide_eq_false_iff_not] at decided
      refine ⟨sound, fun n same => .inl ?_⟩
      cases found.symm.trans same
      exact Nat.lt_of_not_le decided

theorem Migrated.record {outcome : MigrationOutcome} (done : s.Migrated env outcome t) :
    t.record = { s.record with dates := t.custody.dates } := by
  cases done with
  | idle => rfl
  | moved _ _ moves => cases moves <;> rfl
  | retired _ _ moves => cases moves <;> rfl

theorem Migrated.inPlace {outcome : MigrationOutcome} (done : s.Migrated env outcome t)
    (before : s.InPlace env.activationAge.toNat env.block.number.toNat) :
    t.InPlace env.activationAge.toNat env.block.number.toNat := by
  have record := done.record
  rcases done.dates with same | ⟨new, found, active, dates⟩
  · rw [same] at record
    exact ⟨record ▸ before.sound, record ▸ before.settled⟩
  · rw [dates] at record
    exact ⟨record ▸ before.sound.retired found active, record ▸ before.settled⟩

end State

/-- Whether the host chain goes to a block. -/
def Operation.entersBlock : Operation → Bool
  | .enterBlock .. => true
  | _ => false

/-- Whether the recorded heights are updated. -/
def Operation.updatesHeights : Operation → Bool
  | .updateHeights => true
  | _ => false

namespace Step

/-- If a step goes to a block, the recorded heights are updated in the next one. -/
def UpdatedFirst (step next : Step) : Prop :=
  step.operation.entersBlock = true → next.operation.updatesHeights = true

instance : DecidableRel UpdatedFirst := fun _ _ => inferInstanceAs (Decidable (_ → _))

variable {step : Step}

/-- What a step does to the state keeps the heights in place, in the block before the step. -/
theorem Transition.inPlace (transition : step.Transition)
    (before : step.before.state.InPlace step.before.activationAge.toNat
      step.before.block.number.toNat) :
    step.after.state.InPlace step.before.activationAge.toNat step.before.block.number.toNat := by
  have within {env : Env} (surroundings : step.before.env = .ok env) :
      step.before.activationAge = env.activationAge ∧ step.before.block = env.block :=
    ⟨(Bridge.activationAge_env surroundings).symm, (Bridge.env_eq_ok surroundings).2.2.symm⟩
  cases transition with
  | idle _ same =>
    rw [same]
    exact before
  | changed _ surroundings ends =>
    rw [(within surroundings).1, (within surroundings).2] at before ⊢
    exact ends.inPlace before
  | voted _ _ surroundings cast =>
    rw [(within surroundings).1, (within surroundings).2] at before ⊢
    exact State.inPlace_of_ballot cast before
  | votedFee _ _ cast =>
    obtain ⟨election, rate, same⟩ := State.feeBallot_eq cast
    rw [same]
    exact ⟨before.sound, before.settled⟩
  | updated _ surroundings done =>
    rw [(within surroundings).1, (within surroundings).2] at before ⊢
    exact State.inPlace_of_updateCreationHeights done before.sound
  | migrated _ surroundings done =>
    rw [(within surroundings).1, (within surroundings).2] at before ⊢
    exact done.inPlace before
  | took _ done =>
    obtain ⟨waiting, same⟩ := State.takeConfirmed_eq done
    rw [same]
    exact ⟨before.sound, before.settled⟩
  | deposited _ same =>
    rw [same]
    exact ⟨before.sound, before.settled⟩

end Step

namespace Runs

variable {c : Constants} {block : Block} {activations : Activations} {b : Bridge} {env : Env}
  {history : List Step}

/-- The record is sound throughout, and but for the time between going to a block and the update the
    heights are in place. -/
theorem sound (run : Runs (.startAt c block activations) history b)
    (steady : ∀ step ∈ history, step.Steady) (updated : history.IsChain Step.UpdatedFirst) :
    b.state.record.Sound b.activationAge.toNat b.block.number.toNat ∧
      ((∀ last ∈ history.getLast?, last.operation.entersBlock = false) →
        b.state.record.Settled b.activationAge.toNat b.block.number.toNat) := by
  induction run with
  | refl => exact ⟨Record.sound_initial, fun _ => nofun⟩
  | @step b d history operation output run performed ih =>
    obtain ⟨earlier, later, sameAge, stored⟩ := forall_mem_concat.1 steady
    obtain ⟨chained, _, follows⟩ := List.isChain_append.1 updated
    obtain ⟨sound, settled⟩ := ih earlier chained
    by_cases enters : operation.entersBlock = true
    · cases operation with
      | enterBlock block activations =>
        cases performed
        refine ⟨?_, fun last => by simp [Operation.entersBlock] at last⟩
        have later := UInt64.le_iff_toNat_le.1 later
        exact sameAge ▸ sound.later later
      | _ => cases enters
    have setting : b.SameSetting d := by
      refine (Bridge.sameSetting_of_perform performed).resolve_right ?_
      rintro ⟨block, activations, rfl, _⟩
      exact enters rfl
    have after : d.state.InPlace b.activationAge.toNat b.block.number.toNat := by
      by_cases updates : operation.updatesHeights = true
      · cases operation with
        | updateHeights =>
          obtain ⟨env, surroundings, done, _⟩ := Bridge.perform_updateHeights performed
          rw [← Bridge.activationAge_env surroundings, ← (Bridge.env_eq_ok surroundings).2.2]
            at sound ⊢
          exact State.inPlace_of_updateCreationHeights done sound
        | _ => cases updates
      · have stays : ∀ last ∈ history.getLast?, last.operation.entersBlock = false := by
          intro last found
          rw [← Bool.not_eq_true]
          exact fun entered => updates (follows last found _ rfl entered)
        have storable := run.storable (fun step member => (earlier step member).2.2)
          (State.storable_startAt c block activations)
        exact (Step.transition_of_performed performed storable stored).inPlace
          ⟨sound, settled stays⟩
    rw [Bridge.activationAge_of_sameSetting setting, setting.2.2]
    exact ⟨after.sound, fun _ => after.settled⟩

/-- In a run whose blocks do not go back, with the same activation age throughout, and in which the
    recorded heights are updated first in every block, the recorded height of the active federation
    is at every moment the block that created it. -/
theorem recorded_height_of_active (run : Runs (.startAt c block activations) history b)
    (steady : ∀ step ∈ history, step.Steady) (updated : history.IsChain Step.UpdatedFirst)
    (surroundings : b.env = .ok env) :
    ∃ f, b.state.activeFederation env = .ok f ∧
      b.state.activeCreation env = .ok f.creationBlock := by
  have sound := (run.sound steady updated).1
  rw [← Bridge.activationAge_env surroundings, ← (Bridge.env_eq_ok surroundings).2.2] at sound
  exact State.activeCreation_of_sound sound

/-- A federation of block 5 is active in block 30, where the next one is committed, and in block
    35, where that one is still to become active. -/
theorem recorded_height_of_active_of_two :
    ∃ history b env f, Runs (.startAt Scenario.indexed ⟨5, 0⟩ .none) history b ∧
      (∀ step ∈ history, step.Steady) ∧ history.IsChain Step.UpdatedFirst ∧ b.env = .ok env ∧
      b.state.nextCreationHeight = some 30 ∧ b.state.activeFederation env = .ok f ∧
      f.creationBlock = 5 ∧ b.state.activeCreation env = .ok f.creationBlock := by
  obtain ⟨history, b, run, steady, updated, active, next⟩ := Bridge.exists_runs_of_play
    (P := fun history b => (∀ step ∈ history, step.Steady) ∧ history.IsChain Step.UpdatedFirst ∧
      b.activeBlock? = some 5 ∧ b.state.nextCreationHeight = some 30)
    (b := .startAt Scenario.indexed ⟨5, 0⟩ .none)
    (Scenario.change ++ [Scenario.goTo Scenario.indexed 30, .perform .updateHeights,
      .perform .migrate, .perform (.reload {})] ++ Scenario.change ++
      [Scenario.goTo Scenario.indexed 35, .perform .updateHeights])
    (by decide +kernel)
  obtain ⟨f, active, created⟩ := Bridge.activeBlock?_eq_some active
  obtain ⟨env, surroundings, active⟩ := bind_eq_ok_iff.1 active
  obtain ⟨g, active', recorded⟩ := run.recorded_height_of_active steady updated surroundings
  cases active.symm.trans active'
  exact ⟨history, b, env, f, run, steady, updated, surroundings, next, active, created, recorded⟩

end Runs

end TwoWayPeg
