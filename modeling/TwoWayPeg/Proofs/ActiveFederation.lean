import TwoWayPeg.Proofs.Checked
import TwoWayPeg.Proofs.Conservation

/-!
# When the active federation is an older one again

Whether the new federation is active is decided anew in each block, by the age that is in force in
it. So the new federation can stop being active when a larger age comes into force, and only then.
The argument needs no more of the federations than the blocks that created them, their `Dates`.
-/

namespace TwoWayPeg

/-- The blocks that created the new and the old federation. -/
structure Dates where
  new : Option UInt64
  old : Option UInt64

namespace Dates

variable {d : Dates} {age age' number number' : Nat}

/-- The block that created the active federation: the new one once it has the age, until then the
    old one. The genesis federation has block 0. -/
def active (d : Dates) (age number : Nat) : UInt64 :=
  match d.new with
  | none => 0
  | some new => if new.toNat + age ≤ number then new else d.old.getD 0

/-- Neither federation is from a later block, and the old one is not younger than the new one. -/
structure Ordered (d : Dates) (number : Nat) : Prop where
  past : ∀ new ∈ d.new, new.toNat ≤ number
  replaced : ∀ new ∈ d.new, d.old.getD 0 ≤ new

/-- The new federation is active with one age in one block and not with another age in another. -/
def FallsBack (d : Dates) (age number age' number' : Nat) : Prop :=
  ∃ new, d.new = some new ∧ new.toNat + age ≤ number ∧ number' < new.toNat + age' ∧
    d.old.getD 0 < new

theorem active_le (ordered : d.Ordered number) : (d.active age number).toNat ≤ number := by
  unfold active
  split
  · exact Nat.zero_le _
  next new found =>
  have past := ordered.past new found
  have replaced := UInt64.le_iff_toNat_le.1 (ordered.replaced new found)
  split <;> omega

/-- Among the same two federations an older one becomes active only by a fall-back. -/
theorem active_lt_iff (ordered : d.Ordered number) :
    d.active age' number' < d.active age number ↔ d.FallsBack age number age' number' := by
  unfold FallsBack active
  cases found : d.new with
  | none => simp
  | some new =>
    have replaced := UInt64.le_iff_toNat_le.1 (ordered.replaced new found)
    simp only [Option.some.injEq, exists_eq_left']
    by_cases before : new.toNat + age ≤ number
    · rw [if_pos before]
      by_cases after : new.toNat + age' ≤ number'
      · rw [if_pos after]
        simp [UInt64.lt_iff_toNat_lt]
        omega
      · rw [if_neg after]
        simp [before, Nat.lt_of_not_le after]
    · rw [if_neg before]
      split <;> simp [UInt64.lt_iff_toNat_lt] <;> omega

/-- The federation that is replaced or a younger one is active. -/
theorem le_active {new old : UInt64} (replaced : old ≤ new) :
    old ≤ active ⟨some new, some old⟩ age number := by
  unfold active
  dsimp only
  split
  · exact replaced
  · exact UInt64.le_refl _

theorem not_fallsBack (same : age' = age) (later : number ≤ number') :
    ¬ d.FallsBack age number age' number' := by
  rintro ⟨new, _, before, after, _⟩
  omega

end Dates

/-- The blocks that created the federations of a custody. -/
def Custody.dates (c : Custody) : Dates where
  new := c.newFederation.map Federation.creationBlock
  old := c.oldFederation.map Federation.creationBlock

namespace Bridge

/-- The active federation in the block of the peg. -/
def active (b : Bridge) : Except PegError Federation := b.env >>= b.state.activeFederation

/-- The number of blocks for which a committed federation waits. -/
def activationAge (b : Bridge) : UInt64 := b.constants.activationAgeUnder b.activations

/-- The rules in force are those of the block. -/
def Scheduled (b : Bridge) : Prop := b.activations = b.constants.activations.atBlock b.block.number

instance (b : Bridge) : Decidable b.Scheduled := inferInstanceAs (Decidable (_ = _))

/-- The blocks that created the federations of a peg. -/
def dates (b : Bridge) : Dates := b.state.custody.dates

/-- The block that created the active federation. -/
def activeDate (b : Bridge) : UInt64 :=
  b.dates.active b.activationAge.toNat b.block.number.toNat

/-- Neither federation is from a later block than that of the peg, and they are in order. -/
def Ordered (b : Bridge) : Prop := b.dates.Ordered b.block.number.toNat

variable {b : Bridge} {env : Env}

theorem activationAge_env (surroundings : b.env = .ok env) :
    env.activationAge = b.activationAge := by
  rcases env_eq_ok surroundings with ⟨constants, activations, _⟩
  rw [Env.activationAge, activationAge, constants, activations]

end Bridge

theorem Federation.creationBlock_of_ofMembers {members : List Member} {time created : UInt64}
    {network : Network} {kind : FederationKind} {f : Federation}
    (built : ofMembers members time created network kind = .ok f) : f.creationBlock = created :=
  (parts_of_ofMembers built).2.2.1

theorem Env.creationBlock_genesis (env : Env) : env.genesis.creationBlock = 0 :=
  Federation.creationBlock_of_ofMembers env.isGenesis

/-- If the sum is in range, it is known whether a height lies the activation age behind. -/
theorem Env.isPast_eq {env : Env} {created : UInt64}
    (inRange : created.toNat + env.activationAge.toNat < UInt64.size) :
    env.isPast created =
      .ok (decide (created.toNat + env.activationAge.toNat ≤ env.block.number.toNat)) := by
  refine bind_eq_ok_iff.2 ⟨created + env.activationAge, if_pos inRange, congrArg Except.ok ?_⟩
  simp only [UInt64.le_iff_toNat_le, UInt64.toNat_add, Nat.mod_eq_of_lt inRange]

theorem Env.isPast_eq_ok {env : Env} {created : UInt64} {old : Bool}
    (decided : env.isPast created = .ok old) :
    old = decide (created.toNat + env.activationAge.toNat ≤ env.block.number.toNat) := by
  rcases bind_eq_ok_iff.1 decided with ⟨due, added, decided⟩
  cases decided
  rw [addChecked_eq_ok_iff] at added
  simp only [UInt64.le_iff_toNat_le, added]

theorem Env.shouldBeActive_eq_ok {env : Env} {f : Federation} {old : Bool}
    (decided : env.shouldBeActive f = .ok old) :
    old = decide (f.creationBlock.toNat + env.activationAge.toNat ≤ env.block.number.toNat) :=
  isPast_eq_ok decided

/-- The block that created the active federation can be told from those of the two federations. -/
theorem State.creationBlock_active {s : State} {env : Env} {f : Federation}
    (active : s.activeFederation env = .ok f) :
    f.creationBlock =
      s.custody.dates.active env.activationAge.toNat env.block.number.toNat := by
  unfold State.activeFederation at active
  unfold Dates.active Custody.dates
  simp only [custody_newFederation, custody_oldFederation]
  split at active
  · next absent =>
    cases active
    rw [absent]
    exact env.creationBlock_genesis
  · next new found =>
    rcases bind_eq_ok_iff.1 active with ⟨old, decided, active⟩
    have decided := Env.shouldBeActive_eq_ok decided
    rw [found]
    simp only [Option.map_some]
    split at active
    · next isOld =>
      cases active
      rw [decided, decide_eq_true_iff] at isOld
      rw [if_pos isOld]
    · next isYoung =>
      cases active
      rw [decided, decide_eq_true_iff] at isYoung
      rw [if_neg isYoung]
      cases s.oldFederation with
      | none => exact env.creationBlock_genesis
      | some old => rfl

/-- The block that created the active federation, if there is an active one. -/
def Bridge.activeBlock? (b : Bridge) : Option UInt64 :=
  b.active.toOption.map Federation.creationBlock

theorem Bridge.activeBlock?_eq_some {b : Bridge} {created : UInt64}
    (known : b.activeBlock? = some created) :
    ∃ f, b.active = .ok f ∧ f.creationBlock = created := by
  rcases Option.map_eq_some_iff.1 known with ⟨f, active, created⟩
  exact ⟨f, toOption_eq_some_iff.1 active, created⟩

theorem Bridge.creationBlock_active {b : Bridge} {f : Federation} (active : b.active = .ok f) :
    f.creationBlock = b.activeDate := by
  rcases bind_eq_ok_iff.1 active with ⟨env, surroundings, active⟩
  rw [State.creationBlock_active active, activationAge_env surroundings,
    (env_eq_ok surroundings).2.2]
  rfl

/-- The network of a federation has nothing to do with when it was created. -/
theorem State.Restores.dates {s t : State} {network : Network} (restores : s.Restores t network) :
    t.custody.dates = s.custody.dates := by
  simp [Custody.dates, restores.newFederation, restores.oldFederation, Function.comp_def]

/-- A migration leaves the federations alone, or it decommissions the old one while the new one is
    active. -/
theorem State.Migrated.dates {s t : State} {env : Env} {outcome : MigrationOutcome}
    (done : s.Migrated env outcome t) :
    t.custody.dates = s.custody.dates ∨
      ∃ new, s.custody.dates.new = some new ∧
        new.toNat + env.activationAge.toNat ≤ env.block.number.toNat ∧
        t.custody.dates = ⟨some new, none⟩ := by
  have same (new : t.newFederation = s.newFederation) (old : t.oldFederation = s.oldFederation) :
      t.custody.dates = s.custody.dates := by
    simp only [Custody.dates, State.custody_newFederation, State.custody_oldFederation, new, old]
  cases done with
  | idle => exact .inl rfl
  | moved _ _ moves _ => exact .inl (same moves.keeps.1 moves.keeps.2.1)
  | @retired retiring active migration t replaced _ moves _ =>
    unfold State.retiringFederation at replaced
    split at replaced
    · cases replaced
    next new found =>
    rcases bind_eq_ok_iff.1 replaced with ⟨old, decided, replaced⟩
    split at replaced
    · next isOld =>
      have decided := Env.shouldBeActive_eq_ok decided
      rw [isOld, eq_comm, decide_eq_true_iff] at decided
      refine .inr ⟨new.creationBlock, ?_, decided, ?_⟩
      · rw [Custody.dates, State.custody_newFederation, found]
        rfl
      · rw [Custody.dates]
        simp [State.custody, State.decommissioned, moves.keeps.1, found]
    · cases replaced

namespace Step

/-- What a step can do to the blocks that created the federations. -/
inductive Redates (step : Step) : Prop
  | same (dates : step.after.dates = step.before.dates) : Redates step
  | committed (setting : step.before.SameSetting step.after)
      (dates : step.after.dates =
        ⟨some step.before.block.number, some step.before.activeDate⟩) : Redates step
  | retired {new : UInt64} (setting : step.before.SameSetting step.after)
      (found : step.before.dates.new = some new)
      (active : new.toNat + step.before.activationAge.toNat ≤ step.before.block.number.toNat)
      (dates : step.after.dates = ⟨some new, none⟩) : Redates step

theorem redates_of_carried {step : Step} {env : Env} {function : ChangeFunction}
    {event : Option CommitEvent} {s t : State} (setting : step.before.SameSetting step.after)
    (surroundings : step.before.env = .ok env) (starts : s.custody = step.before.state.custody)
    (done : s.Carried env function event t)
    (reaches : step.after.state.custody = t.custody) : Redates step := by
  have same (kept : t.custody.dates = s.custody.dates) : Redates step := by
    refine .same ?_
    rw [Bridge.dates, reaches, kept, starts, Bridge.dates]
  cases done with
  | create => exact same rfl
  | add => exact same rfl
  | rollback => exact same rfl
  | @commit pending new active due assembling complete built replaces _ =>
    refine .committed setting ?_
    have created : new.creationBlock = env.block.number :=
      Federation.creationBlock_of_ofMembers built
    have replaced : active.creationBlock = step.before.activeDate := by
      rw [State.creationBlock_active replaces, starts, Bridge.activationAge_env surroundings,
        (Bridge.env_eq_ok surroundings).2.2]
      rfl
    rw [(Bridge.env_eq_ok surroundings).2.2] at created
    rw [Bridge.dates, reaches, ← replaced, ← created]
    rfl

theorem redates_of_migrated {step : Step} {env : Env} {outcome : MigrationOutcome}
    (setting : step.before.SameSetting step.after) (surroundings : step.before.env = .ok env)
    (done : step.before.state.Migrated env outcome step.after.state) : Redates step := by
  rcases done.dates with same | ⟨new, found, active, dates⟩
  · exact .same same
  · rw [Bridge.activationAge_env surroundings, (Bridge.env_eq_ok surroundings).2.2] at active
    exact .retired setting found active dates

theorem redates_of_performed {b c : Bridge} {operation : Operation} {output : Output}
    (performed : b.perform operation = .ok (output, c))
    (stored : operation.reloads = true → b.state.Fits) : Redates ⟨b, operation, output, c⟩ := by
  rcases Bridge.sameSetting_of_perform performed with setting | ⟨block, activations, rfl, rfl⟩
  · cases effect_of_performed performed with
    | kept _ _ same => exact .same (congrArg Custody.dates same)
    | carried _ _ surroundings starts done reaches =>
      exact redates_of_carried setting surroundings starts done reaches
    | migrated _ _ surroundings done => exact redates_of_migrated setting surroundings done
    | depositedNew _ _ same =>
      refine .same ?_
      rw [Bridge.dates, same]
      rfl
    | depositedOld _ _ same =>
      refine .same ?_
      rw [Bridge.dates, same]
      rfl
    | reloaded read _ loaded =>
      have fits := stored (by
        rw [show operation = _ from read]
        rfl)
      exact .same (Bridge.reloaded_restores fits loaded).dates
  · exact .same rfl

/-- The blocks do not go back, the rules are those of the block, and what is loaded could be
    stored. -/
def Timely (step : Step) : Prop :=
  step.before.block.number ≤ step.after.block.number ∧ step.after.Scheduled ∧
    (step.operation.reloads → step.before.state.Fits)

instance (step : Step) : Decidable step.Timely := inferInstanceAs (Decidable (_ ∧ _ ∧ _))

variable {step : Step}

theorem Redates.ordered (redates : step.Redates)
    (later : step.before.block.number ≤ step.after.block.number)
    (ordered : step.before.Ordered) : step.after.Ordered := by
  rw [UInt64.le_iff_toNat_le] at later
  unfold Bridge.Ordered
  cases redates with
  | same dates =>
    rw [dates]
    exact ⟨fun new found => Nat.le_trans (ordered.past new found) later, ordered.replaced⟩
  | committed setting dates =>
    rw [dates, setting.2.2]
    constructor
    · intro new found
      cases found
      exact Nat.le_refl _
    · intro new found
      cases found
      exact UInt64.le_iff_toNat_le.2 (Dates.active_le ordered)
  | retired setting found active dates =>
    rw [dates]
    constructor
    · intro new same
      cases same
      exact Nat.le_trans (ordered.past _ found) later
    · intro new same
      exact UInt64.le_iff_toNat_le.2 (Nat.zero_le _)

/-- The new federation is active before the step and not after it, and is not the older one. -/
def FallsBack (step : Step) : Prop :=
  step.before.dates.FallsBack step.before.activationAge.toNat step.before.block.number.toNat
    step.after.activationAge.toNat step.after.block.number.toNat

/-- In a step the active federation becomes an older one only by a fall-back. -/
theorem Redates.activeDate_lt_iff (redates : step.Redates) (ordered : step.before.Ordered) :
    step.after.activeDate < step.before.activeDate ↔ step.FallsBack := by
  have settled (setting : step.before.SameSetting step.after)
      (keeps : step.before.activeDate ≤ step.after.dates.active step.before.activationAge.toNat
        step.before.block.number.toNat) :
      step.after.activeDate < step.before.activeDate ↔ step.FallsBack := by
    have age : step.after.activationAge = step.before.activationAge := by
      rw [Bridge.activationAge, Bridge.activationAge, setting.1, setting.2.1]
    have after : step.after.activeDate = step.after.dates.active
        step.before.activationAge.toNat step.before.block.number.toNat := by
      rw [Bridge.activeDate, age, setting.2.2]
    rw [FallsBack, after, age, setting.2.2]
    constructor
    · intro older
      rw [UInt64.lt_iff_toNat_lt] at older
      rw [UInt64.le_iff_toNat_le] at keeps
      omega
    · intro falls
      exact absurd falls (Dates.not_fallsBack rfl (Nat.le_refl _))
  cases redates with
  | same dates =>
    rw [Bridge.activeDate, dates]
    exact Dates.active_lt_iff ordered
  | committed setting dates =>
    refine settled setting ?_
    rw [dates]
    exact Dates.le_active (UInt64.le_iff_toNat_le.2 (Dates.active_le ordered))
  | @retired new setting found active dates =>
    refine settled setting ?_
    rw [dates, Bridge.activeDate]
    unfold Dates.active
    simp only [found, if_pos active]
    exact UInt64.le_refl _

end Step

/-- A rule that is in force stays in force. -/
theorem ActivationHeights.reached_mono {h : ActivationHeights} {block block' : UInt64} {r : Rule}
    (later : block ≤ block') (reached : h.reached block r = true) :
    h.reached block' r = true := by
  unfold ActivationHeights.reached at reached ⊢
  split at reached
  · rw [decide_eq_true_iff] at reached ⊢
    exact UInt64.le_trans reached later
  · cases reached

namespace Bridge

/-- Whether the later of the two ages is in force. -/
def updated (b : Bridge) : Bool := b.activations.federationActivationAgeUpdate

theorem activationAge_congr {b c : Bridge} (constants : c.constants = b.constants)
    (updated : c.updated = b.updated) : c.activationAge = b.activationAge := by
  unfold activationAge Constants.activationAgeUnder
  rw [show c.activations.federationActivationAgeUpdate = _ from updated, constants]
  rfl

theorem updated_mono {b c : Bridge} (constants : c.constants = b.constants)
    (scheduled : b.Scheduled) (scheduled' : c.Scheduled)
    (later : b.block.number ≤ c.block.number) (updated : b.updated = true) : c.updated = true := by
  unfold Bridge.updated at updated ⊢
  rw [scheduled] at updated
  rw [scheduled', constants]
  exact ActivationHeights.reached_mono later updated

end Bridge

theorem Bridge.ordered_startAt (c : Constants) (block : Block) (activations : Activations) :
    (Bridge.startAt c block activations).Ordered := by
  constructor
  · intro new found
    cases found
  · intro new found
    cases found

/-- What the steps of a run that keeps to its schedule preserve. -/
structure Runs.Progress (a b : Bridge) : Prop where
  ordered : b.Ordered
  scheduled : b.Scheduled
  constants : b.constants = a.constants
  updated : a.updated = true → b.updated = true
  advances : b.activationAge ≤ a.activationAge → a.activeDate ≤ b.activeDate

namespace Runs

variable {a b : Bridge} {history : List Step}

theorem progress (run : Runs a history b) (timely : ∀ step ∈ history, step.Timely)
    (ordered : a.Ordered) (scheduled : a.Scheduled) : Progress a b := by
  induction run with
  | refl => exact ⟨ordered, scheduled, rfl, id, fun _ => UInt64.le_refl _⟩
  | @step b c history operation output run performed ih =>
    rcases forall_mem_concat.1 timely with ⟨earlier, later, scheduled', stored⟩
    have before := ih earlier
    have redates := Step.redates_of_performed performed stored
    have constants := Bridge.constants_of_perform performed
    have updated (known : b.updated = true) : c.updated = true :=
      Bridge.updated_mono constants before.scheduled scheduled' later known
    refine ⟨redates.ordered later before.ordered, scheduled', constants.trans before.constants,
      fun known => updated (before.updated known), fun younger => ?_⟩
    -- the age changes at most once, so it has not grown in the part of the run before either
    have ages : b.activationAge ≤ a.activationAge ∧ c.activationAge ≤ b.activationAge := by
      by_cases same : c.updated = b.updated
      · have age := Bridge.activationAge_congr constants same
        rw [← age]
        exact ⟨younger, UInt64.le_refl _⟩
      · have old : b.updated = false := by
          rw [← Bool.not_eq_true]
          intro known
          exact same (by rw [known, updated known])
        have start : b.updated = a.updated := by
          rw [old, eq_comm, ← Bool.not_eq_true]
          intro known
          rw [before.updated known] at old
          cases old
        have age := Bridge.activationAge_congr before.constants start
        rw [age]
        exact ⟨UInt64.le_refl _, younger⟩
    refine UInt64.le_trans (before.advances ages.1) ?_
    rw [← UInt64.not_lt, show c.activeDate < b.activeDate ↔ _ from
      redates.activeDate_lt_iff before.ordered]
    rintro ⟨new, _, active, inactive, _⟩
    have shorter := UInt64.le_iff_toNat_le.1 ages.2
    have later : b.block.number.toNat ≤ c.block.number.toNat := UInt64.le_iff_toNat_le.1 later
    dsimp only at active inactive
    omega

variable {c : Constants} {block : Block} {b' : Bridge} {later : List Step}

/-- In a run whose blocks do not go back, with the rules of each block, the active federation is
    never older at a moment than at an earlier one, if the activation age has not grown. In a step it
    becomes an older one exactly if the new federation is active before the step, and in the block
    after it the age in force has not passed since it was created. -/
theorem active_not_older (run : Runs (.startAt c block (c.activations.atBlock block.number)) history b)
    (rest : Runs b later b') (timely : ∀ step ∈ history ++ later, step.Timely) :
    (∀ f f', b.active = .ok f → b'.active = .ok f' → b'.activationAge ≤ b.activationAge →
        f.creationBlock ≤ f'.creationBlock) ∧
      ∀ step ∈ history ++ later, ∀ f f', step.before.active = .ok f → step.after.active = .ok f' →
        (f'.creationBlock < f.creationBlock ↔
          ∃ new, step.before.state.newFederation = some new ∧
            new.creationBlock.toNat + step.before.activationAge.toNat ≤
              step.before.block.number.toNat ∧
            step.after.block.number.toNat <
              new.creationBlock.toNat + step.after.activationAge.toNat ∧
            (step.before.state.oldFederation.map Federation.creationBlock).getD 0 <
              new.creationBlock) := by
  have ordered := Bridge.ordered_startAt c block (c.activations.atBlock block.number)
  constructor
  · intro f f' active active' age
    rcases List.forall_mem_append.1 timely with ⟨earlier, onwards⟩
    have before := run.progress earlier ordered rfl
    have after := rest.progress onwards before.ordered before.scheduled
    rw [Bridge.creationBlock_active active, Bridge.creationBlock_active active']
    exact after.advances age
  · intro step member f f' active active'
    rcases (run.append rest).split member with ⟨past, future, whole, before, performed, _⟩
    have timely' := timely
    rw [whole] at timely'
    have progress := before.progress (List.forall_mem_append.1 timely').1 ordered rfl
    have redates := Step.redates_of_performed performed (timely step member).2.2
    rw [Bridge.creationBlock_active active, Bridge.creationBlock_active active',
      show step.after.activeDate < step.before.activeDate ↔ _ from
        redates.activeDate_lt_iff progress.ordered]
    unfold Step.FallsBack Dates.FallsBack Bridge.dates Custody.dates
    simp [Option.map_eq_some_iff]

/-- A federation that is committed in block 5 is active in block 16, where it has the smaller age,
    and in block 17, where the larger age is in force, the genesis federation is active again. -/
theorem not_active_never_older :
    ¬ ∀ (c : Constants) (block : Block) (history later : List Step) (b b' : Bridge)
      (f f' : Federation), Runs (.startAt c block (c.activations.atBlock block.number)) history b →
      Runs b later b' → (∀ step ∈ history ++ later, step.Timely) → b.active = .ok f →
      b'.active = .ok f' → f.creationBlock ≤ f'.creationBlock := by
  intro claim
  obtain ⟨history, step, run, last, timely, active, active'⟩ := Bridge.exists_step_of_play
    (P := fun history step => (∀ other ∈ history ++ [step], other.Timely) ∧
      step.before.activeBlock? = some 5 ∧ step.after.activeBlock? = some 0)
    (b := .startAt Scenario.laterAge ⟨5, 0⟩ (Scenario.laterAge.activations.atBlock 5))
    (Scenario.change ++ [Scenario.goTo Scenario.laterAge 16]) (Scenario.goTo Scenario.laterAge 17)
    (by decide +kernel)
  rcases Bridge.activeBlock?_eq_some active with ⟨f, active, created⟩
  rcases Bridge.activeBlock?_eq_some active' with ⟨f', active', created'⟩
  have older := claim _ _ history [step] step.before step.after f f' run last timely active active'
  rw [created, created'] at older
  exact absurd older (by decide)

/-- The same federation in blocks 15 and 16. -/
theorem active_not_older_of_same_age :
    ∃ history later b b' f f',
      Runs (.startAt Scenario.laterAge ⟨5, 0⟩ (Scenario.laterAge.activations.atBlock 5)) history b ∧
      Runs b later b' ∧ (b.active = .ok f ∧ b'.active = .ok f') ∧
      (b'.activationAge ≤ b.activationAge ∧ f.creationBlock ≤ f'.creationBlock) ∧
      ∀ step ∈ history ++ later, ∀ f f', step.before.active = .ok f → step.after.active = .ok f' →
        (f'.creationBlock < f.creationBlock ↔
          ∃ new, step.before.state.newFederation = some new ∧
            new.creationBlock.toNat + step.before.activationAge.toNat ≤
              step.before.block.number.toNat ∧
            step.after.block.number.toNat <
              new.creationBlock.toNat + step.after.activationAge.toNat ∧
            (step.before.state.oldFederation.map Federation.creationBlock).getD 0 <
              new.creationBlock) := by
  obtain ⟨history, step, run, last, timely, active, active', age⟩ := Bridge.exists_step_of_play
    (P := fun history step => (∀ other ∈ history ++ [step], other.Timely) ∧
      step.before.activeBlock? = some 5 ∧ step.after.activeBlock? = some 5 ∧
      step.after.activationAge ≤ step.before.activationAge)
    (b := .startAt Scenario.laterAge ⟨5, 0⟩ (Scenario.laterAge.activations.atBlock 5))
    (Scenario.change ++ [Scenario.goTo Scenario.laterAge 15]) (Scenario.goTo Scenario.laterAge 16)
    (by decide +kernel)
  rcases Bridge.activeBlock?_eq_some active with ⟨f, active, _⟩
  rcases Bridge.activeBlock?_eq_some active' with ⟨f', active', _⟩
  rcases active_not_older run last timely with ⟨never, exactly⟩
  exact ⟨history, [step], step.before, step.after, f, f', run, last, ⟨active, active'⟩,
    ⟨age, never f f' active active' age⟩, exactly⟩

end Runs

end TwoWayPeg
