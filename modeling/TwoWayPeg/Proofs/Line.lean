import TwoWayPeg.Proofs.Transition

/-!
# The line of federations

The federations of a run, in the order in which they were committed, with the genesis federation in
front. As long as the activation age stays the same they are activated in this order, decommissioned
in this order, and a federation is decommissioned before the second one after it is committed. So the
number of commits, the number of decommissions and the block tell where in the state each of them is
recorded; `Bridge.Stands` says how.
-/

namespace TwoWayPeg

namespace Step

/-- The federation that a step commits. -/
def installed? (step : Step) : Option Federation :=
  if step.Commits then step.after.state.newFederation else none

/-- The blocks do not go back, the activation age stays the same, and what is loaded could be
    stored. -/
def Steady (step : Step) : Prop :=
  step.before.block.number ≤ step.after.block.number ∧
    step.after.activationAge = step.before.activationAge ∧
    (step.operation.reloads → step.before.state.Fits)

instance (step : Step) : Decidable step.Steady := inferInstanceAs (Decidable (_ ∧ _ ∧ _))

end Step

/-- The federations that are committed in a run. -/
def committed (history : List Step) : List Federation := history.filterMap Step.installed?

/-- The federations of a run, the genesis federation first. -/
def line (genesis : Federation) (history : List Step) : List Federation :=
  genesis :: committed history

theorem committed_append (history later : List Step) :
    committed (history ++ later) = committed history ++ committed later :=
  List.filterMap_append

theorem committed_singleton (step : Step) : committed [step] = step.installed?.toList := by
  rw [committed, List.filterMap_cons, List.filterMap_nil]
  cases step.installed? <;> rfl

theorem getElem?_line_append {genesis f : Federation} {history : List Step} {n : Nat}
    (found : (line genesis history)[n]? = some f) (later : List Step) :
    (line genesis (history ++ later))[n]? = some f := by
  have inside : n < (genesis :: committed history).length :=
    (List.getElem?_eq_some_iff.1 found).1
  rw [line, committed_append, ← List.cons_append, List.getElem?_append_left inside]
  exact found

/-- Each commit puts a federation in place of the last one of the line, and each decommission takes
    the first one that is left. -/
structure InLine (genesis : Federation) (history : List Step) : Prop where
  commits : ∀ earlier step after, history = earlier ++ step :: after → step.Commits →
    ∃ event, step.Announces event ∧
      (line genesis history)[(committed earlier).length]? = some event.oldFederation ∧
      (line genesis history)[(committed earlier).length + 1]? = some event.newFederation
  retires : ∀ earlier step after, history = earlier ++ step :: after →
    step.decommissions = true → ∃ g, step.before.retiring = .ok (some g) ∧
      (line genesis history)[earlier.countP Step.decommissions]? = some g

namespace Bridge

/-- Whether a federation has waited long enough to be active. -/
def matured (b : Bridge) (f : Federation) : Bool :=
  f.creationBlock.toNat + b.activationAge.toNat ≤ b.block.number.toNat

/-- The place in the line of the active federation: as many federations as have been committed and
    have waited long enough. -/
def activeNumber (b : Bridge) (committed : List Federation) : Nat := committed.countP b.matured

/-- How the federations of a line are recorded, of which some have been decommissioned. -/
structure Stands (b : Bridge) (genesis : Federation) (committed : List Federation)
    (retired : Nat) : Prop where
  new : b.state.newFederation = committed.getLast?
  old : b.state.oldFederation =
    if retired < committed.length then (genesis :: committed)[retired]? else none
  script : ∀ n, retired = n + 1 →
    b.state.lastRetiredScript = (genesis :: committed)[n]?.map Federation.p2shScript
  least : retired ≤ committed.length
  most : committed.length ≤ retired + 1
  earlier : ∀ f ∈ committed.dropLast, b.matured f = true
  settled : retired = committed.length → ∀ f ∈ committed, b.matured f = true
  inRange : ∀ f ∈ committed, f.creationBlock.toNat + b.activationAge.toNat < UInt64.size

variable {b c : Bridge} {env : Env} {f genesis : Federation} {committed : List Federation}
  {retired : Nat}

theorem activationAge_of_sameSetting (setting : b.SameSetting c) :
    c.activationAge = b.activationAge := by
  rw [activationAge, activationAge, setting.1, setting.2.1]

theorem matured_congr (setting : b.SameSetting c) (f : Federation) :
    c.matured f = b.matured f := by
  rw [matured, matured, activationAge_of_sameSetting setting, setting.2.2]

theorem matured_mono (later : b.block.number ≤ c.block.number)
    (sameAge : c.activationAge = b.activationAge) (matured : b.matured f = true) :
    c.matured f = true := by
  rw [Bridge.matured, decide_eq_true_iff] at matured ⊢
  rw [sameAge]
  exact Nat.le_trans matured (UInt64.le_iff_toNat_le.1 later)

/-- If the sum is in range, whether a federation should be active is whether it has matured. -/
theorem shouldBeActive_eq (surroundings : b.env = .ok env)
    (inRange : f.creationBlock.toNat + b.activationAge.toNat < UInt64.size) :
    env.shouldBeActive f = .ok (b.matured f) := by
  rw [← activationAge_env surroundings] at inRange
  rw [Env.shouldBeActive, Env.isPast_eq inRange, activationAge_env surroundings,
    (env_eq_ok surroundings).2.2, matured]

theorem matured_of_shouldBeActive (surroundings : b.env = .ok env)
    (active : env.shouldBeActive f = .ok true) : b.matured f = true := by
  have decided := Env.shouldBeActive_eq_ok active
  rw [activationAge_env surroundings, (env_eq_ok surroundings).2.2] at decided
  exact decided.symm

theorem stands_startAt (c : Constants) (block : Block) (activations : Activations)
    (genesis : Federation) : (startAt c block activations).Stands genesis [] 0 := by
  constructor <;> simp [startAt, State.initial]

/-- The federations of a line from a place on to the active one are the active one and the
    retiring one. -/
structure Live (b : Bridge) (env : Env) (l : List Federation) (first last : Nat)
    (active : Federation) (retiring : Option Federation) : Prop where
  isActive : b.state.activeFederation env = .ok active
  isRetiring : b.state.retiringFederation env = .ok retiring
  place : l[last]? = some active
  covers : ∀ n f, first ≤ n → n ≤ last → l[n]? = some f → f ∈ active :: retiring.toList

theorem Stands.live_of_genesis (stands : b.Stands genesis [] retired)
    (surroundings : b.env = .ok env)
    (isGenesis : b.constants.genesisFederation = .ok genesis) :
    b.Live env [genesis] retired (b.activeNumber []) genesis none := by
  have none : b.state.newFederation = none := stands.new
  have same : env.genesis = genesis := by
    have found := env.isGenesis
    rw [(env_eq_ok surroundings).1, isGenesis] at found
    exact (Except.ok.inj found).symm
  constructor
  case isActive =>
    rw [State.activeFederation, none, same]
    rfl
  case isRetiring =>
    rw [State.retiringFederation, none]
    rfl
  case place => rfl
  case covers =>
    intro n f _ most found
    cases Nat.le_zero.1 most
    cases found
    exact List.mem_cons_self

section

variable {init : List Federation} {new : Federation}

theorem Stands.new_decided (stands : b.Stands genesis (init ++ [new]) retired)
    (surroundings : b.env = .ok env) :
    b.state.newFederation = some new ∧ env.shouldBeActive new = .ok (b.matured new) :=
  ⟨by rw [stands.new, List.getLast?_concat],
    shouldBeActive_eq surroundings (stands.inRange new (by simp))⟩

/-- All federations before the last have matured. -/
theorem Stands.activeNumber_concat (stands : b.Stands genesis (init ++ [new]) retired) :
    b.activeNumber (init ++ [new]) = init.length + if b.matured new then 1 else 0 := by
  have before : init.countP b.matured = init.length := by
    rw [List.countP_eq_length]
    intro f member
    exact stands.earlier f (by rwa [List.dropLast_concat])
  rw [activeNumber, List.countP_append, List.countP_singleton, before]

/-- The last federation of the line is active, and the one before it retires. -/
theorem Stands.live_of_matured (stands : b.Stands genesis (init ++ [new]) retired)
    (surroundings : b.env = .ok env) (matured : b.matured new = true) :
    b.Live env (genesis :: (init ++ [new])) retired (b.activeNumber (init ++ [new])) new
      b.state.oldFederation := by
  obtain ⟨last, decided⟩ := stands.new_decided surroundings
  have most := stands.most
  rw [List.length_append, List.length_singleton] at most
  rw [matured] at decided
  rw [stands.activeNumber_concat, if_pos matured]
  constructor
  case isActive =>
    simp only [State.activeFederation, last, decided, bind, Except.bind]
    rfl
  case isRetiring =>
    simp only [State.retiringFederation, last, decided, bind, Except.bind]
    rfl
  case place => rw [List.getElem?_cons_succ, List.getElem?_concat_length]
  case covers =>
    intro n f least upTo found
    rcases Nat.le_or_eq_of_le_succ upTo with inside | rfl
    · obtain rfl : n = retired := by omega
      rw [stands.old, if_pos (by rw [List.length_append, List.length_singleton]; omega), found]
      exact List.mem_cons_of_mem _ List.mem_cons_self
    · rw [List.getElem?_cons_succ, List.getElem?_concat_length] at found
      cases found
      exact List.mem_cons_self

/-- The last federation of the line waits, and the one before it, the only other one that is left,
    is active. -/
theorem Stands.live_of_waiting (stands : b.Stands genesis (init ++ [new]) retired)
    (surroundings : b.env = .ok env) (waits : b.matured new = false) :
    ∃ active, b.Live env (genesis :: (init ++ [new])) retired (b.activeNumber (init ++ [new]))
      active none := by
  obtain ⟨last, decided⟩ := stands.new_decided surroundings
  have least := stands.least
  have most := stands.most
  rw [List.length_append, List.length_singleton] at least most
  have left : retired ≠ init.length + 1 := by
    intro all
    have matured := stands.settled (by simpa using all) new (by simp)
    rw [waits] at matured
    cases matured
  obtain rfl : retired = init.length := by omega
  have within : init.length < (genesis :: (init ++ [new])).length := by
    rw [List.length_cons, List.length_append]
    omega
  have held := stands.old
  rw [if_pos (by simp), List.getElem?_eq_getElem within] at held
  rw [waits] at decided
  rw [stands.activeNumber_concat, if_neg (by simp [waits]), Nat.add_zero]
  refine ⟨(genesis :: (init ++ [new]))[init.length], ?_⟩
  constructor
  case isActive =>
    simp only [State.activeFederation, last, decided, held, bind, Except.bind]
    rfl
  case isRetiring =>
    simp only [State.retiringFederation, last, decided, bind, Except.bind]
    rfl
  case place => exact List.getElem?_eq_getElem within
  case covers =>
    intro n f from' upTo found
    cases Nat.le_antisymm upTo from'
    rw [List.getElem?_eq_getElem within] at found
    cases found
    exact List.mem_cons_self

end

theorem Stands.live (stands : b.Stands genesis committed retired) (surroundings : b.env = .ok env)
    (isGenesis : b.constants.genesisFederation = .ok genesis) :
    ∃ active retiring,
      b.Live env (genesis :: committed) retired (b.activeNumber committed) active retiring := by
  rcases committed.eq_nil_or_concat' with rfl | ⟨init, new, rfl⟩
  · exact ⟨genesis, none, stands.live_of_genesis surroundings isGenesis⟩
  · cases isOld : b.matured new with
    | true => exact ⟨new, _, stands.live_of_matured surroundings isOld⟩
    | false =>
      obtain ⟨active, live⟩ := stands.live_of_waiting surroundings isOld
      exact ⟨active, none, live⟩

/-- While there is no old federation, all federations that have been committed have matured, and all
    before the last have been decommissioned. -/
theorem Stands.retired_eq (stands : b.Stands genesis committed retired)
    (none : b.state.oldFederation = none) : retired = committed.length := by
  by_contra differs
  have within : retired < committed.length := Nat.lt_of_le_of_ne stands.least differs
  have there : retired < (genesis :: committed).length := by
    rw [List.length_cons]
    omega
  have held := stands.old
  rw [if_pos within, List.getElem?_eq_getElem there, none] at held
  cases held

end Bridge

namespace Step

variable {step : Step} {genesis : Federation} {committed : List Federation} {retired : Nat}

theorem installed?_eq_none (quiet : ¬ step.Commits) : step.installed? = none := if_neg quiet

/-- A step that leaves the federations alone keeps where they stand. -/
theorem stands_of_kept (steady : step.Steady)
    (new : step.after.state.newFederation = step.before.state.newFederation)
    (old : step.after.state.oldFederation = step.before.state.oldFederation)
    (script : step.after.state.lastRetiredScript = step.before.state.lastRetiredScript)
    (stands : step.before.Stands genesis committed retired) :
    step.after.Stands genesis committed retired := by
  have matured {f : Federation} (before : step.before.matured f = true) :
      step.after.matured f = true := Bridge.matured_mono steady.1 steady.2.1 before
  constructor
  case new => exact new.trans stands.new
  case old => exact old.trans stands.old
  case script => exact fun n number => script.trans (stands.script n number)
  case least => exact stands.least
  case most => exact stands.most
  case earlier => exact fun f member => matured (stands.earlier f member)
  case settled => exact fun all f member => matured (stands.settled all f member)
  case inRange =>
    rw [steady.2.1]
    exact stands.inRange

/-- A commit finds all federations decommissioned but the active one, which is the last. -/
theorem replaces_last {event : CommitEvent} (announces : step.Announces event)
    (vacant : step.before.state.custody.Vacant)
    (isGenesis : step.before.constants.genesisFederation = .ok genesis)
    (stands : step.before.Stands genesis committed retired) :
    retired = committed.length ∧
      (genesis :: committed)[committed.length]? = some event.oldFederation := by
  have none : step.before.state.oldFederation = none := by
    obtain ⟨pending, found, _⟩ := announces.built
    exact vacant.assembling (by simp [found])
  have all := stands.retired_eq none
  obtain ⟨env, surroundings, active⟩ := bind_eq_ok_iff.1 announces.replaced
  obtain ⟨f, retiring, live⟩ := stands.live surroundings isGenesis
  have same := active.symm.trans live.isActive
  cases same
  have place := live.place
  rw [Bridge.activeNumber, List.countP_eq_length.2 (stands.settled all)] at place
  exact ⟨all, place⟩

theorem stands_of_committed {event : CommitEvent}
    (announces : step.Announces event) (setting : step.before.SameSetting step.after)
    (old : step.after.state.oldFederation = some event.oldFederation)
    (script : step.after.state.lastRetiredScript = step.before.state.lastRetiredScript)
    (vacant : step.before.state.custody.Vacant)
    (isGenesis : step.before.constants.genesisFederation = .ok genesis)
    (stands : step.before.Stands genesis committed retired) :
    step.after.Stands genesis (committed ++ [event.newFederation]) retired := by
  obtain ⟨rfl, replaced⟩ := replaces_last announces vacant isGenesis stands
  have matured := stands.settled rfl
  constructor
  case new => rw [announces.installed, List.getLast?_concat]
  case old =>
    rw [old, if_pos (by simp), ← List.cons_append, List.getElem?_append_left (by simp), replaced]
  case script =>
    intro n number
    rw [script, stands.script n number, ← List.cons_append, List.getElem?_append_left]
    rw [List.length_cons]
    omega
  case least => simp
  case most => simp
  case earlier =>
    intro f member
    rw [List.dropLast_concat] at member
    rw [Bridge.matured_congr setting]
    exact matured f member
  case settled =>
    intro all
    simp at all
  case inRange =>
    rw [Bridge.activationAge_of_sameSetting setting]
    refine List.forall_mem_append.2 ⟨stands.inRange, List.forall_mem_singleton.2 ?_⟩
    rw [announces.creationBlock, ← announces.due]
    exact event.activationBlock.toNat_lt_size

/-- The federation that is decommissioned is the first that has not been, and the one before the
    last. -/
theorem stands_of_retired {retiring : Federation}
    (replaced : step.before.retiring = .ok (some retiring))
    (setting : step.before.SameSetting step.after)
    (new : step.after.state.newFederation = step.before.state.newFederation)
    (old : step.after.state.oldFederation = none)
    (script : step.after.state.lastRetiredScript = some retiring.p2shScript)
    (stands : step.before.Stands genesis committed retired) :
    (genesis :: committed)[retired]? = some retiring ∧
      step.after.Stands genesis committed (retired + 1) := by
  obtain ⟨env, surroundings, found⟩ := bind_eq_ok_iff.1 replaced
  obtain ⟨last, isLast, active⟩ := State.exists_new_of_retiring found
  have held := State.oldFederation_of_retiring found
  rw [stands.old, Option.ite_none_right_eq_some] at held
  obtain ⟨within, first⟩ := held
  have number : committed.length = retired + 1 := Nat.le_antisymm stands.most within
  have matured : ∀ f ∈ committed, step.before.matured f = true := by
    rw [stands.new] at isLast
    obtain ⟨init, rfl⟩ := List.getLast?_eq_some_iff.1 isLast
    refine List.forall_mem_append.2 ⟨fun f member => ?_, List.forall_mem_singleton.2 ?_⟩
    · exact stands.earlier f (by rwa [List.dropLast_concat])
    · exact Bridge.matured_of_shouldBeActive surroundings active
  refine ⟨first, ?_⟩
  constructor
  case new => exact new.trans stands.new
  case old => rw [old, if_neg (by omega)]
  case script =>
    intro n same
    cases same
    rw [script, first]
    rfl
  case least => omega
  case most => omega
  case earlier =>
    intro f member
    rw [Bridge.matured_congr setting]
    exact matured f (List.dropLast_subset _ member)
  case settled =>
    intro _ f member
    rw [Bridge.matured_congr setting]
    exact matured f member
  case inRange =>
    rw [Bridge.activationAge_of_sameSetting setting]
    exact stands.inRange

theorem stands_of_succession (succession : step.Succession) (upkept : step.Upkept)
    (steady : step.Steady) (vacant : step.before.state.custody.Vacant)
    (isGenesis : step.before.constants.genesisFederation = .ok genesis)
    (stands : step.before.Stands genesis committed retired) :
    step.after.Stands genesis (committed ++ step.installed?.toList)
      (retired + if step.decommissions then 1 else 0) := by
  obtain ⟨kept, recorded⟩ := upkept.lastRetiredScript
  cases succession with
  | kept quiet _ stays new old =>
    rw [installed?_eq_none quiet, stays, Option.toList_none, List.append_nil]
    exact stands_of_kept steady new old (kept stays) stands
  | committed commits announces _ setting stays old =>
    rw [installed?, if_pos commits, announces.installed, stays]
    exact stands_of_committed announces setting old (kept stays) vacant isGenesis stands
  | retired quiet _ gone replaced setting new old =>
    rw [installed?_eq_none quiet, gone, Option.toList_none, List.append_nil]
    exact (stands_of_retired replaced setting new old (recorded _ gone replaced) stands).2

end Step

namespace Runs

variable {c : Constants} {block : Block} {activations : Activations} {a b : Bridge}
  {history : List Step} {step : Step} {genesis : Federation}

/-- What a step of a run does to the federations, and what is left alone. -/
theorem succession_of_steady (run : Runs (.startAt c block activations) history step.before)
    (performed : step.before.perform step.operation = .ok (step.output, step.after))
    (steady : ∀ step ∈ history, step.Steady) (last : step.Steady) :
    step.Succession ∧ step.Upkept ∧ step.before.state.custody.Vacant := by
  have stored := fun step member => (steady step member).2.2
  have storable := run.storable stored (State.storable_startAt c block activations)
  exact ⟨Step.succession_of_performed performed last.2.2 storable.on,
    (Step.transition_of_performed performed storable last.2.2).upkept,
    run.vacant stored (State.vacant_initial c)⟩

/-- How the federations of a run are recorded. -/
theorem stands (run : Runs (.startAt c block activations) history b)
    (steady : ∀ step ∈ history, step.Steady) (isGenesis : c.genesisFederation = .ok genesis) :
    b.Stands genesis (committed history) (history.countP Step.decommissions) := by
  induction run with
  | refl => exact Bridge.stands_startAt c block activations genesis
  | step run performed ih =>
    obtain ⟨earlier, last⟩ := forall_mem_concat.1 steady
    obtain ⟨succession, upkept, vacant⟩ := run.succession_of_steady performed earlier last
    have after := Step.stands_of_succession succession upkept last vacant
      (by rw [run.constants_eq]; exact isGenesis) (ih earlier)
    rw [committed_append, committed_singleton, List.countP_append, List.countP_singleton]
    exact after

/-- Federations are replaced and decommissioned in the order of the line. -/
theorem inLine (run : Runs (.startAt c block activations) history b)
    (steady : ∀ step ∈ history, step.Steady) (isGenesis : c.genesisFederation = .ok genesis) :
    InLine genesis history := by
  constructor
  case commits =>
    rintro earlier step after rfl commits
    obtain ⟨before, performed, _⟩ := run.around
    obtain ⟨past, rest⟩ := List.forall_mem_append.1 steady
    have stands := before.stands past isGenesis
    obtain ⟨succession, _, vacant⟩ :=
      before.succession_of_steady performed past (rest step List.mem_cons_self)
    cases succession with
    | kept quiet => exact absurd commits quiet
    | retired quiet => exact absurd commits quiet
    | @committed event _ announces =>
      refine ⟨event, announces, ?_, ?_⟩
      · exact getElem?_line_append (Step.replaces_last announces vacant
          (by rw [before.constants_eq]; exact isGenesis) stands).2 _
      · rw [line, committed, List.filterMap_append, List.filterMap_cons,
          Step.installed?, if_pos commits, announces.installed]
        simp [committed]
  case retires =>
    rintro earlier step after rfl gone
    obtain ⟨before, performed, _⟩ := run.around
    obtain ⟨past, rest⟩ := List.forall_mem_append.1 steady
    have stands := before.stands past isGenesis
    obtain ⟨succession, upkept, _⟩ :=
      before.succession_of_steady performed past (rest step List.mem_cons_self)
    cases succession with
    | kept _ _ stays => rw [stays] at gone; cases gone
    | committed _ _ _ _ stays => rw [stays] at gone; cases gone
    | @retired retiring _ _ _ replaced setting new old =>
      have script := upkept.lastRetiredScript.2 _ gone replaced
      exact ⟨retiring, replaced, getElem?_line_append
        (Step.stands_of_retired replaced setting new old script stands).1 _⟩

/-- The active federation has its place in the line. -/
theorem place_of_active (run : Runs (.startAt c block activations) history b)
    (steady : ∀ step ∈ history, step.Steady) {f : Federation} (active : b.active = .ok f) :
    ∃ genesis, c.genesisFederation = .ok genesis ∧
      (line genesis history)[b.activeNumber (committed history)]? = some f := by
  obtain ⟨env, surroundings, isActive⟩ := bind_eq_ok_iff.1 active
  have isGenesis : b.constants.genesisFederation = .ok env.genesis := by
    rw [← (Bridge.env_eq_ok surroundings).1]
    exact env.isGenesis
  have start : c.genesisFederation = .ok env.genesis := by
    rw [← isGenesis, run.constants_eq]
    rfl
  obtain ⟨_, _, live⟩ := (run.stands steady start).live surroundings isGenesis
  cases isActive.symm.trans live.isActive
  exact ⟨env.genesis, start, live.place⟩

theorem sameAge (run : Runs a history b) (steady : ∀ step ∈ history, step.Steady) :
    b.activationAge = a.activationAge := by
  induction run with
  | refl => rfl
  | step _ _ ih =>
    obtain ⟨earlier, last⟩ := forall_mem_concat.1 steady
    exact last.2.1.trans (ih earlier)

/-- The place of the active federation does not go back. -/
theorem activeNumber_mono (run : Runs a history b) (steady : ∀ step ∈ history, step.Steady)
    (committed later : List Federation) :
    a.activeNumber committed ≤ b.activeNumber (committed ++ later) := by
  have forward := run.forward fun step member => (steady step member).1
  calc a.activeNumber committed
      ≤ b.activeNumber committed := by
        refine List.countP_mono_left fun f _ => ?_
        exact Bridge.matured_mono forward (run.sameAge steady)
    _ ≤ b.activeNumber (committed ++ later) := by
        rw [Bridge.activeNumber, Bridge.activeNumber, List.countP_append]
        exact Nat.le_add_right _ _

end Runs

end TwoWayPeg
