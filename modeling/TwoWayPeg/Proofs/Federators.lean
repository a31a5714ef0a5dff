import TwoWayPeg.Proofs.Announcement
import TwoWayPeg.Proofs.Commitment
import TwoWayPeg.Proofs.RedeemScript

/-!
# The members of a federation are distinct

A member is added to the pending federation only if none of its keys is used by another member in
the same role, so in each role the members have distinct keys. Hence no two members are the same,
and the federation that is committed, whose members are kept without repetition, has all of them:
its script asks for signatures by more than half of them, each by a key of its own.
-/

namespace TwoWayPeg

theorem Member.sharesKey_eq_false_iff {m n : Member} :
    m.sharesKey n = false ↔ ∀ role, m.key role ≠ n.key role := by
  simp only [sharesKey, decide_eq_false_iff_not, not_or]
  constructor
  · rintro ⟨btc, chain, mst⟩ role
    cases role with
    | btc => exact btc
    | chain => exact chain
    | mst => exact mst
  · intro differ
    exact ⟨differ .btc, differ .chain, differ .mst⟩

namespace PendingFederation

/-- No two members use the same key in the same role. -/
def IsDistinct (p : PendingFederation) : Prop := ∀ role, (p.members.map (·.key role)).Nodup

instance (p : PendingFederation) : Decidable p.IsDistinct :=
  decidable_of_iff (∀ role ∈ KeyRole.all, (p.members.map (·.key role)).Nodup)
    ⟨fun distinct role => distinct role (by cases role <;> decide), fun distinct role _ =>
      distinct role⟩

variable {p : PendingFederation} {m : Member}

theorem isDistinct_empty : (⟨[]⟩ : PendingFederation).IsDistinct := fun _ => List.nodup_nil

theorem conflictsWith_eq_false_iff :
    p.conflictsWith m = false ↔ ∀ role, m.key role ∉ p.members.map (·.key role) := by
  simp only [conflictsWith, List.any_eq_false, Bool.not_eq_true, Member.sharesKey_eq_false_iff,
    List.mem_map, not_exists, not_and]
  exact ⟨fun fresh role n member => fresh n member role,
    fun fresh n member role => fresh role n member⟩

/-- A member without conflicts can be added. -/
theorem IsDistinct.add (distinct : p.IsDistinct) (fresh : p.conflictsWith m = false) :
    (p.add m).IsDistinct := by
  intro role
  rw [PendingFederation.add, List.map_append, List.map_singleton, ← List.concat_eq_append]
  exact (distinct role).concat (conflictsWith_eq_false_iff.1 fresh role)

/-- Distinct signing keys are enough for no member to be repeated. -/
theorem IsDistinct.nodup (distinct : p.IsDistinct) : p.members.Nodup := (distinct .btc).of_map _

end PendingFederation

/-- The federation that is being assembled has distinct keys. -/
def Custody.IsDistinct (c : Custody) : Prop := ∀ p, c.pending = some p → p.IsDistinct

namespace State

variable {s t : State} {env : Env}

theorem Carried.isDistinct {function : ChangeFunction} {event : Option CommitEvent}
    (done : s.Carried env function event t) (distinct : s.custody.IsDistinct) :
    t.custody.IsDistinct := by
  cases done with
  | create =>
    rintro _ ⟨⟩
    exact PendingFederation.isDistinct_empty
  | add _ assembling fresh =>
    rintro _ ⟨⟩
    exact (distinct _ assembling).add fresh
  | rollback => rintro _ ⟨⟩
  | commit => rintro _ ⟨⟩

end State

namespace Step

variable {step : Step}

theorem Effect.isDistinct (effect : step.Effect)
    (stored : step.operation.reloads = true → step.before.state.Fits)
    (distinct : step.before.state.custody.IsDistinct) : step.after.state.custody.IsDistinct := by
  cases effect with
  | kept _ _ same => exact same ▸ distinct
  | carried _ _ _ starts done reaches =>
    rw [reaches]
    exact done.isDistinct (starts ▸ distinct)
  | migrated _ _ _ done =>
    intro p assembling
    exact distinct p (done.assembly.1.symm.trans assembling)
  | depositedNew _ _ same =>
    rw [same]
    exact distinct
  | depositedOld _ _ same =>
    rw [same]
    exact distinct
  | reloaded read _ loaded =>
    intro p assembling
    have fits := stored (by rw [read]; rfl)
    exact distinct p ((Bridge.reloaded_restores fits loaded).pending.symm.trans assembling)

/-- Each commit announces a federation. -/
theorem Commits.announces (commits : step.Commits)
    (performed : step.before.perform step.operation = .ok (step.output, step.after))
    (stored : step.operation.reloads = true → step.before.state.Fits)
    (on : step.before.state.custody.IsOn step.before.constants.network) :
    ∃ event, step.Announces event := by
  cases succession_of_performed performed stored on with
  | kept quiet => exact absurd commits quiet
  | committed _ announces => exact ⟨_, announces⟩
  | retired quiet => exact absurd commits quiet

end Step

/-- A federation that has the members of a pending one, and a script that a majority of them can
    fulfil. -/
structure Federation.Assembles (f : Federation) (p : PendingFederation) : Prop where
  /-- All members, in order. -/
  members : f.members = Ordered.sort p.members
  size : f.size = p.size
  /-- The signing keys stand in the order of their bytes. -/
  keys : f.btcKeys.Pairwise fun a b => compare a.compressed b.compressed = .lt
  distinct : f.btcKeys.Nodup
  majority : p.size < 2 * f.threshold
  attainable : f.threshold ≤ p.size
  script : ∃ rest, Script.instructions? f.redeemScript = some (RedeemScript.entry f.kind ++
    .number f.threshold :: f.btcKeys.map (.push ·.compressed) ++ .number p.size :: rest)

namespace PendingFederation

variable {p : PendingFederation}

/-- Members with distinct keys are all taken into the federation that is built. -/
theorem IsDistinct.assembles (distinct : p.IsDistinct) {time block : UInt64} {c : Constants}
    {activations : Activations} {f : Federation}
    (built : p.build time block c activations = .ok f) : f.Assembles p := by
  have perm : f.members.Perm p.members := by
    rw [Federation.members, (Federation.parts_of_ofMembers built).1]
    exact OrderedSet.perm_toList_ofList distinct.nodup
  have size : f.size = p.size := perm.length_eq
  have unique : f.btcKeys.Nodup := (perm.map Member.btc).nodup_iff.2 (distinct .btc)
  have some : 0 < f.size := List.length_pos_of_ne_nil f.nonempty
  constructor
  case members =>
    rw [← Ordered.sort_eq_of_perm perm, f.sort_members]
  case size => exact size
  case keys =>
    -- Members with one signing key would be ordered by their other keys.
    refine (f.increasing_btcKeys.and unique).imp fun {a b} ⟨before, differ⟩ => ?_
    refine (Ordering.isLE_iff_eq_lt_or_eq_eq.1 before).resolve_right fun same => ?_
    exact differ (Std.LawfulEqCmp.eq_of_compare same)
  case distinct => exact unique
  case majority =>
    rw [← size, Federation.threshold, TwoWayPeg.majority]
    omega
  case attainable =>
    rw [← size, Federation.threshold, TwoWayPeg.majority]
    omega
  case script =>
    rw [← size]
    exact f.instructions?_redeemScript

end PendingFederation

namespace Runs

variable {c : Constants} {block : Block} {activations : Activations} {b : Bridge}
  {history : List Step}

theorem isDistinct (run : Runs (.startAt c block activations) history b)
    (stored : ∀ step ∈ history, step.operation.reloads = true → step.before.state.Fits) :
    b.state.custody.IsDistinct := by
  induction run with
  | refl => rintro _ ⟨⟩
  | step _ performed ih =>
    obtain ⟨earlier, last⟩ := forall_mem_concat.1 stored
    exact (Step.effect_of_performed performed).isDistinct last (ih earlier)

/-- The members of the pending federation have distinct keys in each role. Each commit installs a
    federation of just these members, and its script asks for the signatures of more than half of
    them by distinct keys in increasing order. -/
theorem distinct_federators (run : Runs (.startAt c block activations) history b)
    (stored : ∀ step ∈ history, step.operation.reloads = true → step.before.state.Fits) :
    (∀ p, b.state.pending = some p → p.IsDistinct) ∧
      ∀ step ∈ history, step.Commits →
        ∃ p f, step.before.state.pending = some p ∧ step.after.state.newFederation = some f ∧
          f.Assembles p := by
  refine ⟨run.isDistinct stored, ?_⟩
  intro step member commits
  obtain ⟨past, later, rfl, before, performed, _⟩ := run.split member
  obtain ⟨earlier, rest⟩ := List.forall_mem_append.1 stored
  obtain ⟨event, announces⟩ := commits.announces performed (rest step List.mem_cons_self)
    (before.isOn earlier (Bridge.isOn_startAt c block activations))
  obtain ⟨p, assembling, built⟩ := announces.built
  exact ⟨p, event.newFederation, assembling, announces.installed,
    (before.isDistinct earlier p assembling).assembles built⟩

/-- Voters have a federation assembled, the state is saved and loaded, and the federation is
    committed without a vote. -/
theorem distinct_federators_of_pair :
    ∃ history b step f, Runs (.startAt .regtest ⟨5, 0⟩ .none) history b ∧
      (∀ step ∈ history, step.operation.reloads = true → step.before.state.Fits) ∧
      step ∈ history ∧ step.Commits ∧ step.before.state.pending = some Scenario.pair ∧
      step.after.state.newFederation = some f ∧ f.Assembles Scenario.pair := by
  obtain ⟨history, b, run, stored, step, member, commits, pair⟩ := Bridge.exists_runs_of_play
    (P := fun history _ =>
      (∀ step ∈ history, step.operation.reloads = true → step.before.state.Fits) ∧
      ∃ step ∈ history, step.Commits ∧ step.before.state.pending = some Scenario.pair)
    (b := .startAt .regtest ⟨5, 0⟩ .none)
    (Scenario.assemblePair ++ [.perform (.reload {}), .commitPending true]) (by decide +kernel)
  obtain ⟨p, f, assembling, installed, assembles⟩ :=
    (run.distinct_federators stored).2 step member commits
  cases assembling.symm.trans pair
  exact ⟨history, b, step, f, run, stored, member, commits, pair, installed, assembles⟩

end Runs

end TwoWayPeg
