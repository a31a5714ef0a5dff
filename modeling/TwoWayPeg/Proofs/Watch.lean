import TwoWayPeg.Classification
import TwoWayPeg.Proofs.Line
import TwoWayPeg.Proofs.Scenario
import TwoWayPeg.Proofs.ScriptForm

/-!
# How long a federation is watched

A transaction that reveals the script of a federation counts as signed by it while the federation is
the active one, the retiring one or the last one that was decommissioned. In the line of federations
these are the ones from the last that was decommissioned to the active one, so none between them is
missed: a federation is watched from when it is active until the one that replaced it is
decommissioned.
-/

namespace TwoWayPeg

theorem Instruction.encode_ne_nil (i : Instruction) : i.encode ≠ [] := by
  cases i with
  | push data =>
    simp only [encode, encodePush]
    split_ifs <;> exact List.cons_ne_nil _ _
  | op code => exact List.cons_ne_nil _ _

theorem Script.ofInstructions_ne_nil {l : List Instruction} (some : l ≠ []) :
    ofInstructions l ≠ [] := by
  intro none
  obtain ⟨i, member⟩ := List.exists_mem_of_ne_nil l some
  exact i.encode_ne_nil (List.flatMap_eq_nil_iff.1 none i member)

theorem Federation.redeemScript_ne_nil (f : Federation) : f.redeemScript ≠ [] := by
  refine Script.ofInstructions_ne_nil ?_
  cases f.kind <;> simp [RedeemScript.instructions, RedeemScript.majorityOf]

namespace ClassificationContext

variable {ctx : ClassificationContext} {t : Transaction} {i : TxIn} {f : Federation}
  {l : List Instruction}

/-- An input reveals the script that its last instruction pushes. -/
theorem revealsWatched_of_written (watched : f.p2shScript ∈ ctx.watchedScripts)
    (written : Script.Written i.scriptSig (l ++ [.push f.redeemScript])) :
    ctx.revealsWatched i = true := by
  rw [revealsWatched, Script.lastPush?_eq_some_iff.2 ⟨f.redeemScript_ne_nil, l, written⟩]
  exact List.contains_iff_mem.2 watched

/-- One input that reveals a watched script is enough. -/
theorem classify_of_revealsWatched (member : i ∈ t.inputs) (reveals : ctx.revealsWatched i = true) :
    Strategy.legacyWatchWallet.classify ctx t = .ok .pegoutOrMigration := by
  rw [Strategy.classify, if_pos (List.any_eq_true.2 ⟨i, member, reveals⟩)]
  rfl

end ClassificationContext

namespace State

variable {s : State} {env : Env} {active f : Federation} {retiring : Option Federation}

/-- What classification looks at, given the federations and the address of the old one. -/
def contextWith (s : State) (env : Env) (active : Federation) (retiring : Option Federation)
    (old : Option Address) : ClassificationContext where
  activations := env.activations
  sighashes := s.pegoutSighashes
  minimumPeginValue := env.constants.minimumPeginValue
  pegoutIndexHeight := env.constants.pegoutIndexHeight
  pegoutIndexGracePeriod := env.constants.pegoutIndexGracePeriod
  oldScript := old.map Address.scriptPubkey
  lastRetiredScript := s.lastRetiredScript
  active
  retiring

/-- Once the federations are known, only the address of the old one can be missing. -/
theorem classificationContext_eq_map (isActive : s.activeFederation env = .ok active)
    (isRetiring : s.retiringFederation env = .ok retiring) :
    s.classificationContext env =
      env.constants.oldFederation.map (s.contextWith env active retiring) := by
  rw [classificationContext, isActive, isRetiring]
  cases env.constants.oldFederation <;> rfl

theorem mem_watchedScripts_of_live (live : f ∈ active :: retiring.toList) (old : Option Address) :
    f.p2shScript ∈ (s.contextWith env active retiring old).watchedScripts :=
  List.mem_append_left _ (List.mem_append_left _ (List.mem_map_of_mem live))

theorem mem_watchedScripts_of_lastRetired (retired : s.lastRetiredScript = some f.p2shScript)
    (old : Option Address) :
    f.p2shScript ∈ (s.contextWith env active retiring old).watchedScripts :=
  List.mem_append_right _ (by rw [contextWith, retired]; exact List.mem_singleton_self _)

end State

/-- The federations of the line from the last that was decommissioned to the active one are
    watched. -/
theorem Bridge.Stands.watched {b : Bridge} {env : Env} {genesis active f : Federation}
    {committed : List Federation} {retired n : Nat} {retiring : Option Federation}
    (stands : b.Stands genesis committed retired)
    (live : b.Live env (genesis :: committed) retired (b.activeNumber committed) active retiring)
    (found : (genesis :: committed)[n]? = some f) (least : retired ≤ n + 1)
    (most : n ≤ b.activeNumber committed) (old : Option Address) :
    f.p2shScript ∈ (b.state.contextWith env active retiring old).watchedScripts := by
  rcases Nat.le_or_eq_of_le_succ least with left | last
  · exact State.mem_watchedScripts_of_live (live.covers n f left most found) old
  · refine State.mem_watchedScripts_of_lastRetired ?_ old
    rw [stands.script n last, found, Option.map_some]

namespace Runs

variable {c : Constants} {block : Block} {activations : Activations} {a b : Bridge}
  {past later : List Step} {f : Federation}

/-- The federation at place `n` of the line is replaced by the one at place `n + 1`, which is
    decommissioned after `n + 1` others. Until then, whatever reveals the script of the federation
    counts as signed by it. -/
theorem watched_until_replacement_retires (run : Runs (.startAt c block activations) past a)
    (rest : Runs a later b) (steady : ∀ step ∈ past ++ later, step.Steady)
    (active : a.active = .ok f)
    (stays : (past ++ later).countP Step.decommissions ≤ a.activeNumber (committed past) + 1) :
    ∃ genesis env, c.genesisFederation = .ok genesis ∧ InLine genesis (past ++ later) ∧
      (line genesis (past ++ later))[a.activeNumber (committed past)]? = some f ∧
      b.env = .ok env ∧
      ((∃ ctx, b.state.classificationContext env = .ok ctx) ↔ ∃ old, c.oldFederation = .ok old) ∧
      ∀ ctx t i l, b.state.classificationContext env = .ok ctx → i ∈ t.inputs →
        Script.Written i.scriptSig (l ++ [.push f.redeemScript]) →
        Strategy.legacyWatchWallet.classify ctx t = .ok .pegoutOrMigration := by
  have whole := run.append rest
  obtain ⟨before, after⟩ := List.forall_mem_append.1 steady
  obtain ⟨genesis, isGenesis, place⟩ := run.place_of_active before active
  have found := getElem?_line_append place later
  have stands := whole.stands steady isGenesis
  -- the block of the last state has surroundings because that of the first one has
  obtain ⟨_, surroundings, _⟩ := bind_eq_ok_iff.1 active
  obtain ⟨env, surroundings⟩ := Bridge.env_of_constants rest.constants_eq surroundings
  obtain ⟨_, _, live⟩ := stands.live surroundings (by rw [whole.constants_eq]; exact isGenesis)
  have most := rest.activeNumber_mono after (committed past) (committed later)
  rw [← committed_append] at most
  have watched := stands.watched live found stays most
  have context := State.classificationContext_eq_map live.isActive live.isRetiring
  have constants : env.constants = c := by
    rw [(Bridge.env_eq_ok surroundings).1, whole.constants_eq]
    rfl
  rw [constants] at context
  refine ⟨genesis, env, isGenesis, whole.inLine steady isGenesis, found, surroundings, ?_, ?_⟩
  · rw [context]
    cases c.oldFederation <;> simp [Except.map]
  · intro ctx t i l given member written
    rw [context] at given
    cases address : c.oldFederation with
    | error e =>
      rw [address] at given
      cases given
    | ok old =>
      rw [address] at given
      cases given
      exact ClassificationContext.classify_of_revealsWatched member
        (ClassificationContext.revealsWatched_of_written (watched old) written)

/-- The genesis federation is active in block 5. In block 30 its output is moved, it is
    decommissioned, and a spend of its outputs still counts as signed by it. -/
theorem watched_until_replacement_retires_of_genesis :
    ∃ f later b env ctx,
      (Bridge.startAt Scenario.single ⟨5, 0⟩ .none).active = .ok f ∧
      Runs (.startAt Scenario.single ⟨5, 0⟩ .none) later b ∧ (∀ step ∈ later, step.Steady) ∧
      later.countP Step.decommissions = 1 ∧ b.state.oldFederation = none ∧ b.env = .ok env ∧
      b.state.classificationContext env = .ok ctx ∧
      ∀ signature : Bytes, signature.length ≤ 75 →
        Strategy.legacyWatchWallet.classify ctx
          { version := 2
            lockTime := 0
            inputs :=
              [{ previous := (Scenario.output 0 50000).outpoint, sequence := 0 },
               { previous := (Scenario.output 1 50000).outpoint
                 scriptSig := Script.ofInstructions [.push signature, .push f.redeemScript]
                 sequence := 0 }]
            outputs := [] } = .ok .pegoutOrMigration := by
  obtain ⟨later, b, run, steady, once, gone⟩ := Bridge.exists_runs_of_play
    (P := fun later b => (∀ step ∈ later, step.Steady) ∧
      later.countP Step.decommissions = 1 ∧ b.state.oldFederation = none)
    (b := .startAt Scenario.single ⟨5, 0⟩ .none)
    (.perform (.depositNew (Scenario.output 0 50000)) :: Scenario.change ++
      [.perform (.enterBlock ⟨30, 0⟩ .none), .perform (.reload {}), .perform .migrate])
    (by decide +kernel)
  have isActive : ((Bridge.startAt Scenario.single ⟨5, 0⟩ .none).active).toOption.isSome := by
    decide +kernel
  obtain ⟨f, active⟩ := Option.isSome_iff_exists.1 isActive
  have active := toOption_eq_some_iff.1 active
  have start : Runs (.startAt Scenario.single ⟨5, 0⟩ .none) []
      (.startAt Scenario.single ⟨5, 0⟩ .none) := .refl
  obtain ⟨_, env, _, _, _, surroundings, context, classified⟩ :=
    start.watched_until_replacement_retires run steady active (by simp [once])
  obtain ⟨ctx, context⟩ := context.2 ⟨none, rfl⟩
  refine ⟨f, later, b, env, ctx, active, run, steady, once, gone, surroundings, context, ?_⟩
  intro signature short
  refine classified ctx _ _ [.push signature] context
    (List.mem_cons_of_mem _ List.mem_cons_self) ?_
  have small : f.redeemScript.length ≤ 520 := f.script_fits
  refine Script.written_ofInstructions ?_ ?_
  · intro data member
    rcases List.mem_pair.1 member with same | same
    · cases same
      omega
    · cases same
      omega
  · intro code member
    rcases List.mem_pair.1 member with same | same <;> cases same

end Runs

end TwoWayPeg
