import TwoWayPeg.Classification
import TwoWayPeg.Constants.Presets
import TwoWayPeg.Proofs.Checked
import TwoWayPeg.Proofs.ScriptForm

/-!
# What the watch wallet answers

The legacy strategy is told here apart from how it is computed. Whether an input is a spend of the peg
is a matter of the bytes that write its script: they have to write instructions of which the last
pushes a script that is watched. What is paid to the peg is a sum over the outputs, so that an output
counts once even if both live federations have its script. Neither depends on the order of the inputs
or of the outputs.
-/

namespace TwoWayPeg

namespace ClassificationContext

variable (ctx : ClassificationContext)

/-- A script pays to the active federation or to the retiring one. -/
def IsLive (script : Script) : Prop :=
  script = ctx.active.p2shScript ∨ ctx.retiring.map Federation.p2shScript = some script

instance : DecidablePred ctx.IsLive := fun script =>
  inferInstanceAs (Decidable (script = _ ∨ _ = some script))

/-- A script pays to a federation that the peg has or has had. -/
def IsWatched (script : Script) : Prop :=
  ctx.IsLive script ∨ ctx.oldScript = some script ∨ ctx.lastRetiredScript = some script

/-- The script of an input is written as instructions of which the last pushes some bytes, and the
    script that pays to the hash of these is watched. -/
def SpendsWatched (i : TxIn) : Prop :=
  ∃ before data, Script.Written i.scriptSig (before ++ [.push data]) ∧ data ≠ [] ∧
    ctx.IsWatched (Script.toP2sh data)

/-- The satoshis that a transaction pays to the active and the retiring federation. -/
def paidToLive (t : Transaction) : Nat :=
  ((t.outputs.filter fun o => ctx.IsLive o.scriptPubkey).map fun o => o.value.toNat).sum

variable {ctx} {t u : Transaction} {i : TxIn} {script : Script}

theorem mem_liveScripts_iff : script ∈ ctx.liveScripts ↔ ctx.IsLive script := by
  rw [liveScripts, liveFederations, List.map_cons, List.mem_cons, IsLive]
  cases ctx.retiring with
  | none => simp
  | some f => simp [eq_comm]

theorem mem_watchedScripts_iff : script ∈ ctx.watchedScripts ↔ ctx.IsWatched script := by
  rw [watchedScripts, List.mem_append, List.mem_append, mem_liveScripts_iff, IsWatched, or_assoc,
    Option.mem_toList, Option.mem_toList]

theorem revealsWatched_iff : ctx.revealsWatched i = true ↔ ctx.SpendsWatched i := by
  unfold revealsWatched SpendsWatched
  constructor
  · intro reveals
    split at reveals
    · next data pushed =>
      obtain ⟨some, before, written⟩ := Script.lastPush?_eq_some_iff.1 pushed
      rw [List.contains_iff_mem, mem_watchedScripts_iff] at reveals
      exact ⟨before, data, written, some, reveals⟩
    · cases reveals
  · rintro ⟨before, data, written, some, watched⟩
    rw [Script.lastPush?_eq_some_iff.2 ⟨some, before, written⟩]
    exact List.contains_iff_mem.2 (mem_watchedScripts_iff.2 watched)

theorem valueToLive_eq (ctx : ClassificationContext) (t : Transaction) : ctx.valueToLive t =
    if ctx.paidToLive t < UInt64.size then .ok (.ofNat (ctx.paidToLive t))
    else .error (.overflow .add) := by
  have live : (t.outputs.filter fun o => ctx.liveScripts.contains o.scriptPubkey) =
      t.outputs.filter fun o => ctx.IsLive o.scriptPubkey := by
    refine List.filter_congr fun o _ => ?_
    rw [Bool.eq_iff_iff, List.contains_iff_mem, mem_liveScripts_iff, decide_eq_true_iff]
  rw [valueToLive, sumChecked_eq, live, List.map_map]
  rfl

theorem any_revealsWatched_iff :
    t.inputs.any ctx.revealsWatched = true ↔ ∃ i ∈ t.inputs, ctx.SpendsWatched i := by
  simp only [List.any_eq_true, revealsWatched_iff]

theorem paidToLive_perm (same : u.outputs.Perm t.outputs) :
    ctx.paidToLive u = ctx.paidToLive t := ((same.filter _).map _).sum_nat

end ClassificationContext

open ClassificationContext

namespace Strategy

theorem legacyWatchWallet_classify_eq (ctx : ClassificationContext) (t : Transaction) :
    legacyWatchWallet.classify ctx t =
      if t.inputs.any ctx.revealsWatched then .ok .pegoutOrMigration
      else if ctx.paidToLive t < UInt64.size then
        .ok (if ctx.minimumPeginValue.toNat ≤ ctx.paidToLive t then .pegin else .unknown)
      else .error (.overflow .add) := by
  rw [classify, valueToLive_eq]
  by_cases reveals : t.inputs.any ctx.revealsWatched = true
  · rw [if_pos reveals, if_pos reveals]
    rfl
  rw [if_neg reveals, if_neg reveals]
  by_cases fits : ctx.paidToLive t < UInt64.size
  · rw [if_pos fits, if_pos fits]
    show Except.ok (if _ ≤ _ then _ else _) = _
    simp only [UInt64.le_iff_toNat_le, UInt64.toNat_ofNat_of_lt' fits]
  · rw [if_neg fits, if_neg fits]
    rfl

theorem legacyWatchWallet_classify_perm {ctx : ClassificationContext} {t u : Transaction}
    (inputs : u.inputs.Perm t.inputs) (outputs : u.outputs.Perm t.outputs) :
    legacyWatchWallet.classify ctx u = legacyWatchWallet.classify ctx t := by
  rw [legacyWatchWallet_classify_eq, legacyWatchWallet_classify_eq, inputs.any_eq,
    paidToLive_perm outputs]

/-- A transaction that spends from the peg is a pegout or a migration. Of the others, one that pays the
    live federations the minimum is a pegin and one that pays them less is nothing. Only a sum that
    is out of range has no answer. The order of the inputs and of the outputs does not count. -/
theorem legacyWatchWallet_classify_iff (ctx : ClassificationContext) (t : Transaction) :
    (legacyWatchWallet.classify ctx t = .ok .pegoutOrMigration ↔
        ∃ i ∈ t.inputs, ctx.SpendsWatched i) ∧
      (legacyWatchWallet.classify ctx t = .ok .pegin ↔
        (¬ ∃ i ∈ t.inputs, ctx.SpendsWatched i) ∧
          ctx.minimumPeginValue.toNat ≤ ctx.paidToLive t ∧ ctx.paidToLive t < UInt64.size) ∧
      (legacyWatchWallet.classify ctx t = .ok .unknown ↔
        (¬ ∃ i ∈ t.inputs, ctx.SpendsWatched i) ∧
          ctx.paidToLive t < ctx.minimumPeginValue.toNat) ∧
      (∀ e, legacyWatchWallet.classify ctx t = .error e ↔
        (¬ ∃ i ∈ t.inputs, ctx.SpendsWatched i) ∧ UInt64.size ≤ ctx.paidToLive t ∧
          e = .overflow .add) ∧
      ∀ u : Transaction, u.inputs.Perm t.inputs → u.outputs.Perm t.outputs →
        legacyWatchWallet.classify ctx u = legacyWatchWallet.classify ctx t := by
  have minimum : ctx.minimumPeginValue.toNat < UInt64.size := ctx.minimumPeginValue.toNat_lt
  rw [← and_assoc, ← and_assoc, ← and_assoc]
  refine ⟨?_, fun u inputs outputs => legacyWatchWallet_classify_perm inputs outputs⟩
  rw [legacyWatchWallet_classify_eq, ← any_revealsWatched_iff]
  by_cases reveals : t.inputs.any ctx.revealsWatched = true
  · simp [reveals]
  by_cases fits : ctx.paidToLive t < UInt64.size
  · by_cases enough : ctx.minimumPeginValue.toNat ≤ ctx.paidToLive t
    · simp [reveals, fits, enough]
    · simp [reveals, fits, enough, Nat.lt_of_not_le enough]
  · -- a sum that is out of range is above every minimum
    have least : UInt64.size ≤ ctx.paidToLive t := Nat.le_of_not_lt fits
    have most := Nat.not_lt_of_le (Nat.le_trans (Nat.le_of_lt minimum) least)
    simp [reveals, fits, least, most, eq_comm]

/-- With the active federation also the retiring one, an output of 5 counts once, so that it misses
    the minimum of 6. An input spends if it pushes the script in a form that is not the shortest. -/
theorem legacyWatchWallet_classify_of_coinciding_scripts :
    ∃ (ctx : ClassificationContext) (t u v : Transaction) (i : TxIn),
      ctx.retiring = some ctx.active ∧ ctx.minimumPeginValue = 6 ∧
      t.outputs.map TxOut.value = [5, 7] ∧ ctx.paidToLive t = 5 ∧
      legacyWatchWallet.classify ctx t = .ok .unknown ∧
      u = { t with outputs := t.outputs.reverse } ∧
      legacyWatchWallet.classify ctx u = .ok .unknown ∧
      i.scriptSig = [0x4d, 0x01, 0x00, 0x51] ∧ v = { t with inputs := [i] } ∧
      legacyWatchWallet.classify ctx v = .ok .pegoutOrMigration := by
  have founded : Constants.regtest.genesisFederation.toOption.isSome := by decide +kernel
  obtain ⟨f, _⟩ := Option.isSome_iff_exists.1 founded
  obtain ⟨ctx, isCtx⟩ : ∃ ctx : ClassificationContext, ctx =
      { activations := .none
        sighashes := OrderedSet.empty
        minimumPeginValue := 6
        pegoutIndexHeight := 0
        pegoutIndexGracePeriod := 0
        oldScript := some (Script.toP2sh [0x51])
        lastRetiredScript := none
        active := f
        retiring := some f } := ⟨_, rfl⟩
  obtain ⟨t, isT⟩ : ∃ t : Transaction, t =
      { version := 2
        lockTime := 0
        inputs := []
        outputs := [⟨5, f.p2shScript⟩, ⟨7, []⟩] } := ⟨_, rfl⟩
  have elsewhere : ¬ ctx.IsLive [] := by
    rw [isCtx]
    rintro (active | retiring)
    · exact List.cons_ne_nil _ _ active.symm
    · exact List.cons_ne_nil _ _ (Option.some.inj retiring)
  have paid : ctx.paidToLive t = 5 := by
    have live : ctx.IsLive f.p2shScript := .inl (by rw [isCtx])
    simp [paidToLive, isT, live, elsewhere]
  have unknown : legacyWatchWallet.classify ctx t = .ok .unknown := by
    refine (legacyWatchWallet_classify_iff ctx t).2.2.1.2 ⟨by simp [isT], ?_⟩
    rw [paid, isCtx]
    exact (by decide : 5 < 6)
  obtain ⟨i, isI⟩ : ∃ i : TxIn, i =
      { previous := default
        scriptSig := [0x4d, 0x01, 0x00, 0x51]
        sequence := 0 } := ⟨_, rfl⟩
  refine ⟨ctx, t, _, _, i, by rw [isCtx], by rw [isCtx], by rw [isT]; rfl, paid, unknown, rfl, ?_,
    by rw [isI], rfl, ?_⟩
  · have same := (legacyWatchWallet_classify_iff ctx t).2.2.2.2
      { t with outputs := t.outputs.reverse } (.refl _) (List.reverse_perm _)
    exact same.trans unknown
  · refine (legacyWatchWallet_classify_iff ctx _).1.2 ⟨_, List.mem_singleton_self _, ?_⟩
    refine ⟨[], [0x51], ?_, List.cons_ne_nil _ _, .inr (.inl (by rw [isCtx]))⟩
    have counts : ((0x4d : UInt8), 2) ∈ Script.countedPushes := by simp [Script.countedPushes]
    have written : Script.Written _ [.push [0x51]] := .counted counts (by decide) .nil
    rw [isI]
    exact written

end Strategy

end TwoWayPeg
