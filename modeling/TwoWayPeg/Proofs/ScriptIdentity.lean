import TwoWayPeg.Proofs.Branch

/-!
# A redeem script tells whose it is

What a redeem script asks for is read from its bytes, so two federations with the same script ask
for signatures by the same keys, at the same age of an output. The form of the script is read from
its first and its last instruction. Conversely a script does not depend on the order in which keys
are listed.
-/

namespace TwoWayPeg

open Instruction

namespace RedeemScript

/-- Reads the form of a script. One with a choice of branches starts with it, and checks signatures
    either after it or within. -/
def tagOf (l : List Instruction) : Nat :=
  if l.head? = some notIf then if l.getLast? = some checkMultisig then 1 else 2 else 0

theorem tagOf_instructions (keys : List PublicKey) (kind : FederationKind) :
    tagOf (instructions keys kind) = kind.tag := by
  rw [tagOf]
  cases kind with
  | standard =>
    have other : number (majority keys.length) ≠ notIf :=
      ne_of_mem_majorityOf rfl _ List.mem_cons_self
    exact if_neg fun same => other (Option.some.inj same)
  | nonStandardErp r =>
    have last : (instructions keys (.nonStandardErp r)).getLast? = some checkMultisig := by
      rw [instructions, List.getLast?_append]
      rfl
    rw [last]
    rfl
  | p2shErp r =>
    have last : (instructions keys (.p2shErp r)).getLast? = some endIf := by
      rw [instructions, List.getLast?_append]
      rfl
    rw [last]
    rfl

theorem delayNumber_injective {a b : UInt64} (same : delayNumber a = delayNumber b) : a = b :=
  congrArg Int64.toUInt64 (Int64.toInt_inj.1 same)

/-- A script does not depend on the order of keys. -/
theorem build_congr {keys keys' : List PublicKey} {kind kind' : FederationKind}
    (members : Ordered.sort keys = Ordered.sort keys') (tag : kind.tag = kind'.tag)
    (recoveryKeys : Ordered.sort kind.recoveryKeys = Ordered.sort kind'.recoveryKeys)
    (delay : kind.delay? = kind'.delay?) : build keys kind = build keys' kind' := by
  have same (r r' : Recovery) (keys : Ordered.sort r.keys = Ordered.sort r'.keys)
      (delay : some r.delay = some r'.delay) (l : List PublicKey) :
      instructions l (.nonStandardErp r) = instructions l (.nonStandardErp r') ∧
        instructions l (.p2shErp r) = instructions l (.p2shErp r') := by
    simp only [instructions, keys, Option.some.inj delay, and_self]
  rw [build, build, members]
  congr 1
  cases kind with
  | standard =>
    cases kind' with
    | standard => rfl
    | nonStandardErp _ | p2shErp _ => cases tag
  | nonStandardErp r =>
    cases kind' with
    | nonStandardErp r' => exact (same r r' recoveryKeys delay _).1
    | standard | p2shErp _ => cases tag
  | p2shErp r =>
    cases kind' with
    | p2shErp r' => exact (same r r' recoveryKeys delay _).2
    | standard | nonStandardErp _ => cases tag

end RedeemScript

/-- Forms with the same number both have an emergency branch or both have none. -/
theorem FederationKind.isSome_recovery?_of_tag {kind kind' : FederationKind}
    (tag : kind.tag = kind'.tag) : kind.recovery?.isSome = kind'.recovery?.isSome := by
  cases kind <;> cases kind' <;> first | rfl | cases tag

theorem Demand.ofKeys_injective {keys keys' : List PublicKey} (same : ofKeys keys = ofKeys keys') :
    keys = keys' := by
  have listed : keys.map PublicKey.compressed = keys'.map PublicKey.compressed :=
    congrArg Demand.keys same
  exact (List.map_inj_right fun _ _ => PublicKey.compressed_inj.1).1 listed

namespace Federation

open RedeemScript

/-- The federation of the same members without an emergency branch. -/
def withoutRecovery (f : Federation) : Federation :=
  { f with
    kind := .standard
    delay_writable := nofun
    script_fits := Nat.le_trans (length_build_standard_le _ f.kind) f.script_fits }

variable {f g : Federation} {l : List Instruction}

/-- The form of the script is read from its instructions. -/
theorem tagOf_of_instructions? (read : Script.instructions? f.redeemScript = some l) :
    tagOf l = f.kind.tag := by
  cases (instructions?_build f.script_fits).symm.trans read
  exact tagOf_instructions _ f.kind

/-- Federations whose scripts have the same instructions have the same custody. -/
theorem Asks.unique (asks : f.Asks l) (asks' : g.Asks l) (tag : f.kind.tag = g.kind.tag) :
    f.btcKeys = g.btcKeys ∧ Ordered.sort f.kind.recoveryKeys = Ordered.sort g.kind.recoveryKeys ∧
      f.kind.delay? = g.kind.delay? := by
  have branches := FederationKind.isSome_recovery?_of_tag tag
  constructor
  · have demands := asks.members.symm.trans asks'.members
    rw [← ofKeys_btcKeys, ← ofKeys_btcKeys, Option.some.injEq, Prod.mk.injEq] at demands
    exact Demand.ofKeys_injective demands.1
  unfold FederationKind.recoveryKeys FederationKind.delay?
  cases recovery : f.kind.recovery? with
  | none =>
    rw [recovery, Option.isSome_none, eq_comm, Option.isSome_eq_false_iff,
      Option.isNone_iff_eq_none] at branches
    rw [branches]
    exact ⟨rfl, rfl⟩
  | some r =>
    rw [recovery, Option.isSome_some, eq_comm, Option.isSome_iff_exists] at branches
    obtain ⟨r', recovery'⟩ := branches
    obtain ⟨rest, aged, demanded⟩ := asks.emergency r recovery
    obtain ⟨rest', aged', demanded'⟩ := asks'.emergency r' recovery'
    have ages := aged.symm.trans aged'
    rw [Option.some.injEq, Prod.mk.injEq] at ages
    obtain ⟨delays, rfl⟩ := ages
    have demands := demanded.symm.trans demanded'
    rw [Option.some.injEq, Prod.mk.injEq] at demands
    rw [recovery']
    exact ⟨Demand.ofKeys_injective demands.1, congrArg some (delayNumber_injective delays)⟩

/-- Two scripts are the same exactly if their forms, keys and delays are. -/
theorem redeemScript_eq_iff : f.redeemScript = g.redeemScript ↔
    f.kind.tag = g.kind.tag ∧ Ordered.sort f.btcKeys = Ordered.sort g.btcKeys ∧
      Ordered.sort f.kind.recoveryKeys = Ordered.sort g.kind.recoveryKeys ∧
      f.kind.delay? = g.kind.delay? := by
  constructor
  · intro same
    obtain ⟨l, read, asks⟩ := f.exists_asks
    obtain ⟨l', read', asks'⟩ := g.exists_asks
    have both := read
    rw [same] at both
    cases both.symm.trans read'
    have tag : f.kind.tag = g.kind.tag :=
      (tagOf_of_instructions? read).symm.trans (tagOf_of_instructions? read')
    obtain ⟨members, emergency⟩ := asks.unique asks' tag
    exact ⟨tag, congrArg Ordered.sort members, emergency⟩
  · rintro ⟨tag, members, recoveryKeys, delay⟩
    exact build_congr members tag recoveryKeys delay

/-- The redeem script of a federation identifies its custody: the form, the members' signing keys,
    the emergency keys and the delay. The script of the members alone is that of a standard
    federation, and identifies their keys. -/
theorem redeemScript_identifies (f g : Federation) :
    (f.redeemScript = g.redeemScript ↔
      f.kind.tag = g.kind.tag ∧ Ordered.sort f.btcKeys = Ordered.sort g.btcKeys ∧
        Ordered.sort f.kind.recoveryKeys = Ordered.sort g.kind.recoveryKeys ∧
        f.kind.delay? = g.kind.delay?) ∧
      (f.redeemScript = f.defaultRedeemScript ↔ f.kind = .standard) ∧
      (f.defaultRedeemScript = g.defaultRedeemScript ↔
        Ordered.sort f.btcKeys = Ordered.sort g.btcKeys) := by
  refine ⟨redeemScript_eq_iff, ?_, ?_⟩
  · constructor
    · intro same
      have tag : f.kind.tag = f.withoutRecovery.kind.tag :=
        (redeemScript_eq_iff.1 (show f.redeemScript = f.withoutRecovery.redeemScript from same)).1
      cases kind : f.kind with
      | standard => rfl
      | nonStandardErp _ | p2shErp _ =>
        rw [kind] at tag
        cases tag
    · intro standard
      rw [redeemScript, standard, defaultRedeemScript]
  · constructor
    · intro same
      exact (redeemScript_eq_iff.1
        (show f.withoutRecovery.redeemScript = g.withoutRecovery.redeemScript from same)).2.1
    · intro members
      exact build_congr members rfl rfl rfl

end Federation

end TwoWayPeg
