import TwoWayPeg.Constants.Presets
import TwoWayPeg.Federation.Pending
import TwoWayPeg.Proofs.RedeemScript
import TwoWayPeg.Proofs.Run

/-!
# What the branches of a redeem script ask for

A script with a choice executes one of its branches and what follows the choice. `executed` picks
these instructions, and `Demand.read?` reads what a check of signatures is told there: how many are
needed, the keys, and how many keys there are. The branch of the members always asks for a number of
signatures that there are members for. The emergency branch asks for more than half of its keys,
which is one of none if there are no keys.
-/

namespace TwoWayPeg

open Instruction

namespace Script

/-- The instructions of a choice, from after its start, that are executed, and those after it. The
    branches take turns. -/
def chosen : Bool → List Instruction → List Instruction
  | _, [] => []
  | taken, i :: rest =>
    if i = endIf then rest
    else if i = otherwise then chosen (!taken) rest
    else if taken then i :: chosen taken rest
    else chosen taken rest

/-- The instructions of a script that are executed if the first branch of its choice is taken, or
    else. A script without a choice executes all of them. -/
def executed (first : Bool) : List Instruction → List Instruction
  | [] => []
  | i :: rest => if i = notIf then chosen first rest else i :: executed first rest

/-- Instructions within one branch. -/
def IsBranch (l : List Instruction) : Prop := ∀ i ∈ l, i ≠ endIf ∧ i ≠ otherwise

variable {l a b : List Instruction}

theorem IsBranch.append (first : IsBranch a) (second : IsBranch b) : IsBranch (a ++ b) :=
  List.forall_mem_append.2 ⟨first, second⟩

/-- The instructions of a branch are executed if it is taken. -/
theorem chosen_append (branch : IsBranch l) (taken : Bool) (rest : List Instruction) :
    chosen taken (l ++ rest) = (if taken then l else []) ++ chosen taken rest := by
  induction l with
  | nil =>
    rw [ite_self]
    rfl
  | cons i l ih =>
    obtain ⟨⟨notEnd, notOther⟩, others⟩ := List.forall_mem_cons.1 branch
    rw [List.cons_append, chosen, if_neg notEnd, if_neg notOther, ih others]
    cases taken with
    | true => rfl
    | false => rfl

/-- Of two branches the first or the second is executed, and what follows the choice. -/
theorem executed_choice (first : IsBranch a) (second : IsBranch b) (taken : Bool)
    (rest : List Instruction) :
    executed taken (notIf :: (a ++ otherwise :: (b ++ endIf :: rest))) =
      (if taken then a else b) ++ rest := by
  have other : chosen taken (otherwise :: (b ++ endIf :: rest)) =
      chosen (!taken) (b ++ endIf :: rest) := rfl
  have after : chosen (!taken) (endIf :: rest) = rest := rfl
  rw [executed, if_pos rfl, chosen_append first, other, chosen_append second, after]
  cases taken with
  | true => rfl
  | false => rfl

theorem executed_eq_self (plain : ∀ i ∈ l, i ≠ notIf) (first : Bool) : executed first l = l := by
  induction l with
  | nil => rfl
  | cons i l ih =>
    obtain ⟨other, others⟩ := List.forall_mem_cons.1 plain
    rw [executed, if_neg other, ih others]

end Script

/-- What a check of signatures is told: how many are needed, the keys, and how many keys there are.
    -/
structure Demand where
  needed : Int
  keys : List Bytes
  announced : Int
deriving DecidableEq

namespace Demand

/-- There are as many keys as is said, and enough for the signatures that are needed, of which there
    is at least one. -/
structure IsSatisfiable (d : Demand) : Prop where
  counted : d.announced = d.keys.length
  positive : 1 ≤ d.needed
  enough : d.needed ≤ d.keys.length

/-- The keys that are pushed one after the other, and the instructions after them. -/
def pushedKeys : List Instruction → List Bytes × List Instruction
  | [] => ([], [])
  | .op code :: rest => ([], .op code :: rest)
  | .push data :: rest =>
    if data.length = 33 then (data :: (pushedKeys rest).1, (pushedKeys rest).2)
    else ([], .push data :: rest)

/-- Reads what a check of signatures is told, and the instructions after that. -/
def read? : List Instruction → Option (Demand × List Instruction)
  | [] => none
  | first :: rest =>
    match pushedKeys rest with
    | (_, []) => none
    | (keys, last :: rest) => do
      let needed ← first.value?
      let announced ← last.value?
      return (⟨needed, keys, announced⟩, rest)

/-- Reads the check of the age of an output. -/
def readAge? : List Instruction → Option (Int × List Instruction)
  | age :: check :: discard :: rest =>
    if check = checkSequence ∧ discard = drop then age.value?.map (·, rest) else none
  | _ => none

/-- More than half of the keys are asked for. -/
def ofKeys (keys : List PublicKey) : Demand :=
  ⟨majority keys.length, keys.map PublicKey.compressed, keys.length⟩

/-- The demand for more than half of the keys can be fulfilled unless there are none. -/
theorem isSatisfiable_ofKeys {keys : List PublicKey} : (ofKeys keys).IsSatisfiable ↔ keys ≠ [] := by
  have count : (keys.map PublicKey.compressed).length = keys.length := List.length_map _
  rw [← List.length_pos_iff]
  constructor
  · intro satisfiable
    have enough : (majority keys.length : Int) ≤ (keys.map PublicKey.compressed).length :=
      satisfiable.enough
    rw [count, majority] at enough
    omega
  · intro some
    constructor
    case counted => exact congrArg Int.ofNat count.symm
    case positive =>
      show (1 : Int) ≤ majority keys.length
      rw [majority]
      omega
    case enough =>
      show (majority keys.length : Int) ≤ (keys.map PublicKey.compressed).length
      rw [count, majority]
      omega

/-- Keys are read up to an instruction that pushes none. -/
theorem pushedKeys_append (keys : List PublicKey) {i : Instruction} (rest : List Instruction)
    (stop : ∀ data, i = .push data → data.length ≠ 33) :
    pushedKeys (keys.map (.push ·.compressed) ++ i :: rest) =
      (keys.map PublicKey.compressed, i :: rest) := by
  induction keys with
  | nil =>
    cases i with
    | op code => rfl
    | push data => exact if_neg (stop data rfl)
  | cons key keys ih =>
    rw [List.map_cons, List.map_cons, List.cons_append, pushedKeys,
      if_pos key.length_compressed, ih]

/-- A small number is not taken for a key. -/
theorem length_ne_of_number {n : Nat} (small : n ≤ 16) (data : Bytes)
    (pushed : number n = .push data) : data.length ≠ 33 := by
  rw [number] at pushed
  by_cases zero : (n : Int) = 0
  · rw [if_pos zero] at pushed
    cases pushed
    decide
  · rw [if_neg zero, if_neg (by omega), if_pos (by omega)] at pushed
    cases pushed

theorem read?_majorityOf {keys : List PublicKey} (few : keys.length ≤ 16)
    (rest : List Instruction) :
    read? (RedeemScript.majorityOf keys ++ rest) = some (ofKeys keys, rest) := by
  have pushed := pushedKeys_append keys rest (length_ne_of_number few)
  rw [RedeemScript.majorityOf, List.append_assoc, List.cons_append, List.singleton_append, read?,
    pushed]
  simp only [value?_number]
  rfl

end Demand

namespace RedeemScript

open Script

/-- What is no number does not stand in a list of keys. -/
theorem ne_of_mem_majorityOf {keys : List PublicKey} {code : UInt8}
    (none : (Instruction.op code).value? = none) : ∀ i ∈ majorityOf keys, i ≠ .op code := by
  intro i member same
  rw [same] at member
  rw [majorityOf, List.mem_append, List.mem_cons, List.mem_singleton, List.mem_map] at member
  rcases member with (needed | ⟨_, _, pushed⟩) | announced
  · rw [needed, value?_number] at none
    cases none
  · cases pushed
  · rw [announced, value?_number] at none
    cases none

theorem isBranch_majorityOf (keys : List PublicKey) : IsBranch (majorityOf keys) :=
  fun i member => ⟨ne_of_mem_majorityOf rfl i member, ne_of_mem_majorityOf rfl i member⟩

theorem isBranch_checkDelay (delay : UInt64) : IsBranch (checkDelay delay) := by
  have differs {code : UInt8} (none : (Instruction.op code).value? = none) :
      number (delayNumber delay) ≠ .op code := by
    intro same
    rw [← same, value?_number] at none
    cases none
  rw [checkDelay, IsBranch, List.forall_mem_cons]
  exact ⟨⟨differs rfl, differs rfl⟩, by decide⟩

theorem isBranch_checkMultisig : IsBranch [checkMultisig] := by
  unfold IsBranch
  decide

/-- What is executed in a branch of a script that has two. Both forms check signatures at the end of
    either branch. -/
theorem executed_instructions (keys : List PublicKey) {kind : FederationKind} {r : Recovery}
    (recovery : kind.recovery? = some r) (first : Bool) :
    executed first (instructions keys kind) =
      (if first then majorityOf keys else checkDelay r.delay ++ majorityOf (Ordered.sort r.keys))
        ++ [checkMultisig] := by
  have members := isBranch_majorityOf keys
  have emergency := (isBranch_checkDelay r.delay).append (isBranch_majorityOf (Ordered.sort r.keys))
  cases kind with
  | standard => cases recovery
  | nonStandardErp _ =>
    cases recovery
    rw [← executed_choice members emergency]
    simp only [instructions, List.append_assoc, List.cons_append]
  | p2shErp _ =>
    cases recovery
    have shape : instructions keys (.p2shErp r) =
        notIf :: (majorityOf keys ++ [checkMultisig] ++ otherwise ::
          (checkDelay r.delay ++ majorityOf (Ordered.sort r.keys) ++ [checkMultisig]
            ++ endIf :: [])) := by
      simp only [instructions, List.append_assoc, List.cons_append, List.nil_append]
    rw [shape, executed_choice (members.append isBranch_checkMultisig)
      (emergency.append isBranch_checkMultisig), List.append_nil]
    cases first with
    | true => rfl
    | false => rfl

/-- Whatever the form of a script, the branch of the members checks their signatures. -/
theorem executed_members (keys : List PublicKey) (kind : FederationKind) :
    executed true (instructions keys kind) = majorityOf keys ++ [checkMultisig] := by
  cases recovery : kind.recovery? with
  | some r => rw [executed_instructions keys recovery, if_pos rfl]
  | none =>
    cases kind with
    | standard =>
      apply executed_eq_self
      rw [instructions, List.forall_mem_append]
      exact ⟨ne_of_mem_majorityOf rfl, by decide⟩
    | nonStandardErp _ | p2shErp _ => cases recovery

end RedeemScript

namespace Federation

open RedeemScript Script

/-- In each branch of the script of a federation a check of signatures can be fulfilled, in the
    branch of the members by as many of them as the threshold says. -/
def BranchesSatisfiable (f : Federation) : Prop :=
  ∃ l, instructions? f.redeemScript = some l ∧
    (∃ d, Demand.read? (executed true l) = some (d, [checkMultisig]) ∧ d.needed = f.threshold ∧
      d.keys = f.btcKeys.map PublicKey.compressed ∧ d.announced = f.size ∧ d.IsSatisfiable) ∧
    (f.kind.recovery?.isSome → ∃ age rest d, Demand.readAge? (executed false l) = some (age, rest) ∧
      Demand.read? rest = some (d, [checkMultisig]) ∧ d.IsSatisfiable)

variable {f : Federation}

theorem ofKeys_btcKeys (f : Federation) : Demand.ofKeys f.btcKeys =
    ⟨f.threshold, f.btcKeys.map PublicKey.compressed, f.size⟩ := by
  have count : f.btcKeys.length = f.size := List.length_map _
  rw [Demand.ofKeys, count]
  rfl

/-- What the branches of the script of a federation ask for. -/
structure Asks (f : Federation) (l : List Instruction) : Prop where
  members : Demand.read? (executed true l) =
    some (⟨f.threshold, f.btcKeys.map PublicKey.compressed, f.size⟩, [checkMultisig])
  emergency : ∀ r, f.kind.recovery? = some r → ∃ rest,
    Demand.readAge? (executed false l) = some (delayNumber r.delay, rest) ∧
      Demand.read? rest = some (Demand.ofKeys (Ordered.sort r.keys), [checkMultisig])

theorem exists_asks (f : Federation) :
    ∃ l, instructions? f.redeemScript = some l ∧ f.Asks l := by
  have few := f.size_add_recoveryKeys_le
  refine ⟨_, instructions?_build f.script_fits, ?_⟩
  rw [f.sort_btcKeys]
  constructor
  case members =>
    have count : f.btcKeys.length = f.size := List.length_map _
    rw [executed_members, Demand.read?_majorityOf (by omega), ofKeys_btcKeys]
  case emergency =>
    intro r recovery
    refine ⟨majorityOf (Ordered.sort r.keys) ++ [checkMultisig], ?_, ?_⟩
    · rw [executed_instructions _ recovery, if_neg Bool.false_ne_true]
      simp [checkDelay, Demand.readAge?]
    · apply Demand.read?_majorityOf
      have keys : f.kind.recoveryKeys = r.keys := by rw [FederationKind.recoveryKeys, recovery]; rfl
      rw [(Ordered.perm_sort _).length_eq]
      rw [keys] at few
      omega

/-- Each branch of the script can be fulfilled, unless there is an emergency branch without keys. -/
theorem branchesSatisfiable_iff (f : Federation) :
    f.BranchesSatisfiable ↔ ∀ r, f.kind.recovery? = some r → r.keys ≠ [] := by
  obtain ⟨l, read, asks⟩ := f.exists_asks
  have sorted {r : Recovery} : Ordered.sort r.keys ≠ [] ↔ r.keys ≠ [] := by
    rw [← List.length_pos_iff, ← List.length_pos_iff, (Ordered.perm_sort _).length_eq]
  constructor
  · rintro ⟨l', read', _, emergency⟩ r recovery
    cases read.symm.trans read'
    obtain ⟨rest, aged, demanded⟩ := asks.emergency r recovery
    obtain ⟨_, _, d, aged', demanded', satisfiable⟩ := emergency (by rw [recovery]; rfl)
    cases aged.symm.trans aged'
    cases demanded.symm.trans demanded'
    exact sorted.1 (Demand.isSatisfiable_ofKeys.1 satisfiable)
  · intro keys
    refine ⟨l, read, ⟨_, asks.members, rfl, rfl, rfl, ?_⟩, fun branch => ?_⟩
    · rw [← ofKeys_btcKeys]
      refine Demand.isSatisfiable_ofKeys.2 fun none => f.nonempty ?_
      exact List.map_eq_nil_iff.1 none
    · obtain ⟨r, recovery⟩ := Option.isSome_iff_exists.1 branch
      obtain ⟨rest, aged, demanded⟩ := asks.emergency r recovery
      exact ⟨_, rest, _, aged, demanded,
        Demand.isSatisfiable_ofKeys.2 (sorted.2 (keys r recovery))⟩

/-- The script of a federation is well formed. The branch of the members asks for as many signatures
    as the threshold says, by the keys of all members in the order of their bytes, and the emergency
    branch for more than half of its keys. Both can be fulfilled exactly if there is no emergency
    branch or it has a key. -/
theorem branches_of_redeemScript (f : Federation) :
    (∃ l, instructions? f.redeemScript = some l ∧ f.Asks l) ∧
      f.btcKeys.length = f.size ∧
      f.btcKeys.Pairwise (fun a b => (compare a.compressed b.compressed).isLE) ∧
      1 ≤ f.threshold ∧ f.threshold ≤ f.size ∧
      (f.BranchesSatisfiable ↔ ∀ r, f.kind.recovery? = some r → r.keys ≠ []) := by
  have some : 0 < f.size := List.length_pos_iff.2 f.nonempty
  have signers : f.threshold = f.size / 2 + 1 := rfl
  exact ⟨f.exists_asks, List.length_map _, f.increasing_btcKeys, by omega, by omega,
    f.branchesSatisfiable_iff⟩

/-- Two members are to form a federation on the main network, whose emergency keys have not been
    set. The federation is built, and its emergency branch asks for one signature by none of the
    keys. -/
theorem not_all_branches_satisfiable :
    ∃ (p : PendingFederation) (f : Federation),
      p.build 1000 1 .mainnet .all = .ok f ∧ f.kind.recovery? = some ⟨[], 52560⟩ ∧
        ¬ f.BranchesSatisfiable := by
  have seen : ((⟨Constants.developmentRecoveryKeys.map Member.ofKey⟩ : PendingFederation).build
      1000 1 .mainnet .all).toOption.any
        (fun f => decide (f.kind.recovery? = some ⟨[], 52560⟩)) = true := by
    decide +kernel
  obtain ⟨f, built, recovery⟩ := (Option.any_eq_true _ _).1 seen
  have recovery := of_decide_eq_true recovery
  refine ⟨_, f, toOption_eq_some_iff.1 built, recovery, fun satisfiable => ?_⟩
  exact f.branchesSatisfiable_iff.1 satisfiable _ recovery rfl

end Federation

end TwoWayPeg
