import TwoWayPeg.Federation.Basic
import TwoWayPeg.Proofs.Number
import TwoWayPeg.Proofs.ScriptForm
import TwoWayPeg.Proofs.Sorting

/-!
# What a redeem script asks for

The script of a federation is read back as the instructions that it was built from. It starts, in
the branch of the members, with the number of signatures that are needed, the members' signing keys
in the order of the members, and their number.
-/

namespace TwoWayPeg

namespace Instruction

/-- An instruction is a push or has an opcode that starts none. -/
def IsPlain : Instruction → Prop
  | .push _ => True
  | .op code => 0x4e < code

instance : DecidablePred IsPlain
  | .push _ => .isTrue trivial
  | .op code => inferInstanceAs (Decidable (0x4e < code))

/-- A number that is not pushed has an opcode of its own. -/
theorem isPlain_number (n : Int) : (number n).IsPlain := by
  unfold number
  split
  · trivial
  split
  · decide
  split
  · next small =>
    refine UInt8.lt_iff_toNat_lt.2 ?_
    rw [toNat_smallNumber small]
    show 0x4e < 0x50 + n.toNat
    omega
  · trivial

theorem length_encodePush (data : Bytes) :
    (encodePush data).length = Federation.pushSize data.length := by
  unfold encodePush Federation.pushSize
  dsimp only
  split
  · rw [List.length_cons, Nat.add_comm]
  split
  · simp only [List.length_cons, List.length_append, Bytes.length_littleEndian]
  split <;> simp only [List.length_cons, List.length_append, Bytes.length_littleEndian]

theorem length_le_encodePush (data : Bytes) : data.length ≤ (encodePush data).length := by
  rw [length_encodePush, Federation.pushSize]
  split
  · omega
  split
  · omega
  split <;> omega

end Instruction

open Instruction

namespace Script

/-- What a script pushes is not longer than the script. -/
theorem length_le_of_push {data : Bytes} {l : List Instruction} (member : .push data ∈ l) :
    data.length ≤ (ofInstructions l).length := by
  have within : (encode (.push data)).length ≤ (ofInstructions l).length := by
    rw [ofInstructions, List.flatMap_def]
    exact (List.sublist_flatten_of_mem (List.mem_map_of_mem member)).length_le
  exact Nat.le_trans (length_le_encodePush data) within

theorem length_ofInstructions_cons (i : Instruction) (l : List Instruction) :
    (ofInstructions (i :: l)).length = i.encode.length + (ofInstructions l).length := by
  rw [ofInstructions, List.flatMap_cons, List.length_append]
  rfl

theorem length_ofInstructions_append (l l' : List Instruction) :
    (ofInstructions (l ++ l')).length = (ofInstructions l).length + (ofInstructions l').length := by
  rw [ofInstructions, List.flatMap_append, List.length_append]
  rfl

/-- A script with fewer instructions is not longer. -/
theorem length_ofInstructions_le {l l' : List Instruction} (part : l.Sublist l') :
    (ofInstructions l).length ≤ (ofInstructions l').length := by
  induction part with
  | slnil => exact Nat.le_refl _
  | cons i _ ih =>
    rw [length_ofInstructions_cons]
    omega
  | cons_cons i _ ih =>
    rw [length_ofInstructions_cons, length_ofInstructions_cons]
    omega

theorem length_ofInstructions_keys (keys : List PublicKey) :
    (ofInstructions (keys.map (.push ·.compressed))).length = keys.length * 34 := by
  induction keys with
  | nil => rfl
  | cons key rest ih =>
    have pushed : (encode (.push key.compressed)).length = 34 := by
      rw [encode, length_encodePush, PublicKey.length_compressed]
      rfl
    rw [List.map_cons, length_ofInstructions_cons, ih, pushed, List.length_cons, Nat.succ_mul,
      Nat.add_comm]

end Script

namespace RedeemScript

variable {keys : List PublicKey} {kind : FederationKind}

theorem isPlain_majorityOf (keys : List PublicKey) : ∀ i ∈ majorityOf keys, i.IsPlain := by
  intro i member
  rcases List.mem_append.1 member with asked | count
  · rcases List.mem_cons.1 asked with rfl | pushed
    · exact isPlain_number _
    · obtain ⟨key, _, rfl⟩ := List.mem_map.1 pushed
      trivial
  · cases List.mem_singleton.1 count
    exact isPlain_number _

theorem isPlain_checkDelay (delay : UInt64) : ∀ i ∈ checkDelay delay, i.IsPlain := by
  rw [checkDelay, List.forall_mem_cons]
  exact ⟨isPlain_number _, by decide⟩

theorem isPlain_instructions (keys : List PublicKey) (kind : FederationKind) :
    ∀ i ∈ instructions keys kind, i.IsPlain := by
  cases kind with
  | standard =>
    rw [instructions, List.forall_mem_append]
    exact ⟨isPlain_majorityOf keys, by decide⟩
  | nonStandardErp r =>
    simp only [instructions, List.forall_mem_append, List.forall_mem_cons, List.cons_append]
    exact ⟨by decide, ⟨⟨isPlain_majorityOf keys, by decide, isPlain_checkDelay r.delay⟩,
      isPlain_majorityOf _⟩, by decide⟩
  | p2shErp r =>
    simp only [instructions, List.forall_mem_append, List.forall_mem_cons, List.cons_append]
    exact ⟨by decide, ⟨⟨isPlain_majorityOf keys, by decide, by decide, isPlain_checkDelay r.delay⟩,
      isPlain_majorityOf _⟩, by decide⟩

/-- A script that can be paid to by its hash is read as the instructions that it was built from. -/
theorem instructions?_build (fits : (build keys kind).length ≤ maxLength) :
    Script.instructions? (build keys kind) = some (instructions (Ordered.sort keys) kind) := by
  apply Script.instructions?_of_written
  apply Script.written_ofInstructions
  · intro data pushed
    have within := Nat.le_trans (Script.length_le_of_push pushed) fits
    exact Nat.lt_of_le_of_lt within (by decide)
  · intro code member
    exact isPlain_instructions _ kind _ member

/-- How the branch of the members is entered. -/
def entry : FederationKind → List Instruction
  | .standard => []
  | .nonStandardErp _ | .p2shErp _ => [.notIf]

theorem entry_prefix (keys : List PublicKey) (kind : FederationKind) :
    entry kind ++ majorityOf keys <+: instructions keys kind := by
  cases kind with
  | standard => exact List.prefix_append _ _
  | nonStandardErp r =>
    simp only [instructions, entry, List.append_assoc]
    exact List.prefix_append _ _
  | p2shErp r =>
    simp only [instructions, entry, List.append_assoc]
    exact List.prefix_append _ _

theorem keys_sublist_majorityOf (keys : List PublicKey) :
    (keys.map (Instruction.push ·.compressed)).Sublist (majorityOf keys) :=
  List.Sublist.cons _ (List.sublist_append_left _ _)

/-- A script pushes the keys of each of its branches. -/
theorem keys_sublist (keys : List PublicKey) (kind : FederationKind) :
    ((keys ++ Ordered.sort kind.recoveryKeys).map (Instruction.push ·.compressed)).Sublist
      (instructions keys kind) := by
  have members := keys_sublist_majorityOf keys
  have emergency := keys_sublist_majorityOf (Ordered.sort kind.recoveryKeys)
  rw [List.map_append]
  cases kind with
  | standard => exact members.append (List.nil_sublist _)
  | nonStandardErp r =>
    simp only [instructions, List.append_assoc, List.cons_append]
    refine .cons _ (members.append (.cons _ (List.sublist_append_of_sublist_right ?_)))
    exact List.sublist_append_of_sublist_left emergency
  | p2shErp r =>
    simp only [instructions, List.append_assoc, List.cons_append]
    refine .cons _ (members.append (.cons _ (.cons _ (List.sublist_append_of_sublist_right ?_))))
    exact List.sublist_append_of_sublist_left emergency

theorem standard_sublist (keys : List PublicKey) (kind : FederationKind) :
    (instructions keys .standard).Sublist (instructions keys kind) := by
  cases kind with
  | standard => exact .refl _
  | nonStandardErp r =>
    simp only [instructions, List.append_assoc, List.cons_append]
    exact .cons _ ((List.Sublist.refl _).append (List.singleton_sublist.2 (by simp)))
  | p2shErp r =>
    simp only [instructions, List.append_assoc, List.cons_append]
    exact .cons _ ((List.Sublist.refl _).append (List.singleton_sublist.2 (by simp)))

/-- Each key takes 34 bytes of a script. -/
theorem mul_le_length_build (keys : List PublicKey) (kind : FederationKind) :
    (keys.length + kind.recoveryKeys.length) * 34 ≤ (build keys kind).length := by
  have part := Script.length_ofInstructions_le (keys_sublist (Ordered.sort keys) kind)
  rwa [Script.length_ofInstructions_keys, List.length_append, (Ordered.perm_sort _).length_eq,
    (Ordered.perm_sort _).length_eq] at part

/-- The script of the members alone is not longer than one with another branch. -/
theorem length_build_standard_le (keys : List PublicKey) (kind : FederationKind) :
    (build keys .standard).length ≤ (build keys kind).length :=
  Script.length_ofInstructions_le (standard_sublist _ kind)

/-- A script that can be paid to by its hash lists at most fifteen keys. -/
theorem count_le_of_fits (fits : (build keys kind).length ≤ maxLength) :
    keys.length + kind.recoveryKeys.length ≤ 15 := by
  have count := Nat.le_trans (mul_le_length_build keys kind) fits
  rw [maxLength] at count
  omega

end RedeemScript

/-- Members in order have their signing keys in order. -/
theorem Ordered.sort_map_btc (l : List Member) :
    sort (l.map Member.btc) = (sort l).map Member.btc := by
  have increasing : ((sort l).map Member.btc).Pairwise fun a b => (compare a b).isLE := by
    rw [List.pairwise_map]
    refine (pairwise_sort l).imp fun {a b} before => ?_
    -- The order of members looks at their signing keys first.
    cases first : compare a.btc b.btc with
    | lt => rfl
    | eq => rfl
    | gt => simp [Member.compare_eq, compareLex, compareOn, first] at before
  calc sort (l.map Member.btc)
      = sort ((sort l).map Member.btc) := sort_eq_of_perm ((perm_sort l).map Member.btc).symm
    _ = (sort l).map Member.btc := sort_eq_self increasing

namespace Federation

/-- A federation has at most fifteen members and emergency keys together. -/
theorem size_add_recoveryKeys_le (f : Federation) :
    f.size + f.kind.recoveryKeys.length ≤ 15 := by
  have count := RedeemScript.count_le_of_fits f.script_fits
  rwa [List.length_map] at count

theorem sort_members (f : Federation) : Ordered.sort f.members = f.members :=
  Ordered.sort_eq_self (f.memberSet.increasing.imp fun less => by rw [less]; rfl)

theorem sort_btcKeys (f : Federation) : Ordered.sort f.btcKeys = f.btcKeys := by
  calc Ordered.sort (f.members.map Member.btc)
      = (Ordered.sort f.members).map Member.btc := Ordered.sort_map_btc f.members
    _ = f.members.map Member.btc := by rw [sort_members]

/-- The members' keys in the order of the members are in their own order. -/
theorem increasing_btcKeys (f : Federation) :
    f.btcKeys.Pairwise fun a b => (compare a b).isLE := by
  have increasing := Ordered.pairwise_sort f.btcKeys
  rwa [sort_btcKeys] at increasing

/-- The script that is paid to has the hash of the redeem script between its three opcodes. -/
theorem length_p2shScript (f : Federation) : f.p2shScript.length = 23 := by
  simp [p2shScript, Script.toP2sh, Script.payToScriptHash, FixedBytes.length_eq]

theorem majorityOf_btcKeys (f : Federation) : RedeemScript.majorityOf f.btcKeys =
    .number f.threshold :: f.btcKeys.map (.push ·.compressed) ++ [.number f.size] := by
  have count : f.btcKeys.length = f.size := List.length_map _
  rw [RedeemScript.majorityOf, count]
  rfl

/-- The script of a federation asks for as many signatures as its threshold says, by the keys of its
    members in their order. -/
theorem instructions?_redeemScript (f : Federation) :
    ∃ rest, Script.instructions? f.redeemScript = some (RedeemScript.entry f.kind ++
      .number f.threshold :: f.btcKeys.map (.push ·.compressed) ++ .number f.size :: rest) := by
  have read := RedeemScript.instructions?_build f.script_fits
  obtain ⟨rest, shape⟩ := RedeemScript.entry_prefix f.btcKeys f.kind
  refine ⟨rest, read.trans ?_⟩
  change some (RedeemScript.instructions (Ordered.sort f.btcKeys) f.kind) = _
  rw [sort_btcKeys, ← shape, majorityOf_btcKeys]
  simp only [List.append_assoc, List.cons_append, List.nil_append]

end Federation

end TwoWayPeg
