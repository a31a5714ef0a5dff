import TwoWayPeg.Proofs.Commitment
import TwoWayPeg.Proofs.ScriptIdentity

/-!
# The order in which a federation is listed does not count

Members are kept in order and without repetition, and the script lists the keys of each branch in
order again. So who the members are decides what a federation is known by, in whatever order and
however often they are listed, and in whatever order the emergency keys are. The hash of a pending
federation covers the signing keys in the order of the members. That order begins with the order of
the keys, so members that share a signing key do not make a difference either.
-/

namespace TwoWayPeg

/-- Two forms with the same number and the same delay, and with the same emergency keys in any
    order. -/
structure FederationKind.Alike (kind kind' : FederationKind) : Prop where
  tag : kind.tag = kind'.tag
  keys : kind.recoveryKeys.Perm kind'.recoveryKeys
  delay : kind.delay? = kind'.delay?

namespace Federation

/-- What a federation is known by. -/
structure Identity where
  members : List Member
  size : Nat
  threshold : Nat
  redeemScript : Script
  p2shScript : Script
  address : Address

def identity (f : Federation) : Identity where
  members := f.members
  size := f.size
  threshold := f.threshold
  redeemScript := f.redeemScript
  p2shScript := f.p2shScript
  address := f.address

variable {l l' : List Member} {kind kind' : FederationKind} {network : Network}

theorem ofMembers_congr (same : ∀ m, m ∈ l ↔ m ∈ l') (time block : UInt64) (network : Network)
    (kind : FederationKind) :
    ofMembers l time block network kind = ofMembers l' time block network kind := by
  unfold ofMembers
  rw [OrderedSet.ofList_eq_of_mem_iff same]

theorem build_eq_of_alike (alike : kind.Alike kind') (keys : List PublicKey) :
    RedeemScript.build keys kind = RedeemScript.build keys kind' :=
  RedeemScript.build_congr rfl alike.tag (Ordered.sort_eq_of_perm alike.keys) alike.delay

/-- The checks on alike forms have the same outcome, and so has the script. -/
theorem map_identity_ofMembers (alike : kind.Alike kind') (l : List Member) (network : Network)
    (time block time' block' : UInt64) :
    (ofMembers l time block network kind).map identity =
      (ofMembers l time' block' network kind').map identity := by
  have script := build_eq_of_alike alike
  unfold ofMembers
  simp only [script, alike.delay]
  split
  · split
    · split
      · simp only [Except.map, identity, size, threshold, members, redeemScript, p2shScript,
          address, btcKeys, script]
      · rfl
    · rfl
  · rfl

/-- A federation keeps its members in order, and it can be built from them again. -/
theorem ofMembers_members_of_ofMembers {time block : UInt64} {f : Federation}
    (built : ofMembers l time block network kind = .ok f) :
    f.members.Pairwise (fun a b => compare a b = .lt) ∧ (∀ m, m ∈ f.members ↔ m ∈ l) ∧
      ofMembers f.members time block network kind = .ok f := by
  have inside (m : Member) : m ∈ f.members ↔ m ∈ l := by
    rw [members, (parts_of_ofMembers built).1]
    exact OrderedSet.mem_ofList
  exact ⟨f.memberSet.increasing, inside,
    (ofMembers_congr inside time block network kind).trans built⟩

end Federation

namespace PendingFederation

/-- The federation with more members. -/
def addAll (p : PendingFederation) (adds : List Member) : PendingFederation := adds.foldl add p

theorem members_addAll (p : PendingFederation) (adds : List Member) :
    (p.addAll adds).members = p.members ++ adds := by
  induction adds generalizing p with
  | nil => exact (List.append_nil _).symm
  | cons m rest ih =>
    calc ((p.add m).addAll rest).members = (p.add m).members ++ rest := ih (p.add m)
      _ = p.members ++ m :: rest := List.append_assoc _ [m] rest

/-- The hash depends on the signing keys alone. -/
theorem hash_eq_of_perm {p q : PendingFederation}
    (same : (p.members.map Member.btc).Perm (q.members.map Member.btc)) : p.hash = q.hash := by
  have keys :
      (Ordered.sort p.members).map Member.btc = (Ordered.sort q.members).map Member.btc := by
    rw [← Ordered.sort_map_btc, ← Ordered.sort_map_btc, Ordered.sort_eq_of_perm same]
  have items := congrArg (List.map fun key => Rlp.encodeBytes key.compressed) keys
  rw [List.map_map, List.map_map] at items
  exact congrArg (fun items => keccak256 (Rlp.encodeList items)) items

end PendingFederation

namespace Federation

variable {l l' : List Member} {kind kind' : FederationKind}

/-- Lists of the same members in any order and with any repetitions either both fail to make a
    federation, for the same reason, or make federations that are known by the same, in whatever
    order the emergency keys are listed. The members are in order, and the federation can be built
    from them again. A federation that is pending has the same hash and becomes the same federation,
    in whatever order its members were added. -/
theorem identity_of_same_members (same : ∀ m, m ∈ l ↔ m ∈ l') (alike : kind.Alike kind')
    (network : Network) :
    (∀ time block time' block', (ofMembers l time block network kind).map identity =
        (ofMembers l' time' block' network kind').map identity) ∧
      (∀ time block f, ofMembers l time block network kind = .ok f →
        f.members.Pairwise (fun a b => compare a b = .lt) ∧ (∀ m, m ∈ f.members ↔ m ∈ l) ∧
          ofMembers f.members time block network kind = .ok f) ∧
      ∀ (p : PendingFederation) (adds adds' : List Member), adds.Perm adds' →
        (p.addAll adds).hash = (p.addAll adds').hash ∧
          ∀ time block c activations, (p.addAll adds).build time block c activations =
            (p.addAll adds').build time block c activations := by
  refine ⟨fun time block time' block' => ?_, fun _ _ _ => ofMembers_members_of_ofMembers,
    fun p adds adds' perm => ?_⟩
  · rw [ofMembers_congr same]
    exact map_identity_ofMembers alike l' network time block time' block'
  · have listed : (p.addAll adds).members.Perm (p.addAll adds').members := by
      rw [PendingFederation.members_addAll, PendingFederation.members_addAll]
      exact perm.append_left p.members
    exact ⟨PendingFederation.hash_eq_of_perm (listed.map Member.btc),
      fun time block c activations =>
        ofMembers_congr (fun _ => listed.mem_iff) time block c.network _⟩

/-- The pair is listed once in order, and once backwards and then in order again; its keys are the
    emergency keys as well, in the one order and in the other. -/
theorem identity_of_pair_listed_twice :
    ∃ f g : Federation,
      ofMembers Scenario.pair.members 1 2 .regtest
        (.p2shErp ⟨Constants.developmentRecoveryKeys, 500⟩) = .ok f ∧
      ofMembers (Scenario.pair.members.reverse ++ Scenario.pair.members) 3 4 .regtest
        (.p2shErp ⟨Constants.developmentRecoveryKeys.reverse, 500⟩) = .ok g ∧
      f.size = 2 ∧ f.identity = g.identity ∧ f.members.Pairwise (fun a b => compare a b = .lt) ∧
      ofMembers f.members 1 2 .regtest
        (.p2shErp ⟨Constants.developmentRecoveryKeys, 500⟩) = .ok f ∧
      (PendingFederation.addAll {} Scenario.pair.members).hash =
        (PendingFederation.addAll {} Scenario.pair.members.reverse).hash := by
  have seen : (ofMembers Scenario.pair.members 1 2 .regtest
      (.p2shErp ⟨Constants.developmentRecoveryKeys, 500⟩)).toOption.any
        (fun f => decide (f.size = 2)) = true := by decide +kernel
  obtain ⟨f, built, size⟩ := (Option.any_eq_true _ _).1 seen
  rw [toOption_eq_some_iff] at built
  have same (m : Member) : m ∈ Scenario.pair.members ↔
      m ∈ Scenario.pair.members.reverse ++ Scenario.pair.members := by simp
  have alike : FederationKind.Alike (.p2shErp ⟨Constants.developmentRecoveryKeys, 500⟩)
      (.p2shErp ⟨Constants.developmentRecoveryKeys.reverse, 500⟩) :=
    ⟨rfl, (List.reverse_perm _).symm, rfl⟩
  obtain ⟨identified, kept, pending⟩ := identity_of_same_members same alike .regtest
  have identified := identified 1 2 3 4
  rw [built] at identified
  cases other : ofMembers (Scenario.pair.members.reverse ++ Scenario.pair.members) 3 4 .regtest
      (.p2shErp ⟨Constants.developmentRecoveryKeys.reverse, 500⟩) with
  | error e =>
    rw [other] at identified
    cases identified
  | ok g =>
    rw [other] at identified
    obtain ⟨ordered, _, again⟩ := kept 1 2 f built
    exact ⟨f, g, built, rfl, of_decide_eq_true size, Except.ok.inj identified, ordered, again,
      (pending {} _ _ (List.reverse_perm _).symm).1⟩

end Federation

end TwoWayPeg
