import TwoWayPeg.Secp256k1

/-!
Members of a federation and their order.
-/

namespace TwoWayPeg

/-- The roles in which a member uses a key. -/
inductive KeyRole where
  /-- Signs for the guarded coin. -/
  | btc
  /-- Names the member on the host chain. -/
  | chain
  /-- Takes part in threshold operations. -/
  | mst
deriving DecidableEq, Inhabited

/-- The roles in the order in which keys are listed. -/
def KeyRole.all : List KeyRole := [.btc, .chain, .mst]

/-- A member of a federation: one key for each role. -/
structure Member where
  btc : PublicKey
  chain : PublicKey
  mst : PublicKey
deriving DecidableEq

namespace Member

/-- The member with one key for all roles. -/
def ofKey (key : PublicKey) : Member := ⟨key, key, key⟩

/-- The key of a role. -/
def key (m : Member) : KeyRole → PublicKey
  | .btc => m.btc
  | .chain => m.chain
  | .mst => m.mst

/-- The host-chain account of a member. -/
def chainAddress (m : Member) : ChainAddress := m.chain.chainAddress

/-- Whether two members share a key in some role. -/
def sharesKey (a b : Member) : Bool := a.btc = b.btc ∨ a.chain = b.chain ∨ a.mst = b.mst

/-- Members are ordered by their keys, role after role. -/
instance : Ord Member where
  compare a b := (compare a.btc b.btc).then ((compare a.chain b.chain).then (compare a.mst b.mst))

theorem compare_eq : (compare : Member → Member → Ordering) =
    compareLex (compareOn btc) (compareLex (compareOn chain) (compareOn mst)) := rfl

instance : Std.TransOrd Member := by
  unfold Std.TransOrd
  rw [compare_eq]
  infer_instance

instance : Std.LawfulEqOrd Member where
  compare_self {a} := by
    rw [compare_eq]
    exact Std.ReflCmp.compare_self
  eq_of_compare {a b} h := by
    rw [compare_eq] at h
    simp only [compareLex, compareOn, Ordering.then_eq_eq] at h
    obtain ⟨hbtc, hchain, hmst⟩ := h
    cases a; cases b
    simp_all [Std.LawfulEqCmp.compare_eq_iff_eq]

end Member

end TwoWayPeg
