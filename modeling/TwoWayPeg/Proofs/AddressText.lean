import Mathlib.Data.List.TakeDrop
import TwoWayPeg.Constants.Presets
import TwoWayPeg.Proofs.Base58
import TwoWayPeg.Proofs.Codec

/-!
# The text of a federation's address

A text is first tried as one that pays to a witness program, by what stands before its last `1`. The
text of an address that pays to a script begins with `3` on the main network and with `2` on the
others, since its first byte and its length bound the number that it writes. So it is never taken
for such a text, and it is read back as the address that it was written for, except that the networks
other than the main one share their texts.
-/

namespace TwoWayPeg

namespace Base58

/-- The text of bytes begins with the most significant digit of the number that they write. -/
theorem encodeChars_eq_cons (version : UInt8) (rest : Bytes) (d count : Nat)
    (nonzero : version ≠ 0) (positive : 0 < d) (small : d < 58)
    (low : d * 58 ^ count ≤ version.toNat * Bytes.capacity rest.length)
    (high : (version.toNat + 1) * Bytes.capacity rest.length ≤ (d + 1) * 58 ^ count) :
    ∃ chars, encodeChars (version :: rest) = digit d :: chars ∧ chars.length = count := by
  have below := Bytes.toNatBE_lt rest
  rw [Nat.add_mul, Nat.one_mul] at high
  have number := Bytes.toNatBE_cons version rest
  have above : d * 58 ^ count ≤ Bytes.toNatBE (version :: rest) := by omega
  obtain ⟨digits, same, length⟩ := digitsOf_eq_concat positive small above (by omega)
  refine ⟨(digits.map digit).reverse, ?_, by simpa using length⟩
  rw [encodeChars, List.takeWhile_cons_of_neg (by simpa using nonzero), same, List.map_append,
    List.reverse_append]
  rfl

end Base58

/-- The first of the networks that share the text of an address that pays to a hash. -/
def Network.firstSharing : Network → Network
  | .bitcoin => .bitcoin
  | _ => .testnet

namespace Address

variable {c : Char} {rest : List Char} {network : Network} {hash : Hash160}

theorem chars_firstSharing (network : Network) (hash : Hash160) :
    chars ⟨network.firstSharing, .scriptHash hash⟩ = chars ⟨network, .scriptHash hash⟩ := by
  cases network <;> rfl

/-- The text of an address that pays to a script begins with `3` or `2`. -/
theorem chars_scriptHash (network : Network) (hash : Hash160) :
    ∃ c rest, chars ⟨network, .scriptHash hash⟩ = c :: rest ∧ (c = '3' ∨ c = '2') ∧
      rest.length ≤ 34 := by
  have size (version : UInt8) :
      (hash.toList ++ Base58.checksum (version :: hash.toList)).length = 24 := by
    rw [List.length_append, hash.length_eq, Base58.length_checksum]
  by_cases main : network = .bitcoin
  · obtain ⟨rest, same, length⟩ := Base58.encodeChars_eq_cons 5
      (hash.toList ++ Base58.checksum (5 :: hash.toList)) 2 33 (by decide) (by decide) (by decide)
      (by rw [size]; decide +kernel) (by rw [size]; decide +kernel)
    subst main
    exact ⟨_, rest, same, .inl rfl, by omega⟩
  · have version : network.scriptHashVersion = 196 := by
      cases network
      · exact absurd rfl main
      all_goals rfl
    obtain ⟨rest, same, length⟩ := Base58.encodeChars_eq_cons 196
      (hash.toList ++ Base58.checksum (196 :: hash.toList)) 1 34 (by decide) (by decide) (by decide)
      (by rw [size]; decide +kernel) (by rw [size]; decide +kernel)
    refine ⟨_, rest, ?_, .inr rfl, by omega⟩
    rw [chars, version]
    exact same

/-- What stands before the last `1` begins as the text does, unless the text begins with `1`. -/
theorem splitAtSeparator_cons (other : c ≠ '1') :
    ∃ front data?, splitAtSeparator (c :: rest) = (c :: front, data?) := by
  have whole := List.takeWhile_append_dropWhile (p := (· != '1')) (l := (c :: rest).reverse)
  have separator := List.head?_dropWhile_not (· != '1') (c :: rest).reverse
  unfold splitAtSeparator
  rw [List.span_eq_takeWhile_dropWhile]
  cases last : (c :: rest).reverse.dropWhile (· != '1') with
  | nil => exact ⟨rest, none, rfl⟩
  | cons x before =>
    rw [last] at whole separator
    have one : x = '1' := by simpa using separator
    have parts := congrArg List.reverse whole
    rw [List.reverse_append, List.reverse_cons, List.reverse_reverse, List.append_assoc] at parts
    cases first : before.reverse with
    | nil =>
      rw [first] at parts
      have head : x = c := (List.cons.inj parts).1
      exact absurd (head.symm.trans one) other
    | cons d front =>
      rw [first] at parts
      have head : d = c := (List.cons.inj parts).1
      exact ⟨front, _, Prod.ext (first.trans (congrArg (· :: front) head)) rfl⟩

theorem networkOfHrp?_cons (digit : c = '3' ∨ c = '2') : networkOfHrp? (c :: rest) = none := by
  rcases digit with rfl | rfl <;> simp [networkOfHrp?, Network.hrp]

/-- The address of a script is read back from its text, for the first network that shares it. -/
theorem parse_text_scriptHash (network : Network) (hash : Hash160) :
    parse (text ⟨network, .scriptHash hash⟩) = .ok ⟨network.firstSharing, .scriptHash hash⟩ := by
  obtain ⟨c, rest, same, digit, length⟩ := chars_scriptHash network hash
  have other : c ≠ '1' := by
    rcases digit with rfl | rfl <;> decide
  obtain ⟨front, data?, split⟩ :
      ∃ front data?, splitAtSeparator (c :: rest) = (c :: front, data?) :=
    splitAtSeparator_cons other
  have decoded : (Base58.decodeCheckedChars? (c :: rest)).bind ofVersionedHash? =
      some ⟨network.firstSharing, .scriptHash hash⟩ := by
    rw [← same, chars, Base58.decodeCheckedChars?_encodeCheckedChars, Option.bind_some,
      ofVersionedHash?, FixedBytes.ofList?_toList]
    cases network <;> rfl
  have short : ¬ 50 < (c :: rest).length := by
    rw [List.length_cons]
    omega
  rw [parse, text, String.toList_ofList, same, parseChars, split]
  dsimp only
  rw [networkOfHrp?_cons digit]
  dsimp only
  rw [if_neg short, decoded]

/-- The main network shares no address with another one, and the others share those of scripts. -/
theorem usableOn_scriptHash (network required : Network) (hash : Hash160) :
    usableOn ⟨network.firstSharing, .scriptHash hash⟩ required =
      decide (network = .bitcoin ↔ required = .bitcoin) := by
  cases network <;> cases required <;> rfl

end Address

namespace Constants

/-- Let the address of a federation be set as that of the federation from before federations were
    recorded. If the two networks are both the main one or both not, it is read as an address that
    pays to the script of the federation. Otherwise the address is refused, as one of another
    network. -/
theorem oldFederation_of_address {f : Federation} {c : Constants}
    (listed : c.oldFederationAddress = some f.address.text) :
    (if f.network = .bitcoin ↔ c.network = .bitcoin then
        ∃ a, c.oldFederation = .ok (some a) ∧ a.scriptPubkey = f.p2shScript
      else c.oldFederation = .error
        (.address (.network f.address.text f.network.firstSharing c.network))) ∧
      f.address.scriptPubkey = f.p2shScript := by
  have read : Address.parse f.address.text =
      .ok ⟨f.network.firstSharing, .scriptHash (hash160 f.redeemScript)⟩ :=
    Address.parse_text_scriptHash _ _
  have usable := Address.usableOn_scriptHash f.network c.network (hash160 f.redeemScript)
  refine ⟨?_, rfl⟩
  split
  · next shared =>
    have granted : (Address.parse f.address.text >>= (·.require c.network)) =
        .ok ⟨f.network.firstSharing, .scriptHash (hash160 f.redeemScript)⟩ := by
      rw [read]
      exact if_pos (usable.trans (decide_eq_true shared))
    refine ⟨⟨f.network.firstSharing, .scriptHash (hash160 f.redeemScript)⟩, ?_, rfl⟩
    simp only [oldFederation, listed, granted]
  · next apart =>
    have same : Address.text ⟨f.network.firstSharing, .scriptHash (hash160 f.redeemScript)⟩ =
        f.address.text := congrArg String.ofList (Address.chars_firstSharing _ _)
    have refused : (Address.parse f.address.text >>= (·.require c.network)) =
        .error (.network f.address.text f.network.firstSharing c.network) := by
      rw [read, ← same]
      exact if_neg (by simp [usable, apart])
    simp only [oldFederation, listed, refused]

/-- The genesis federation of the development network, set as the old federation of that network and
    of the main one. -/
theorem oldFederation_of_address_of_genesis : ∃ f, regtest.genesisFederation = .ok f ∧
    (∃ a, oldFederation { regtest with oldFederationAddress := some f.address.text } =
        .ok (some a) ∧ a.scriptPubkey = f.p2shScript) ∧
      oldFederation { mainnet with oldFederationAddress := some f.address.text } = .error
        (.address (.network f.address.text .testnet .bitcoin)) := by
  cases built : regtest.genesisFederation with
  | error e =>
    have builds : regtest.genesisFederation.toOption.isSome = true := by decide +kernel
    rw [built] at builds
    cases builds
  | ok f =>
    have network : f.network = .regtest := (Federation.parts_of_ofMembers built).2.2.2.1
    have shared := (oldFederation_of_address (f := f)
      (c := { regtest with oldFederationAddress := some f.address.text }) rfl).1
    have refused := (oldFederation_of_address (f := f)
      (c := { mainnet with oldFederationAddress := some f.address.text }) rfl).1
    rw [network, if_pos (by simp [regtest])] at shared
    rw [network, if_neg (by simp [mainnet, publicNetwork])] at refused
    exact ⟨f, rfl, shared, refused⟩

end Constants

end TwoWayPeg
