import TwoWayPeg.Address.Base58
import TwoWayPeg.Address.Bech32
import TwoWayPeg.Script.Basic

/-!
Addresses: what they pay to, their text, and reading a text for a network.
-/

namespace TwoWayPeg

/-- A network of the guarded coin. -/
inductive Network where
  | bitcoin
  | testnet
  | signet
  | regtest
deriving DecidableEq, Inhabited

namespace Network

/-- The networks in the order in which they are listed. -/
def all : List Network := [.bitcoin, .testnet, .signet, .regtest]

/-- The name of a network. -/
def name : Network → String
  | .bitcoin => "bitcoin"
  | .testnet => "testnet"
  | .signet => "signet"
  | .regtest => "regtest"

/-- The network with a name. -/
def ofName? (s : String) : Option Network := all.find? fun n => n.name == s

/-- The human-readable part of addresses that pay to a witness program. -/
def hrp : Network → String
  | .bitcoin => "bc"
  | .testnet | .signet => "tb"
  | .regtest => "bcrt"

/-- The byte in front of a key hash. -/
def keyHashVersion : Network → UInt8
  | .bitcoin => 0
  | _ => 111

/-- The byte in front of a script hash. -/
def scriptHashVersion : Network → UInt8
  | .bitcoin => 5
  | _ => 196

end Network

/-- What an address pays to. -/
inductive Payload where
  | keyHash (hash : Hash160)
  | scriptHash (hash : Hash160)
  | witnessProgram (version : Nat) (program : Bytes)
deriving DecidableEq

/-- An address: what it pays to, and the network that its text names. A text that several
    networks share names the first of them. -/
structure Address where
  network : Network
  payload : Payload
deriving DecidableEq

/-- Why an address cannot be formed or read. -/
inductive AddressError where
  | scriptTooLong
  | base58
  | bech32
  | emptyPayload
  | variant (found expected : Bech32.Variant)
  | witnessVersion (version : Nat)
  | programLength (length : Nat)
  | programLengthV0 (length : Nat)
  | network (text : String) (found required : Network)
deriving DecidableEq

/-- The text that reports an address error. -/
def AddressError.message : AddressError → String
  | .scriptTooLong => "script size exceed 520 bytes"
  | .base58 => "base58 address encoding error"
  | .bech32 => "bech32 address encoding error"
  | .emptyPayload => "the bech32 payload was empty"
  | .variant found expected =>
    "invalid bech32 checksum variant found " ++ found.name ++ " when " ++ expected.name
      ++ " was expected"
  | .witnessVersion version => "invalid witness script version: " ++ toString version
  | .programLength length =>
    "the witness program must be between 2 and 40 bytes in length: length=" ++ toString length
  | .programLengthV0 length =>
    "a v0 witness program must be either of length 20 or 32 bytes: length=" ++ toString length
  | .network text found required =>
    "address " ++ text ++ " belongs to network " ++ found.name
      ++ " which is different from required " ++ required.name

namespace Address

/-- The checksum variant of a version of witness programs. -/
def variantOf (version : Nat) : Bech32.Variant := if version = 0 then .bech32 else .bech32m

/-- The script that an address pays to. -/
def scriptPubkey (a : Address) : Script :=
  match a.payload with
  | .keyHash hash => [0x76, 0xa9, 0x14] ++ hash.toList ++ [0x88, 0xac]
  | .scriptHash hash => Script.payToScriptHash hash
  | .witnessProgram version program =>
    Script.ofInstructions [Instruction.number version, .push program]

/-- The characters of the text of an address. -/
def chars (a : Address) : List Char :=
  match a.payload with
  | .keyHash hash => Base58.encodeCheckedChars (a.network.keyHashVersion :: hash.toList)
  | .scriptHash hash => Base58.encodeCheckedChars (a.network.scriptHashVersion :: hash.toList)
  | .witnessProgram version program =>
    Bech32.encodeChars (variantOf version) a.network.hrp.toList
      (version :: Bech32.groupsOf program)

/-- The text of an address. -/
def text (a : Address) : String := String.ofList a.chars

/-- The address of the hash of a script. -/
def p2sh (redeemScript : Script) (network : Network) : Address :=
  ⟨network, .scriptHash (hash160 redeemScript)⟩

/-- The text before the last `1`, or all of it if there is none, and the text after. -/
def splitAtSeparator (cs : List Char) : List Char × Option (List Char) :=
  match cs.reverse.span (· != '1') with
  | (after, _ :: before) => (before.reverse, some after.reverse)
  | (_, []) => (cs, none)

/-- The network whose human-readable part is given, in letters of one case. -/
def networkOfHrp? (hrp : List Char) : Option Network :=
  [Network.bitcoin, .testnet, .regtest].find? fun n =>
    hrp == n.hrp.toList || hrp == n.hrp.toList.map Char.toUpper

/-- Reads the groups and the checksum variant of an address that pays to a witness program. -/
def ofGroups (network : Network) (groups : List Nat) (found : Bech32.Variant) :
    Except AddressError Address :=
  match groups with
  | [] => .error .emptyPayload
  | version :: rest =>
    if 16 < version then .error (.witnessVersion version) else
    match Bech32.bytesOf? rest with
    | none => .error .bech32
    | some program =>
      let length := program.length
      if length < 2 ∨ 40 < length then .error (.programLength length)
      else if version = 0 ∧ length ≠ 20 ∧ length ≠ 32 then .error (.programLengthV0 length)
      else if found ≠ variantOf version then .error (.variant found (variantOf version))
      else .ok ⟨network, .witnessProgram version program⟩

/-- Reads the bytes of an address that pays to a hash. -/
def ofVersionedHash? : Bytes → Option Address
  | version :: rest => do
    let hash ← FixedBytes.ofList? rest
    if version = Network.bitcoin.keyHashVersion then return ⟨.bitcoin, .keyHash hash⟩
    else if version = Network.bitcoin.scriptHashVersion then return ⟨.bitcoin, .scriptHash hash⟩
    else if version = Network.testnet.keyHashVersion then return ⟨.testnet, .keyHash hash⟩
    else if version = Network.testnet.scriptHashVersion then return ⟨.testnet, .scriptHash hash⟩
    else none
  | [] => none

/-- Reads the text of an address of any network. -/
def parseChars (cs : List Char) : Except AddressError Address :=
  let (hrp, data?) := splitAtSeparator cs
  match networkOfHrp? hrp with
  | some network =>
    match data?.bind (Bech32.decodeChars? hrp) with
    | some (groups, variant) => ofGroups network groups variant
    | none => .error .bech32
  | none =>
    if 50 < cs.length then .error .base58
    else match (Base58.decodeCheckedChars? cs).bind ofVersionedHash? with
      | some a => .ok a
      | none => .error .base58

/-- Reads the text of an address of any network. -/
def parse (s : String) : Except AddressError Address := parseChars s.toList

/-- Whether an address can be used on a network: the main network shares its addresses with no
    other; of the rest, all share those that pay to a hash, and regtest no others. -/
def usableOn (a : Address) (network : Network) : Bool :=
  if a.network = network then true
  else if a.network = .bitcoin ∨ network = .bitcoin then false
  else match a.payload with
    | .witnessProgram .. => a.network ≠ .regtest ∧ network ≠ .regtest
    | _ => true

/-- Requires that an address can be used on a network. -/
def require (a : Address) (network : Network) : Except AddressError Address :=
  if a.usableOn network then .ok a else .error (.network a.text a.network network)

end Address

end TwoWayPeg
