import TwoWayPeg.Constants.Presets
import TwoWayPeg.Json.Printer
import TwoWayPeg.Json.Reader

/-!
Constants as JSON. A file holds some of the fields, in any order; the others have the values of
the development network, and fields of other names are passed over. A record may also be written
as the array of its fields.
-/

namespace TwoWayPeg

namespace ChainAddress

/-- The text of an account. -/
def toText (a : ChainAddress) : String := "0x" ++ a.toHex

/-- The bytes that pairs of hexadecimal digits write; a last digit without a partner is dropped. -/
def pairs? : List Char → Option Bytes
  | high :: low :: rest => do
    let h ← Bytes.hexValue? high
    let l ← Bytes.hexValue? low
    let bytes ← pairs? rest
    return UInt8.ofNat (16 * h + l) :: bytes
  | [last] => (Bytes.hexValue? last).map fun _ => []
  | [] => some []

/-- Reads an account from forty characters, after `0x` or not. Blanks among the characters are
    passed over, and the bytes that are missing for them at the end are zero. -/
def ofText? (text : String) : Option ChainAddress := do
  let cs := match text.toList with
    | '0' :: 'x' :: rest => rest
    | cs => cs
  if cs.length = 40 then
    let bytes ← pairs? (cs.filter fun c => !Json.isBlank c)
    FixedBytes.ofList? (bytes ++ List.replicate (20 - bytes.length) 0)
  else none

end ChainAddress

namespace Json

/-- The value of an array whose items are read by `item?`. -/
def listOf? {α : Type} (item? : Json → Option α) (j : Json) : Option (List α) := do
  let items ← j.items?
  items.mapM item?

/-- A name out of a fixed choice: a string, or an object whose only member has the name and the
    value null. -/
def choice? {α : Type} (ofName? : String → Option α) : Json → Option α
  | .string (some s) => ofName? s
  | .object [(some s, .null)] => ofName? s
  | _ => none

/-- The members of an object whose names are all texts. -/
def textMembers? : Json → Option (List (String × Json))
  | .object members => members.mapM fun (name, value) => name.map fun name => (name, value)
  | _ => none

/-- The values of the named fields of a record, written as an object or as an array: each is at
    most once in an object, and an array has no more items than there are fields. -/
def fields? (names : List String) (j : Json) : Option (List (Option Json)) :=
  match j with
  | .array items =>
    if items.length ≤ names.length then
      some (items.map some ++ List.replicate (names.length - items.length) none)
    else none
  | j => do
    let members ← j.textMembers?
    names.mapM fun name =>
      match members.filter fun m => m.1 == name with
      | [] => some none
      | [m] => some (some m.2)
      | _ => none

end Json

namespace PublicKey

/-- A key as JSON. -/
def toJson (key : PublicKey) : Json := .text key.toHex

/-- Reads a key from JSON. -/
def ofJson? (j : Json) : Option PublicKey := j.text? >>= PublicKey.ofHex?

end PublicKey

namespace Authorizer

/-- The voters of an election as JSON. -/
def toJson (a : Authorizer) : Json :=
  .record [
    ("authorized", .array (a.authorized.map fun voter => .text voter.toText)),
    ("policy", .text a.policy.name)]

/-- Reads the voters of an election from JSON; no field may be missing. -/
def ofJson? (j : Json) : Option Authorizer := do
  match ← j.fields? ["authorized", "policy"] with
  | [some authorized, some policy] =>
    let authorized ← authorized.listOf? fun voter => voter.text? >>= ChainAddress.ofText?
    let policy ← policy.choice? VotePolicy.ofName?
    return { authorized, policy }
  | _ => none

end Authorizer

namespace ActivationHeights

/-- The heights of rules as JSON. -/
def toJson (h : ActivationHeights) : Json :=
  .record [("heights", .record (Rule.all.filterMap fun r =>
    (h.height? r).map fun height => (r.name, .nat height.toNat)))]

/-- Reads the heights of rules from the members of an object; of two heights of a rule the later
    one counts. -/
def ofMembers? (members : List (String × Json)) : Option ActivationHeights :=
  members.foldlM (fun h (name, value) => do
    let rule ← Rule.ofName? name
    let height ← value.uint64?
    return h.withRule rule height) {}

/-- Reads the heights of rules from JSON. -/
def ofJson? (j : Json) : Option ActivationHeights := do
  match ← j.fields? ["heights"] with
  | [some heights] => heights.textMembers? >>= ofMembers?
  | _ => none

end ActivationHeights

namespace Constants

/-- A field of the constants: its name, its JSON, and its replacement by a value read from JSON. -/
structure Field where
  name : String
  write : Constants → Json
  read? : Json → Constants → Option Constants

/-- A field that holds an amount, a height or a number of blocks. -/
def number (name : String) (get : Constants → UInt64) (set : UInt64 → Constants → Constants) :
    Field where
  name
  write c := .nat (get c).toNat
  read? j c := j.uint64?.map (set · c)

/-- A field that holds keys. -/
def keys (name : String) (get : Constants → List PublicKey)
    (set : List PublicKey → Constants → Constants) : Field where
  name
  write c := .array ((get c).map PublicKey.toJson)
  read? j c := (j.listOf? PublicKey.ofJson?).map (set · c)

/-- A field that holds the voters of an election. -/
def voters (name : String) (get : Constants → Authorizer)
    (set : Authorizer → Constants → Constants) : Field where
  name
  write c := (get c).toJson
  read? j c := (Authorizer.ofJson? j).map (set · c)

/-- The fields in the order in which they are written. -/
def fields : List Field :=
  [ { name := "network"
      write := fun c => .text c.network.name
      read? := fun j c => (j.choice? Network.ofName?).map fun v => { c with network := v } },
    keys "genesisFederationPublicKeys" genesisKeys fun v c => { c with genesisKeys := v },
    number "genesisFederationCreationTime" genesisCreationTime
      fun v c => { c with genesisCreationTime := v },
    voters "federationChangeAuthorizer" federationAuthorizer
      fun v c => { c with federationAuthorizer := v },
    voters "feePerKbChangeAuthorizer" feeAuthorizer fun v c => { c with feeAuthorizer := v },
    number "federationActivationAgeLegacy" activationAgeLegacy
      fun v c => { c with activationAgeLegacy := v },
    number "federationActivationAge" activationAge fun v c => { c with activationAge := v },
    number "fundsMigrationAgeSinceActivationBegin" migrationAgeBegin
      fun v c => { c with migrationAgeBegin := v },
    number "fundsMigrationAgeSinceActivationEnd" migrationAgeEnd
      fun v c => { c with migrationAgeEnd := v },
    number "minimumPeginTxValue" minimumPeginValue fun v c => { c with minimumPeginValue := v },
    number "genesisFeePerKb" genesisFeePerKb fun v c => { c with genesisFeePerKb := v },
    number "maxFeePerKb" maxFeePerKb fun v c => { c with maxFeePerKb := v },
    keys "erpFederationPublicKeys" recoveryKeys fun v c => { c with recoveryKeys := v },
    number "erpFederationActivationDelay" recoveryDelay fun v c => { c with recoveryDelay := v },
    { name := "oldFederationAddress"
      write := fun c => c.oldFederationAddress.elim .null .text
      read? := fun j c =>
        match j with
        | .null => some { c with oldFederationAddress := none }
        | j => j.text?.map fun v => { c with oldFederationAddress := some v } },
    number "pegoutTxIndexActivationBtcHeight" pegoutIndexHeight
      fun v c => { c with pegoutIndexHeight := v },
    number "pegoutTxIndexGracePeriodInBtcBlocks" pegoutIndexGracePeriod
      fun v c => { c with pegoutIndexGracePeriod := v },
    number "maxInputsPerMigrationTx" maxMigrationInputs
      fun v c => { c with maxMigrationInputs := v },
    number "pegoutConfirmationsRequired" pegoutConfirmations
      fun v c => { c with pegoutConfirmations := v },
    { name := "activations"
      write := fun c => c.activations.toJson
      read? := fun j c => (ActivationHeights.ofJson? j).map fun v => { c with activations := v } } ]

/-- The constants as JSON. -/
def toJson (c : Constants) : Json := .record (fields.map fun f => (f.name, f.write c))

/-- Reads constants from JSON; a missing field has the value of the development network. -/
def ofJson? (j : Json) : Option Constants := do
  let values ← j.fields? (fields.map Field.name)
  (fields.zip values).foldlM (fun c (f, value) =>
    match value with
    | some j => f.read? j c
    | none => some c) regtest

/-- Why constants cannot be had. -/
inductive LoadError where
  /-- The file cannot be read as text. -/
  | unreadable
  /-- The text is not that of constants. -/
  | malformed
deriving DecidableEq, Inhabited

/-- Reads constants from the bytes of a file. -/
def ofFile (bytes : Bytes) : Except LoadError Constants :=
  match Bytes.toText? bytes with
  | none => .error .unreadable
  | some text =>
    match Json.parse text >>= ofJson? with
    | some c => .ok c
    | none => .error .malformed

/-- The constants of the network with a name, or those in the file with that path; `content` is
    what the file holds, if there is one that can be read. -/
def resolve (name : String) (content : Option Bytes) : Except LoadError Constants :=
  match preset? name with
  | some c => .ok c
  | none =>
    match content with
    | some bytes => ofFile bytes
    | none => .error .unreadable

end Constants

end TwoWayPeg
