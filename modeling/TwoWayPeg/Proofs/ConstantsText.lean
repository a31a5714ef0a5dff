import Mathlib.Data.List.Perm.Basic
import TwoWayPeg.Constants.Json
import TwoWayPeg.Proofs.Codec
import TwoWayPeg.Proofs.JsonText

/-!
# The text of constants

Constants are read from a file with some of their fields as those of the file and as those of the
development network otherwise. What a field has to do with the others is said once: it reads what it
writes, and it replaces no other field. The order of the fields in a file does not matter, since
each of them is looked up by its name, and for the same reason neither do members of other names.
-/

namespace TwoWayPeg

/-! ### Hexadecimal text -/

namespace Bytes

theorem hexValue?_digitChar {n : Nat} (digit : n < 16) : hexValue? n.digitChar = some n := by
  have each : ∀ n < 16, hexValue? n.digitChar = some n := by decide
  exact each n digit

theorem ofHexChars?_hexDigits (bytes : Bytes) :
    ofHexChars? (bytes.flatMap hexDigits) = some bytes := by
  induction bytes with
  | nil => rfl
  | cons b bytes ih =>
    have below := b.toNat_lt
    have byte : UInt8.ofNat (16 * (b.toNat / 16) + b.toNat % 16) = b := by
      rw [Nat.div_add_mod, UInt8.ofNat_toNat]
    rw [List.flatMap_cons, hexDigits, List.cons_append, List.cons_append, List.nil_append,
      ofHexChars?, hexValue?_digitChar (by omega), hexValue?_digitChar (by omega), ih]
    exact congrArg (some <| · :: bytes) byte

theorem ofHex?_toHex (bytes : Bytes) : ofHex? (toHex bytes) = some bytes := by
  rw [ofHex?, toHex, String.toList_ofList, ofHexChars?_hexDigits]

theorem length_hexDigits (bytes : Bytes) :
    (bytes.flatMap hexDigits).length = 2 * bytes.length := by
  induction bytes with
  | nil => rfl
  | cons b bytes ih =>
    rw [List.flatMap_cons, List.length_append, ih, List.length_cons]
    show 2 + _ = _
    omega

theorem isBlank_of_mem_hexDigits {bytes : Bytes} {c : Char} (member : c ∈ bytes.flatMap hexDigits) :
    Json.isBlank c = false := by
  have each : ∀ n < 16, Json.isBlank n.digitChar = false := by decide
  obtain ⟨b, _, digit⟩ := List.mem_flatMap.1 member
  have below := b.toNat_lt
  rcases List.mem_pair.1 digit with rfl | rfl
  · exact each _ (by omega)
  · exact each _ (by omega)

end Bytes

theorem PublicKey.ofHex?_toHex (key : PublicKey) : ofHex? key.toHex = some key := by
  rw [ofHex?, toHex, Bytes.ofHex?_toHex, Option.bind_some, ofBytes?_compressed]

namespace ChainAddress

theorem pairs?_of_ofHexChars? {cs : List Char} {bytes : Bytes}
    (read : Bytes.ofHexChars? cs = some bytes) : pairs? cs = some bytes := by
  fun_induction Bytes.ofHexChars? cs generalizing bytes with
  | case1 => exact read
  | case2 => cases read
  | case3 high low rest ih =>
    obtain ⟨h, highValue, read⟩ := Option.bind_eq_some_iff.1 read
    obtain ⟨l, lowValue, read⟩ := Option.bind_eq_some_iff.1 read
    obtain ⟨others, readOthers, same⟩ := Option.bind_eq_some_iff.1 read
    rw [pairs?, highValue, lowValue, ih readOthers]
    exact same

/-- An account is read from its text. -/
theorem ofText?_toText (a : ChainAddress) : ofText? a.toText = some a := by
  have chars : a.toText.toList = '0' :: 'x' :: a.toList.flatMap Bytes.hexDigits := by
    rw [toText, FixedBytes.toHex, Bytes.toHex, String.toList_append]
    exact congrArg (['0', 'x'] ++ ·) String.toList_ofList
  have length : (a.toList.flatMap Bytes.hexDigits).length = 40 := by
    rw [Bytes.length_hexDigits, a.length_eq]
  have visible : (a.toList.flatMap Bytes.hexDigits).filter (fun c => !Json.isBlank c) =
      a.toList.flatMap Bytes.hexDigits :=
    List.filter_eq_self.2 fun c member => by rw [Bytes.isBlank_of_mem_hexDigits member]; rfl
  rw [ofText?, chars]
  refine (if_pos length).trans ?_
  show (pairs? ((a.toList.flatMap Bytes.hexDigits).filter fun c => !Json.isBlank c) >>=
    fun _ => _) = _
  rw [visible, pairs?_of_ofHexChars? (Bytes.ofHexChars?_hexDigits a.toList)]
  show FixedBytes.ofList? _ = _
  rw [a.length_eq, Nat.sub_self, List.replicate_zero, List.append_nil, FixedBytes.ofList?_toList]

end ChainAddress

/-! ### Values as JSON -/

namespace Json

theorem uint64?_nat (n : UInt64) : (nat n.toNat).uint64? = some n := by
  have below : n.toNat < 1 <<< 64 := n.toNat_lt
  have bounds : 0 ≤ (n.toNat : Int) ∧ (n.toNat : Int).toNat < 1 <<< 64 :=
    ⟨Int.natCast_nonneg _, below⟩
  rw [uint64?, nat, unsigned?, if_pos bounds, Option.map_some, Int.toNat_natCast,
    UInt64.ofNat_toNat]

theorem textMembers?_record (members : List (String × Json)) :
    (record members).textMembers? = some members := by
  rw [record, textMembers?]
  exact mapM_map_eq_some fun _ _ => rfl

theorem listOf?_array {α : Type} {write : α → Json} {read? : Json → Option α}
    (each : ∀ a, read? (write a) = some a) (l : List α) :
    (array (l.map write)).listOf? read? = some l := mapM_map_eq_some fun a _ => each a

/-- The values of the fields of a record are those under the names of the fields, if no such name
    is there twice. -/
theorem fields?_record {α : Type} {name : α → String} {value? : α → Option Json} {l : List α}
    {members : List (String × Json)} (found : ∀ a ∈ l,
      members.filter (fun m => m.1 == name a) = (value? a).toList.map fun j => (name a, j)) :
    (record members).fields? (l.map name) = some (l.map value?) := by
  show ((record members).textMembers? >>= fun _ => _) = _
  rw [textMembers?_record]
  refine List.mapM_map.trans (mapM_eq_pure fun a member => ?_)
  rw [Function.comp_apply, found a member]
  cases value? a <;> rfl

theorem printable_texts {α : Type} (write : α → String) (l : List α) :
    (array (l.map fun a => text (write a))).Printable := by
  refine .array fun item member => ?_
  obtain ⟨a, _, rfl⟩ := List.mem_map.1 member
  exact .string _

theorem printable_record {members : List (String × Json)} (each : ∀ m ∈ members, m.2.Printable) :
    (record members).Printable := by
  refine .object fun item member => ?_
  obtain ⟨m, listed, rfl⟩ := List.mem_map.1 member
  exact each m listed

end Json

theorem VotePolicy.ofName?_name (p : VotePolicy) : ofName? p.name = some p := by cases p <;> rfl

theorem Network.ofName?_name (n : Network) : ofName? n.name = some n := by cases n <;> rfl

theorem Authorizer.ofJson?_toJson (a : Authorizer) : ofJson? a.toJson = some a := by
  have voters : (Json.array (a.authorized.map fun voter => Json.text voter.toText)).listOf?
      (fun voter => voter.text? >>= ChainAddress.ofText?) = some a.authorized :=
    Json.listOf?_array ChainAddress.ofText?_toText a.authorized
  have fields : a.toJson.fields? ["authorized", "policy"] = some
      [some (.array (a.authorized.map fun voter => .text voter.toText)),
        some (.text a.policy.name)] := rfl
  rw [ofJson?, fields]
  show (Json.listOf? _ _ >>= fun _ => _) = _
  rw [voters]
  show (VotePolicy.ofName? a.policy.name >>= fun _ => _) = _
  rw [VotePolicy.ofName?_name]
  rfl

theorem PublicKey.ofJson?_toJson (key : PublicKey) : ofJson? key.toJson = some key :=
  ofHex?_toHex key

namespace ActivationHeights

/-- The heights of a list of rules are read one by one. -/
theorem foldlM_heights (h start : ActivationHeights) (rules : List Rule) :
    (rules.filterMap fun r =>
      (h.height? r).map fun height => (r.name, Json.nat height.toNat)).foldlM
      (fun h (name, value) => do
        let rule ← Rule.ofName? name
        let height ← value.uint64?
        return h.withRule rule height) start =
    some (rules.foldl (fun acc r => (h.height? r).elim acc (acc.withRule r)) start) := by
  induction rules generalizing start with
  | nil => rfl
  | cons r rules ih =>
    cases height : h.height? r with
    | none =>
      rw [List.filterMap_cons_none (by rw [height]; rfl), ih, List.foldl_cons, height]
      rfl
    | some n =>
      rw [List.filterMap_cons_some (by rw [height]; rfl), List.foldlM_cons, List.foldl_cons, height]
      show (Rule.ofName? r.name >>= fun _ => _) >>= _ = _
      rw [Rule.ofName?_name]
      show ((Json.nat n.toNat).uint64? >>= fun _ => _) >>= _ = _
      rw [Json.uint64?_nat]
      exact ih _

theorem foldl_height? (h : ActivationHeights) :
    Rule.all.foldl (fun acc r => (h.height? r).elim acc (acc.withRule r)) {} = h := by
  obtain ⟨a, b, c, d⟩ := h
  cases a <;> cases b <;> cases c <;> cases d <;> rfl

theorem ofJson?_toJson (h : ActivationHeights) : ofJson? h.toJson = some h := by
  have fields : h.toJson.fields? ["heights"] = some [some (.record (Rule.all.filterMap fun r =>
    (h.height? r).map fun height => (r.name, .nat height.toNat)))] := rfl
  rw [ofJson?, fields]
  show (Json.textMembers? _ >>= fun _ => _) = _
  rw [Json.textMembers?_record]
  show ofMembers? _ = _
  rw [ofMembers?, foldlM_heights, foldl_height?]

end ActivationHeights

/-! ### Fields -/

namespace Constants

/-- A field holds one part of the constants: what it writes is read as that part, and the part is
    all that it replaces. -/
structure Field.Holds {α : Type} (f : Field) (get : Constants → α)
    (set : α → Constants → Constants) : Prop where
  read_write : ∀ c d, f.read? (f.write c) d = some (set (get c) d)
  set_get : ∀ d, set (get d) d = d

/-- A field whose JSON is that of its part holds the part. -/
theorem Field.Holds.of_part {α : Type} {name : String} {write : α → Json} {read? : Json → Option α}
    {get : Constants → α} {set : α → Constants → Constants}
    (read : ∀ a, read? (write a) = some a) (same : ∀ d, set (get d) d = d) :
    Field.Holds ⟨name, fun c => write (get c), fun j c => (read? j).map (set · c)⟩ get set where
  read_write c d := congrArg (Option.map (set · d)) (read (get c))
  set_get := same

theorem holds_network : Field.Holds
    { name := "network"
      write := fun c => .text c.network.name
      read? := fun j c => (j.choice? Network.ofName?).map fun v => { c with network := v } }
    network fun v c => { c with network := v } where
  read_write c d :=
    congrArg (Option.map fun v => { d with network := v }) (Network.ofName?_name c.network)
  set_get _ := rfl

/-- The text of an address is any text, and null stands for none. -/
theorem holds_oldFederationAddress : Field.Holds
    { name := "oldFederationAddress"
      write := fun c => c.oldFederationAddress.elim .null .text
      read? := fun j c =>
        match j with
        | .null => some { c with oldFederationAddress := none }
        | j => j.text?.map fun v => { c with oldFederationAddress := some v } }
    oldFederationAddress fun v c => { c with oldFederationAddress := v } where
  read_write c d := by
    cases address : c.oldFederationAddress with
    | none => simp only [address]; rfl
    | some text => simp only [address]; rfl
  set_get _ := rfl

theorem holds_activations : Field.Holds
    { name := "activations"
      write := fun c => c.activations.toJson
      read? := fun j c => (ActivationHeights.ofJson? j).map fun v => { c with activations := v } }
    activations fun v c => { c with activations := v } :=
  .of_part ActivationHeights.ofJson?_toJson fun _ => rfl

/-- The constants that have some fields of `c`, told by their names in a file, and the others of the
    development network. -/
def keeping (c : Constants) (keep : String → Bool) : Constants where
  network := if keep "network" then c.network else regtest.network
  genesisKeys := if keep "genesisFederationPublicKeys" then c.genesisKeys else regtest.genesisKeys
  genesisCreationTime := if keep "genesisFederationCreationTime" then c.genesisCreationTime
    else regtest.genesisCreationTime
  federationAuthorizer := if keep "federationChangeAuthorizer" then c.federationAuthorizer
    else regtest.federationAuthorizer
  feeAuthorizer := if keep "feePerKbChangeAuthorizer" then c.feeAuthorizer
    else regtest.feeAuthorizer
  activationAgeLegacy := if keep "federationActivationAgeLegacy" then c.activationAgeLegacy
    else regtest.activationAgeLegacy
  activationAge := if keep "federationActivationAge" then c.activationAge
    else regtest.activationAge
  migrationAgeBegin := if keep "fundsMigrationAgeSinceActivationBegin" then c.migrationAgeBegin
    else regtest.migrationAgeBegin
  migrationAgeEnd := if keep "fundsMigrationAgeSinceActivationEnd" then c.migrationAgeEnd
    else regtest.migrationAgeEnd
  minimumPeginValue := if keep "minimumPeginTxValue" then c.minimumPeginValue
    else regtest.minimumPeginValue
  genesisFeePerKb := if keep "genesisFeePerKb" then c.genesisFeePerKb else regtest.genesisFeePerKb
  maxFeePerKb := if keep "maxFeePerKb" then c.maxFeePerKb else regtest.maxFeePerKb
  recoveryKeys := if keep "erpFederationPublicKeys" then c.recoveryKeys else regtest.recoveryKeys
  recoveryDelay := if keep "erpFederationActivationDelay" then c.recoveryDelay
    else regtest.recoveryDelay
  oldFederationAddress := if keep "oldFederationAddress" then c.oldFederationAddress
    else regtest.oldFederationAddress
  pegoutIndexHeight := if keep "pegoutTxIndexActivationBtcHeight" then c.pegoutIndexHeight
    else regtest.pegoutIndexHeight
  pegoutIndexGracePeriod := if keep "pegoutTxIndexGracePeriodInBtcBlocks"
    then c.pegoutIndexGracePeriod else regtest.pegoutIndexGracePeriod
  maxMigrationInputs := if keep "maxInputsPerMigrationTx" then c.maxMigrationInputs
    else regtest.maxMigrationInputs
  pegoutConfirmations := if keep "pegoutConfirmationsRequired" then c.pegoutConfirmations
    else regtest.pegoutConfirmations
  activations := if keep "activations" then c.activations else regtest.activations

/-- The value of a field in a file with the kept fields of `c`. -/
def kept? (c : Constants) (keep : String → Bool) (f : Field) : Option Json :=
  if keep f.name then some (f.write c) else none

/-- Takes the value of a field, if there is one, into constants. -/
def take? (value? : Field → Option Json) (d : Constants) (f : Field) : Option Constants :=
  match value? f with
  | some j => f.read? j d
  | none => some d

variable {c : Constants} {keep : String → Bool}

/-- A field replaces its part if the field is kept, and nothing otherwise. -/
theorem Field.Holds.take?_eq {α : Type} {f : Field} {get : Constants → α}
    {set : α → Constants → Constants} (holds : f.Holds get set) (d : Constants) :
    take? (c.kept? keep) d f = some (set (if keep f.name then get c else get d) d) := by
  unfold take? kept?
  cases keep f.name with
  | true => exact holds.read_write c d
  | false => exact congrArg some (holds.set_get d).symm

section

variable {name : String} (d : Constants)

theorem take?_number {get : Constants → UInt64} {set : UInt64 → Constants → Constants}
    (same : ∀ d, set (get d) d = d) : take? (c.kept? keep) d (number name get set) =
      some (set (if keep name then get c else get d) d) :=
  Field.Holds.take?_eq (.of_part Json.uint64?_nat same) d

theorem take?_keys {get : Constants → List PublicKey}
    {set : List PublicKey → Constants → Constants} (same : ∀ d, set (get d) d = d) :
    take? (c.kept? keep) d (keys name get set) =
      some (set (if keep name then get c else get d) d) :=
  Field.Holds.take?_eq (.of_part (Json.listOf?_array PublicKey.ofJson?_toJson) same) d

theorem take?_voters {get : Constants → Authorizer} {set : Authorizer → Constants → Constants}
    (same : ∀ d, set (get d) d = d) : take? (c.kept? keep) d (voters name get set) =
      some (set (if keep name then get c else get d) d) :=
  Field.Holds.take?_eq (.of_part Authorizer.ofJson?_toJson same) d

end

/-- Fields that each make a change are taken by making the changes one after the other. -/
theorem foldlM_take?_eq {fs : List Field} {changes : List (Constants → Constants)}
    (each : List.Forall₂ (fun f change => ∀ d, take? (c.kept? keep) d f = some (change d)) fs
      changes) (d : Constants) :
    fs.foldlM (take? (c.kept? keep)) d = some (changes.foldl (fun d change => change d) d) := by
  induction each generalizing d with
  | nil => rfl
  | cons first _ ih =>
    rw [List.foldlM_cons, first]
    exact ih _

/-- Reading the kept fields one after the other leaves the others as they were. -/
theorem foldlM_fields : fields.foldlM (take? (c.kept? keep)) regtest = some (c.keeping keep) := by
  -- One change for each field, so that no field of the table can be left out here; that all of them
  -- together give the constants above is then a computation.
  refine (foldlM_take?_eq (.cons holds_network.take?_eq <|
    .cons (take?_keys · fun _ => rfl) <|
    .cons (take?_number · fun _ => rfl) <|
    .cons (take?_voters · fun _ => rfl) <|
    .cons (take?_voters · fun _ => rfl) <|
    .cons (take?_number · fun _ => rfl) <|
    .cons (take?_number · fun _ => rfl) <|
    .cons (take?_number · fun _ => rfl) <|
    .cons (take?_number · fun _ => rfl) <|
    .cons (take?_number · fun _ => rfl) <|
    .cons (take?_number · fun _ => rfl) <|
    .cons (take?_number · fun _ => rfl) <|
    .cons (take?_keys · fun _ => rfl) <|
    .cons (take?_number · fun _ => rfl) <|
    .cons holds_oldFederationAddress.take?_eq <|
    .cons (take?_number · fun _ => rfl) <|
    .cons (take?_number · fun _ => rfl) <|
    .cons (take?_number · fun _ => rfl) <|
    .cons (take?_number · fun _ => rfl) <|
    .cons holds_activations.take?_eq .nil) regtest).trans ?_
  rfl

theorem printable_authorizer (a : Authorizer) : a.toJson.Printable := by
  refine Json.printable_record (List.forall_mem_cons.2 ⟨Json.printable_texts _ _, ?_⟩)
  exact List.forall_mem_singleton.2 (.string _)

theorem printable_activations (h : ActivationHeights) : h.toJson.Printable := by
  refine Json.printable_record (List.forall_mem_singleton.2 (Json.printable_record ?_))
  intro m member
  obtain ⟨r, _, height⟩ := List.mem_filterMap.1 member
  obtain ⟨n, _, rfl⟩ := Option.map_eq_some_iff.1 height
  exact .integer _

theorem printable_write (c : Constants) : ∀ f ∈ fields, (f.write c).Printable := by
  have address : (c.oldFederationAddress.elim Json.null Json.text).Printable := by
    cases c.oldFederationAddress with
    | none => exact .null
    | some text => exact .string _
  simp only [fields, List.forall_mem_cons]
  exact ⟨.string _, Json.printable_texts _ _, .integer _, printable_authorizer _,
    printable_authorizer _, .integer _, .integer _, .integer _, .integer _, .integer _, .integer _,
    .integer _, Json.printable_texts _ _, .integer _, address, .integer _, .integer _, .integer _,
    .integer _, printable_activations _, nofun⟩

/-! ### Files -/

/-- The members of a file list just the kept fields of `c`, in some order, among members of other
    names. -/
def ListsFields (c : Constants) (keep : String → Bool) (members : List (String × Json)) : Prop :=
  (members.filter fun m => m.1 ∈ fields.map Field.name).Perm
    ((fields.filter fun f => keep f.name).map fun f => (f.name, f.write c))

theorem filter_name {l : List Field} (distinct : (l.map Field.name).Nodup) {f : Field}
    (member : f ∈ l) : l.filter (fun g => g.name == f.name) = [f] := by
  induction l with
  | nil => cases member
  | cons g l ih =>
    obtain ⟨fresh, distinct⟩ := List.nodup_cons.1 distinct
    rcases List.mem_cons.1 member with rfl | later
    · rw [List.filter_cons_of_pos (by simp), List.filter_eq_nil_iff.2]
      intro g listed same
      exact fresh (beq_iff_eq.1 same ▸ List.mem_map_of_mem listed)
    · rw [List.filter_cons_of_neg, ih distinct later]
      intro same
      exact fresh (beq_iff_eq.1 same ▸ List.mem_map_of_mem later)

/-- Under the name of a field a file has what the field writes, if it is kept. -/
theorem ListsFields.filter_eq {members : List (String × Json)} (lists : c.ListsFields keep members)
    {f : Field} (member : f ∈ fields) : members.filter (fun m => m.1 == f.name) =
      (c.kept? keep f).toList.map fun j => (f.name, j) := by
  have known : members.filter (fun m => m.1 == f.name) =
      (members.filter fun m => m.1 ∈ fields.map Field.name).filter fun m => m.1 == f.name := by
    rw [List.filter_filter]
    refine List.filter_congr fun m _ => ?_
    by_cases same : m.1 = f.name
    · simp [same, List.mem_map_of_mem member]
    · simp [same]
  have written : ((fields.filter fun f => keep f.name).map fun f => (f.name, f.write c)).filter
      (fun m => m.1 == f.name) = (c.kept? keep f).toList.map fun j => (f.name, j) := by
    have distinct : (fields.map Field.name).Nodup := by decide
    rw [List.filter_map, List.filter_comm]
    show (List.filter _ (fields.filter fun g => g.name == f.name)).map _ = _
    rw [filter_name distinct member, kept?]
    cases kept : keep f.name <;> simp [kept]
  rw [known]
  have perm := lists.filter fun m => m.1 == f.name
  rw [written] at perm
  cases value : c.kept? keep f with
  | none =>
    rw [value] at perm
    exact List.perm_nil.1 perm
  | some j =>
    rw [value] at perm
    exact List.perm_singleton.1 perm

theorem ofJson?_record {members : List (String × Json)} (lists : c.ListsFields keep members) :
    ofJson? (.record members) = some (c.keeping keep) := by
  rw [ofJson?, Json.fields?_record fun f member => lists.filter_eq member]
  show (fields.zip (fields.map (c.kept? keep))).foldlM (fun d entry =>
    match entry.2 with
    | some j => entry.1.read? j d
    | none => some d) regtest = _
  rw [← List.map_prod_left_eq_zip, List.foldlM_map]
  exact foldlM_fields

/-- The members of a file can be written if those of other names can. -/
theorem ListsFields.printable {members : List (String × Json)} (lists : c.ListsFields keep members)
    (others : ∀ m ∈ members, m.1 ∉ fields.map Field.name → m.2.Printable) :
    (Json.record members).Printable := by
  refine Json.printable_record fun m member => ?_
  by_cases known : m.1 ∈ fields.map Field.name
  · have listed : m ∈ (fields.filter fun f => keep f.name).map fun f => (f.name, f.write c) :=
      lists.mem_iff.1 (List.mem_filter.2 ⟨member, decide_eq_true known⟩)
    obtain ⟨f, kept, rfl⟩ := List.mem_map.1 listed
    exact c.printable_write f (List.mem_filter.1 kept).1
  · exact others m member known

/-- All fields are listed where constants are written. -/
theorem listsFields_all (c : Constants) :
    c.ListsFields (fun _ => true) (fields.map fun f => (f.name, f.write c)) := by
  unfold ListsFields
  rw [List.filter_eq_self.2, List.filter_eq_self.2 fun _ _ => rfl]
  intro m member
  obtain ⟨f, listed, rfl⟩ := List.mem_map.1 member
  exact decide_eq_true (List.mem_map_of_mem listed)

theorem resolve_of_parse {path text : String} (file : preset? path = none) {bytes : Bytes}
    (isText : Bytes.toText? bytes = some text) {members : List (String × Json)}
    (parsed : Json.parse text = some (.record members)) (lists : c.ListsFields keep members) :
    resolve path (some bytes) = .ok (c.keeping keep) := by
  rw [resolve, file]
  show ofFile bytes = _
  have read : Json.parse text >>= ofJson? = some (c.keeping keep) := by
    rw [parsed, ← ofJson?_record lists]
    rfl
  simp only [ofFile, isText, read]

/-- Constants are read from a file as the fields in it say, whatever their order, the layout of the
    text and the members of other names are; a field that is not in the file is that of the
    development network. The text that is written for members, and that for all fields, is such a
    file. -/
theorem resolve_of_fields (c : Constants) (path : String) (file : preset? path = none) :
    (∀ (keep : String → Bool) (members : List (String × Json)), c.ListsFields keep members →
      (∀ (bytes : Bytes) (text : String), Bytes.toText? bytes = some text →
        Json.parse text = some (.record members) →
        resolve path (some bytes) = .ok (c.keeping keep)) ∧
      ((∀ m ∈ members, m.1 ∉ fields.map Field.name → m.2.Printable) →
        resolve path (some (Bytes.ofText (Json.record members).render)) =
          .ok (c.keeping keep))) ∧
    resolve path (some (Bytes.ofText c.toJson.render)) = .ok c := by
  refine ⟨fun keep members lists => ⟨fun bytes text isText parsed =>
    resolve_of_parse file isText parsed lists, fun others => ?_⟩, ?_⟩
  · exact resolve_of_parse file (Bytes.toText?_ofText _)
      (Json.parse_render (lists.printable others)) lists
  · have printable := c.listsFields_all.printable fun m member other => ?_
    · exact resolve_of_parse file (Bytes.toText?_ofText _) (Json.parse_render printable)
        c.listsFields_all
    · obtain ⟨f, listed, rfl⟩ := List.mem_map.1 member
      exact absurd (List.mem_map_of_mem listed) other

/-- Two fields of the test network, not in the order of the fields, and a member of another name. -/
def twoFields : List (String × Json) :=
  [("minimumPeginTxValue", .nat 500000), ("memo", .array [.null, .decimal "1e5"]),
    ("network", .text "testnet")]

/-- A text of these members with blanks and an escape. -/
def twoFieldsText : String :=
  "\x7b\"minimumPeginTxValue\": 500000,\n\"memo\": [null, 1e5], \"network\": \"test\\u006eet\" \x7d"

theorem resolve_of_twoFields :
    preset? "peg.json" = none ∧
    resolve "peg.json" (some (Bytes.ofText twoFieldsText)) =
      .ok { regtest with network := .testnet, minimumPeginValue := 500000 } ∧
    resolve "peg.json" (some (Bytes.ofText (Json.record twoFields).render)) =
      .ok { regtest with network := .testnet, minimumPeginValue := 500000 } := by
  have file : preset? "peg.json" = none := by decide
  have lists : testnet.ListsFields (fun name => name == "network" || name == "minimumPeginTxValue")
      twoFields := by
    unfold ListsFields
    simp only [twoFields, fields, number, keys, voters]
    exact List.Perm.swap _ _ []
  have parsed : Json.parse twoFieldsText = some (.record twoFields) := by
    simp only [Json.parse, twoFieldsText, String.reduceToList]
    rfl
  have decimal : Json.IsDecimal "1e5" :=
    ⟨false, ['1'], [], ['e', '5'], rfl,
      ⟨List.forall_mem_singleton.2 rfl, List.cons_ne_nil _ _, fun zero => absurd zero (by decide)⟩,
      .inl rfl,
      .inr ⟨'e', [], ['5'], rfl, .inl rfl, .inl rfl, List.cons_ne_nil _ _,
        List.forall_mem_singleton.2 rfl⟩,
      fun plain => List.cons_ne_nil _ _ plain.2.1⟩
  have others : ∀ m ∈ twoFields, m.1 ∉ fields.map Field.name → m.2.Printable := by
    intro m member _
    simp only [twoFields, List.mem_cons, List.not_mem_nil, or_false] at member
    rcases member with rfl | rfl | rfl
    · exact .integer _
    · exact .array (List.forall_mem_cons.2 ⟨.null, List.forall_mem_singleton.2 (.decimal decimal)⟩)
    · exact .string _
  obtain ⟨anyLayout, written⟩ := (resolve_of_fields testnet "peg.json" file).1 _ _ lists
  exact ⟨file, anyLayout _ _ (Bytes.toText?_ofText twoFieldsText) parsed, written others⟩

end Constants

end TwoWayPeg
