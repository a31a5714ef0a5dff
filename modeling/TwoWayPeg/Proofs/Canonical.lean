import Mathlib.Tactic.SplitIfs
import TwoWayPeg.Proofs.Codec

/-!
# Items that stand as they are written

The readers of the recursive length-prefix format accept more than the writers produce: bytes behind
an item, lengths in a longer form than needed, and lists of which only the first items can be read.
A check of the bytes alone says whether what is read from them is written as the same bytes again.
Checks of items make checks of lists.
-/

namespace TwoWayPeg

namespace Rlp

/-- Bytes that a writer makes. -/
inductive Written : Bytes → Prop
  | bytes (bytes : Bytes) : Written (encodeBytes bytes)
  | list (items : List Bytes) : Written (encodeList items)

theorem Written.isItem {item : Bytes} (written : Written item) (short : item.length < 2 ^ 64) :
    IsItem item := by
  cases written with
  | bytes bytes => exact isItem_encodeBytes (Nat.lt_of_le_of_lt (length_le_encodeBytes bytes) short)
  | list items =>
    exact isItem_encodeList (Nat.lt_of_le_of_lt (length_flatten_le_encodeList items) short)

/-- Whether the items that are read from a list account for all its bytes. -/
def isWhole (item : Bytes) : Bool := encodeList (items item) = item

/-- Whether a byte string stands as it is written. -/
def isPlain (item : Bytes) : Bool := (payload? item).map encodeBytes = some item

/-- Whether a list is whole and its items pass a check. -/
def isListOf (check : Bytes → Bool) (item : Bytes) : Bool :=
  isWhole item && (items item).all check

theorem isPlain_iff {item : Bytes} :
    isPlain item = true ↔ ∃ bytes, payload? item = some bytes ∧ encodeBytes bytes = item := by
  rw [isPlain, decide_eq_true_iff, Option.map_eq_some_iff]

theorem isPlain_encodeBytes {bytes : Bytes} (short : bytes.length < 2 ^ 64) :
    isPlain (encodeBytes bytes) = true :=
  isPlain_iff.2 ⟨bytes, payload?_encodeBytes short, rfl⟩

theorem items_eq_of_list? {item : Bytes} {parts : List Bytes} (read : list? item = some parts) :
    items item = parts := by
  unfold list? at read
  split at read
  · exact Option.some.inj read
  · cases read

/-- A list that is read stands as it is written if it is whole and its items do. -/
theorem encodeList_eq_iff {item : Bytes} {parts others : List Bytes} {same : Prop}
    (short : item.length < 2 ^ 64) (read : list? item = some parts)
    (written : ∀ part ∈ others, Written part)
    (each : (∀ part ∈ parts, part.length < 2 ^ 64) → (others = parts ↔ same)) :
    encodeList others = item ↔ isWhole item = true ∧ same := by
  have parts' := items_eq_of_list? read
  constructor
  · rintro rfl
    have lengths : ∀ part ∈ others, part.length < 2 ^ 64 := fun part member =>
      Nat.lt_of_le_of_lt (length_le_encodeList member) short
    have itself : items (encodeList others) = others :=
      items_encodeList (fun part member => (written part member).isItem (lengths part member))
        (Nat.lt_of_le_of_lt (length_flatten_le_encodeList others) short)
    rw [itself] at parts'
    subst parts'
    exact ⟨by rw [isWhole, itself, decide_eq_true_iff], (each lengths).1 rfl⟩
  · rintro ⟨whole, agree⟩
    have whole : encodeList parts = item := by
      rwa [isWhole, decide_eq_true_iff, parts'] at whole
    subst whole
    rw [(each fun part member => Nat.lt_of_le_of_lt (length_le_encodeList member) short).2 agree]

variable {α β : Type}

/-- Of what the reader accepts, the check holds just for what the writer makes of what is read. -/
structure Canonical (item? : Bytes → Option α) (write : α → Bytes) (check : Bytes → Bool) :
    Prop where
  written : ∀ a, Written (write a)
  write_eq_iff : ∀ {item a}, item.length < 2 ^ 64 → item? item = some a →
    (write a = item ↔ check item = true)

namespace Canonical

variable {item? : Bytes → Option α} {write : α → Bytes} {check : Bytes → Bool}

/-- A reader that goes on with what another one reads has its check. -/
theorem through {item?' : Bytes → Option β} {write' : β → Bytes}
    (canonical : Canonical item? write check)
    (first : ∀ item b, item?' item = some b → ∃ a, item? item = some a ∧ write' b = write a)
    (written : ∀ b, Written (write' b)) : Canonical item?' write' check where
  written := written
  write_eq_iff short read := by
    obtain ⟨a, read', same⟩ := first _ _ read
    rw [same]
    exact canonical.write_eq_iff short read'

theorem map_eq_iff (canonical : Canonical item? write check) {parts : List Bytes} {l : List α}
    (short : ∀ part ∈ parts, part.length < 2 ^ 64) (read : parts.mapM item? = some l) :
    l.map write = parts ↔ parts.all check = true := by
  induction parts generalizing l with
  | nil =>
    cases read
    simp
  | cons part parts ih =>
    rw [List.mapM_cons] at read
    obtain ⟨a, first, read'⟩ := Option.bind_eq_some_iff.1 read
    obtain ⟨l', others, same⟩ := Option.bind_eq_some_iff.1 read'
    cases same
    rw [List.forall_mem_cons] at short
    rw [List.map_cons, List.cons_eq_cons, List.all_cons, Bool.and_eq_true, ih short.2 others,
      canonical.write_eq_iff short.1 first]

theorem listOf (canonical : Canonical item? write check) :
    Canonical (listOf? item?) (fun l => encodeList (l.map write)) (isListOf check) where
  written l := .list _
  write_eq_iff {item l} short read := by
    obtain ⟨parts, read, each⟩ := Option.bind_eq_some_iff.1 read
    rw [isListOf, Bool.and_eq_true, items_eq_of_list? read]
    refine encodeList_eq_iff short read ?_ fun short => canonical.map_eq_iff short each
    rintro part member
    obtain ⟨a, _, rfl⟩ := List.mem_map.1 member
    exact canonical.written a

end Canonical

/-- Whether a list is whole, its items pass a check, and their values come in an order. -/
def isOrderedListOf (item? : Bytes → Option α) (check : Bytes → Bool) (cmp : α → α → Ordering)
    (item : Bytes) : Bool :=
  isListOf check item &&
    (listOf? item? item).any fun l => decide (l.Pairwise fun a b => cmp a b = .lt)

/-- A collection that orders its members is read from a list in that order. -/
theorem Canonical.collected {item? : Bytes → Option α} {write : α → Bytes} {check : Bytes → Bool}
    (canonical : Canonical item? write check) {cmp : α → α → Ordering} {collect : List α → β}
    {members : β → List α}
    (undoes : ∀ a, (write a).length < 2 ^ 64 → item? (write a) = some a)
    (ordered : ∀ l, members (collect l) = l ↔ l.Pairwise fun a b => cmp a b = .lt) :
    Canonical (fun item => (listOf? item? item).map collect)
      (fun b => encodeList ((members b).map write)) (isOrderedListOf item? check cmp) where
  written b := .list _
  write_eq_iff {item b} short read := by
    obtain ⟨l, values, rfl⟩ := Option.map_eq_some_iff.1 read
    rw [isOrderedListOf, Bool.and_eq_true, values, Option.any_some, decide_eq_true_iff, ← ordered l,
      ← canonical.listOf.write_eq_iff short values]
    constructor
    · rintro rfl
      have again : listOf? item? (encodeList ((members (collect l)).map write)) =
          some (members (collect l)) := by
        apply listOf?_encodeList _ (Nat.lt_of_le_of_lt (length_flatten_le_encodeList _) short)
        intro a member
        have short : (write a).length < 2 ^ 64 :=
          Nat.lt_of_le_of_lt (length_le_encodeList (List.mem_map_of_mem member)) short
        exact ⟨(canonical.written a).isItem short, undoes a short⟩
      have same : members (collect l) = l := Option.some.inj (again.symm.trans values)
      exact ⟨by rw [same], same⟩
    · rintro ⟨written, same⟩
      rw [same, written]

theorem canonical_payload : Canonical payload? encodeBytes isPlain where
  written := .bytes
  write_eq_iff _ read := by
    rw [isPlain, read, decide_eq_true_iff, Option.map_some, Option.some.injEq]

theorem canonical_bytes : Canonical bytes? encodeBytes isPlain where
  written := .bytes
  write_eq_iff {item a} short read := by
    constructor
    · rintro rfl
      exact isPlain_encodeBytes (Nat.lt_of_le_of_lt (length_le_encodeBytes a) short)
    · intro plain
      obtain ⟨bytes, _, rfl⟩ := isPlain_iff.1 plain
      have same := bytes?_encodeBytes (Nat.lt_of_le_of_lt (length_le_encodeBytes bytes) short)
      rw [Option.some.inj (read.symm.trans same)]

theorem of_nat? {width n : Nat} {item : Bytes} (read : nat? width item = some n) :
    n < Bytes.capacity width ∧
      ∃ bytes, bytes? item = some bytes ∧ encodeNat n = encodeBytes bytes := by
  obtain ⟨bytes, string, number⟩ := Option.bind_eq_some_iff.1 read
  split at number
  · next conditions =>
    cases number
    refine ⟨?_, bytes, string, by rw [encodeNat, Bytes.minimalBE_toNatBE conditions.2]⟩
    exact Nat.lt_of_lt_of_le (Bytes.toNatBE_lt bytes) (Nat.pow_le_pow_right (by decide) conditions.1)
  · cases number

theorem canonical_nat (width : Nat) : Canonical (nat? width) encodeNat isPlain :=
  canonical_bytes.through (fun _ _ read => (of_nat? read).2) fun _ => .bytes _

theorem canonical_uint64 : Canonical uint64? (fun n => encodeNat n.toNat) isPlain := by
  refine (canonical_nat 8).through ?_ fun _ => .bytes _
  intro item n read
  obtain ⟨m, number, rfl⟩ := Option.map_eq_some_iff.1 read
  exact ⟨m, number, by rw [UInt64.toNat_ofNat_of_lt' (of_nat? number).1]⟩

theorem canonical_uint32 : Canonical uint32? (fun n => encodeNat n.toNat) isPlain := by
  refine (canonical_nat 4).through ?_ fun _ => .bytes _
  intro item n read
  obtain ⟨m, number, rfl⟩ := Option.map_eq_some_iff.1 read
  exact ⟨m, number, by rw [UInt32.toNat_ofNat_of_lt' (of_nat? number).1]⟩

theorem canonical_text :
    Canonical (fun item => bytes? item >>= Bytes.toText?)
      (fun text => encodeBytes (Bytes.ofText text)) isPlain := by
  refine canonical_bytes.through ?_ fun _ => .bytes _
  intro item text read
  obtain ⟨bytes, string, valid⟩ := Option.bind_eq_some_iff.1 read
  exact ⟨bytes, string, by rw [Bytes.ofText_of_toText? valid]⟩

theorem canonical_transaction :
    Canonical (fun item => payload? item >>= Transaction.decode?) (fun t => encodeBytes t.encode)
      isPlain := by
  refine canonical_payload.through ?_ fun _ => .bytes _
  intro item t read
  obtain ⟨bytes, payload, decoded⟩ := Option.bind_eq_some_iff.1 read
  exact ⟨bytes, payload, by rw [(Transaction.decode?_eq_some_iff.1 decoded).2]⟩

/-! ## Lists that were cut short -/

theorem longExtent?_append {width : Nat} {front : Bytes} {e : Extent}
    (announced : longExtent? width front = some e) (back : Bytes) :
    longExtent? width (front ++ back) = some e := by
  unfold longExtent? at announced ⊢
  dsimp only at announced ⊢
  split at announced
  · next conditions =>
    obtain ⟨enough, nonzero, large⟩ := conditions
    have head : (front ++ back).head? ≠ some 0 := by
      cases front with
      | nil =>
        rw [List.take_nil] at large
        exact absurd large (by decide)
      | cons first rest => exact nonzero
    have digits : (front ++ back).take width = front.take width :=
      List.take_append_of_le_length enough
    rw [digits, if_pos ⟨by rw [List.length_append]; omega, head, large⟩]
    exact announced
  · cases announced

/-- What a front part of bytes announces, all of them announce. -/
theorem announced?_append {front : Bytes} {e : Extent} (announced : announced? front = some e)
    (back : Bytes) : announced? (front ++ back) = some e := by
  cases front with
  | nil => cases announced
  | cons first rest =>
    rw [List.cons_append]
    unfold announced? at announced ⊢
    dsimp only at announced ⊢
    split_ifs at announced ⊢
    · exact announced
    · exact announced
    · exact longExtent?_append announced back
    · exact announced
    · exact longExtent?_append announced back

/-- A list that was cut short is read as one without items. -/
theorem list?_of_cut {items : List Bytes} {front back : Bytes}
    (cut : front ++ back = encodeList items) (fits : items.flatten.length < 2 ^ 64)
    (some' : front ≠ []) (lost : back ≠ []) : list? front = some [] := by
  have kind : isList front = true := by
    have whole := isList_encodeList items fits
    rw [← cut] at whole
    cases front with
    | nil => exact absurd rfl some'
    | cons first rest => exact whole
  have total : announced? (front ++ back) =
      some ⟨(header 0xc0 items.flatten.length).length, items.flatten.length⟩ := by
    rw [cut, encodeList, announced?_header (.inr rfl) fits]
  have none : extent? front = none := by
    rw [extent?, Option.filter_eq_none_iff]
    intro e announced
    cases (announced?_append announced back).symm.trans total
    have length := congrArg List.length cut
    have positive := List.length_pos_iff.2 lost
    rw [List.length_append, encodeList, List.length_append] at length
    rw [decide_eq_true_iff, Extent.total]
    dsimp only
    omega
  rw [list?, if_pos kind, Rlp.items, none]

/-- No item is read both as a list and as a byte string. -/
theorem bytes?_eq_none_of_list? {item : Bytes} {parts : List Bytes}
    (read : list? item = some parts) : bytes? item = none := by
  unfold list? at read
  split at read
  · next list =>
    cases item with
    | nil => rfl
    | cons first rest =>
      have large : 0xc0 ≤ first.toNat := of_decide_eq_true list
      rw [bytes?]
      dsimp only
      rw [if_neg (by omega), if_neg (by omega), if_neg (by omega)]
  · cases read

end Rlp

end TwoWayPeg
