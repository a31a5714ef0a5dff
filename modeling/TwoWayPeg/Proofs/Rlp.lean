import TwoWayPeg.Proofs.Computation
import TwoWayPeg.Proofs.Digits
import TwoWayPeg.Storage.Codec

/-!
# Reading back what was written

The readers of the recursive length-prefix format accept more than the writers produce. What the
writers produce is read back as it was, as long as its length can be written in 64 bits.
-/

namespace TwoWayPeg

namespace Rlp

/-- Bytes are an item if their beginning announces just them, whatever follows. -/
def IsItem (item : Bytes) : Prop :=
  ∃ e : Extent, e.total = item.length ∧ ∀ rest, announced? (item ++ rest) = some e

theorem minimalBE_ne_nil {n : Nat} (positive : 0 < n) : Bytes.minimalBE n ≠ [] := by
  intro empty
  have value := Bytes.toNatBE_minimalBE n
  rw [empty] at value
  have zero : Bytes.toNatBE [] = 0 := rfl
  omega

theorem longExtent?_minimalBE {n : Nat} (large : 55 < n) (rest : Bytes) :
    longExtent? (Bytes.minimalBE n).length (Bytes.minimalBE n ++ rest) =
      some ⟨1 + (Bytes.minimalBE n).length, n⟩ := by
  have head : (Bytes.minimalBE n ++ rest).head? ≠ some 0 := by
    obtain ⟨b, tail, size⟩ := List.exists_cons_of_ne_nil (minimalBE_ne_nil (n := n) (by omega))
    have := Bytes.head?_minimalBE_ne n
    rw [size] at this ⊢
    exact this
  unfold longExtent?
  dsimp only
  rw [List.take_left, Bytes.toNatBE_minimalBE, if_pos]
  exact ⟨by simp, head, large⟩

/-- The header of a payload announces the payload. -/
theorem announced?_header {short n : Nat} (kind : short = 0x80 ∨ short = 0xc0)
    (fits : n < 2 ^ 64) (rest : Bytes) :
    announced? (header short n ++ rest) = some ⟨(header short n).length, n⟩ := by
  unfold header
  by_cases small : n ≤ 55
  · rw [if_pos small, List.singleton_append, announced?]
    have code : (UInt8.ofNat (short + n)).toNat = short + n := by
      rw [UInt8.toNat_ofNat']
      omega
    simp only [code]
    rcases kind with rfl | rfl
    · rw [if_neg (by omega), if_pos (by omega)]
      simp
    · rw [if_neg (by omega), if_neg (by omega), if_neg (by omega), if_pos (by omega)]
      simp
  · rw [if_neg small]
    have long := longExtent?_minimalBE (n := n) (by omega) rest
    have width : (Bytes.minimalBE n).length ≤ 8 :=
      Bytes.length_minimalBE_le fits
    have positive : 0 < (Bytes.minimalBE n).length :=
      List.length_pos_iff.2 (minimalBE_ne_nil (by omega))
    have code : (UInt8.ofNat (short + 55 + (Bytes.minimalBE n).length)).toNat =
        short + 55 + (Bytes.minimalBE n).length := by
      rw [UInt8.toNat_ofNat']
      omega
    rw [List.cons_append, announced?]
    simp only [code]
    rcases kind with rfl | rfl
    · rw [if_neg (by omega), if_neg (by omega), if_pos (by omega),
        show 0x80 + 55 + (Bytes.minimalBE n).length - 0xb7 = (Bytes.minimalBE n).length by omega,
        long, List.length_cons, Nat.add_comm]
    · rw [if_neg (by omega), if_neg (by omega), if_neg (by omega), if_neg (by omega),
        show 0xc0 + 55 + (Bytes.minimalBE n).length - 0xf7 = (Bytes.minimalBE n).length by omega,
        long, List.length_cons, Nat.add_comm]

theorem isItem_header_append {short : Nat} (kind : short = 0x80 ∨ short = 0xc0) {payload : Bytes}
    (fits : payload.length < 2 ^ 64) : IsItem (header short payload.length ++ payload) :=
  ⟨⟨(header short payload.length).length, payload.length⟩, by simp [Extent.total],
    fun rest => by rw [List.append_assoc, announced?_header kind fits]⟩

theorem encodeBytes_eq (bytes : Bytes) :
    (∃ b, bytes = [b] ∧ b < 0x80 ∧ encodeBytes bytes = [b]) ∨
      ((∀ b, bytes = [b] → ¬ b < 0x80) ∧
        encodeBytes bytes = header 0x80 bytes.length ++ bytes) := by
  unfold encodeBytes
  split
  · next b =>
    by_cases small : b < 0x80
    · exact .inl ⟨b, rfl, small, if_pos small⟩
    · refine .inr ⟨?_, if_neg small⟩
      rintro b' same
      cases same
      exact small
  · next several =>
    exact .inr ⟨fun b same => absurd same (several b), rfl⟩

theorem announced?_small {b : UInt8} (small : b < 0x80) (rest : Bytes) :
    announced? (b :: rest) = some ⟨0, 1⟩ := by
  have : b.toNat < 0x80 := small
  rw [announced?, if_pos this]

theorem isItem_encodeBytes {bytes : Bytes} (fits : bytes.length < 2 ^ 64) :
    IsItem (encodeBytes bytes) := by
  rcases encodeBytes_eq bytes with ⟨b, rfl, small, written⟩ | ⟨_, written⟩
  · rw [written]
    exact ⟨⟨0, 1⟩, rfl, announced?_small small⟩
  · rw [written]
    exact isItem_header_append (.inl rfl) fits

theorem isItem_encodeList {items : List Bytes} (fits : items.flatten.length < 2 ^ 64) :
    IsItem (encodeList items) := isItem_header_append (.inr rfl) fits

theorem IsItem.extent? {item : Bytes} (whole : IsItem item) :
    ∃ e : Extent, e.total = item.length ∧ ∀ rest, Rlp.extent? (item ++ rest) = some e := by
  obtain ⟨e, total, announces⟩ := whole
  refine ⟨e, total, ?_⟩
  intro rest
  rw [Rlp.extent?, announces, Option.filter_some, if_pos]
  simp [total]

theorem IsItem.ne_nil {item : Bytes} (whole : IsItem item) : item ≠ [] := by
  rintro rfl
  obtain ⟨e, _, announces⟩ := whole
  have := announces []
  simp [announced?] at this

/-- Items that stand one after another are read as those items. -/
theorem itemsUpTo_flatten {items : List Bytes} {fuel : Nat}
    (each : ∀ item ∈ items, IsItem item) (enough : items.flatten.length ≤ fuel) :
    itemsUpTo fuel items.flatten = items := by
  induction items generalizing fuel with
  | nil => cases fuel <;> rfl
  | cons item items ih =>
    have whole := each item List.mem_cons_self
    have positive : 0 < item.length := List.length_pos_iff.2 whole.ne_nil
    obtain ⟨e, total, extent⟩ := whole.extent?
    rw [List.flatten_cons, List.length_append] at enough
    cases fuel with
    | zero => omega
    | succ fuel =>
      rw [List.flatten_cons, itemsUpTo, extent]
      dsimp only
      rw [total, List.take_left, List.drop_left,
        ih (fun item member => each item (List.mem_cons_of_mem _ member)) (by omega)]

theorem items_encodeList {items : List Bytes} (each : ∀ item ∈ items, IsItem item)
    (fits : items.flatten.length < 2 ^ 64) : Rlp.items (encodeList items) = items := by
  have extent : extent? (encodeList items) =
      some ⟨(header 0xc0 items.flatten.length).length, items.flatten.length⟩ := by
    rw [extent?, encodeList, announced?_header (.inr rfl) fits, Option.filter_some, if_pos]
    simp [Extent.total]
  rw [Rlp.items, extent]
  dsimp only
  rw [encodeList, List.drop_left, List.take_length]
  cases items with
  | nil => rfl
  | cons item rest =>
    obtain ⟨e, _, first⟩ := (each item List.mem_cons_self).extent?
    rw [if_pos (by rw [List.flatten_cons, first]; rfl)]
    exact itemsUpTo_flatten each (Nat.le_refl _)

theorem isList_encodeList (items : List Bytes) (fits : items.flatten.length < 2 ^ 64) :
    isList (encodeList items) = true := by
  unfold encodeList header
  by_cases small : items.flatten.length ≤ 55
  · rw [if_pos small, List.singleton_append, isList, decide_eq_true_iff]
    show 0xc0 ≤ (UInt8.ofNat (0xc0 + items.flatten.length)).toNat
    rw [UInt8.toNat_ofNat']
    omega
  · rw [if_neg small, List.cons_append, isList, decide_eq_true_iff]
    have width : (Bytes.minimalBE items.flatten.length).length ≤ 8 :=
      Bytes.length_minimalBE_le fits
    show 0xc0 ≤ (UInt8.ofNat (0xc0 + 55 + (Bytes.minimalBE items.flatten.length).length)).toNat
    rw [UInt8.toNat_ofNat']
    omega

/-- A list that was written is read as its items. -/
theorem list?_encodeList {items : List Bytes} (each : ∀ item ∈ items, IsItem item)
    (fits : items.flatten.length < 2 ^ 64) : list? (encodeList items) = some items := by
  rw [list?, if_pos (isList_encodeList items fits), items_encodeList each fits]

theorem payload?_encodeBytes {bytes : Bytes} (fits : bytes.length < 2 ^ 64) :
    payload? (encodeBytes bytes) = some bytes := by
  rcases encodeBytes_eq bytes with ⟨b, rfl, small, written⟩ | ⟨_, written⟩
  · rw [written, payload?, extent?, announced?_small small]
    rfl
  · rw [written, payload?, extent?, announced?_header (.inl rfl) fits, Option.filter_some, if_pos,
      Option.map_some, List.drop_left, List.take_length]
    simp [Extent.total]

/-- A byte string that was written is read as it was. -/
theorem bytes?_encodeBytes {bytes : Bytes} (fits : bytes.length < 2 ^ 64) :
    bytes? (encodeBytes bytes) = some bytes := by
  rcases encodeBytes_eq bytes with ⟨b, rfl, small, written⟩ | ⟨large, written⟩
  · have : b.toNat < 0x80 := small
    rw [written, bytes?, if_pos this]
  · rw [written]
    unfold header
    by_cases short : bytes.length ≤ 55
    · rw [if_pos short, List.singleton_append, bytes?]
      have code : (UInt8.ofNat (0x80 + bytes.length)).toNat = 0x80 + bytes.length := by
        rw [UInt8.toNat_ofNat']
        omega
      simp only [code]
      rw [if_neg (by omega), if_pos (by omega), Nat.add_sub_cancel_left, List.take_length,
        if_neg (Nat.lt_irrefl _), if_neg]
      rintro ⟨single, all⟩
      obtain ⟨b, rfl⟩ := List.length_eq_one_iff.1 single
      exact large b rfl (by simpa using all)
    · rw [if_neg short, List.cons_append, bytes?]
      have long := longExtent?_minimalBE (n := bytes.length) (by omega) bytes
      have width : (Bytes.minimalBE bytes.length).length ≤ 8 :=
        Bytes.length_minimalBE_le fits
      have positive : 0 < (Bytes.minimalBE bytes.length).length :=
        List.length_pos_iff.2 (minimalBE_ne_nil (by omega))
      have code : (UInt8.ofNat (0x80 + 55 + (Bytes.minimalBE bytes.length).length)).toNat =
          0x80 + 55 + (Bytes.minimalBE bytes.length).length := by
        rw [UInt8.toNat_ofNat']
        omega
      simp only [code]
      rw [if_neg (by omega), if_neg (by omega), if_pos (by omega),
        show 0x80 + 55 + (Bytes.minimalBE bytes.length).length - 0xb7 =
          (Bytes.minimalBE bytes.length).length by omega]
      unfold longExtent? at long
      dsimp only at long
      split at long
      · next conditions =>
        rw [List.take_left, Bytes.toNatBE_minimalBE, List.drop_left, if_pos, List.take_length]
        exact ⟨conditions.1, conditions.2.1, Nat.le_refl _⟩
      · cases long

theorem nat?_encodeNat {width n : Nat} (short : width ≤ 8) (below : n < Bytes.capacity width) :
    nat? width (encodeNat n) = some n := by
  have size := Bytes.length_minimalBE_le below
  rw [nat?, encodeNat, bytes?_encodeBytes (by omega)]
  show (if _ then _ else _) = _
  rw [if_pos ⟨size, Bytes.head?_minimalBE_ne n⟩, Bytes.toNatBE_minimalBE]
  rfl

theorem uint64?_encodeNat (n : UInt64) : uint64? (encodeNat n.toNat) = some n := by
  rw [uint64?, nat?_encodeNat (Nat.le_refl _) n.toNat_lt, Option.map_some,
    UInt64.ofNat_toNat]

theorem uint32?_encodeNat (n : UInt32) : uint32? (encodeNat n.toNat) = some n := by
  rw [uint32?, nat?_encodeNat (by decide) n.toNat_lt, Option.map_some,
    UInt32.ofNat_toNat]

theorem isItem_encodeNat {n : Nat} (fits : n < 2 ^ 64) : IsItem (encodeNat n) := by
  have : (Bytes.minimalBE n).length ≤ 8 := Bytes.length_minimalBE_le fits
  exact isItem_encodeBytes (by omega)

/-- The items of a list that was written are read by a reader that undoes their writer. -/
theorem listOf?_encodeList {α : Type} {write : α → Bytes} {item? : Bytes → Option α} {l : List α}
    (each : ∀ a ∈ l, IsItem (write a) ∧ item? (write a) = some a)
    (fits : (l.map write).flatten.length < 2 ^ 64) :
    listOf? item? (encodeList (l.map write)) = some l := by
  rw [listOf?, list?_encodeList (by simpa using fun a member => (each a member).1) fits]
  show (l.map write).mapM item? = some l
  exact mapM_map_eq_some fun a member => (each a member).2

theorem length_le_encodeBytes (bytes : Bytes) : bytes.length ≤ (encodeBytes bytes).length := by
  rcases encodeBytes_eq bytes with ⟨b, rfl, _, written⟩ | ⟨_, written⟩ <;> simp [written]

theorem length_flatten_le_encodeList (items : List Bytes) :
    items.flatten.length ≤ (encodeList items).length := by
  simp [encodeList]

/-- Of two payloads the longer one has the longer item. -/
theorem length_header_mono {m n short : Nat} (le : m ≤ n) :
    (header short m).length ≤ (header short n).length := by
  unfold header
  split
  · split <;> simp
  · rw [if_neg (by omega)]
    have := Bytes.length_minimalBE_mono le
    simp only [List.length_cons]
    omega

/-- The length of a list tells that of its items. -/
theorem length_flatten_of_length_encodeList {items others : List Bytes}
    (same : (encodeList items).length = (encodeList others).length) :
    items.flatten.length = others.flatten.length := by
  rw [encodeList, encodeList, List.length_append, List.length_append] at same
  rcases Nat.le_total items.flatten.length others.flatten.length with le | le
  · have : (header 0xc0 items.flatten.length).length ≤ (header 0xc0 others.flatten.length).length :=
      length_header_mono le
    omega
  · have : (header 0xc0 others.flatten.length).length ≤ (header 0xc0 items.flatten.length).length :=
      length_header_mono le
    omega

theorem length_le_encodeList {items : List Bytes} {item : Bytes} (member : item ∈ items) :
    item.length ≤ (encodeList items).length :=
  Nat.le_trans (List.sublist_flatten_of_mem member).length_le (length_flatten_le_encodeList items)

end Rlp

end TwoWayPeg
