import TwoWayPeg.Proofs.Digits
import TwoWayPeg.Script.Basic

/-!
# The forms of a script

A push can be written in several forms, of which a writer of scripts takes the shortest. `Written`
says which byte strings write a list of instructions in any form; these are the ones that are read as
that list.
-/

namespace TwoWayPeg

namespace Script

/-- The opcodes that count the bytes that they push, and the width of the count. -/
def countedPushes : List (UInt8 × Nat) := [(0x4c, 1), (0x4d, 2), (0x4e, 4)]

/-- The bytes that write a list of instructions. -/
inductive Written : Script → List Instruction → Prop
  | nil : Written [] []
  /-- The opcode is the number of bytes. -/
  | direct {data rest : Bytes} {l : List Instruction} (short : data.length ≤ 75)
      (tail : Written rest l) :
      Written (UInt8.ofNat data.length :: data ++ rest) (.push data :: l)
  /-- The number of bytes follows the opcode. -/
  | counted {code : UInt8} {width : Nat} {data rest : Bytes} {l : List Instruction}
      (counts : (code, width) ∈ countedPushes) (fits : data.length < Bytes.capacity width)
      (tail : Written rest l) :
      Written (code :: Bytes.littleEndian width data.length ++ data ++ rest) (.push data :: l)
  | plain {code : UInt8} {rest : Bytes} {l : List Instruction} (high : 0x4e < code)
      (tail : Written rest l) : Written (code :: rest) (.op code :: l)

variable {script rest : Script} {l : List Instruction} {i : Instruction} {data : Bytes}

theorem instructions?_of_next? (read : next? script = some (i, rest)) :
    instructions? script = (instructions? rest).map (i :: ·) := by
  cases script with
  | nil => cases read
  | cons code tail =>
    rw [instructions?]
    split
    · next failed =>
      rw [read] at failed
      cases failed
    · next found =>
      rw [read] at found
      cases found
      rfl

/-- How each opcode starts an instruction. -/
theorem opening_cases (code : UInt8) :
    (code.toNat ≤ 75 ∧ opening code = .direct code.toNat) ∨
      (∃ width, (code, width) ∈ countedPushes ∧ opening code = .counted width) ∨
      (0x4e < code ∧ opening code = .plain) := by
  unfold opening
  by_cases short : code ≤ 75
  · exact .inl ⟨UInt8.le_iff_toNat_le.1 short, if_pos short⟩
  rw [if_neg short]
  by_cases one : code = 0x4c
  · exact .inr (.inl ⟨1, by simp [countedPushes, one], if_pos one⟩)
  rw [if_neg one]
  by_cases two : code = 0x4d
  · exact .inr (.inl ⟨2, by simp [countedPushes, two], if_pos two⟩)
  rw [if_neg two]
  by_cases four : code = 0x4e
  · exact .inr (.inl ⟨4, by simp [countedPushes, four], if_pos four⟩)
  refine .inr (.inr ⟨?_, if_neg four⟩)
  rw [UInt8.le_iff_toNat_le] at short
  rw [← UInt8.toNat_inj] at one two four
  rw [UInt8.lt_iff_toNat_lt]
  simp at short one two four ⊢
  omega

theorem opening_of_length (short : data.length ≤ 75) :
    opening (UInt8.ofNat data.length) = .direct data.length := by
  have number : (UInt8.ofNat data.length).toNat = data.length := by
    rw [UInt8.toNat_ofNat', Nat.mod_eq_of_lt (by omega)]
  rw [opening, if_pos (UInt8.le_iff_toNat_le.2 (by rw [number]; exact short)), number]

theorem opening_of_counted {code : UInt8} {width : Nat} (counts : (code, width) ∈ countedPushes) :
    opening code = .counted width := by
  simp only [countedPushes, List.mem_cons, Prod.mk.injEq, List.not_mem_nil, or_false] at counts
  rcases counts with ⟨rfl, rfl⟩ | ⟨rfl, rfl⟩ | ⟨rfl, rfl⟩ <;> rfl

theorem opening_of_plain {code : UInt8} (high : 0x4e < code) : opening code = .plain := by
  rcases opening_cases code with ⟨short, _⟩ | ⟨width, counts, _⟩ | ⟨_, plain⟩
  · rw [UInt8.lt_iff_toNat_lt] at high
    exact absurd (Nat.lt_of_lt_of_le high short) (by decide)
  · simp only [countedPushes, List.mem_cons, Prod.mk.injEq, List.not_mem_nil, or_false] at counts
    rcases counts with ⟨rfl, _⟩ | ⟨rfl, _⟩ | ⟨rfl, _⟩ <;> exact absurd high (by decide)
  · exact plain

theorem next?_direct (short : data.length ≤ 75) :
    next? (UInt8.ofNat data.length :: data ++ rest) = some (.push data, rest) := by
  rw [List.cons_append, next?, opening_of_length short]
  simp

theorem next?_counted {code : UInt8} {width : Nat} (counts : (code, width) ∈ countedPushes)
    (fits : data.length < Bytes.capacity width) :
    next? (code :: Bytes.littleEndian width data.length ++ data ++ rest) =
      some (.push data, rest) := by
  rw [List.append_assoc, List.cons_append, next?, opening_of_counted counts]
  have taken : (Bytes.littleEndian width data.length ++ (data ++ rest)).take width =
      Bytes.littleEndian width data.length := List.take_left' (Bytes.length_littleEndian _ _)
  have left : (Bytes.littleEndian width data.length ++ (data ++ rest)).drop width =
      data ++ rest := List.drop_left' (Bytes.length_littleEndian _ _)
  simp only [taken, left, Bytes.toNatLE_littleEndian, Nat.mod_eq_of_lt fits]
  simp

theorem next?_plain {code : UInt8} (high : 0x4e < code) :
    next? (code :: rest) = some (.op code, rest) := by
  rw [next?, opening_of_plain high]

theorem instructions?_of_written (written : Written script l) : instructions? script = some l := by
  induction written with
  | nil => rw [instructions?]
  | direct short _ ih => rw [instructions?_of_next? (next?_direct short), ih, Option.map_some]
  | counted counts fits _ ih =>
    rw [instructions?_of_next? (next?_counted counts fits), ih, Option.map_some]
  | plain high _ ih => rw [instructions?_of_next? (next?_plain high), ih, Option.map_some]

/-- How an instruction that is read was written. -/
theorem written_of_next? (read : next? script = some (i, rest)) (tail : Written rest l) :
    Written script (i :: l) := by
  cases script with
  | nil => cases read
  | cons code bytes =>
    rcases opening_cases code with ⟨short, opened⟩ | ⟨width, counts, opened⟩ | ⟨high, opened⟩
    · simp only [next?, opened, Option.ite_none_right_eq_some, Option.some.injEq,
        Prod.mk.injEq] at read
      obtain ⟨enough, rfl, rfl⟩ := read
      have length : (bytes.take code.toNat).length = code.toNat := by
        rw [List.length_take, Nat.min_eq_left enough]
      have few : (bytes.take code.toNat).length ≤ 75 := by
        rw [length]
        exact short
      have written := Written.direct few tail
      rwa [length, UInt8.ofNat_toNat, List.cons_append, List.take_append_drop] at written
    · simp only [next?, opened, Option.ite_none_right_eq_some, Option.some.injEq,
        Prod.mk.injEq] at read
      obtain ⟨⟨wide, enough⟩, rfl, rfl⟩ := read
      have count : (bytes.take width).length = width := by
        rw [List.length_take, Nat.min_eq_left wide]
      have length : ((bytes.drop width).take (Bytes.toNatLE (bytes.take width))).length =
          Bytes.toNatLE (bytes.take width) := by
        rw [List.length_take, Nat.min_eq_left enough]
      have size := Bytes.littleEndian_toNatLE (bytes.take width)
      have fits := Bytes.toNatLE_lt (bytes.take width)
      rw [count] at size fits
      have written := Written.counted counts (by rw [length]; exact fits) tail
      rwa [length, size, List.append_assoc, List.take_append_drop, List.cons_append,
        List.take_append_drop] at written
    · simp only [next?, opened, Option.some.injEq, Prod.mk.injEq] at read
      obtain ⟨rfl, rfl⟩ := read
      exact .plain high tail

/-- The bytes that are read as a list of instructions are those that write it. -/
theorem instructions?_eq_some_iff : instructions? script = some l ↔ Written script l := by
  refine ⟨fun read => ?_, instructions?_of_written⟩
  fun_induction instructions? script generalizing l with
  | case1 =>
    cases read
    exact .nil
  | case2 => cases read
  | case3 code tail i rest found ih =>
    obtain ⟨later, others, rfl⟩ := Option.map_eq_some_iff.1 read
    exact written_of_next? found (ih others)

/-- The last push of a script is found in whatever form it is written, unless it pushes nothing. -/
theorem lastPush?_eq_some_iff : lastPush? script = some data ↔
    data ≠ [] ∧ ∃ before, Written script (before ++ [.push data]) := by
  unfold lastPush?
  constructor
  · intro found
    split at found
    · next b rest ends =>
      cases found
      obtain ⟨whole, read, last⟩ := Option.bind_eq_some_iff.1 ends
      obtain ⟨before, rfl⟩ := List.getLast?_eq_some_iff.1 last
      exact ⟨List.cons_ne_nil _ _, before, instructions?_eq_some_iff.1 read⟩
    · cases found
  · rintro ⟨some, before, written⟩
    obtain ⟨b, rest, rfl⟩ := List.exists_cons_of_ne_nil some
    rw [instructions?_of_written written, Option.bind_some, List.getLast?_concat]

theorem written_encodePush (short : data.length < 0x100000000) (tail : Written rest l) :
    Written (Instruction.encodePush data ++ rest) (.push data :: l) := by
  unfold Instruction.encodePush
  dsimp only
  split
  · next direct => exact .direct direct tail
  split
  · next one => exact .counted (by simp [countedPushes]) one tail
  split
  · next two => exact .counted (by simp [countedPushes]) two tail
  · exact .counted (by simp [countedPushes]) short tail

/-- The shortest form of each instruction writes it. -/
theorem written_ofInstructions
    (short : ∀ data, .push data ∈ l → data.length < 0x100000000)
    (plain : ∀ code, .op code ∈ l → 0x4e < code) : Written (ofInstructions l) l := by
  induction l with
  | nil => exact .nil
  | cons i l ih =>
    have tail := ih (fun data member => short data (List.mem_cons_of_mem _ member))
      fun code member => plain code (List.mem_cons_of_mem _ member)
    rw [ofInstructions, List.flatMap_cons]
    cases i with
    | push data => exact written_encodePush (short data List.mem_cons_self) tail
    | op code => exact .plain (plain code List.mem_cons_self) tail

end Script

end TwoWayPeg
