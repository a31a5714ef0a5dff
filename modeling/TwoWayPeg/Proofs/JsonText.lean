import Mathlib.Data.List.TakeDrop
import TwoWayPeg.Json.Printer
import TwoWayPeg.Json.Reader

/-!
# The text of a JSON value

The text that is written for a value is read as that value. A reader is given what follows the text
too, so each lemma says that just the text is taken. Only numbers need to know what follows, since
more digits, a fraction or an exponent would go on with them; after a value there is the end of the
text or one of the characters that divide and close lists.
-/

namespace TwoWayPeg.Json

/-! ### Numbers -/

/-- What may stand after a value in a list. -/
def MayFollow (rest : List Char) : Prop := ∀ c ∈ rest.head?, c = ',' ∨ c = ']' ∨ c = '}'

/-- Digits before a point or exponent: no zero stands in front of another digit. -/
structure IsWhole (whole : List Char) : Prop where
  digits : ∀ c ∈ whole, c.isDigit = true
  nonempty : whole ≠ []
  leading : whole.head? = some '0' → whole = ['0']

/-- A fraction, or nothing. -/
def IsFraction (fraction : List Char) : Prop :=
  fraction = [] ∨ ∃ digits, fraction = '.' :: digits ∧ digits ≠ [] ∧ ∀ c ∈ digits, c.isDigit = true

/-- An exponent, or nothing. -/
def IsExponent (exponent : List Char) : Prop :=
  exponent = [] ∨ ∃ letter sign digits, exponent = letter :: (sign ++ digits) ∧
    (letter = 'e' ∨ letter = 'E') ∧ (sign = [] ∨ sign = ['+'] ∨ sign = ['-']) ∧
    digits ≠ [] ∧ ∀ c ∈ digits, c.isDigit = true

/-- The text of a number that is no plain integer. -/
def IsDecimal (text : String) : Prop :=
  ∃ negative whole fraction exponent,
    text.toList = (if negative then ['-'] else []) ++ whole ++ fraction ++ exponent ∧
    IsWhole whole ∧ IsFraction fraction ∧ IsExponent exponent ∧
    ¬ (fraction = [] ∧ exponent = [] ∧ ¬ (negative = true ∧ ofDigits whole = 0))

variable {digits whole fraction exponent rest : List Char}

theorem spanDigits_append (all : ∀ c ∈ digits, c.isDigit = true)
    (stop : ∀ c ∈ rest.head?, c.isDigit = false) :
    spanDigits (digits ++ rest) = (digits, rest) := by
  rw [spanDigits, List.span_eq_takeWhile_dropWhile, List.takeWhile_append_of_pos all,
    List.dropWhile_append_of_pos all]
  cases rest with
  | nil => simp
  | cons c rest =>
    have other : ¬ c.isDigit = true := by simp [stop c rfl]
    rw [List.takeWhile_cons_of_neg other, List.dropWhile_cons_of_neg other, List.append_nil]

theorem readWhole_append (isWhole : IsWhole whole)
    (stop : ∀ c ∈ rest.head?, c.isDigit = false) :
    readWhole (whole ++ rest) = some (whole, rest) := by
  rw [readWhole, spanDigits_append isWhole.digits stop]
  split
  · next same =>
    cases same
    exact absurd rfl isWhole.nonempty
  · next same =>
    cases same
    have alone := isWhole.leading rfl
    cases alone
  · next same =>
    cases same
    rfl

theorem readFraction_append (isFraction : IsFraction fraction)
    (stop : ∀ c ∈ rest.head?, c.isDigit = false ∧ c ≠ '.') :
    readFraction (fraction ++ rest) = some (fraction, rest) := by
  rcases isFraction with rfl | ⟨digits, rfl, nonempty, all⟩
  · unfold readFraction
    split
    · next same =>
      rw [List.nil_append] at same
      subst same
      exact absurd rfl (stop '.' rfl).2
    · rfl
  · rw [List.cons_append, readFraction, spanDigits_append all fun c first => (stop c first).1]
    cases digits with
    | nil => exact absurd rfl nonempty
    | cons d digits => rfl

theorem readSign_append {sign : List Char} (isSign : sign = [] ∨ sign = ['+'] ∨ sign = ['-'])
    (all : ∀ c ∈ digits, c.isDigit = true) (nonempty : digits ≠ []) :
    readSign (sign ++ (digits ++ rest)) = (sign, digits ++ rest) := by
  rcases isSign with rfl | rfl | rfl
  · cases digits with
    | nil => exact absurd rfl nonempty
    | cons d digits =>
      have digit := all d List.mem_cons_self
      unfold readSign
      split
      · next same =>
        cases same
        cases digit
      · next same =>
        cases same
        cases digit
      · rfl
  · rfl
  · rfl

theorem readExponent_append (isExponent : IsExponent exponent)
    (stop : ∀ c ∈ rest.head?, c.isDigit = false ∧ c ≠ 'e' ∧ c ≠ 'E') :
    readExponent (exponent ++ rest) = some (exponent, rest) := by
  rcases isExponent with rfl | ⟨letter, sign, digits, rfl, isLetter, isSign, nonempty, all⟩
  · cases rest with
    | nil => rfl
    | cons c rest =>
      obtain ⟨_, lower, upper⟩ := stop c rfl
      rw [List.nil_append, readExponent, if_neg (by simp [lower, upper])]
  · rw [List.cons_append, readExponent, if_pos isLetter, List.append_assoc]
    dsimp only
    rw [readSign_append isSign all nonempty]
    dsimp only
    rw [spanDigits_append all fun c first => (stop c first).1]
    cases digits with
    | nil => exact absurd rfl nonempty
    | cons d digits => rfl

/-- A number without its sign is read to its end. -/
theorem readUnsigned_append (negative : Bool) (isWhole : IsWhole whole)
    (isFraction : IsFraction fraction) (isExponent : IsExponent exponent)
    (follow : MayFollow rest) :
    readUnsigned negative (whole ++ (fraction ++ (exponent ++ rest))) = some
      (if fraction = [] ∧ exponent = [] ∧ ¬(negative = true ∧ ofDigits whole = 0) then
        .integer (if negative then -ofDigits whole else ofDigits whole)
      else .decimal (String.ofList
        ((if negative then ['-'] else []) ++ whole ++ fraction ++ exponent)), rest) := by
  have afterNumber : ∀ c ∈ rest.head?, c.isDigit = false ∧ c ≠ '.' ∧ c ≠ 'e' ∧ c ≠ 'E' := by
    intro c first
    rcases follow c first with rfl | rfl | rfl <;> decide
  have afterFraction : ∀ c ∈ (exponent ++ rest).head?, c.isDigit = false ∧ c ≠ '.' := by
    intro c first
    rcases isExponent with rfl | ⟨letter, sign, digits, rfl, isLetter, _⟩
    · exact ⟨(afterNumber c first).1, (afterNumber c first).2.1⟩
    · cases first
      rcases isLetter with rfl | rfl <;> decide
  have afterWhole : ∀ c ∈ (fraction ++ (exponent ++ rest)).head?, c.isDigit = false := by
    intro c first
    rcases isFraction with rfl | ⟨digits, rfl, _⟩
    · exact (afterFraction c first).1
    · cases first
      rfl
  rw [readUnsigned, readWhole_append isWhole afterWhole]
  show (readFraction _ >>= fun _ => _) = _
  rw [readFraction_append isFraction afterFraction]
  show (readExponent _ >>= fun _ => _) = _
  rw [readExponent_append isExponent fun c first =>
    ⟨(afterNumber c first).1, (afterNumber c first).2.2⟩]
  show (if _ then _ else _) = _
  split <;> rfl

theorem readNumber_append (negative : Bool) (isWhole : IsWhole whole) (rest : List Char) :
    readNumber ((if negative then ['-'] else []) ++ (whole ++ rest)) =
      readUnsigned negative (whole ++ rest) := by
  cases negative with
  | true => rfl
  | false =>
    obtain ⟨all, nonempty, _⟩ := isWhole
    cases whole with
    | nil => exact absurd rfl nonempty
    | cons c whole =>
      have digit := all c List.mem_cons_self
      show readNumber (c :: (whole ++ rest)) = _
      unfold readNumber
      split
      · next same =>
        cases same
        cases digit
      · rfl

theorem readNumber_decimal {text : String} (isDecimal : IsDecimal text) (follow : MayFollow rest) :
    readNumber (text.toList ++ rest) = some (.decimal text, rest) := by
  obtain ⟨negative, whole, fraction, exponent, parts, isWhole, isFraction, isExponent, other⟩ :=
    isDecimal
  have same : String.ofList
      ((if negative then ['-'] else []) ++ whole ++ fraction ++ exponent) = text := by
    rw [← parts, String.ofList_toList]
  rw [parts, List.append_assoc, List.append_assoc, List.append_assoc,
    readNumber_append negative isWhole _,
    readUnsigned_append negative isWhole isFraction isExponent follow, if_neg other, same]

theorem ofDigits_toDigits (n : Nat) : ofDigits (Nat.toDigits 10 n) = n :=
  Nat.ofDigitChars_ten_toDigits

/-- The digits of a number other than zero do not begin with a zero. -/
theorem head?_toDigits_ne {n : Nat} (positive : 0 < n) : (Nat.toDigits 10 n).head? ≠ some '0' := by
  induction n using Nat.strongRecOn with
  | ind n ih =>
    rw [Nat.toDigits_eq_if (by decide)]
    split
    · next small =>
      have each : ∀ n < 10, 0 < n → [n.digitChar].head? ≠ some '0' := by decide
      exact each n small positive
    · next large =>
      have front := ih (n / 10) (by omega) (by omega)
      cases digits : Nat.toDigits 10 (n / 10) with
      | nil => exact absurd digits Nat.toDigits_ne_nil
      | cons d others =>
        rw [digits] at front
        exact front

theorem isWhole_toDigits (n : Nat) : IsWhole (Nat.toDigits 10 n) where
  digits c member := Nat.isDigit_of_mem_toDigits (by decide) (by decide) member
  nonempty := Nat.toDigits_ne_nil
  leading zero := by
    rcases Nat.eq_zero_or_pos n with rfl | positive
    · exact Nat.toDigits_zero 10
    · exact absurd zero (head?_toDigits_ne positive)

theorem readNumber_integer (n : Int) (follow : MayFollow rest) :
    readNumber (renderInteger n ++ rest) = some (.integer n, rest) := by
  have read (negative : Bool) (m : Nat) :=
    readUnsigned_append negative (isWhole_toDigits m) (.inl rfl) (.inl rfl) follow
  cases n with
  | ofNat n =>
    refine (readNumber_append false (isWhole_toDigits n) rest).trans ((read false n).trans ?_)
    rw [if_pos (by simp), ofDigits_toDigits]
    rfl
  | negSucc n =>
    refine (readNumber_append true (isWhole_toDigits (n + 1)) rest).trans
      ((read true (n + 1)).trans ?_)
    rw [ofDigits_toDigits, if_pos (by simp)]
    rfl

/-! ### Strings -/

theorem readPieces_letter {letter c : Char} (isLetter : letterEscape? letter = some c)
    (cs : List Char) : readPieces ('\\' :: letter :: cs) =
      (readPieces cs).map fun (pieces, rest) => (.char c :: pieces, rest) := by
  have other : letter ≠ 'u' := by
    rintro rfl
    cases isLetter
  rw [readPieces, isLetter]
  · cases readPieces cs <;> rfl
  · intro a b c d rest same
    exact absurd same other

theorem readPieces_plain {c : Char} (quote : c ≠ '"') (escapes : c ≠ '\\')
    (printable : ¬ c.toNat < 0x20) (cs : List Char) : readPieces (c :: cs) =
      (readPieces cs).map fun (pieces, rest) => (.char c :: pieces, rest) := by
  rw [readPieces, if_neg (by simp [escapes, printable])]
  · cases readPieces cs <;> rfl
  all_goals simp_all

theorem readPieces_unit {n : Nat} (control : n < 0x20) (cs : List Char) :
    readPieces ('\\' :: 'u' :: '0' :: '0' :: (n / 16).digitChar :: (n % 16).digitChar :: cs) =
      (readPieces cs).map fun (pieces, rest) => (.unit n :: pieces, rest) := by
  have each : ∀ n < 0x20, unit? '0' '0' (n / 16).digitChar (n % 16).digitChar = some n := by decide
  rw [readPieces, each n control]
  cases readPieces cs <;> rfl

/-- A character is written by a letter, as a control character or as itself. -/
theorem escape_eq (c : Char) :
    (∃ letter, letterEscape? letter = some c ∧ escape c = ['\\', letter]) ∨
    (c.toNat < 0x20 ∧
      escape c = ['\\', 'u', '0', '0', (c.toNat / 16).digitChar, (c.toNat % 16).digitChar]) ∨
    (c ≠ '"' ∧ c ≠ '\\' ∧ ¬ c.toNat < 0x20 ∧ escape c = [c]) := by
  by_cases member : c ∈ ['"', '\\', '\n', '\r', '\t', '\x08', '\x0c']
  · simp only [List.mem_cons, List.not_mem_nil, or_false] at member
    left
    rcases member with rfl | rfl | rfl | rfl | rfl | rfl | rfl
    exacts [⟨'"', rfl, rfl⟩, ⟨'\\', rfl, rfl⟩, ⟨'n', rfl, rfl⟩, ⟨'r', rfl, rfl⟩, ⟨'t', rfl, rfl⟩,
      ⟨'b', rfl, rfl⟩, ⟨'f', rfl, rfl⟩]
  · simp only [List.mem_cons, List.not_mem_nil, or_false, not_or] at member
    obtain ⟨quote, escapes, n, r, t, b, f⟩ := member
    rw [escape, if_neg quote, if_neg escapes, if_neg n, if_neg r, if_neg t, if_neg b, if_neg f]
    split
    · next control =>
      have byte : c.toUInt8.toNat = c.toNat := by
        show c.val.toNat % 256 = c.val.toNat
        exact Nat.mod_eq_of_lt (Nat.lt_trans control (by decide))
      refine .inr (.inl ⟨control, ?_⟩)
      rw [Bytes.hexDigits, byte]
      rfl
    · next printable => exact .inr (.inr ⟨quote, escapes, printable, rfl⟩)

theorem assemble_unit {n : Nat} (control : n < 0x20) (pieces : List Piece) :
    assemble (.unit n :: pieces) = (assemble pieces).map (Char.ofNat n :: ·) := by
  rw [assemble.eq_def]
  dsimp only
  rw [if_neg (by omega), if_neg (by omega)]

/-- The text of a character is read as one piece, which denotes the character. -/
theorem exists_piece (c : Char) : ∃ piece : Piece,
    (∀ cs, readPieces (escape c ++ cs) =
      (readPieces cs).map fun (pieces, rest) => (piece :: pieces, rest)) ∧
    ∀ pieces, assemble (piece :: pieces) = (assemble pieces).map (c :: ·) := by
  rcases escape_eq c with ⟨letter, isLetter, written⟩ | ⟨control, written⟩ |
    ⟨quote, escapes, printable, written⟩
  · rw [written]
    exact ⟨.char c, readPieces_letter isLetter, fun _ => rfl⟩
  · rw [written]
    refine ⟨.unit c.toNat, readPieces_unit control, fun pieces => ?_⟩
    rw [assemble_unit control, Char.ofNat_toNat]
  · rw [written]
    exact ⟨.char c, readPieces_plain quote escapes printable, fun _ => rfl⟩

theorem exists_pieces (cs rest : List Char) : ∃ pieces,
    readPieces (cs.flatMap escape ++ '"' :: rest) = some (pieces, rest) ∧
      assemble pieces = some cs := by
  induction cs with
  | nil => exact ⟨[], rfl, rfl⟩
  | cons c cs ih =>
    obtain ⟨pieces, read, assembled⟩ := ih
    obtain ⟨piece, readFirst, denotes⟩ := exists_piece c
    refine ⟨piece :: pieces, ?_, ?_⟩
    · rw [List.flatMap_cons, List.append_assoc, readFirst, read]
      rfl
    · rw [denotes, assembled]
      rfl

/-- A string is read to its closing quote. -/
theorem readString_renderString (s : Option String) : ∃ body,
    renderString s = '"' :: body ∧ ∀ rest, readString (body ++ rest) = some (s, rest) := by
  cases s with
  | none =>
    refine ⟨['\\', 'u', 'd', '8', '0', '0', '"'], rfl, fun rest => ?_⟩
    have half : unit? 'd' '8' '0' '0' = some 0xd800 := by decide
    have read : readPieces ('\\' :: 'u' :: 'd' :: '8' :: '0' :: '0' :: '"' :: rest) =
        some ([.unit 0xd800], rest) := by
      rw [readPieces, half, readPieces]
      rfl
    show readString ('\\' :: 'u' :: 'd' :: '8' :: '0' :: '0' :: '"' :: rest) = _
    rw [readString, read]
    rfl
  | some s =>
    refine ⟨s.toList.flatMap escape ++ ['"'], rfl, fun rest => ?_⟩
    obtain ⟨pieces, read, assembled⟩ := exists_pieces s.toList rest
    rw [List.append_assoc, List.singleton_append, readString, read, Option.map_some]
    dsimp only
    rw [assembled, Option.map_some, String.ofList_toList]

/-! ### Values -/

/-- A value whose numbers that are no plain integers are numbers indeed. -/
inductive Printable : Json → Prop
  | null : Printable .null
  | bool (value : Bool) : Printable (.bool value)
  | integer (n : Int) : Printable (.integer n)
  | decimal {text : String} (isDecimal : IsDecimal text) : Printable (.decimal text)
  | string (s : Option String) : Printable (.string s)
  | array {items : List Json} (each : ∀ item ∈ items, Printable item) : Printable (.array items)
  | object {members : List (Option String × Json)} (each : ∀ m ∈ members, Printable m.2) :
    Printable (.object members)

/-- How the text of a number begins. -/
def StartsNumber (c : Char) : Prop := c.isDigit = true ∨ c = '-'

instance : DecidablePred StartsNumber := fun c =>
  inferInstanceAs (Decidable (c.isDigit = true ∨ c = '-'))

theorem StartsNumber.ne {c d : Char} (starts : StartsNumber c) (other : ¬ StartsNumber d) :
    c ≠ d := by
  rintro rfl
  exact other starts

theorem exists_first (negative : Bool) (isWhole : IsWhole whole) (rest : List Char) :
    ∃ c cs, (if negative then ['-'] else []) ++ (whole ++ rest) = c :: cs ∧ StartsNumber c := by
  cases negative with
  | true => exact ⟨'-', _, rfl, .inr rfl⟩
  | false =>
    obtain ⟨all, nonempty, _⟩ := isWhole
    cases whole with
    | nil => exact absurd rfl nonempty
    | cons c whole => exact ⟨c, _, rfl, .inl (all c List.mem_cons_self)⟩

theorem renderInteger_first (n : Int) : ∃ c cs, renderInteger n = c :: cs ∧ StartsNumber c := by
  cases n with
  | ofNat n =>
    have first := exists_first false (isWhole_toDigits n) []
    rwa [List.append_nil] at first
  | negSucc n => exact ⟨'-', _, rfl, .inr rfl⟩

theorem decimal_first {text : String} (isDecimal : IsDecimal text) :
    ∃ c cs, text.toList = c :: cs ∧ StartsNumber c := by
  obtain ⟨negative, whole, fraction, exponent, parts, isWhole, _⟩ := isDecimal
  rw [parts, List.append_assoc, List.append_assoc]
  exact exists_first negative isWhole _

theorem readValue_number {c : Char} (starts : StartsNumber c) (fuel : Nat) (cs : List Char) :
    readValue (fuel + 1) (c :: cs) = readNumber (c :: cs) := by
  rw [readValue]
  all_goals
    intro rest same
    exact starts.ne (by decide) (List.cons.inj same).1

/-- The text of a value does not begin with a blank or the end of an array. -/
theorem renderChars_first {j : Json} (printable : j.Printable) :
    ∃ c cs, renderChars j = c :: cs ∧ isBlank c = false ∧ c ≠ ']' := by
  have number {c : Char} (starts : StartsNumber c) : isBlank c = false ∧ c ≠ ']' := by
    constructor
    · simp [isBlank, starts.ne (d := ' ') (by decide), starts.ne (d := '\t') (by decide),
        starts.ne (d := '\n') (by decide), starts.ne (d := '\r') (by decide)]
    · exact starts.ne (by decide)
  cases printable with
  | null => exact ⟨'n', _, rfl, by decide⟩
  | bool value => cases value <;> exact ⟨_, _, rfl, by decide⟩
  | integer n =>
    obtain ⟨c, cs, written, starts⟩ := renderInteger_first n
    exact ⟨c, cs, by rw [renderChars, written], number starts⟩
  | decimal isDecimal =>
    obtain ⟨c, cs, written, starts⟩ := decimal_first isDecimal
    exact ⟨c, cs, by rw [renderChars, written], number starts⟩
  | string s =>
    obtain ⟨body, written, _⟩ := readString_renderString s
    exact ⟨'"', body, by rw [renderChars, written], by decide⟩
  | @array items each => cases items <;> exact ⟨'[', _, rfl, by decide⟩
  | @object members each =>
    cases members with
    | nil => exact ⟨'{', _, rfl, by decide⟩
    | cons m members => exact ⟨'{', _, rfl, by decide⟩

theorem skipBlanks_cons {c : Char} (visible : isBlank c = false) (cs : List Char) :
    skipBlanks (c :: cs) = c :: cs := List.dropWhile_cons_of_neg (by simp [visible])

theorem skipBlanks_renderString (s : Option String) (rest : List Char) :
    skipBlanks (renderString s ++ rest) = renderString s ++ rest := by
  obtain ⟨body, written, _⟩ := readString_renderString s
  rw [written]
  exact skipBlanks_cons (by decide) _

theorem skipBlanks_renderChars {j : Json} (printable : j.Printable) (rest : List Char) :
    skipBlanks (renderChars j ++ rest) = renderChars j ++ rest := by
  obtain ⟨c, cs, written, visible, _⟩ := renderChars_first printable
  rw [written]
  exact skipBlanks_cons visible _

/-- With fuel for its text, the value is read from its text, whatever may follow it. -/
def Reads (j : Json) : Prop := ∀ fuel rest, 2 * (renderChars j).length ≤ fuel → MayFollow rest →
  readValue fuel (renderChars j ++ rest) = some (j, rest)

theorem mayFollow_renderItems (items : List Json) (rest : List Char) :
    MayFollow (renderItems items ++ rest) := by
  intro c first
  cases items <;> cases first
  · exact .inr (.inl rfl)
  · exact .inl rfl

theorem mayFollow_renderMembers (members : List (Option String × Json)) (rest : List Char) :
    MayFollow (renderMembers members ++ rest) := by
  intro c first
  cases members <;> cases first
  · exact .inr (.inr rfl)
  · exact .inl rfl

section

variable {fuel : Nat} {cs after more : List Char} {name : Option String} {value : Json}
  {items : List Json} {members : List (Option String × Json)}

theorem readItems_last (first : readValue fuel cs = some (value, ']' :: rest)) :
    readItems (fuel + 1) cs = some ([value], rest) := by
  rw [readItems, first]
  rfl

theorem readItems_more (first : readValue fuel cs = some (value, ',' :: more))
    (others : readItems fuel (skipBlanks more) = some (items, rest)) :
    readItems (fuel + 1) cs = some (value :: items, rest) := by
  rw [readItems, first]
  show (readItems fuel (skipBlanks more) >>= fun _ => _) = _
  rw [others]
  rfl

theorem readMembers_last (named : readString cs = some (name, ':' :: after))
    (first : readValue fuel (skipBlanks after) = some (value, '}' :: rest)) :
    readMembers (fuel + 1) ('"' :: cs) = some ([(name, value)], rest) := by
  rw [readMembers, named]
  show (readValue fuel (skipBlanks after) >>= fun _ => _) = _
  rw [first]
  rfl

theorem readMembers_more (named : readString cs = some (name, ':' :: after))
    (first : readValue fuel (skipBlanks after) = some (value, ',' :: more))
    (others : readMembers fuel (skipBlanks more) = some (members, rest)) :
    readMembers (fuel + 1) ('"' :: cs) = some ((name, value) :: members, rest) := by
  rw [readMembers, named]
  show (readValue fuel (skipBlanks after) >>= fun _ => _) = _
  rw [first]
  show (readMembers fuel (skipBlanks more) >>= fun _ => _) = _
  rw [others]
  rfl

theorem readValue_items {c : Char} (starts : skipBlanks cs = c :: after) (other : c ≠ ']')
    (list : readItems fuel (c :: after) = some (items, rest)) :
    readValue (fuel + 1) ('[' :: cs) = some (.array items, rest) := by
  rw [readValue, starts]
  split
  · next same => exact absurd (List.cons.inj same).1 other
  · next same =>
    rw [list]
    rfl

theorem readValue_members {c : Char} (starts : skipBlanks cs = c :: after) (other : c ≠ '}')
    (list : readMembers fuel (c :: after) = some (members, rest)) :
    readValue (fuel + 1) ('{' :: cs) = some (.object members, rest) := by
  rw [readValue, starts]
  split
  · next same => exact absurd (List.cons.inj same).1 other
  · next same =>
    rw [list]
    rfl

end

/-- The items of an array are read from their text. Fuel for the text of the list is enough: each
    item takes one call for itself and leaves its comma or bracket to pay for it. -/
theorem readItems_append (items : List Json) (printable : ∀ item ∈ items, item.Printable)
    (reads : ∀ item ∈ items, item.Reads) (rest : List Char) :
    ∀ (item : Json) (fuel : Nat), item.Reads →
      2 * ((renderChars item).length + (renderItems items).length) ≤ fuel →
      readItems fuel (renderChars item ++ (renderItems items ++ rest)) =
        some (item :: items, rest) := by
  induction items with
  | nil =>
    intro item fuel readsFirst enough
    simp only [renderItems, List.length_singleton] at enough
    obtain ⟨fuel, rfl⟩ : ∃ n, fuel = n + 1 := ⟨fuel - 1, by omega⟩
    exact readItems_last (readsFirst fuel _ (by omega) (mayFollow_renderItems [] rest))
  | cons next items ih =>
    intro item fuel readsFirst enough
    simp only [renderItems, List.length_cons, List.length_append] at enough
    obtain ⟨fuel, rfl⟩ : ∃ n, fuel = n + 1 := ⟨fuel - 1, by omega⟩
    have others := ih (fun m member => printable m (.tail _ member))
      (fun m member => reads m (.tail _ member)) next fuel (reads next (.head _)) (by omega)
    have first := readsFirst fuel _ (by omega) (mayFollow_renderItems (next :: items) rest)
    rw [renderItems, List.cons_append, List.append_assoc] at first ⊢
    refine readItems_more first ?_
    rw [skipBlanks_renderChars (printable next (.head _)), others]

/-- The members of an object are read from their text, like the items of an array. -/
theorem readMembers_append (members : List (Option String × Json))
    (printable : ∀ m ∈ members, m.2.Printable) (reads : ∀ m ∈ members, m.2.Reads)
    (rest : List Char) : ∀ (name : Option String) (value : Json) (fuel : Nat),
      value.Printable → value.Reads →
      2 * ((renderChars value).length + (renderMembers members).length) ≤ fuel →
      readMembers fuel (renderString name ++ ':' :: (renderChars value ++
        (renderMembers members ++ rest))) = some ((name, value) :: members, rest) := by
  induction members with
  | nil =>
    intro name value fuel printableFirst readsFirst enough
    simp only [renderMembers, List.length_singleton] at enough
    obtain ⟨fuel, rfl⟩ : ∃ n, fuel = n + 1 := ⟨fuel - 1, by omega⟩
    obtain ⟨body, written, named⟩ := readString_renderString name
    rw [written]
    have first := readsFirst fuel _ (by omega) (mayFollow_renderMembers [] rest)
    rw [← skipBlanks_renderChars printableFirst] at first
    exact readMembers_last (named _) first
  | cons next members ih =>
    intro name value fuel printableFirst readsFirst enough
    simp only [renderMembers, List.length_cons, List.length_append] at enough
    obtain ⟨fuel, rfl⟩ : ∃ n, fuel = n + 1 := ⟨fuel - 1, by omega⟩
    obtain ⟨body, written, named⟩ := readString_renderString name
    have others := ih (fun m member => printable m (.tail _ member))
      (fun m member => reads m (.tail _ member)) next.1 next.2 fuel (printable next (.head _))
      (reads next (.head _)) (by omega)
    have first := readsFirst fuel _ (by omega) (mayFollow_renderMembers (next :: members) rest)
    have list : renderMembers (next :: members) ++ rest = ',' :: (renderString next.1 ++
        ':' :: (renderChars next.2 ++ (renderMembers members ++ rest))) := by
      simp [renderMembers]
    rw [list] at first ⊢
    rw [written]
    rw [← skipBlanks_renderChars printableFirst] at first
    refine readMembers_more (named _) first ?_
    rw [skipBlanks_renderString, others]

theorem Reads.of_succ {j : Json} (printable : j.Printable)
    (read : ∀ fuel rest, 2 * (renderChars j).length ≤ fuel + 1 → MayFollow rest →
      readValue (fuel + 1) (renderChars j ++ rest) = some (j, rest)) : j.Reads := by
  intro fuel rest enough follow
  obtain ⟨c, cs, written, _⟩ := renderChars_first printable
  have positive : 0 < (renderChars j).length := written ▸ Nat.succ_pos _
  obtain ⟨fuel, rfl⟩ : ∃ n, fuel = n + 1 := ⟨fuel - 1, by omega⟩
  exact read fuel rest enough follow

/-- The text of a value is read as the value. -/
theorem Printable.reads {j : Json} (printable : j.Printable) : j.Reads := by
  induction printable with
  | null => exact .of_succ .null fun _ _ _ _ => rfl
  | bool value =>
    refine .of_succ (.bool value) fun _ _ _ _ => ?_
    cases value <;> rfl
  | integer n =>
    refine .of_succ (.integer n) fun fuel rest _ follow => ?_
    obtain ⟨c, cs, written, starts⟩ := renderInteger_first n
    rw [← readNumber_integer n follow, renderChars, written]
    exact readValue_number starts fuel _
  | decimal isDecimal =>
    refine .of_succ (.decimal isDecimal) fun fuel rest _ follow => ?_
    obtain ⟨c, cs, written, starts⟩ := decimal_first isDecimal
    rw [← readNumber_decimal isDecimal follow, renderChars, written]
    exact readValue_number starts fuel _
  | string s =>
    refine .of_succ (.string s) fun fuel rest _ _ => ?_
    obtain ⟨body, written, named⟩ := readString_renderString s
    rw [renderChars, written, List.cons_append, readValue, named]
    rfl
  | @array items each ih =>
    refine .of_succ (.array each) fun fuel rest enough _ => ?_
    cases items with
    | nil => rfl
    | cons item items =>
      simp only [renderChars, List.length_cons, List.length_append] at enough
      obtain ⟨c, cs, written, visible, other⟩ := renderChars_first (each item (.head _))
      have list := readItems_append items (fun m member => each m (.tail _ member))
        (fun m member => ih m (.tail _ member)) rest item fuel (ih item (.head _)) (by omega)
      rw [renderChars, List.cons_append, List.append_assoc]
      rw [written, List.cons_append] at list ⊢
      exact readValue_items (skipBlanks_cons visible _) other list
  | @object members each ih =>
    refine .of_succ (.object each) fun fuel rest enough _ => ?_
    cases members with
    | nil => rfl
    | cons m members =>
      simp only [renderChars, List.length_cons, List.length_append] at enough
      obtain ⟨body, written, _⟩ := readString_renderString m.1
      have list := readMembers_append members (fun m member => each m (.tail _ member))
        (fun m member => ih m (.tail _ member)) rest m.1 m.2 fuel (each m (.head _))
        (ih m (.head _)) (by omega)
      rw [renderChars, List.cons_append, List.append_assoc, List.cons_append, List.append_assoc]
      rw [written, List.cons_append] at list ⊢
      exact readValue_members (skipBlanks_cons (by decide) _) (by decide) list

/-- A file in the compact layout holds the value that was written. -/
theorem parse_render {j : Json} (printable : j.Printable) : parse j.render = some j := by
  have blanks := skipBlanks_renderChars printable []
  have read := printable.reads (2 * (renderChars j).length + 2) [] (by omega) nofun
  rw [List.append_nil] at blanks read
  rw [parse, render, String.toList_ofList, parseChars, blanks, read]
  rfl

end TwoWayPeg.Json
