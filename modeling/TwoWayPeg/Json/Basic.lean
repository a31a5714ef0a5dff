/-!
JSON values as written: members of an object keep their order and may repeat, and a number that is
not written as a plain integer keeps its text.
-/

namespace TwoWayPeg

/-- A JSON value. A string is `none` when its escapes name half of a surrogate pair, so that it
    denotes no text. -/
inductive Json where
  | null
  | bool (value : Bool)
  /-- A number without fraction, exponent or negative zero. -/
  | integer (value : Int)
  /-- Any other number, as written. -/
  | decimal (text : String)
  | string (text : Option String)
  | array (items : List Json)
  | object (members : List (Option String × Json))
deriving Inhabited

namespace Json

/-- The JSON string of a text. -/
def text (s : String) : Json := .string (some s)

/-- The JSON number of a natural number. -/
def nat (n : Nat) : Json := .integer n

/-- The object with the given members. -/
def record (members : List (String × Json)) : Json :=
  .object (members.map fun (name, value) => (some name, value))

/-- The text of a JSON string that denotes one. -/
def text? : Json → Option String
  | .string s => s
  | _ => none

/-- The items of a JSON array. -/
def items? : Json → Option (List Json)
  | .array items => some items
  | _ => none

/-- The value of an integer of `bits` bits without sign. -/
def unsigned? (bits : Nat) : Json → Option Nat
  | .integer n => if 0 ≤ n ∧ n.toNat < 1 <<< bits then some n.toNat else none
  | _ => none

/-- The value of a 64-bit integer without sign. -/
def uint64? (j : Json) : Option UInt64 := (j.unsigned? 64).map UInt64.ofNat

/-- The value of the first member with a name. -/
def member? (name : String) : Json → Option Json
  | .object members => (members.find? fun m => m.1 == some name).map (·.2)
  | _ => none

end Json

end TwoWayPeg
