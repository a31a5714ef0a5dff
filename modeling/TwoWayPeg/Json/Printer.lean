import TwoWayPeg.Bytes.Basic
import TwoWayPeg.Json.Basic

/-!
The compact text of a JSON value: no blanks, and only the escapes that the format demands.
-/

namespace TwoWayPeg.Json

/-- The text of a character inside a JSON string. -/
def escape (c : Char) : List Char :=
  if c = '"' then ['\\', '"']
  else if c = '\\' then ['\\', '\\']
  else if c = '\n' then ['\\', 'n']
  else if c = '\r' then ['\\', 'r']
  else if c = '\t' then ['\\', 't']
  else if c = '\x08' then ['\\', 'b']
  else if c = '\x0c' then ['\\', 'f']
  else if c.toNat < 0x20 then ['\\', 'u', '0', '0'] ++ Bytes.hexDigits c.toUInt8
  else [c]

/-- The text of a JSON string. A string that denotes no text is written as half a surrogate
    pair. -/
def renderString : Option String → List Char
  | some s => '"' :: (s.toList.flatMap escape ++ ['"'])
  | none => "\"\\ud800\"".toList

/-- The digits of an integer, with a sign when it is negative. -/
def renderInteger : Int → List Char
  | .ofNat n => Nat.toDigits 10 n
  | .negSucc n => '-' :: Nat.toDigits 10 (n + 1)

mutual

/-- The characters of a JSON value. -/
def renderChars : Json → List Char
  | .null => "null".toList
  | .bool true => "true".toList
  | .bool false => "false".toList
  | .integer n => renderInteger n
  | .decimal s => s.toList
  | .string s => renderString s
  | .array [] => ['[', ']']
  | .array (item :: rest) => '[' :: (renderChars item ++ renderItems rest)
  | .object [] => ['{', '}']
  | .object ((name, value) :: rest) =>
    '{' :: (renderString name ++ ':' :: (renderChars value ++ renderMembers rest))

/-- The characters after the first item of an array. -/
def renderItems : List Json → List Char
  | [] => [']']
  | item :: rest => ',' :: (renderChars item ++ renderItems rest)

/-- The characters after the first member of an object. -/
def renderMembers : List (Option String × Json) → List Char
  | [] => ['}']
  | (name, value) :: rest =>
    ',' :: (renderString name ++ ':' :: (renderChars value ++ renderMembers rest))

end

/-- The text of a JSON value. -/
def render (j : Json) : String := String.ofList j.renderChars

end TwoWayPeg.Json
