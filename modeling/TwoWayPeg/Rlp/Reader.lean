import TwoWayPeg.Bytes.Fixed

/-!
Reading the recursive length-prefix format.

An item is read from the front of a buffer and has to fit into it. The items of a list are read one
after another until one cannot be read, which ends the list without an error. The first item has
to fit into the payload of the list; a later one has to fit only into the buffer that the list was
read from, so that bytes after a list can extend it.
-/

namespace TwoWayPeg.Rlp

/-- The lengths of the header and the payload of an item. -/
structure Extent where
  header : Nat
  payload : Nat
deriving DecidableEq, Inhabited

/-- The length of an item. -/
def Extent.total (e : Extent) : Nat := e.header + e.payload

/-- The extent of an item whose length takes `width` bytes: they do not start with zero, and write
    a number above 55. -/
def longExtent? (width : Nat) (afterFirst : Bytes) : Option Extent :=
  let size := Bytes.toNatBE (afterFirst.take width)
  if width ≤ afterFirst.length ∧ afterFirst.head? ≠ some 0 ∧ 55 < size then
    some ⟨1 + width, size⟩
  else none

/-- The extent that the header in front of bytes announces. -/
def announced? : Bytes → Option Extent
  | [] => none
  | first :: rest =>
    let code := first.toNat
    if code < 0x80 then some ⟨0, 1⟩
    else if code < 0xb8 then some ⟨1, code - 0x80⟩
    else if code < 0xc0 then longExtent? (code - 0xb7) rest
    else if code < 0xf8 then some ⟨1, code - 0xc0⟩
    else longExtent? (code - 0xf7) rest

/-- The extent of the item in front of bytes, if it fits into them. -/
def extent? (bytes : Bytes) : Option Extent :=
  (announced? bytes).filter fun e => e.total ≤ bytes.length

/-- Whether an item is a list, by its first byte alone. -/
def isList (item : Bytes) : Bool :=
  match item with
  | first :: _ => 0xc0 ≤ first
  | [] => false

/-- The payload of an item of any kind. -/
def payload? (item : Bytes) : Option Bytes :=
  (extent? item).map fun e => (item.drop e.header).take e.payload

/-- The items in front of bytes, up to the first that cannot be read; at most `fuel` of them. -/
def itemsUpTo : Nat → Bytes → List Bytes
  | 0, _ => []
  | fuel + 1, bytes =>
    match extent? bytes with
    | none => []
    | some e => bytes.take e.total :: itemsUpTo fuel (bytes.drop e.total)

/-- The items of a list: none if its first one does not fit into its payload. -/
def items (list : Bytes) : List Bytes :=
  match extent? list with
  | none => []
  | some e =>
    let content := list.drop e.header
    if (extent? (content.take e.payload)).isSome then itemsUpTo content.length content else []

/-- The items of an item that is a list. -/
def list? (item : Bytes) : Option (List Bytes) := if isList item then some (items item) else none

/-- The byte string of an item. A byte below 128 must not have a header; a length written in the
    long form may be of any size but must not start with zero. -/
def bytes? (item : Bytes) : Option Bytes :=
  match item with
  | [] => none
  | first :: rest =>
    let code := first.toNat
    if code < 0x80 then some [first]
    else if code < 0xb8 then
      let size := code - 0x80
      let data := rest.take size
      if rest.length < size then none
      else if size = 1 ∧ data.all (· < 0x80) then none
      else some data
    else if code < 0xc0 then
      let width := code - 0xb7
      let size := Bytes.toNatBE (rest.take width)
      let data := rest.drop width
      if width ≤ rest.length ∧ rest.head? ≠ some 0 ∧ size ≤ data.length then some (data.take size)
      else none
    else none

/-- The number that an item writes in at most `width` bytes with no zero in front. -/
def nat? (width : Nat) (item : Bytes) : Option Nat := do
  let bytes ← bytes? item
  if bytes.length ≤ width ∧ bytes.head? ≠ some 0 then return Bytes.toNatBE bytes else none

end TwoWayPeg.Rlp
