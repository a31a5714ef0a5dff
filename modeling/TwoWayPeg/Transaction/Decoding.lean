import TwoWayPeg.Transaction.Basic

/-!
Reading transactions from bytes. Counts have to be in their shortest form, all bytes have to be
used, and the form with witnesses needs a witness unless there are no inputs.
-/

namespace TwoWayPeg

/-- A reader takes bytes from the front and leaves the rest. -/
abbrev ByteReader := StateT Bytes Option

namespace ByteReader

/-- The next `n` bytes. -/
def take (n : Nat) : ByteReader Bytes := fun bytes =>
  if n ≤ bytes.length then some (bytes.take n, bytes.drop n) else none

/-- A number of `width` bytes, least significant first. -/
def number (width : Nat) : ByteReader Nat := do
  let bytes ← take width
  return Bytes.toNatLE bytes

/-- A number that is refused below a bound. -/
def numberFrom (width least : Nat) : ByteReader Nat := do
  let n ← number width
  if least ≤ n then return n else failure

/-- A count in its shortest form. -/
def count : ByteReader Nat := do
  let first ← number 1
  if first = 0xfd then numberFrom 2 0xfd
  else if first = 0xfe then numberFrom 4 0x10000
  else if first = 0xff then numberFrom 8 0x100000000
  else return first

/-- Bytes after their count. -/
def sized : ByteReader Bytes := do
  let n ← count
  take n

/-- `n` items. -/
def times {α : Type} (item : ByteReader α) : Nat → ByteReader (List α)
  | 0 => return []
  | n + 1 => do
    let first ← item
    let rest ← times item n
    return first :: rest

/-- Items after their count, each of at least one byte. A count larger than the number of bytes
    left cannot be met. -/
def counted {α : Type} (item : ByteReader α) : ByteReader (List α) := do
  let n ← count
  let left ← get
  if n ≤ left.length then times item n else failure

end ByteReader

/-- The largest number of items of a witness, and the largest number of bytes of its items with
    their counts. -/
def witnessLimit : Nat := 4000000

/-- The number of bytes of a witness, items with their counts. -/
def witnessSize (witness : List Bytes) : Nat := (witness.flatMap sizedBytes).length

namespace TxIn

/-- Reads an input, its witness apart. -/
def read : ByteReader TxIn := do
  let txid ← ByteReader.take 32
  let vout ← ByteReader.number 4
  let scriptSig ← ByteReader.sized
  let sequence ← ByteReader.number 4
  match FixedBytes.ofList? txid with
  | some txid =>
    return {
      previous := { txid, vout := UInt32.ofNat vout }
      scriptSig
      sequence := UInt32.ofNat sequence }
  | none => failure

/-- Reads the witness of an input. -/
def readWitness : ByteReader (List Bytes) := do
  let witness ← ByteReader.counted ByteReader.sized
  if witness.length ≤ witnessLimit ∧ witnessSize witness ≤ witnessLimit then return witness
  else failure

end TxIn

/-- Reads an output. -/
def TxOut.read : ByteReader TxOut := do
  let value ← ByteReader.number 8
  let scriptPubkey ← ByteReader.sized
  return { value := UInt64.ofNat value, scriptPubkey }

namespace Transaction

/-- Gives each input its witness, read in turn. -/
def readWitnesses : List TxIn → ByteReader (List TxIn)
  | [] => return []
  | i :: rest => do
    let witness ← TxIn.readWitness
    let rest ← readWitnesses rest
    return { i with witness } :: rest

/-- Reads inputs, outputs and witnesses after the mark of the form with witnesses. -/
def readMarked : ByteReader (List TxIn × List TxOut) := do
  let flag ← ByteReader.number 1
  if flag ≠ 1 then failure else
    let inputs ← ByteReader.counted TxIn.read
    let outputs ← ByteReader.counted TxOut.read
    let inputs ← readWitnesses inputs
    if inputs.isEmpty || inputs.any fun i => !i.witness.isEmpty then return (inputs, outputs)
    else failure

/-- Reads a transaction. -/
def read : ByteReader Transaction := do
  let version ← ByteReader.number 4
  let unmarked ← ByteReader.counted TxIn.read
  let (inputs, outputs) ←
    if unmarked.isEmpty then readMarked else do
      let outputs ← ByteReader.counted TxOut.read
      pure (unmarked, outputs)
  let lockTime ← ByteReader.number 4
  return {
    version := (UInt32.ofNat version).toInt32
    lockTime := UInt32.ofNat lockTime
    inputs
    outputs }

/-- The transaction that bytes write, with none left over. -/
def decode? (bytes : Bytes) : Option Transaction :=
  match read bytes with
  | some (t, []) => some t
  | _ => none

end Transaction

end TwoWayPeg
