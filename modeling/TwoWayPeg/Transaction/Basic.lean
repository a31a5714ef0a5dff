import TwoWayPeg.Script.Basic

/-!
Transactions, how they are written as bytes, their ids, and the hash that a signature of the first
input commits to.
-/

namespace TwoWayPeg

/-- The id of a transaction, in the order in which its bytes are sent. -/
abbrev Txid := FixedBytes 32

/-- An output of a transaction, named by the transaction and a position. -/
structure OutPoint where
  txid : Txid
  vout : UInt32
deriving DecidableEq, Inhabited

/-- An input: the output that it spends and what entitles it to. -/
structure TxIn where
  previous : OutPoint
  scriptSig : Script := []
  sequence : UInt32
  witness : List Bytes := []
deriving DecidableEq, Inhabited

/-- An output: satoshis and the script that has to be fulfilled to spend them. -/
structure TxOut where
  value : UInt64
  scriptPubkey : Script
deriving DecidableEq, Inhabited

/-- A transaction. -/
structure Transaction where
  version : Int32
  lockTime : UInt32
  inputs : List TxIn
  outputs : List TxOut
deriving DecidableEq, Inhabited

/-- The shortest form of a count: one byte, or a marker followed by two, four or eight bytes. -/
def compactSize (n : Nat) : Bytes :=
  if n < 0xfd then [UInt8.ofNat n]
  else if n < 0x10000 then 0xfd :: Bytes.littleEndian 2 n
  else if n < 0x100000000 then 0xfe :: Bytes.littleEndian 4 n
  else 0xff :: Bytes.littleEndian 8 n

/-- Bytes after their count. -/
def sizedBytes (bytes : Bytes) : Bytes := compactSize bytes.length ++ bytes

namespace OutPoint

/-- The bytes of a reference to an output. -/
def encode (o : OutPoint) : Bytes := o.txid.toList ++ Bytes.littleEndian 4 o.vout.toNat

end OutPoint

namespace TxIn

/-- The bytes of an input, its witness apart. -/
def encode (i : TxIn) : Bytes :=
  i.previous.encode ++ sizedBytes i.scriptSig ++ Bytes.littleEndian 4 i.sequence.toNat

/-- The bytes of the witness of an input. -/
def encodeWitness (i : TxIn) : Bytes :=
  compactSize i.witness.length ++ i.witness.flatMap sizedBytes

/-- The input as it stands before it is signed. -/
def unsigned (i : TxIn) : TxIn := { i with scriptSig := [], witness := [] }

end TxIn

/-- The bytes of an output. -/
def TxOut.encode (o : TxOut) : Bytes :=
  Bytes.littleEndian 8 o.value.toNat ++ sizedBytes o.scriptPubkey

namespace Transaction

/-- The bytes of the version. -/
def encodeVersion (t : Transaction) : Bytes :=
  Bytes.littleEndian 4 t.version.toUInt32.toNat

/-- The bytes of the inputs, witnesses apart, after their count. -/
def encodeInputs (t : Transaction) : Bytes :=
  compactSize t.inputs.length ++ t.inputs.flatMap TxIn.encode

/-- The bytes of the outputs after their count. -/
def encodeOutputs (t : Transaction) : Bytes :=
  compactSize t.outputs.length ++ t.outputs.flatMap TxOut.encode

/-- The bytes of the lock time. -/
def encodeLockTime (t : Transaction) : Bytes := Bytes.littleEndian 4 t.lockTime.toNat

/-- The bytes of a transaction without its witnesses. -/
def encodeBase (t : Transaction) : Bytes :=
  t.encodeVersion ++ t.encodeInputs ++ t.encodeOutputs ++ t.encodeLockTime

/-- Whether some input has a witness. -/
def hasWitness (t : Transaction) : Bool := t.inputs.any fun i => !i.witness.isEmpty

/-- The bytes of a transaction. The form with witnesses, marked by an empty list of inputs and a
    flag, is used if there are any, and also if there are no inputs, which the other form could
    not tell from the mark. -/
def encode (t : Transaction) : Bytes :=
  if t.inputs.isEmpty || t.hasWitness then
    t.encodeVersion ++ [0x00, 0x01] ++ t.encodeInputs ++ t.encodeOutputs
      ++ t.inputs.flatMap TxIn.encodeWitness ++ t.encodeLockTime
  else t.encodeBase

/-- The id of a transaction: witnesses do not enter into it. -/
def txid (t : Transaction) : Txid := doubleSha256 t.encodeBase

/-- The usual text of the id of a transaction, last byte first. -/
def displayId (t : Transaction) : String := Bytes.toHex t.txid.toList.reverse

/-- The inputs as a signature of the first one sees them: the script that it fulfils stands in
    its place, and the others are unsigned. -/
def inputsForFirst (script : Script) : List TxIn → List TxIn
  | [] => []
  | first :: rest => { first.unsigned with scriptSig := script } :: rest.map TxIn.unsigned

/-- The bytes that a signature of the first input commits to, when it covers all inputs and
    outputs. -/
def firstInputPreimage (t : Transaction) (script : Script) : Bytes :=
  { t with inputs := inputsForFirst script t.inputs }.encode ++ Bytes.littleEndian 4 1

/-- The hash that a signature of the first input commits to, when it covers all inputs and
    outputs; there is none without an input. -/
def firstInputSighash? (t : Transaction) (script : Script) : Option Hash256 :=
  if t.inputs.isEmpty then none else some (doubleSha256 (t.firstInputPreimage script))

end Transaction

end TwoWayPeg
