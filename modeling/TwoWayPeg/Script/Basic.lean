import TwoWayPeg.Hash.Ripemd160

/-!
Scripts as lists of instructions: how instructions are written, how script bytes are read, and the
script that pays to the hash of another script. Writing uses the shortest form of each push;
reading takes every form.
-/

namespace TwoWayPeg

/-- The bytes of a script. -/
abbrev Script := Bytes

/-- An instruction: it pushes data or does something else. Pushing nothing is the zero opcode. -/
inductive Instruction where
  | push (data : Bytes)
  | op (code : UInt8)
deriving DecidableEq, Inhabited

namespace Instruction

/-- The opcode of the number -1. -/
def negativeOne : Instruction := .op 0x4f

/-- Enters the branch that follows unless the top of the stack is true. -/
def notIf : Instruction := .op 0x64

/-- Starts the other branch. -/
def otherwise : Instruction := .op 0x67

/-- Ends a choice of branches. -/
def endIf : Instruction := .op 0x68

/-- Drops the top of the stack. -/
def drop : Instruction := .op 0x75

/-- Checks signatures against a number of keys. -/
def checkMultisig : Instruction := .op 0xae

/-- Checks that an output has reached an age. -/
def checkSequence : Instruction := .op 0xb2

/-- The bytes of a push, in the shortest of the four forms that its length allows. -/
def encodePush (data : Bytes) : Bytes :=
  let n := data.length
  if n ≤ 75 then UInt8.ofNat n :: data
  else if n < 0x100 then 0x4c :: Bytes.littleEndian 1 n ++ data
  else if n < 0x10000 then 0x4d :: Bytes.littleEndian 2 n ++ data
  else 0x4e :: Bytes.littleEndian 4 n ++ data

/-- The bytes of an instruction. -/
def encode : Instruction → Bytes
  | .push data => encodePush data
  | .op code => [code]

/-- The bytes of a number on the stack: its absolute value, least significant byte first, with the
    sign in the highest bit of the last byte. -/
def numberBytes (n : Int) : Bytes :=
  let magnitude := Bytes.minimalLE n.natAbs
  let sign : UInt8 := if n < 0 then 0x80 else 0
  match magnitude.getLast? with
  | none => []
  | some last =>
    if last < 0x80 then magnitude.dropLast ++ [last ||| sign] else magnitude ++ [sign]

/-- The instruction that pushes a number: small numbers have opcodes of their own. -/
def number (n : Int) : Instruction :=
  if n = 0 then .push []
  else if n = -1 then negativeOne
  else if 1 ≤ n ∧ n ≤ 16 then .op (UInt8.ofNat (0x50 + n.toNat))
  else .push (numberBytes n)

end Instruction

namespace Script

/-- The script of a list of instructions. -/
def ofInstructions (l : List Instruction) : Script := l.flatMap Instruction.encode

/-- How an opcode starts an instruction. -/
inductive Opening where
  /-- It pushes the next `size` bytes. -/
  | direct (size : Nat)
  /-- It pushes as many bytes as the next `width` bytes say. -/
  | counted (width : Nat)
  /-- It is an instruction of its own. -/
  | plain

/-- How an opcode starts an instruction. -/
def opening (code : UInt8) : Opening :=
  if code ≤ 75 then .direct code.toNat
  else if code = 0x4c then .counted 1
  else if code = 0x4d then .counted 2
  else if code = 0x4e then .counted 4
  else .plain

/-- The first instruction of script bytes and the bytes after it, unless a push runs past the
    end. -/
def next? : Script → Option (Instruction × Script)
  | [] => none
  | code :: rest =>
    match opening code with
    | .direct size =>
      if size ≤ rest.length then some (.push (rest.take size), rest.drop size) else none
    | .counted width =>
      let size := Bytes.toNatLE (rest.take width)
      let data := rest.drop width
      if width ≤ rest.length ∧ size ≤ data.length then
        some (.push (data.take size), data.drop size)
      else none
    | .plain => some (.op code, rest)

theorem length_of_next? {script rest : Script} {i : Instruction}
    (h : next? script = some (i, rest)) : rest.length < script.length := by
  cases script with
  | nil => simp [next?] at h
  | cons code tail =>
    rw [next?] at h
    split at h
    · simp only [Option.ite_none_right_eq_some, Option.some.injEq, Prod.mk.injEq] at h
      obtain ⟨_, _, rfl⟩ := h
      simp only [List.length_drop, List.length_cons]
      omega
    · simp only [Option.ite_none_right_eq_some, Option.some.injEq, Prod.mk.injEq] at h
      obtain ⟨_, _, rfl⟩ := h
      simp only [List.length_drop, List.length_cons]
      omega
    · simp only [Option.some.injEq, Prod.mk.injEq] at h
      obtain ⟨_, rfl⟩ := h
      simp

/-- The instructions of script bytes, unless a push runs past the end. -/
def instructions? (script : Script) : Option (List Instruction) :=
  match script with
  | [] => some []
  | code :: tail =>
    match _h : next? (code :: tail) with
    | none => none
    | some (i, rest) => (instructions? rest).map (i :: ·)
termination_by script.length
decreasing_by exact length_of_next? (by assumption)

/-- The data of the last instruction, if the script is well formed and ends by pushing some. -/
def lastPush? (script : Script) : Option Bytes :=
  match (instructions? script).bind List.getLast? with
  | some (.push (b :: data)) => some (b :: data)
  | _ => none

/-- The script that pays to whoever reveals a script with the given hash and fulfils it. -/
def payToScriptHash (hash : Hash160) : Script := [0xa9, 0x14] ++ hash.toList ++ [0x87]

/-- The script that pays to the hash of a script. -/
def toP2sh (redeemScript : Script) : Script := payToScriptHash (hash160 redeemScript)

end Script

end TwoWayPeg
