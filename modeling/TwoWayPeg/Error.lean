import TwoWayPeg.Address.Basic
import TwoWayPeg.Storage.Key

/-!
Why an operation of the peg fails, and the text that reports it.
-/

namespace TwoWayPeg

/-- An operation on 64-bit numbers whose result is out of range. -/
inductive Overflow where
  | add
  | multiply
  | negate
deriving DecidableEq, Inhabited

/-- The text that reports an overflow. -/
def Overflow.message : Overflow → String
  | .add => "attempt to add with overflow"
  | .multiply => "attempt to multiply with overflow"
  | .negate => "attempt to negate with overflow"

/-- Why an operation of the peg fails. An overflow ends the work on the block; the other causes
    are answers to the caller. -/
inductive PegError where
  /-- No member stands at an index of a federation. -/
  | memberIndex (index : UInt64) (size : Nat)
  /-- A federation has no members. -/
  | emptyFederation
  /-- An address cannot be formed or read. -/
  | address (cause : AddressError)
  /-- A transaction has no input to be signed. -/
  | noInput
  /-- Stored bytes cannot be decoded. -/
  | corrupted (key : StorageKey)
  /-- The store refuses an access. -/
  | storage (access : Access)
  /-- A 64-bit operation is out of range. -/
  | overflow (cause : Overflow)
deriving DecidableEq

namespace PegError

/-- The text that reports an error. -/
def message : PegError → String
  | .memberIndex index size =>
    "Member index " ++ toString index.toNat ++ " out of range for federation of size "
      ++ toString size
  | .emptyFederation => "Federation has no members"
  | .address cause => "Unable to derive federation address: " ++ cause.message
  | .noInput =>
    "Sighash computation failed: Requested index (0) is greater or equal than the number of "
      ++ "transaction inputs (0)"
  | .corrupted key => "Persisted value under " ++ key.name ++ " is corrupted"
  | .storage access => "Storage access error: " ++ access.kind.name ++ " " ++ access.key.name
  | .overflow cause => cause.message

end PegError

end TwoWayPeg
