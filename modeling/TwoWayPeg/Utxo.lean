import TwoWayPeg.Transaction.Basic

/-!
Unspent outputs that federations hold.
-/

namespace TwoWayPeg

/-- An unspent output of a federation. -/
structure Utxo where
  outpoint : OutPoint
  /-- Satoshis. -/
  value : UInt64
  /-- The height of the block in which it was confirmed. -/
  height : UInt32
  scriptPubkey : Script
deriving DecidableEq, Inhabited

end TwoWayPeg
