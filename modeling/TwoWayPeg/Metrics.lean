import TwoWayPeg.Classification
import TwoWayPeg.FeeVote
import TwoWayPeg.Lifecycle.Vote
import TwoWayPeg.Migration
import TwoWayPeg.Ordered.Map

/-!
Counters of what the peg has done.
-/

namespace TwoWayPeg

/-- A counter: its name, and labels in the order of their names. -/
structure Counter where
  name : String
  labels : List (String × String) := []
deriving DecidableEq, Inhabited

namespace Counter

/-- The text of a counter: its name, and its labels in braces. -/
def text (c : Counter) : String :=
  "peg_" ++ c.name ++ "\x7b"
    ++ ",".intercalate (c.labels.map fun (label, value) => label ++ "=" ++ value) ++ "\x7d"

/-- Votes on changes of the federation, by function and answer. -/
def federationVotes (spec : CallSpec) (r : ChangeResponse) : Counter where
  name := "federation_votes_total"
  labels :=
    let function := ((ChangeFunction.ofName? spec.function).map ChangeFunction.name).getD "unknown"
    [("function", function), ("result", r.label)]

/-- Committed federations. -/
def federationCommits : Counter where
  name := "federation_commits_total"

/-- Votes on the fee rate, by answer. -/
def feeVotes (r : FeeResponse) : Counter where
  name := "fee_per_kb_votes_total"
  labels := [("result", r.label)]

/-- Outputs moved by migrations. -/
def migratedUtxos : Counter where
  name := "migrated_utxos_total"

/-- Classified transactions, by strategy and type. -/
def classifiedTransactions (strategy : Strategy) (type : PegTxType) : Counter where
  name := "classified_transactions_total"
  labels := [("strategy", strategy.name), ("type", type.label)]

end Counter

/-- The values of counters, by their texts. A counter that was never raised is absent. -/
structure Metrics where
  values : OrderedMap String Nat := .empty
deriving DecidableEq, Inhabited

namespace Metrics

/-- Raises a counter. -/
def add (m : Metrics) (c : Counter) (n : Nat) : Metrics :=
  if n = 0 then m else ⟨m.values.insert c.text ((m.values.get? c.text).getD 0 + n)⟩

end Metrics

end TwoWayPeg
