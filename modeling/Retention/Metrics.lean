import Retention.Ledger.Record
import Retention.Text.Units

/-!
# Metrics

One counter for each pair of an action and a status, in the order in which the pairs were
first counted. It is shown as the lines of a text exposition.
-/

namespace Retention

/-- A counted pair: what reconciling a record came to, and how it ended. -/
structure Outcome where
  action : Action
  status : Status
deriving DecidableEq

/-- The words of an outcome with a space between them. -/
def Outcome.words (outcome : Outcome) : String :=
  outcome.action.word ++ " " ++ outcome.status.word

/-- How often each outcome was counted. -/
structure Counters where
  counts : List (Outcome × Nat)

namespace Counters

/-- Nothing was counted yet. -/
def empty : Counters := ⟨[]⟩

/-- Some counts with an outcome counted once more. -/
def increment (outcome : Outcome) : List (Outcome × Nat) → List (Outcome × Nat)
  | [] => [(outcome, 1)]
  | (counted, count) :: rest =>
    if counted = outcome then (counted, count + 1) :: rest
    else (counted, count) :: increment outcome rest

/-- An outcome is counted. -/
def count (outcome : Outcome) (counters : Counters) : Counters :=
  ⟨increment outcome counters.counts⟩

/-- How often an outcome was counted. -/
def countOf (outcome : Outcome) (counters : Counters) : Nat :=
  (counters.counts.lookup outcome).getD 0

/-- The counts in the order of their words. -/
def sorted (counters : Counters) : List (Outcome × Nat) :=
  counters.counts.mergeSort fun a b => textLe a.1.words b.1.words

/-- The name of the counter. -/
def name : String := "gc_policy_reconcile_total"

/-- What the counter counts. -/
def help : String := "Column family GC policy reconciliations by action and status"

/-- The line of one outcome. -/
def line (entry : Outcome × Nat) : String :=
  name ++ "\x7baction=\"" ++ entry.1.action.word ++ "\",status=\"" ++ entry.1.status.word
    ++ "\"\x7d " ++ entry.2.repr

/-- The lines of the exposition. -/
def lines (counters : Counters) : List String :=
  ("# HELP " ++ name ++ " " ++ help) :: ("# TYPE " ++ name ++ " counter") ::
    counters.counts.map line

end Counters

end Retention
