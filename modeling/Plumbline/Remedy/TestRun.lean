/-
Test runs.

A test run is judged by how many tests fail, never by which.  The number is read off the end of
what the test command writes; a command that ends well, or finds no tests, without naming a number
has no failures.
-/
import Plumbline.Remedy.FailureCount
import Plumbline.Remedy.Tool

namespace Plumbline

/-- What a test run tells. -/
inductive TestOutcome where
  | completed (failures : Nat)
  | timedOut
  | unavailable (reason : String)
deriving Repr, DecidableEq, Inhabited

namespace TestRun

/-- How many lines at the end are looked at: a summary comes last. -/
def tailLength : Nat := 20

/-- The last lines of a text, last first. -/
def tail (text : List Char) : List Char :=
  ['\n'].intercalate ((Text.lines text).reverse.take tailLength)

/-- Exit codes that say that nothing failed: success, and no tests found. -/
def isGoodCode (code : Int) : Bool := code == 0 || code == 5

/-- What a finished command tells. -/
def outcome : ToolRun → TestOutcome
  | .timedOut .. => .timedOut
  | .notRun reason => .unavailable reason
  | r@(.ended code _ _) =>
    match FailureCount.total? (tail r.combined.toList) with
    | some failures => .completed failures
    | none =>
      if isGoodCode code then .completed 0
      else .unavailable
        ("test command exited with " ++ toString code ++ " without a failure summary")

/-- Runs the test command of a project in its root. -/
def perform (programs : Programs) (command : List String) (seconds : Nat) (root : Path) :
    DiskM TestOutcome := do
  pure (outcome (← ToolRun.start programs command "test suite" seconds root))

end TestRun

end Plumbline
