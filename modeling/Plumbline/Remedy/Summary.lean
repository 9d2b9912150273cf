/-
What a remediation run reports.
-/
import Plumbline.Rule.Violation

namespace Plumbline

/-- The passes of a run, in order. -/
inductive Pass where
  | mechanicalNormalization
  | typeHints
  | architectureFixes
  | governanceNotes
  | finalCleanup
deriving Repr, DecidableEq, Inhabited

namespace Pass

def all : List Pass :=
  [mechanicalNormalization, typeHints, architectureFixes, governanceNotes, finalCleanup]

/-- The place of a pass in the order, from 1. -/
def number : Pass → Nat
  | mechanicalNormalization => 1
  | typeHints => 2
  | architectureFixes => 3
  | governanceNotes => 4
  | finalCleanup => 5

def title : Pass → String
  | mechanicalNormalization => "mechanical normalization"
  | typeHints => "type hints"
  | architectureFixes => "architecture fixes"
  | governanceNotes => "governance annotations"
  | finalCleanup => "final cleanup"

/-- The name of a pass in reports for machines. -/
def key (p : Pass) : String :=
  String.ofList (p.title.toList.map fun c => if c = ' ' then '-' else c)

def text (p : Pass) : String := "pass " ++ toString p.number ++ " (" ++ p.title ++ ")"

/-- Does the pass edit files by the plans of rules, and not by a formatter? -/
def isTransactional : Pass → Bool
  | typeHints | architectureFixes | governanceNotes => true
  | mechanicalNormalization | finalCleanup => false

end Pass

/-- What a pass did to one file. -/
inductive FileResult where
  | unchanged
  | modified
  | rolledBack
deriving Repr, DecidableEq, Inhabited

/-- What a pass did to all files. -/
structure PassSummary where
  filesEvaluated : Nat := 0
  modified : Nat := 0
  rolledBack : Nat := 0
  violations : Nat := 0
deriving Repr, DecidableEq, Inhabited

def PassSummary.add (s : PassSummary) : FileResult → PassSummary
  | .unchanged => s
  | .modified => { s with modified := s.modified + 1 }
  | .rolledBack => { s with rolledBack := s.rolledBack + 1 }

/-- A file whose edits made more tests fail and were undone.  A missing number is one that could
not be found out. -/
structure Regression where
  file : Path
  pass : Pass
  baseline : Option Nat
  observed : Option Nat
deriving Repr, DecidableEq, Inhabited

/-- A file that plans could not be applied to. -/
structure ApplierFailure where
  file : Path
  pass : Pass
  cause : String
deriving Repr, DecidableEq, Inhabited

structure RunSummary where
  passes : List (Pass × PassSummary) := []
  /-- Files that a pass changed for good, in order. -/
  modified : List Path := []
  /-- Files that a pass changed and put back, in order. -/
  rolledBack : List Path := []
  ruleFailures : List RuleFailure := []
  applierFailures : List ApplierFailure := []
  regressions : List Regression := []
  /-- Violations that are left for a person. -/
  unresolved : List Violation := []
  /-- Tests that failed before the run, if they were run. -/
  baseline : Option Nat := none
deriving Repr, Inhabited

namespace RunSummary

def recordFile (s : RunSummary) (path : Path) : FileResult → RunSummary
  | .unchanged => s
  | .modified => { s with modified := Path.insert path s.modified }
  | .rolledBack => { s with rolledBack := Path.insert path s.rolledBack }

def recordPass (s : RunSummary) (pass : Pass) (p : PassSummary) : RunSummary :=
  { s with passes := s.passes ++ [(pass, p)] }

/-- Each failure is listed once. -/
def recordFailures (s : RunSummary) (failures : List RuleFailure) : RunSummary :=
  { s with ruleFailures :=
      failures.foldl (fun acc f => if acc.contains f then acc else acc ++ [f]) s.ruleFailures }

end RunSummary

end Plumbline
