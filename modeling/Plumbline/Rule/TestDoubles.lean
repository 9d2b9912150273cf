/-
Tests should not need many doubles (TST001).

The calls that create a test double are counted for each function whose name starts with `test`,
also those in its decorators and defaults; a call inside a nested test counts there only.  A test
with more doubles than allowed is reported.
-/
import Plumbline.Analysis.Project
import Plumbline.Rule.Basic

namespace Plumbline.TestDoubles

def code : String := "TST001"

def name : String := "excessive-test-doubles"

/-- Functions that create a test double. -/
def factories : List String :=
  ["Mock", "MagicMock", "AsyncMock", "NonCallableMock", "PropertyMock", "create_autospec", "patch"]

/-- Does the call create a test double?  `patch` and all its attributes do. -/
def createsDouble : Expr → Bool
  | .call func _ _ _ =>
    match func.dottedName? with
    | none => false
    | some dotted =>
      match (Text.split '.' dotted.toList).reverse.map String.ofList with
      | [] => false
      | last :: before => factories.contains last || before.contains "patch"
  | _ => false

def defaultMax : Nat := 3

/-- The number of doubles that a test may have. -/
def maxDoubles (config : ProjectConfig) : Nat :=
  match (config.threshold? code name "max_doubles").bind (·.int?) with
  | some n => if 0 ≤ n then n.toNat else defaultMax
  | none => defaultMax

/-- What the doubles are counted under. -/
def doublesKey : String := "doubles"

def isTest (f : FunctionDef) : Bool := "test".toList.isPrefixOf f.name.toList

def openScope (ctx : RuleContext) (node : Node) : Option ScopeRecord :=
  match node.function? with
  | some f =>
    if isTest f then some { owner := f.qualname, location := ctx.location f.span } else none
  | none => none

def note (r : ScopeRecord) (node : Node) : ScopeRecord :=
  if node.expr?.any createsDouble then r.bump doublesKey else r

def closeScope (max : Nat) (r : ScopeRecord) : List Violation :=
  let count := r.count doublesKey
  if count ≤ max then []
  else
    [{ code
       message := "`" ++ r.owner ++ "` uses " ++ toString count ++ " test doubles (max " ++
         toString max ++ ")"
       location := r.location
       fixable := true
       commentOnly := true
       target := some { symbol := r.owner } }]

def fix (v : Violation) (_ : RuleContext) : Query (Except Fault (List Plan)) :=
  match v.target with
  | none => pure (.ok [])
  | some t => pure (.ok [.injectComment (.symbol t.symbol) (code ++ " " ++ v.message)])

def instructions (v : Violation) : String :=
  v.message ++ ". Prefer fakes or real collaborators and test behavior at a seam."

def rule (max : Nat) : Rule Query :=
  { code, name
    description := "Tests should not need many mocks"
    fixType := .commentOnly
    interests := [.call]
    watch := .scopes [.functionDef]
      (fun ctx node => pure (.ok (openScope ctx node)))
      (fun r _ node => pure (.ok ([], note r node)))
      (fun r _ => pure (.ok (closeScope max r)))
    fixer := some { fix, instructions } }

end Plumbline.TestDoubles
