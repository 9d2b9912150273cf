/-
Rules applied to files.

A registry lists rules in the order in which they were registered; a code is registered once.
Evaluating a file walks the selected rules through its module and then plans a fix for every
fixable violation, in the order of the violations.
-/
import Plumbline.Rule.LayerDependency
import Plumbline.Rule.MutableRecord
import Plumbline.Rule.OpaqueIndirection
import Plumbline.Rule.ParameterHint
import Plumbline.Rule.TestDoubles
import Plumbline.Rule.Walk

namespace Plumbline

/-- Which rules are applied. -/
inductive Selection where
  | all
  /-- Rules that ask for type annotations. -/
  | typeHints
  /-- All other rules whose fixes change code. -/
  | architecture
  /-- Rules whose fixes are comments. -/
  | governance
deriving Repr, DecidableEq, Inhabited

def Selection.includes {m : Type → Type} (s : Selection) (r : Rule m) : Bool :=
  match s with
  | all => true
  | typeHints => r.fixType == .code && r.isTypeHint
  | architecture => r.fixType == .code && !r.isTypeHint
  | governance => r.fixType == .commentOnly

/-- Rules in the order in which they were registered. -/
structure Registry where
  rules : List (Rule Query) := []

namespace Registry

def get? (r : Registry) (code : String) : Option (Rule Query) := r.rules.find? (·.code == code)

/-- Adds a rule, unless its code is taken. -/
def register (r : Registry) (rule : Rule Query) : Registry :=
  if (r.get? rule.code).isSome then r else ⟨r.rules ++ [rule]⟩

/-- The rules of this library, in order. -/
def catalogue (config : ProjectConfig) : List (Rule Query) :=
  [ReturnHint.rule, ParameterHint.rule, OpaqueIndirection.rule, MutableRecord.rule,
   LayerDependency.rule, TestDoubles.rule (TestDoubles.maxDoubles config)]

/-- The rules of this library that the configuration does not turn off. -/
def ofConfig (config : ProjectConfig) : Registry :=
  ((catalogue config).filter fun r => config.isEnabled r.code r.name).foldl register {}

def selected (r : Registry) (s : Selection) : List (Rule Query) := r.rules.filter s.includes

def hasRules (r : Registry) (s : Selection) : Bool := !(r.selected s).isEmpty

/-- What a person should do about a violation. -/
def instructions? (r : Registry) (v : Violation) : Option String := do
  let rule ← r.get? v.code
  match rule.fixer with
  | some f => some (f.instructions v)
  | none => some (v.reason.getD rule.description)

end Registry

/-- What is known about a file after its evaluation. -/
structure FileEvaluation where
  path : Path
  violations : List Violation := []
  /-- Plans for the fixable violations, in their order. -/
  plans : List Plan := []
  failures : List RuleFailure := []
  /-- Why the file could not be parsed; then nothing else is known. -/
  parseError : Option String := none
deriving Inhabited

namespace FileEvaluation

/-- The plans for one violation, or the failure of the rule that should make them. -/
def planned (registry : Registry) (ctx : RuleContext) (v : Violation) :
    Query (Except RuleFailure (List Plan)) :=
  if v.fixable then
    match (registry.get? v.code).bind (·.fixer) with
    | none => pure (.ok [])
    | some f => do
      match ← f.fix v ctx with
      | .ok plans => pure (.ok plans)
      | .error fault => pure (.error ⟨v.code, ctx.file, fault.message⟩)
  else pure (.ok [])

/-- Adds the plans for one violation. -/
def planStep (registry : Registry) (ctx : RuleContext) (e : FileEvaluation) (v : Violation) :
    Query FileEvaluation := do
  match ← planned registry ctx v with
  | .ok plans => pure { e with plans := e.plans ++ plans }
  | .error failure => pure { e with failures := e.failures ++ [failure] }

/-- Evaluates one file. -/
def ofFile (registry : Registry) (config : ProjectConfig) (s : Selection) (path : Path) :
    Query FileEvaluation := do
  match ← Query.parse path with
  | .error e => pure { path, parseError := some e.message }
  | .ok m =>
    let ctx : RuleContext := { module := m, config, classifier := .ofConfig config }
    let outcome ← walk (registry.selected s) ctx
    let e : FileEvaluation :=
      { path, violations := outcome.violations, failures := outcome.failures }
    outcome.violations.foldlM (planStep registry ctx) e

end FileEvaluation

/-- Evaluates files, in their order. -/
def Registry.evaluate (registry : Registry) (config : ProjectConfig) (s : Selection)
    (paths : List Path) : Query (List FileEvaluation) :=
  paths.mapM (FileEvaluation.ofFile registry config s)

end Plumbline
