/-
Functions must declare what they return (TYP001).

A function without a return annotation is reported.  Its fix writes the type that is inferred from
the body, if that type passes the gate; an import of the type comes first where one is needed.
-/
import Plumbline.Analysis.Infer
import Plumbline.Fix.Gate
import Plumbline.Rule.Basic

namespace Plumbline.ReturnHint

def code : String := "TYP001"

/-- The violation, marked by what the gate says about the inferred type. -/
def gated (v : Violation) (t : InferredType) : Violation :=
  match Gate.approve t with
  | .ok _ => v.asFixable
  | .error r => v.asUnfixable r.reason

/-- The violation of a function without annotation. -/
def violation (ctx : RuleContext) (f : FunctionDef) : Violation :=
  { code
    message := "function `" ++ f.qualname ++ "` has no return annotation"
    location := ctx.location f.span
    target := some { symbol := f.qualname } }

def check (ctx : RuleContext) (node : Node) : Query (Except Fault (List Violation)) :=
  match node.function? with
  | none => pure (.ok [])
  | some f =>
    if f.returns.isSome then pure (.ok [])
    else if ctx.module.isAmbiguous f.qualname then
      pure (.ok [(violation ctx f).asUnfixable sharedNameReason])
    else do
      pure (.ok [gated (violation ctx f) (← Query.inferReturn ctx.module f)])

/-- The import that a type needs, if it needs one, and then `plan`. -/
def withImport (m : Module) (t : ApprovedType) (plan : Plan) : Query (List Plan) := do
  pure ((← Gate.requiredImport m t).toList ++ [plan])

def fix (v : Violation) (ctx : RuleContext) : Query (Except Fault (List Plan)) :=
  match v.target.bind fun t => ctx.module.findFunction? t.symbol with
  | none => pure (.ok [])
  | some f =>
    if ctx.module.isAmbiguous f.qualname then pure (.ok [])
    else do
      match Gate.approve (← Query.inferReturn ctx.module f) with
      | .error _ => pure (.ok [])
      | .ok t => pure (.ok (← withImport ctx.module t (.addReturnType f.qualname t)))

def instructions (v : Violation) : String :=
  let symbol := (v.target.map (·.symbol)).getD "the function"
  match v.reason with
  | some reason =>
    "Add an explicit `-> <type>` annotation to `" ++ symbol ++ "` (" ++ reason ++ ")."
  | none =>
    "Add the inferred return annotation to `" ++ symbol ++ "`; `archfix fix` can do this."

def rule : Rule Query :=
  { code
    name := "missing-return-annotation"
    description := "Functions must declare their return type"
    fixType := .code
    isTypeHint := true
    interests := [.functionDef]
    watch := .checks check
    fixer := some { fix, instructions } }

end Plumbline.ReturnHint
