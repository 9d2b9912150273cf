/-
Wrappers must not hide types (ARC002).

A function that only forwards to a call is reported as long as the type of the call cannot be told.
What to do about it is for a person to decide.
-/
import Plumbline.Analysis.Infer
import Plumbline.Rule.Basic

namespace Plumbline.OpaqueIndirection

def code : String := "ARC002"

def undecidedReason : String := "callee return type unresolved; needs a human decision"

/-- The call that is all a function does, and what it calls. -/
def forwardedCall? (f : FunctionDef) : Option (Expr × Expr) :=
  match f.effectiveBody with
  | [.returning { value := some (.call func args keywords span), .. }] =>
    some (.call func args keywords span, func)
  | _ => none

def violation (ctx : RuleContext) (f : FunctionDef) (callee : Expr) : Violation :=
  let name := callee.dottedName?.getD "<expression>"
  { code
    message := "`" ++ f.qualname ++ "` only forwards to `" ++ name ++
      "()`, whose return type cannot be resolved"
    location := ctx.location f.span
    reason := some undecidedReason
    target := some { symbol := f.qualname } }

def check (ctx : RuleContext) (node : Node) : Query (Except Fault (List Violation)) :=
  match node.function? with
  | none => pure (.ok [])
  | some f =>
    match forwardedCall? f with
    | none => pure (.ok [])
    | some (call, callee) => do
      match ← Query.inferType (.ofFunction ctx.module f) call with
      | .unknown => pure (.ok [violation ctx f callee])
      | _ => pure (.ok [])

def rule : Rule Query :=
  { code
    name := "opaque-indirection"
    description := "Type the forwarded call or inline the wrapper"
    fixType := .code
    interests := [.functionDef]
    watch := .checks check }

end Plumbline.OpaqueIndirection
