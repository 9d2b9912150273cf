/-
The gate between inference and fixes.

Only a known type may be written into source.  A type of another module must be imported first,
unless the name already means that type.
-/
import Plumbline.Analysis.Resolve
import Plumbline.Fix.Plan

namespace Plumbline

/-- Why a type may not be written. -/
inductive Refusal where
  | inferenceFailed | bannedDynamic
deriving Repr, DecidableEq, Inhabited

def Refusal.reason : Refusal → String
  | inferenceFailed => "inference failed"
  | bannedDynamic => "would require banned dynamic type"

namespace Gate

/-- Lets known types pass. -/
def approve : InferredType → Except Refusal ApprovedType
  | .known t => .ok ⟨t⟩
  | .dynamic => .error .bannedDynamic
  | .unknown => .error .inferenceFailed

/-- The import that the type needs before it can be written into `m`. -/
def requiredImport (m : Module) (t : ApprovedType) : Query (Option Plan) := do
  match t.type.module with
  | none => pure none
  | some module =>
    if module = m.name then pure none
    else if ← Query.isReachable m t.type then pure none
    else pure (some (.addImport module t.type.name))

end Gate

end Plumbline
