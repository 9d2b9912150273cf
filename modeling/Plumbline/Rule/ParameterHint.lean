/-
Parameters must declare their types (TYP002).

A positional parameter without annotation is reported, the receiver of a method apart.  Its fix
writes the type of the default value, which is looked up at the top level of the module; a default
of `None` says nothing about the type.
-/
import Plumbline.Rule.ReturnHint

namespace Plumbline.ParameterHint

def code : String := "TYP002"

/-- Is the parameter at this place the receiver of a method? -/
def isReceiver (f : FunctionDef) (index : Nat) (p : Param) : Bool :=
  f.isMethod && index == 0 && (p.name == "self" || p.name == "cls")

/-- The type that the default value gives. -/
def defaultType (m : Module) (p : Param) : Query InferredType :=
  match p.default with
  | none => pure .unknown
  | some (.literal .none _) => pure .unknown
  | some e => Query.inferType { module := m } e

/-- Must the parameter at this place have an annotation that it does not have? -/
def isBare (f : FunctionDef) (index : Nat) (p : Param) : Bool :=
  p.kind == .positional && p.hint.isNone && !isReceiver f index p

/-- The violation of a parameter without annotation. -/
def violation (ctx : RuleContext) (f : FunctionDef) (p : Param) : Violation :=
  { code
    message := "parameter `" ++ p.name ++ "` of `" ++ f.qualname ++ "` has no type annotation"
    location := ctx.location p.nameSpan
    target := some { symbol := f.qualname, member := some p.name } }

/-- The violation, with what can be done about it. -/
def judged (ctx : RuleContext) (f : FunctionDef) (p : Param) : Query Violation := do
  if ctx.module.isAmbiguous f.qualname then
    pure ((violation ctx f p).asUnfixable sharedNameReason)
  else pure (ReturnHint.gated (violation ctx f p) (← defaultType ctx.module p))

/-- The parameters of a function that need an annotation. -/
def bareParams (f : FunctionDef) : List Param :=
  (f.params.mapIdx fun i p => if isBare f i p then some p else none).filterMap id

def check (ctx : RuleContext) (node : Node) : Query (Except Fault (List Violation)) :=
  match node.function? with
  | none => pure (.ok [])
  | some f => do pure (.ok (← (bareParams f).mapM (judged ctx f)))

def fix (v : Violation) (ctx : RuleContext) : Query (Except Fault (List Plan)) :=
  match v.target with
  | some { symbol, member := some parameter } =>
    if ctx.module.isAmbiguous symbol then pure (.ok [])
    else match (ctx.module.findFunction? symbol).bind (·.param? parameter) with
      | none => pure (.ok [])
      | some p => do
        match Gate.approve (← defaultType ctx.module p) with
        | .error _ => pure (.ok [])
        | .ok t =>
          pure (.ok (← ReturnHint.withImport ctx.module t
            (.addParameterType symbol parameter t)))
  | _ => pure (.ok [])

def instructions (v : Violation) : String :=
  let symbol := (v.target.map (·.symbol)).getD "the function"
  let parameter := (v.target.bind (·.member)).getD "?"
  match v.reason with
  | some reason =>
    "Annotate parameter `" ++ parameter ++ "` of `" ++ symbol ++ "` by hand (" ++ reason ++ ")."
  | none =>
    "Annotate parameter `" ++ parameter ++ "` of `" ++ symbol ++ "` with the type of its default."

def rule : Rule Query :=
  { code
    name := "missing-parameter-annotation"
    description := "Function parameters must declare their type"
    fixType := .code
    isTypeHint := true
    interests := [.functionDef]
    watch := .checks check
    fixer := some { fix, instructions } }

end Plumbline.ParameterHint
