/-
Types of expressions.

Inference never fails: what it cannot tell is unknown.  A name has a type only if all its bindings
in the scope agree on it, and a function returns a type only if all its return statements do and
it cannot fall off its end.  What a called function returns is what it declares.
-/
import Plumbline.Analysis.Resolve

namespace Plumbline

/-- Where an expression stands. -/
structure Scope where
  module : Module
  /-- The class around it. -/
  owner : Option ClassDef := none
  function : Option FunctionDef := none
deriving Inhabited

/-- The scope of a function's body. -/
def Scope.ofFunction (m : Module) (f : FunctionDef) : Scope :=
  { module := m, owner := m.enclosingClass? f, function := some f }

/-- The type of a literal. -/
def Literal.type : Literal → InferredType
  | .str | .fstr => .builtin "str"
  | .bytes => .builtin "bytes"
  | .int => .builtin "int"
  | .float => .builtin "float"
  | .bool _ => .builtin "bool"
  | .none => .builtin "None"
  | .ellipsis => .unknown

def CollectionKind.typeName : CollectionKind → String
  | list => "list"
  | dict => "dict"
  | set => "set"
  | tuple => "tuple"

namespace Query

/-- The annotation of a function, resolved in its own module.  If several definitions share the
name, or the function is asynchronous, calls do not have that type. -/
def declaredIn (m : Module) (qualname : String) : Query InferredType :=
  if m.isAmbiguous qualname then pure .unknown
  else match m.findFunction? qualname with
    | none => pure .unknown
    | some f =>
      if f.isAsync then pure .unknown
      else match f.returns with
        | some a => resolveHint m a.text
        | none => pure .unknown

/-- What a function declares to return. -/
def declaredReturn (path : Path) (qualname : String) : Query InferredType := do
  let key := (((← read).absolute path).components, qualname)
  match (← get).declared.lookup key with
  | some t => pure t
  | none =>
    let result ← match ← parse path with
      | .ok m => declaredIn m qualname
      | .error _ => pure .unknown
    modify fun c => { c with declared := (key, result) :: c.declared }
    pure result

/-- The type of a call of what a name is bound to. -/
def symbolCall : Symbol → Query InferredType
  | .class module name _ => pure (.known { name, module := some module })
  | .function path qualname => declaredReturn path qualname
  | .module _ => pure .unknown

/-- The type of a call of a method of a class. -/
def methodCall (path : Path) (className method : String) : Query InferredType := do
  match ← parse path with
  | .error _ => pure .unknown
  | .ok m =>
    match (m.findClass? className).bind (·.method? method) with
    | some f => declaredReturn path f.qualname
    | none => pure .unknown

/-- The type of a call `receiver.attr(...)`. -/
def memberCall (scope : Scope) (receiver attr : String) : Query InferredType := do
  if receiver = "self" ∨ receiver = "cls" then
    match scope.owner.bind (·.method? attr) with
    | some f => declaredReturn scope.module.path f.qualname
    | none => pure .unknown
  else match ← symbol scope.module receiver with
    | some (.module dotted) =>
      match ← symbolIn dotted attr with
      | some s => symbolCall s
      | none => pure .unknown
    | some (.class _ name path) => methodCall path name attr
    | _ => pure .unknown

/-- The type of a call of a bare name. -/
def nameCall (scope : Scope) (name : String) : Query InferredType := do
  match if scope.module.binds name then none else builtinCalls.lookup name with
  | some t => pure (.builtin t)
  | none =>
    match ← symbol scope.module name with
    | some s => symbolCall s
    | none => pure .unknown

/-- The type of a call. -/
def call (scope : Scope) : Expr → Query InferredType
  | .name name _ => nameCall scope name
  | .member (.name receiver _) attr _ => memberCall scope receiver attr
  | _ => pure .unknown

/-- The type that all items have.  The first item that has none, or another one than those before
it, decides. -/
def agreed {α : Type} (infer : α → Query InferredType) (type : Option TypeRef) :
    List α → Query InferredType
  | [] => pure (match type with
    | some t => .known t
    | none => .unknown)
  | a :: rest => do
    match ← infer a with
    | .unknown => pure .unknown
    | .dynamic => pure .dynamic
    | .known t =>
      match type with
      | none => agreed infer (some t) rest
      | some u => if u = t then agreed infer type rest else pure .unknown

/-- The type that one assignment gives to its name. -/
def assignmentType (infer : Expr → Query InferredType) (m : Module) (a : Assign) :
    Query InferredType :=
  if a.targets.length ≠ 1 then pure .unknown
  else match a.hint with
    | some hint => resolveHint m hint.text
    | none =>
      match a.value with
      | some value => infer value
      | none => pure .unknown

/-- The type of a bare name: that of the parameter, or that of all assignments in the scope. -/
def nameType (infer : Expr → Query InferredType) (scope : Scope) (name : String) :
    Query InferredType :=
  match scope.function.bind (·.param? name) with
  | some p =>
    match p.hint with
    | some a => resolveHint scope.module a.text
    | none => pure .unknown
  | none =>
    let assignments := match scope.function with
      | some f => f.localAssignments name
      | none => scope.module.globalAssignments name
    match assignments with
    | some assigns => agreed (assignmentType infer scope.module) none assigns
    | none => pure .unknown

/-- The type of an expression, if at most `hops` assignments are followed. -/
def exprType (scope : Scope) : (hops : Nat) → Expr → Query InferredType
  | 0, _ => pure .unknown
  | hops + 1, e =>
    match e with
    | .literal l _ => pure l.type
    | .collection kind _ _ => pure (.builtin kind.typeName)
    | .name name _ => nameType (exprType scope hops) scope name
    | .call func _ _ _ => call scope func
    | .member _ _ _ => pure .unknown
    | .other _ => pure .unknown

/-- The type of an expression. -/
def inferType (scope : Scope) (e : Expr) : Query InferredType := exprType scope (maxHops + 1) e

/-- Does the body end in a return or a raise? -/
def endsExplicitly (f : FunctionDef) : Bool :=
  match f.effectiveBody.getLast? with
  | some (.returning _) => true
  | some (.raise _) => true
  | _ => false

/-- The type of what one return statement returns. -/
def returnedType (scope : Scope) (r : Return) : Query InferredType :=
  match r.value with
  | some value => inferType scope value
  | none => pure (.builtin "None")

/-- What a function returns by its body. -/
def bodyReturn (m : Module) (f : FunctionDef) : Query InferredType :=
  if f.isGenerator then pure .unknown
  else
    let returns := f.ownReturns
    if returns.isEmpty then
      pure (if f.isStub || f.containsRaise then .unknown else .builtin "None")
    else if returns.any (·.value.isSome) && !endsExplicitly f then pure .unknown
    else agreed (returnedType (.ofFunction m f)) none returns

/-- What a function returns by its body. -/
def inferReturn (m : Module) (f : FunctionDef) : Query InferredType := do
  let key := (((← read).absolute m.path).components, f.qualname, f.span.start)
  match (← get).inferred.lookup key with
  | some t => pure t
  | none =>
    let result ← bodyReturn m f
    modify fun c => { c with inferred := (key, result) :: c.inferred }
    pure result

end Query

end Plumbline
