/-
Qualified names from a stack.

`Lower` hands the names of the enclosing definitions down.  They may as well be kept on a stack: the
name of a definition is put on it before the body is read and taken off again after that.  Apart from
this the reading is the same, construct by construct.
-/
import Plumbline.Module.Lower

namespace Plumbline

namespace Lower

/-- What is read while the names of the definitions around are kept on a stack, the nearest last. -/
abbrev Stacked (α : Type) : Type := StateM (List String) α

/-- Reads what is inside a definition, whose name stands on the stack meanwhile.  With it comes the
qualified name of the definition, which all names on the stack make up. -/
def inside {α : Type} (name : String) (read : Stacked α) : Stacked (String × α) := do
  modify (· ++ [name])
  let qualname := ".".intercalate (← get)
  let a ← read
  modify List.dropLast
  pure (qualname, a)

/-- A function with its body; what keeps a function from being read is told before its name is put on
the stack. -/
def stackedFunction (head? : Option FunctionHead) (body : Stacked (List Stmt)) :
    Stacked (Option Stmt) :=
  match head? with
  | none => pure none
  | some h => do
    let (qualname, inner) ← inside h.name body
    pure (some (.functionDef { h with qualname } inner))

/-- A class with its body. -/
def stackedClass (head? : Option ClassHead) (body : Stacked (List Stmt)) : Stacked (Option Stmt) :=
  match head? with
  | none => pure none
  | some h => do
    let (qualname, inner) ← inside h.name body
    pure (some (.classDef { h with qualname } inner))

mutual

/-- The statement that a tree stands for, inside the definitions whose names are on the stack. -/
def stackedStmt? (source : List Char) (inClass : Bool) : Syntax.Tree → Stacked (Option Stmt)
  | .node k f s cs =>
    let t := Syntax.Tree.node k f s cs
    match k with
    | .functionDefinition =>
      stackedFunction (functionHead? source [] inClass [] s t) (stackedBody source false cs)
    | .classDefinition =>
      stackedClass (classHead? source [] [] s t) (stackedBody source true cs)
    | .decoratedDefinition => stackedDefinition? source inClass (decorators source t) s cs
    | _ =>
      match compoundKind? k with
      | some kind => do
        let inner ← stackedBlocks source inClass cs
        pure (some (.compound { kind, heads := headsIn source cs, span := s } inner))
      | none => pure (simple? source t)

/-- The statements of a block. -/
def stackedStmts (source : List Char) (inClass : Bool) : List Syntax.Tree → Stacked (List Stmt)
  | [] => pure []
  | t :: ts => do
    let s ← stackedStmt? source inClass t
    let rest ← stackedStmts source inClass ts
    pure (s.toList ++ rest)

/-- The body among the parts of a definition. -/
def stackedBody (source : List Char) (inClass : Bool) : List Syntax.Tree → Stacked (List Stmt)
  | [] => pure []
  | .node _ f _ cs :: ts =>
    if f = some .body then stackedStmts source inClass cs else stackedBody source inClass ts

/-- The definition among the parts of a decorated one. -/
def stackedDefinition? (source : List Char) (inClass : Bool) (decorators : List Decorator)
    (header : Span) : List Syntax.Tree → Stacked (Option Stmt)
  | [] => pure none
  | .node k f s cs :: ts =>
    if f = some .definition then
      let t := Syntax.Tree.node k f s cs
      match k with
      | .functionDefinition =>
        stackedFunction (functionHead? source [] inClass decorators header t)
          (stackedBody source false cs)
      | .classDefinition =>
        stackedClass (classHead? source [] decorators header t) (stackedBody source true cs)
      | _ => pure (some (.other header))
    else stackedDefinition? source inClass decorators header ts

/-- The blocks of a compound statement and its clauses. -/
def stackedBlocks (source : List Char) (inClass : Bool) :
    List Syntax.Tree → Stacked (List (List Stmt))
  | [] => pure []
  | .node k _ _ cs :: ts => do
    let own ←
      (if k = .block then List.singleton <$> stackedStmts source inClass cs
      else if k.isClause then stackedBlocks source inClass cs
      else pure [])
    let rest ← stackedBlocks source inClass ts
    pure (own ++ rest)

end

end Lower

end Plumbline
