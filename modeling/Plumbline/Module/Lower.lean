/-
From syntax trees to modules.

Each construct that the rules know becomes its form; the rest becomes `other`.  Parentheses
vanish, a signed number is the number, and a comment is kept only as a statement.  The names of
the enclosing definitions are passed down, so a qualified name is fixed by where the definition
stands and nothing else.
-/
import Plumbline.Module.Query
import Plumbline.Syntax.Grammar

namespace Plumbline

open Syntax (Kind Field)

namespace Lower

/-! ### Expressions -/

/-- The lower-case letters in front of a string literal. -/
def stringPrefix (text : String) : List Char :=
  (text.toList.takeWhile Char.isAlpha).map Char.toLower

def stringLiteral (text : String) : Literal :=
  let letters := stringPrefix text
  if letters.contains 'b' then .bytes
  else if letters.contains 'f' then .fstr
  else .str

/-- The first lowered part that plays `f`. -/
def partAs? (f : Field) (parts : List (Syntax.Tree × Expr)) : Option (Syntax.Tree × Expr) :=
  parts.find? fun p => p.1.field == some f

/-- Lowered parts that are no comments. -/
def contents (parts : List (Syntax.Tree × Expr)) : List (Syntax.Tree × Expr) :=
  parts.filter fun p => p.1.kind != .comment

mutual

/-- The expression that a tree stands for. -/
def expr (source : List Char) : Syntax.Tree → Expr
  | .node k _ s cs =>
    let parts := exprs source cs
    let items := (contents parts).map (·.2)
    match k with
    | .string => .literal (stringLiteral (s.text source)) s
    | .concatenatedString => .literal .str s
    | .integer => .literal .int s
    | .float => .literal .float s
    | .trueLiteral => .literal (.bool true) s
    | .falseLiteral => .literal (.bool false) s
    | .noneLiteral => .literal .none s
    | .ellipsis => .literal .ellipsis s
    | .identifier => .name (s.text source) s
    | .attribute =>
      match partAs? .object parts, partAs? .attribute parts with
      | some (_, value), some (attr, _) => .member value (attr.span.text source) s
      | _, _ => .other s
    | .call =>
      match partAs? .function parts with
      | some (_, func) =>
        let args := callArguments source cs
        .call func (args.filterMap fun a => if a.1.isNone then some a.2 else none)
          (args.filterMap fun a => a.1.map (·, a.2)) s
      | none => .other s
    | .list => .collection .list items s
    | .listComprehension => .collection .list [] s
    | .dictionary => .collection .dict items s
    | .dictionaryComprehension => .collection .dict [] s
    | .set => .collection .set items s
    | .setComprehension => .collection .set [] s
    | .tuple | .splatTuple => .collection .tuple items s
    | .expressionList => .collection .tuple items s
    | .parenthesized => items.headD (.other s)
    | .unary =>
      match partAs? .argument parts with
      | some (t, e) => if t.kind = .integer ∨ t.kind = .float then e else .other s
      | none => .other s
    | _ => .other s

/-- Every tree of a list with the expression it stands for; an argument list is left to the call
that it belongs to. -/
def exprs (source : List Char) : List Syntax.Tree → List (Syntax.Tree × Expr)
  | [] => []
  | t :: ts =>
    (t, if t.kind = .argumentList then .other t.span else expr source t) :: exprs source ts

/-- The arguments among the parts of a call: each with its keyword, if it has one. -/
def callArguments (source : List Char) : List Syntax.Tree → List (Option String × Expr)
  | [] => []
  | .node k f _ cs :: ts =>
    if f = some .arguments then
      if k = .argumentList then argumentItems source cs else []
    else callArguments source ts

/-- The items of an argument list. -/
def argumentItems (source : List Char) : List Syntax.Tree → List (Option String × Expr)
  | [] => []
  | .node k f s cs :: ts =>
    let rest := argumentItems source ts
    match k with
    | .comment => rest
    | .keywordArgument =>
      let parts := exprs source cs
      match partAs? .name parts, partAs? .value parts with
      | some (name, _), some (_, value) => (some (name.span.text source), value) :: rest
      | _, _ => rest
    | _ => (none, expr source (.node k f s cs)) :: rest

end

/-! ### Names -/

mutual

/-- Identifiers in a target; attributes and items bind no name. -/
def targetNames (source : List Char) : Syntax.Tree → List String
  | .node k _ s cs =>
    match k with
    | .identifier => [s.text source]
    | .attribute | .subscript => []
    | _ => targetNamesIn source cs

def targetNamesIn (source : List Char) : List Syntax.Tree → List String
  | [] => []
  | t :: ts => targetNames source t ++ targetNamesIn source ts

end

mutual

/-- Names that the statements of kind `kind` in a tree declare. -/
def declaredNamesOf (source : List Char) (kind : Kind) : Syntax.Tree → List String
  | .node k f s cs =>
    if k = kind then targetNames source (.node k f s cs) else declaredNames source kind cs

def declaredNames (source : List Char) (kind : Kind) : List Syntax.Tree → List String
  | [] => []
  | t :: ts => declaredNamesOf source kind t ++ declaredNames source kind ts

end

/-! ### Imports -/

def importedName? (source : List Char) (t : Syntax.Tree) : Option ImportedName :=
  match t.kind with
  | .dottedName | .identifier => some { name := t.span.text source }
  | .aliasedImport =>
    (t.child? .name).map fun n =>
      { name := n.span.text source, asName := (t.child? .asName).map (·.span.text source) }
  | _ => none

def importedNames (source : List Char) (t : Syntax.Tree) : List ImportedName :=
  (t.childrenWith .name).filterMap (importedName? source)

def plainImport (source : List Char) (t : Syntax.Tree) : Import :=
  { names := importedNames source t, span := t.span }

def fromImport (source : List Char) (t : Syntax.Tree) : Import :=
  let raw := match t.child? .moduleName with
    | some m => (m.span.text source).toList
    | none => []
  { fromModule := some (String.ofList (raw.dropWhile (· == '.')))
    level := (raw.takeWhile (· == '.')).length
    names := importedNames source t
    wildcard := t.children.any (·.kind = .wildcardImport)
    span := t.span }

def futureImport (source : List Char) (t : Syntax.Tree) : Import :=
  { fromModule := some "__future__", names := importedNames source t, span := t.span }

/-! ### Bindings -/

/-- Whose bindings are collected: those of a module or those of a function. -/
inductive Scope where
  | module | function
deriving Repr, DecidableEq

/-- The statement by which an inner function rebinds a name of the scope. -/
def Scope.rebinding : Scope → Kind
  | module => .globalStatement
  | function => .nonlocalStatement

mutual

/-- Names that a part of a construct of kind `parent` binds, other than by an assignment to a
single name as a statement.  Nested definitions are entered only for the statements by which
they rebind names of this scope. -/
def bindingsOf (source : List Char) (scope : Scope) (parent : Kind) : Syntax.Tree → List String
  | .node k f s cs =>
    let t := Syntax.Tree.node k f s cs
    let namesAs (field : Field) : List String :=
      match t.child? field with
      | some c => targetNames source c
      | none => []
    let inner := bindings source scope k cs
    match k with
    | .functionDefinition | .classDefinition =>
      ((t.child? .name).map (·.span.text source)).toList ++
        declaredNames source scope.rebinding cs
    | .lambda => []
    | .assignment =>
      let simple := match t.child? .left with
        | some left => left.kind == .identifier || left.kind == .attribute
        | none => false
      (if parent == .expressionStatement && simple then [] else namesAs .left) ++ inner
    | .augmentedAssignment | .forStatement => namesAs .left ++ inner
    | .named => ((t.child? .name).map (·.span.text source)).toList ++ inner
    | .asPattern | .exceptClause => namesAs .asName ++ inner
    | .globalStatement | .nonlocalStatement | .deleteStatement | .casePattern =>
      targetNames source t
    | .importStatement => (plainImport source t).names.map (·.boundName)
    | .importFrom => (fromImport source t).names.map (·.boundName)
    | _ => inner

def bindings (source : List Char) (scope : Scope) (parent : Kind) : List Syntax.Tree → List String
  | [] => []
  | t :: ts => bindingsOf source scope parent t ++ bindings source scope parent ts

end

mutual

/-- Is there a `yield` in a part, outside nested scopes? -/
def yieldsOf : Syntax.Tree → Bool
  | .node k _ _ cs =>
    match k with
    | .yield => true
    | .functionDefinition | .classDefinition | .lambda | .decoratedDefinition => false
    | _ => yieldsIn cs

def yieldsIn : List Syntax.Tree → Bool
  | [] => false
  | t :: ts => yieldsOf t || yieldsIn ts

end

/-! ### Parameters -/

def hint? (source : List Char) (field : Field) (t : Syntax.Tree) : Option TypeHint :=
  (t.child? field).map fun a => { text := a.span.text source, span := a.span }

/-- Name, kind and place of the name of a parameter. -/
def paramTarget (source : List Char) (t : Syntax.Tree) : String × ParamKind × Span :=
  let named := (t.children.find? (·.kind = .identifier)).getD t
  match t.kind with
  | .listSplatPattern => (named.span.text source, .varArgs, named.span)
  | .dictionarySplatPattern => (named.span.text source, .kwArgs, named.span)
  | _ => (t.span.text source, .positional, t.span)

def param? (source : List Char) (t : Syntax.Tree) : Option Param :=
  match t.kind with
  | .identifier =>
    some { name := t.span.text source, kind := .positional, span := t.span, nameSpan := t.span }
  | .typedParameter =>
    t.children.head?.map fun target =>
      let (name, kind, nameSpan) := paramTarget source target
      { name, kind, hint := hint? source .type t, span := t.span, nameSpan }
  | .defaultParameter | .typedDefaultParameter =>
    (t.child? .name).map fun name =>
      { name := name.span.text source, kind := .positional
        hint := hint? source .type t
        default := (t.child? .value).map (expr source)
        span := t.span, nameSpan := name.span }
  | .listSplatPattern | .dictionarySplatPattern =>
    let (name, kind, nameSpan) := paramTarget source t
    some { name, kind, span := t.span, nameSpan }
  | _ => none

/-! ### Statements -/

def decorators (source : List Char) (t : Syntax.Tree) : List Decorator :=
  (t.children.filter (·.kind = .decorator)).filterMap fun d =>
    d.content?.map fun e => { expr := expr source e, span := d.span }

def bases (source : List Char) (t : Syntax.Tree) : List Expr :=
  match t.child? .superclasses with
  | some args =>
    (args.children.filter fun c => c.kind != .keywordArgument && c.kind != .comment).map
      (expr source)
  | none => []

def assignment (source : List Char) (t : Syntax.Tree) (span : Span) : Assign :=
  let targets := match t.child? .left with
    | some left =>
      if left.kind = .identifier ∨ left.kind = .attribute then [left.span.text source]
      else (left.children.filter (·.kind = .identifier)).map (·.span.text source)
    | none => []
  { targets, hint := hint? source .type t
    value := (t.child? .right).map (expr source), span }

/-- What a statement or a clause tests, loops over or matches. -/
def headExprs (source : List Char) (parts : List Syntax.Tree) : List Expr :=
  [Field.condition, .right, .subject].filterMap fun f =>
    (parts.find? fun c => c.field == some f).map (expr source)

mutual

/-- Header expressions of an item or a clause. -/
def clauseHeadsOf (source : List Char) : Syntax.Tree → List Expr
  | .node k _ _ cs =>
    if k = .withItem then ((cs.find? fun c => c.field == some .value).map (expr source)).toList
    else if k.isClause then headExprs source cs ++ clauseHeads source cs
    else []

def clauseHeads (source : List Char) : List Syntax.Tree → List Expr
  | [] => []
  | t :: ts => clauseHeadsOf source t ++ clauseHeads source ts

end

/-- The header expressions of a compound statement and its clauses. -/
def headsIn (source : List Char) (parts : List Syntax.Tree) : List Expr :=
  headExprs source parts ++ clauseHeads source parts

def compoundKind? : Kind → Option CompoundKind
  | .ifStatement => some .conditional
  | .forStatement => some .forLoop
  | .whileStatement => some .whileLoop
  | .tryStatement => some .attempt
  | .withStatement => some .resource
  | .matchStatement | .caseClause => some .matching
  | _ => none

/-- Everything about a function but its body; `scope` are the names around it, outermost first. -/
def functionHead? (source : List Char) (scope : List String) (inClass : Bool)
    (decorators : List Decorator) (header : Span) (t : Syntax.Tree) : Option FunctionHead := do
  let name := (← t.child? .name).span.text source
  let params ← t.child? .parameters
  let bodyParts := ((t.child? .body).map (·.children)).getD []
  pure
    { name
      qualname := ".".intercalate (scope ++ [name])
      decorators
      params := params.children.filterMap (param? source)
      paramsSpan := params.span
      returns := hint? source .returnType t
      isAsync := (t.child? .async).isSome
      isMethod := inClass
      isGenerator := yieldsIn bodyParts
      indirect := .ofList (bindings source .function .block bodyParts)
      span := t.span
      header }

/-- Everything about a class but its body. -/
def classHead? (source : List Char) (scope : List String) (decorators : List Decorator)
    (header : Span) (t : Syntax.Tree) : Option ClassHead := do
  let name := (← t.child? .name).span.text source
  pure
    { name
      qualname := ".".intercalate (scope ++ [name])
      decorators
      bases := bases source t
      span := t.span
      header }

/-- A statement without blocks. -/
def simple? (source : List Char) (t : Syntax.Tree) : Option Stmt :=
  match t.kind with
  | .importStatement => some (.importing (plainImport source t))
  | .importFrom => some (.importing (fromImport source t))
  | .futureImport => some (.importing (futureImport source t))
  | .returnStatement =>
    some (.returning { value := t.content?.map (expr source), span := t.span })
  | .expressionStatement =>
    t.content?.map fun inner =>
      match inner.kind with
      | .assignment => .assign (assignment source inner t.span)
      | .augmentedAssignment => .other t.span
      | _ => .expr (expr source inner)
  | .comment => some (.comment { text := t.span.text source, span := t.span })
  | .passStatement => some (.pass t.span)
  | .raiseStatement => some (.raise t.span)
  | _ => some (.other t.span)

mutual

/-- The statement that a tree stands for, inside definitions named `scope`. -/
def stmt? (source : List Char) (scope : List String) (inClass : Bool) : Syntax.Tree → Option Stmt
  | .node k f s cs =>
    let t := Syntax.Tree.node k f s cs
    match k with
    | .functionDefinition =>
      (functionHead? source scope inClass [] s t).map fun h =>
        .functionDef h (body source (scope ++ [h.name]) false cs)
    | .classDefinition =>
      (classHead? source scope [] s t).map fun h =>
        .classDef h (body source (scope ++ [h.name]) true cs)
    | .decoratedDefinition => definition? source scope inClass (decorators source t) s cs
    | _ =>
      match compoundKind? k with
      | some kind =>
        some (.compound { kind, heads := headsIn source cs, span := s }
          (blocks source scope inClass cs))
      | none => simple? source t

/-- The statements of a block. -/
def stmts (source : List Char) (scope : List String) (inClass : Bool) :
    List Syntax.Tree → List Stmt
  | [] => []
  | t :: ts => (stmt? source scope inClass t).toList ++ stmts source scope inClass ts

/-- The body among the parts of a definition. -/
def body (source : List Char) (scope : List String) (inClass : Bool) :
    List Syntax.Tree → List Stmt
  | [] => []
  | .node _ f _ cs :: ts =>
    if f = some .body then stmts source scope inClass cs else body source scope inClass ts

/-- The definition among the parts of a decorated one. -/
def definition? (source : List Char) (scope : List String) (inClass : Bool)
    (decorators : List Decorator) (header : Span) : List Syntax.Tree → Option Stmt
  | [] => none
  | .node k f s cs :: ts =>
    if f = some .definition then
      let t := Syntax.Tree.node k f s cs
      match k with
      | .functionDefinition =>
        (functionHead? source scope inClass decorators header t).map fun h =>
          .functionDef h (body source (scope ++ [h.name]) false cs)
      | .classDefinition =>
        (classHead? source scope decorators header t).map fun h =>
          .classDef h (body source (scope ++ [h.name]) true cs)
      | _ => some (.other header)
    else definition? source scope inClass decorators header ts

/-- The blocks of a compound statement and its clauses. -/
def blocks (source : List Char) (scope : List String) (inClass : Bool) :
    List Syntax.Tree → List (List Stmt)
  | [] => []
  | .node k _ _ cs :: ts =>
    (if k = .block then [stmts source scope inClass cs]
    else if k.isClause then blocks source scope inClass cs
    else []) ++ blocks source scope inClass ts

end

end Lower

/-- The module that a tree of `source` stands for. -/
def Module.ofTree (path : Path) (name source : String) (tree : Syntax.Tree) : Module :=
  let chars := source.toList
  let body := Lower.stmts chars [] false tree.children
  { path, name, body
    indirect := .ofList (Lower.bindings chars .module .module tree.children)
    duplicates := repeated (definedNames body) }

/-- A source file that is no module. -/
structure SyntaxError where
  path : Path
  line : Nat
deriving Repr, DecidableEq, Inhabited

def SyntaxError.message (e : SyntaxError) : String :=
  "syntax error in " ++ e.path ++ " at line " ++ toString e.line

/-- Reads a module from source. -/
def Module.parse (source : String) (path : Path) (name : String) : Except SyntaxError Module :=
  match Syntax.parse source with
  | .ok tree => .ok (Module.ofTree path name source tree)
  | .error line => .error { path, line }

theorem Module.parse_of_tree {source : String} {tree : Syntax.Tree} (h : Syntax.parse source = .ok tree)
    (path : Path) (name : String) :
    Module.parse source path name = .ok (Module.ofTree path name source tree) := by
  unfold Module.parse
  split
  · rename_i htree
    rw [Except.ok.inj (htree.symm.trans h)]
  · rename_i htree
    exact absurd (htree.symm.trans h) (by simp)

theorem Module.parse_eq_ok {path : Path} {source name : String} {m : Module}
    (h : Module.parse source path name = .ok m) :
    ∃ tree, Syntax.parse source = .ok tree ∧ m = Module.ofTree path name source tree := by
  unfold Module.parse at h
  split at h
  · rename_i tree htree
    exact ⟨tree, htree, (Except.ok.inj h).symm⟩
  · exact absurd h (by simp)

theorem Module.exists_parse {source : String} (h : Syntax.isValid source = true) (path : Path)
    (name : String) : ∃ m, Module.parse source path name = .ok m :=
  let ⟨_, htree⟩ := Syntax.exists_parse h
  ⟨_, parse_of_tree htree path name⟩

end Plumbline
