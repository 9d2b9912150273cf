/-
Modules as the rules see them.

A source file is a list of statements.  Every construct that some rule asks about has its own
form; all others are `other`, with the stretch of source they cover.  A definition knows the
names of the definitions around it (`qualname`), so it can be found again after an edit.
-/
import Plumbline.Files.Path
import Plumbline.Text.NameSet
import Plumbline.Text.Span

namespace Plumbline

inductive Literal where
  | str | fstr | bytes | int | float | bool (value : Bool) | none | ellipsis
deriving Repr, DecidableEq, Inhabited

inductive CollectionKind where
  | list | dict | set | tuple
deriving Repr, DecidableEq, Inhabited

inductive Expr where
  | literal (value : Literal) (span : Span)
  | name (id : String) (span : Span)
  | member (value : Expr) (attr : String) (span : Span)
  | call (func : Expr) (args : List Expr) (keywords : List (String × Expr)) (span : Span)
  | collection (kind : CollectionKind) (items : List Expr) (span : Span)
  | other (span : Span)
deriving Repr, Inhabited

namespace Expr

def span : Expr → Span
  | literal _ s | name _ s | member _ _ s | call _ _ _ s | collection _ _ s | other s => s

/-- The dotted text of a name or a chain of attributes of a name. -/
def dottedName? : Expr → Option String
  | name id _ => some id
  | member value attr _ => value.dottedName?.map (· ++ "." ++ attr)
  | _ => none

/-- The last part of what a call calls; of anything else, its own last part. -/
def calleeName? : Expr → Option String
  | call func _ _ _ => func.calleeName?
  | name id _ => some id
  | member _ attr _ => some attr
  | _ => none

end Expr

structure Decorator where
  expr : Expr
  span : Span
deriving Repr, Inhabited

/-- A type as it is written. -/
structure TypeHint where
  text : String
  span : Span
deriving Repr, DecidableEq, Inhabited

inductive ParamKind where
  | positional | varArgs | kwArgs
deriving Repr, DecidableEq, Inhabited

structure Param where
  name : String
  kind : ParamKind
  hint : Option TypeHint := none
  default : Option Expr := none
  /-- The whole parameter. -/
  span : Span
  /-- The name alone. -/
  nameSpan : Span
deriving Repr, Inhabited

/-- A function without its body. -/
structure FunctionHead where
  name : String
  /-- Names of the enclosing definitions and its own, joined by dots. -/
  qualname : String
  decorators : List Decorator := []
  params : List Param := []
  paramsSpan : Span := {}
  returns : Option TypeHint := none
  isAsync : Bool := false
  /-- The nearest definition around it is a class. -/
  isMethod : Bool := false
  isGenerator : Bool := false
  /-- Names that the body binds by anything but an assignment to that name alone. -/
  indirect : NameSet := {}
  /-- From the defining word on. -/
  span : Span := {}
  /-- From the first decorator on. -/
  header : Span := {}
deriving Repr, Inhabited

/-- A class without its body. -/
structure ClassHead where
  name : String
  qualname : String
  decorators : List Decorator := []
  bases : List Expr := []
  span : Span := {}
  header : Span := {}
deriving Repr, Inhabited

structure ImportedName where
  name : String
  asName : Option String := none
deriving Repr, DecidableEq, Inhabited

/-- The part of a dotted text before its first dot. -/
def firstSegment (s : String) : String := String.ofList (s.toList.takeWhile (· != '.'))

/-- The name an import binds. -/
def ImportedName.boundName (n : ImportedName) : String :=
  match n.asName with
  | some a => a
  | none => firstSegment n.name

structure Import where
  /-- The module after `from`; nothing for a plain `import`. -/
  fromModule : Option String := none
  /-- Leading dots. -/
  level : Nat := 0
  names : List ImportedName := []
  wildcard : Bool := false
  span : Span := {}
deriving Repr, Inhabited

namespace Import

def isFrom (i : Import) : Bool := i.fromModule.isSome

/-- The modules that the statement names, as written. -/
def writtenModules (i : Import) : List String :=
  match i.fromModule with
  | some m => [String.ofList (List.replicate i.level '.') ++ m]
  | none => i.names.map (·.name)

/-- Does the statement bind `name`, other than by a wildcard? -/
def binds (i : Import) (name : String) : Bool :=
  !i.wildcard && i.names.any (·.boundName == name)

end Import

structure Return where
  value : Option Expr := none
  span : Span := {}
deriving Repr, Inhabited

structure Assign where
  /-- Names and attributes that are assigned, as written. -/
  targets : List String := []
  hint : Option TypeHint := none
  value : Option Expr := none
  span : Span := {}
deriving Repr, Inhabited

inductive CompoundKind where
  | conditional | forLoop | whileLoop | attempt | resource | matching
deriving Repr, DecidableEq, Inhabited

/-- A compound statement without its blocks. -/
structure CompoundHead where
  kind : CompoundKind
  /-- Conditions, iterables and context managers. -/
  heads : List Expr := []
  span : Span := {}
deriving Repr, Inhabited

structure Comment where
  text : String
  span : Span
deriving Repr, DecidableEq, Inhabited

inductive Stmt where
  | functionDef (head : FunctionHead) (body : List Stmt)
  | classDef (head : ClassHead) (body : List Stmt)
  | importing (i : Import)
  | returning (r : Return)
  | assign (a : Assign)
  | expr (e : Expr)
  | compound (head : CompoundHead) (blocks : List (List Stmt))
  | comment (c : Comment)
  | pass (span : Span)
  | raise (span : Span)
  | other (span : Span)
deriving Repr, Inhabited

namespace Stmt

/-- Where a statement lies; a definition from its first decorator on. -/
def span : Stmt → Span
  | functionDef h _ => h.header
  | classDef h _ => h.header
  | importing i => i.span
  | returning r => r.span
  | assign a => a.span
  | expr e => e.span
  | compound h _ => h.span
  | comment c => c.span
  | pass s | raise s | other s => s

/-- A string as a statement. -/
def isDocstring : Stmt → Bool
  | expr (.literal .str _) => true
  | _ => false

def isComment : Stmt → Bool
  | comment _ => true
  | _ => false

end Stmt

/-- A function with its body. -/
structure FunctionDef extends FunctionHead where
  body : List Stmt
deriving Repr, Inhabited

/-- A class with its body. -/
structure ClassDef extends ClassHead where
  body : List Stmt
deriving Repr, Inhabited

/-- A source file. -/
structure Module where
  /-- Relative to the project where possible. -/
  path : Path
  /-- Dotted name. -/
  name : String
  body : List Stmt
  /-- Top-level names that are bound by anything but an assignment to that name alone. -/
  indirect : NameSet := {}
  /-- Qualified names that several definitions share. -/
  duplicates : NameSet := {}
deriving Repr, Inhabited

end Plumbline
