/-
Questions about modules.

Definitions are found by qualified name in source order, outer before inner.  Assignments are
collected through compound blocks but not into nested definitions; if a name is bound in any
other way as well, there is no answer, because its value cannot be read off the assignments.
-/
import Plumbline.Module.Basic

namespace Plumbline

/-! ### Bodies of functions -/

mutual

/-- Own return statements of a list of statements, not those of nested definitions. -/
def returnsIn : List Stmt → List Return
  | [] => []
  | s :: rest => returnsOf s ++ returnsIn rest

def returnsOf : Stmt → List Return
  | .returning r => [r]
  | .compound _ blocks => returnsInBlocks blocks
  | _ => []

def returnsInBlocks : List (List Stmt) → List Return
  | [] => []
  | b :: rest => returnsIn b ++ returnsInBlocks rest

end

mutual

/-- Is there a raise outside nested definitions? -/
def raisesIn : List Stmt → Bool
  | [] => false
  | s :: rest => raises s || raisesIn rest

def raises : Stmt → Bool
  | .raise _ => true
  | .compound _ blocks => raisesInBlocks blocks
  | _ => false

def raisesInBlocks : List (List Stmt) → Bool
  | [] => false
  | b :: rest => raisesIn b || raisesInBlocks rest

end

mutual

/-- All assignments to `name`, or nothing if some statement binds it in another way. -/
def assignmentsIn (name : String) : List Stmt → Option (List Assign)
  | [] => some []
  | s :: rest => do
    let own ← assignmentsOf name s
    let more ← assignmentsIn name rest
    pure (own ++ more)

def assignmentsOf (name : String) : Stmt → Option (List Assign)
  | .assign a =>
    if a.targets.contains name then
      if a.targets.length = 1 then some [a] else none
    else some []
  | .compound _ blocks => assignmentsInBlocks name blocks
  | .functionDef h _ => if h.name = name then none else some []
  | .classDef h _ => if h.name = name then none else some []
  | .importing i =>
    if i.wildcard || i.names.any (·.boundName == name) then none else some []
  | _ => some []

def assignmentsInBlocks (name : String) : List (List Stmt) → Option (List Assign)
  | [] => some []
  | b :: rest => do
    let own ← assignmentsIn name b
    let more ← assignmentsInBlocks name rest
    pure (own ++ more)

end

namespace FunctionDef

/-- The body without comments and without a docstring in front. -/
def effectiveBody (f : FunctionDef) : List Stmt :=
  match f.body.filter (!·.isComment) with
  | s :: rest => if s.isDocstring then rest else s :: rest
  | [] => []

/-- Nothing but `...` and `pass`. -/
def isStub (f : FunctionDef) : Bool :=
  f.effectiveBody.all fun
    | .pass _ => true
    | .expr (.literal .ellipsis _) => true
    | _ => false

def param? (f : FunctionDef) (name : String) : Option Param :=
  f.params.find? (·.name == name)

/-- Return statements of the function itself. -/
def ownReturns (f : FunctionDef) : List Return := returnsIn f.body

def containsRaise (f : FunctionDef) : Bool := raisesIn f.body

/-- All assignments to `name` in the function, if nothing else binds it there. -/
def localAssignments (f : FunctionDef) (name : String) : Option (List Assign) :=
  if f.indirect.contains name then none else assignmentsIn name f.body

end FunctionDef

namespace ClassDef

/-- The last method of that name. -/
def method? (c : ClassDef) (name : String) : Option FunctionDef :=
  c.body.reverse.findSome? fun
    | .functionDef h body => if h.name = name then some { h with body } else none
    | _ => none

/-- The first decorator that is `dataclass` or a call of it. -/
def dataclassDecorator? (c : ClassDef) : Option Decorator :=
  c.decorators.find? fun d => d.expr.calleeName? == some "dataclass"

end ClassDef

/-! ### Finding definitions -/

mutual

def findFunctionIn (qualname : String) : List Stmt → Option FunctionDef
  | [] => none
  | s :: rest => (findFunctionAt qualname s).or (findFunctionIn qualname rest)

def findFunctionAt (qualname : String) : Stmt → Option FunctionDef
  | .functionDef h body =>
    if h.qualname = qualname then some { h with body } else findFunctionIn qualname body
  | .classDef _ body => findFunctionIn qualname body
  | .compound _ blocks => findFunctionInBlocks qualname blocks
  | _ => none

def findFunctionInBlocks (qualname : String) : List (List Stmt) → Option FunctionDef
  | [] => none
  | b :: rest => (findFunctionIn qualname b).or (findFunctionInBlocks qualname rest)

end

mutual

def findClassIn (qualname : String) : List Stmt → Option ClassDef
  | [] => none
  | s :: rest => (findClassAt qualname s).or (findClassIn qualname rest)

def findClassAt (qualname : String) : Stmt → Option ClassDef
  | .classDef h body =>
    if h.qualname = qualname then some { h with body } else findClassIn qualname body
  | .functionDef _ body => findClassIn qualname body
  | .compound _ blocks => findClassInBlocks qualname blocks
  | _ => none

def findClassInBlocks (qualname : String) : List (List Stmt) → Option ClassDef
  | [] => none
  | b :: rest => (findClassIn qualname b).or (findClassInBlocks qualname rest)

end

mutual

/-- Qualified names of all definitions at any depth, in source order. -/
def definedNames : List Stmt → List String
  | [] => []
  | s :: rest => definedNamesOf s ++ definedNames rest

def definedNamesOf : Stmt → List String
  | .functionDef h body => h.qualname :: definedNames body
  | .classDef h body => h.qualname :: definedNames body
  | .compound _ blocks => definedNamesInBlocks blocks
  | _ => []

def definedNamesInBlocks : List (List Stmt) → List String
  | [] => []
  | b :: rest => definedNames b ++ definedNamesInBlocks rest

end

/-- Names that occur more than once. -/
def repeated (names : List String) : NameSet :=
  .ofList (names.filter fun n => 1 < names.count n)

/-- The text before the last dot, if there is a dot. -/
def beforeLastDot? (s : String) : Option String :=
  match s.toList.reverse.dropWhile (· != '.') with
  | _ :: rest => some (String.ofList rest.reverse)
  | [] => none

namespace Module

/-- All top-level assignments to `name`, if nothing else binds it there. -/
def globalAssignments (m : Module) (name : String) : Option (List Assign) :=
  if m.indirect.contains name then none else assignmentsIn name m.body

/-- Do several definitions share this qualified name? -/
def isAmbiguous (m : Module) (qualname : String) : Bool := m.duplicates.contains qualname

def findFunction? (m : Module) (qualname : String) : Option FunctionDef :=
  findFunctionIn qualname m.body

def findClass? (m : Module) (qualname : String) : Option ClassDef := findClassIn qualname m.body

/-- The class that a method belongs to. -/
def enclosingClass? (m : Module) (f : FunctionDef) : Option ClassDef :=
  if f.isMethod then (beforeLastDot? f.qualname).bind m.findClass? else none

/-- Top-level imports. -/
def imports (m : Module) : List Import :=
  m.body.filterMap fun
    | .importing i => some i
    | _ => none

/-- Does a top-level statement bind `name`? -/
def binds (m : Module) (name : String) : Bool :=
  m.body.any fun
    | .classDef h _ => h.name == name
    | .functionDef h _ => h.name == name
    | .importing i => i.binds name
    | .assign a => a.targets.contains name
    | _ => false

end Module

end Plumbline
