/-
Walks through modules.

A walk enters each statement and expression before its parts and leaves it after them.  With each
node it tells the innermost class and function around it: decorators, bases and defaults belong
to what is around their definition, and a class hides the function that it stands in.
-/
import Plumbline.Module.Basic

namespace Plumbline

inductive Node where
  | module (m : Module)
  | stmt (s : Stmt)
  | expr (e : Expr)
deriving Inhabited

inductive NodeKind where
  | module | functionDef | classDef | importing | returning | assign | exprStmt | compound
  | comment | pass | raise | otherStmt | literal | name | member | call | collection | otherExpr
deriving Repr, DecidableEq, Inhabited

namespace NodeKind

def all : List NodeKind :=
  [module, functionDef, classDef, importing, returning, assign, exprStmt, compound, comment, pass,
   raise, otherStmt, literal, name, member, call, collection, otherExpr]

end NodeKind

namespace Node

def kind : Node → NodeKind
  | module _ => .module
  | stmt s =>
    match s with
    | .functionDef _ _ => .functionDef
    | .classDef _ _ => .classDef
    | .importing _ => .importing
    | .returning _ => .returning
    | .assign _ => .assign
    | .expr _ => .exprStmt
    | .compound _ _ => .compound
    | .comment _ => .comment
    | .pass _ => .pass
    | .raise _ => .raise
    | .other _ => .otherStmt
  | expr e =>
    match e with
    | .literal _ _ => .literal
    | .name _ _ => .name
    | .member _ _ _ => .member
    | .call _ _ _ _ => .call
    | .collection _ _ _ => .collection
    | .other _ => .otherExpr

/-- A module starts at its first line. -/
def span : Node → Span
  | module _ => { line := 1 }
  | stmt s => s.span
  | expr e => e.span

def function? : Node → Option FunctionDef
  | stmt (.functionDef h body) => some { h with body }
  | _ => none

def class? : Node → Option ClassDef
  | stmt (.classDef h body) => some { h with body }
  | _ => none

def import? : Node → Option Import
  | stmt (.importing i) => some i
  | _ => none

/-- An expression, also one that is a statement. -/
def expr? : Node → Option Expr
  | expr e => some e
  | stmt (.expr e) => some e
  | _ => none

end Node

/-- The innermost definitions around a node. -/
structure Around where
  owner : Option ClassDef := none
  function : Option FunctionDef := none
deriving Inhabited

namespace Around

def enterClass (_ : Around) (c : ClassDef) : Around := { owner := some c }

def enterFunction (a : Around) (f : FunctionDef) : Around := { a with function := some f }

end Around

/-- One step of a walk. -/
inductive Visit where
  | enter (around : Around) (node : Node)
  | leave (around : Around) (node : Node)
deriving Inhabited

/-- The visits of the parts of a node, between entering and leaving it. -/
def enclosed (around : Around) (node : Node) (parts : List Visit) : List Visit :=
  .enter around node :: parts ++ [.leave around node]

mutual

/-- The walk through an expression. -/
def visitsOfExpr (around : Around) : Expr → List Visit
  | e@(.member value _ _) => enclosed around (.expr e) (visitsOfExpr around value)
  | e@(.call func args keywords _) =>
    enclosed around (.expr e)
      (visitsOfExpr around func ++ visitsOfExprs around args ++ visitsOfKeywords around keywords)
  | e@(.collection _ items _) => enclosed around (.expr e) (visitsOfExprs around items)
  | e@(.literal _ _) | e@(.name _ _) | e@(.other _) => enclosed around (.expr e) []

def visitsOfExprs (around : Around) : List Expr → List Visit
  | [] => []
  | e :: rest => visitsOfExpr around e ++ visitsOfExprs around rest

def visitsOfKeywords (around : Around) : List (String × Expr) → List Visit
  | [] => []
  | (_, e) :: rest => visitsOfExpr around e ++ visitsOfKeywords around rest

end

mutual

/-- The walk through a statement. -/
def visitsOfStmt (around : Around) : Stmt → List Visit
  | s@(.functionDef h body) =>
    enclosed around (.stmt s)
      (visitsOfExprs around (h.decorators.map (·.expr)) ++
        visitsOfExprs around (h.params.filterMap (·.default)) ++
        visitsOfBlock (around.enterFunction { h with body }) body)
  | s@(.classDef h body) =>
    enclosed around (.stmt s)
      (visitsOfExprs around (h.decorators.map (·.expr)) ++ visitsOfExprs around h.bases ++
        visitsOfBlock (around.enterClass { h with body }) body)
  | s@(.returning r) => enclosed around (.stmt s) (visitsOfExprs around r.value.toList)
  | s@(.assign a) => enclosed around (.stmt s) (visitsOfExprs around a.value.toList)
  | s@(.expr e) => enclosed around (.stmt s) (visitsOfExpr around e)
  | s@(.compound h blocks) =>
    enclosed around (.stmt s) (visitsOfExprs around h.heads ++ visitsOfBlocks around blocks)
  | s@(.importing _) | s@(.comment _) | s@(.pass _) | s@(.raise _) | s@(.other _) =>
    enclosed around (.stmt s) []

def visitsOfBlock (around : Around) : List Stmt → List Visit
  | [] => []
  | s :: rest => visitsOfStmt around s ++ visitsOfBlock around rest

def visitsOfBlocks (around : Around) : List (List Stmt) → List Visit
  | [] => []
  | b :: rest => visitsOfBlock around b ++ visitsOfBlocks around rest

end

/-- The walk through a module. -/
def Module.visits (m : Module) : List Visit :=
  enclosed {} (.module m) (visitsOfBlock {} m.body)

end Plumbline
