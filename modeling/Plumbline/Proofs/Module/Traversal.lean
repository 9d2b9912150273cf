/-
Walks and searches go through the same statements, some of them farther than others.

`statementsIn` lists all statements at any depth in source order, and `openStatementsIn` those that
are not inside a definition.  A walk enters the former.  The search for a function finds the first
function of that name among the former, but the search for an import looks at the latter only.
-/
import Plumbline.Fix.Edit
import Plumbline.Module.Node

namespace Plumbline

mutual

/-- All statements at any depth, in source order, outer before inner. -/
def statementsIn : List Stmt → List Stmt
  | [] => []
  | s :: rest => statementsOf s ++ statementsIn rest

def statementsOf : Stmt → List Stmt
  | s@(.functionDef _ body) | s@(.classDef _ body) => s :: statementsIn body
  | s@(.compound _ blocks) => s :: statementsInBlocks blocks
  | s => [s]

def statementsInBlocks : List (List Stmt) → List Stmt
  | [] => []
  | b :: rest => statementsIn b ++ statementsInBlocks rest

end

mutual

/-- The statements that are not inside a definition, in source order. -/
def openStatementsIn : List Stmt → List Stmt
  | [] => []
  | s :: rest => openStatementsOf s ++ openStatementsIn rest

def openStatementsOf : Stmt → List Stmt
  | s@(.compound _ blocks) => s :: openStatementsInBlocks blocks
  | s => [s]

def openStatementsInBlocks : List (List Stmt) → List Stmt
  | [] => []
  | b :: rest => openStatementsIn b ++ openStatementsInBlocks rest

end

mutual

/-- What is outside definitions is at some depth. -/
theorem mem_statementsIn_of_open {s : Stmt} : (body : List Stmt) → s ∈ openStatementsIn body →
    s ∈ statementsIn body
  | [], hs => absurd hs List.not_mem_nil
  | t :: rest, hs => by
      rw [openStatementsIn, List.mem_append] at hs
      rw [statementsIn, List.mem_append]
      exact hs.imp (mem_statementsOf_of_open t) (mem_statementsIn_of_open rest)

theorem mem_statementsOf_of_open {s : Stmt} : (t : Stmt) → s ∈ openStatementsOf t →
    s ∈ statementsOf t
  | .compound head blocks, hs => by
      rw [openStatementsOf, List.mem_cons] at hs
      rw [statementsOf, List.mem_cons]
      exact hs.imp_right (mem_statementsInBlocks_of_open blocks)
  | .functionDef .., hs | .classDef .., hs => by
      obtain rfl := List.mem_singleton.mp hs
      simp [statementsOf]
  | .importing _, hs | .returning _, hs | .assign _, hs | .expr _, hs | .comment _, hs
  | .pass _, hs | .raise _, hs | .other _, hs => hs

theorem mem_statementsInBlocks_of_open {s : Stmt} : (blocks : List (List Stmt)) →
    s ∈ openStatementsInBlocks blocks → s ∈ statementsInBlocks blocks
  | [], hs => absurd hs List.not_mem_nil
  | b :: rest, hs => by
      rw [openStatementsInBlocks, List.mem_append] at hs
      rw [statementsInBlocks, List.mem_append]
      exact hs.imp (mem_statementsIn_of_open b) (mem_statementsInBlocks_of_open rest)

end

namespace Module

/-- All functions, in source order. -/
def functions (m : Module) : List FunctionDef :=
  (statementsIn m.body).filterMap fun s => (Node.stmt s).function?

/-- All imports, in source order. -/
def allImports (m : Module) : List Import :=
  (statementsIn m.body).filterMap fun s => (Node.stmt s).import?

/-- The imports that are not inside a definition, in source order. -/
def openImports (m : Module) : List Import :=
  (openStatementsIn m.body).filterMap fun s => (Node.stmt s).import?

end Module

/-! ### What a walk enters -/

theorem enter_mem_enclosed {around a : Around} {node n : Node} {parts : List Visit} :
    .enter around node ∈ enclosed a n parts ↔
      (around = a ∧ node = n) ∨ .enter around node ∈ parts := by
  simp [enclosed]

mutual

/-- There are no statements in an expression. -/
theorem enter_notMem_visitsOfExpr {around a : Around} {s : Stmt} :
    (e : Expr) → .enter around (.stmt s) ∉ visitsOfExpr a e
  | .member value _ _ => by
      simp [visitsOfExpr, enter_mem_enclosed, enter_notMem_visitsOfExpr value]
  | .call func args keywords _ => by
      simp [visitsOfExpr, enter_mem_enclosed, enter_notMem_visitsOfExpr func,
        enter_notMem_visitsOfExprs args, enter_notMem_visitsOfKeywords keywords]
  | .collection _ items _ => by
      simp [visitsOfExpr, enter_mem_enclosed, enter_notMem_visitsOfExprs items]
  | .literal _ _ | .name _ _ | .other _ => by simp [visitsOfExpr, enter_mem_enclosed]

theorem enter_notMem_visitsOfExprs {around a : Around} {s : Stmt} :
    (es : List Expr) → .enter around (.stmt s) ∉ visitsOfExprs a es
  | [] => by simp [visitsOfExprs]
  | e :: rest => by
      simp [visitsOfExprs, enter_notMem_visitsOfExpr e, enter_notMem_visitsOfExprs rest]

theorem enter_notMem_visitsOfKeywords {around a : Around} {s : Stmt} :
    (ks : List (String × Expr)) → .enter around (.stmt s) ∉ visitsOfKeywords a ks
  | [] => by simp [visitsOfKeywords]
  | (_, e) :: rest => by
      simp [visitsOfKeywords, enter_notMem_visitsOfExpr e, enter_notMem_visitsOfKeywords rest]

end

mutual

theorem mem_statementsOf_of_enter {around a : Around} {t : Stmt} :
    (s : Stmt) → .enter around (.stmt t) ∈ visitsOfStmt a s → t ∈ statementsOf s
  | .functionDef h body, ht => by
      simp only [visitsOfStmt, enter_mem_enclosed, List.mem_append, enter_notMem_visitsOfExprs,
        Node.stmt.injEq, false_or] at ht
      rcases ht with ⟨-, rfl⟩ | ht
      · simp [statementsOf]
      · exact List.mem_cons_of_mem _ (mem_statementsIn_of_enter body ht)
  | .classDef h body, ht => by
      simp only [visitsOfStmt, enter_mem_enclosed, List.mem_append, enter_notMem_visitsOfExprs,
        Node.stmt.injEq, false_or] at ht
      rcases ht with ⟨-, rfl⟩ | ht
      · simp [statementsOf]
      · exact List.mem_cons_of_mem _ (mem_statementsIn_of_enter body ht)
  | .compound h blocks, ht => by
      simp only [visitsOfStmt, enter_mem_enclosed, List.mem_append, enter_notMem_visitsOfExprs,
        Node.stmt.injEq, false_or] at ht
      rcases ht with ⟨-, rfl⟩ | ht
      · simp [statementsOf]
      · exact List.mem_cons_of_mem _ (mem_statementsInBlocks_of_enter blocks ht)
  | .returning _, ht | .assign _, ht | .expr _, ht | .importing _, ht | .comment _, ht
  | .pass _, ht | .raise _, ht | .other _, ht => by
      simp only [visitsOfStmt, enter_mem_enclosed, enter_notMem_visitsOfExprs,
        enter_notMem_visitsOfExpr, Node.stmt.injEq, List.not_mem_nil, or_false] at ht
      simp [statementsOf, ht.2]

/-- **A walk enters only statements of the module.** -/
theorem mem_statementsIn_of_enter {around a : Around} {t : Stmt} :
    (body : List Stmt) → .enter around (.stmt t) ∈ visitsOfBlock a body → t ∈ statementsIn body
  | [], ht => absurd ht (by simp [visitsOfBlock])
  | s :: rest, ht => by
      simp only [visitsOfBlock, List.mem_append] at ht
      rw [statementsIn, List.mem_append]
      exact ht.imp (mem_statementsOf_of_enter s) (mem_statementsIn_of_enter rest)

theorem mem_statementsInBlocks_of_enter {around a : Around} {t : Stmt} :
    (blocks : List (List Stmt)) → .enter around (.stmt t) ∈ visitsOfBlocks a blocks →
      t ∈ statementsInBlocks blocks
  | [], ht => absurd ht (by simp [visitsOfBlocks])
  | b :: rest, ht => by
      simp only [visitsOfBlocks, List.mem_append] at ht
      rw [statementsInBlocks, List.mem_append]
      exact ht.imp (mem_statementsIn_of_enter b) (mem_statementsInBlocks_of_enter rest)

end

namespace Module

variable {m : Module} {around : Around}

theorem mem_statements_of_enter {s : Stmt} (h : .enter around (.stmt s) ∈ m.visits) :
    s ∈ statementsIn m.body := by
  rcases enter_mem_enclosed.mp h with ⟨-, hne⟩ | h
  · exact absurd hne (by simp)
  · exact mem_statementsIn_of_enter m.body h

/-- The imports that a walk enters are those of the module. -/
theorem mem_allImports_of_enter {node : Node} {i : Import} (h : .enter around node ∈ m.visits)
    (hi : node.import? = some i) : i ∈ m.allImports := by
  cases node with
  | module m => exact absurd hi (by simp [Node.import?])
  | expr e => exact absurd hi (by simp [Node.import?])
  | stmt s => exact List.mem_filterMap.mpr ⟨s, mem_statements_of_enter h, hi⟩

/-- The functions that a walk enters are those of the module. -/
theorem mem_functions_of_enter {node : Node} {f : FunctionDef} (h : .enter around node ∈ m.visits)
    (hf : node.function? = some f) : f ∈ m.functions := by
  cases node with
  | module m => exact absurd hf (by simp [Node.function?])
  | expr e => exact absurd hf (by simp [Node.function?])
  | stmt s => exact List.mem_filterMap.mpr ⟨s, mem_statements_of_enter h, hf⟩

end Module

/-! ### What a search finds -/

mutual

theorem findFunctionIn_eq (qualname : String) : (body : List Stmt) →
    findFunctionIn qualname body =
      ((statementsIn body).filterMap fun s => (Node.stmt s).function?).find? (·.qualname = qualname)
  | [] => rfl
  | s :: rest => by
      rw [findFunctionIn, statementsIn, List.filterMap_append, List.find?_append,
        findFunctionAt_eq qualname s, findFunctionIn_eq qualname rest]

theorem findFunctionAt_eq (qualname : String) : (s : Stmt) →
    findFunctionAt qualname s =
      ((statementsOf s).filterMap fun s => (Node.stmt s).function?).find? (·.qualname = qualname)
  | .functionDef h body => by
      rw [findFunctionAt, statementsOf, findFunctionIn_eq qualname body]
      by_cases hname : h.qualname = qualname
      · simp [Node.function?, hname]
      · simp [Node.function?, hname]
  | .classDef _ body => by
      rw [findFunctionAt, statementsOf, findFunctionIn_eq qualname body,
        List.filterMap_cons_none rfl]
  | .compound _ blocks => by
      rw [findFunctionAt, statementsOf, findFunctionInBlocks_eq qualname blocks,
        List.filterMap_cons_none rfl]
  | .returning _ | .assign _ | .expr _ | .importing _ | .comment _ | .pass _ | .raise _
  | .other _ => rfl

theorem findFunctionInBlocks_eq (qualname : String) : (blocks : List (List Stmt)) →
    findFunctionInBlocks qualname blocks =
      ((statementsInBlocks blocks).filterMap fun s => (Node.stmt s).function?).find?
        (·.qualname = qualname)
  | [] => rfl
  | b :: rest => by
      rw [findFunctionInBlocks, statementsInBlocks, List.filterMap_append, List.find?_append,
        findFunctionIn_eq qualname b, findFunctionInBlocks_eq qualname rest]

end

mutual

theorem findImportIn_eq (written : String) : (body : List Stmt) →
    Edit.findImportIn written body =
      (((openStatementsIn body).filterMap fun s => (Node.stmt s).import?).find?
        (·.writtenModules.contains written)).map (·.span)
  | [] => rfl
  | s :: rest => by
      rw [Edit.findImportIn, openStatementsIn, List.filterMap_append, List.find?_append,
        Option.map_or, findImportAt_eq written s, findImportIn_eq written rest]

theorem findImportAt_eq (written : String) : (s : Stmt) →
    Edit.findImportAt written s =
      (((openStatementsOf s).filterMap fun s => (Node.stmt s).import?).find?
        (·.writtenModules.contains written)).map (·.span)
  | .importing i => by
      show (if i.writtenModules.contains written then some i.span else none) =
        ([i].find? (·.writtenModules.contains written)).map (·.span)
      rw [List.find?_cons]
      cases hwritten : i.writtenModules.contains written with
      | true => rfl
      | false => rfl
  | .compound _ blocks => by
      rw [Edit.findImportAt, openStatementsOf, findImportInBlocks_eq written blocks,
        List.filterMap_cons_none rfl]
  | .functionDef _ _ | .classDef _ _ | .returning _ | .assign _ | .expr _ | .comment _ | .pass _
  | .raise _ | .other _ => rfl

theorem findImportInBlocks_eq (written : String) : (blocks : List (List Stmt)) →
    Edit.findImportInBlocks written blocks =
      (((openStatementsInBlocks blocks).filterMap fun s => (Node.stmt s).import?).find?
        (·.writtenModules.contains written)).map (·.span)
  | [] => rfl
  | b :: rest => by
      rw [Edit.findImportInBlocks, openStatementsInBlocks, List.filterMap_append,
        List.find?_append, Option.map_or, findImportIn_eq written b,
        findImportInBlocks_eq written rest]

end

namespace Module

/-- **The first function of a name is found**, wherever it stands. -/
theorem findFunction?_eq (m : Module) (qualname : String) :
    m.findFunction? qualname = m.functions.find? (·.qualname = qualname) :=
  findFunctionIn_eq qualname m.body

/-- **An import is found only outside definitions**, and there the first that names the module. -/
theorem findImport_eq (m : Module) (written : String) :
    Edit.findImportIn written m.body =
      (m.openImports.find? (·.writtenModules.contains written)).map (·.span) :=
  findImportIn_eq written m.body

end Module

end Plumbline
