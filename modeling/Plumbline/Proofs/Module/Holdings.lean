/-
What definitions hold.

A statement holds the expressions in its heads, decorators, bases and defaults and what the
statements in it hold, at any depth.  Some functions may stand apart: what they hold is then left
out of what is around them and is their own.  In this way each expression of a module is held once,
either by the innermost function that stands apart or by none (`perm_heldIn`).
-/
import Plumbline.Proofs.Module.Traversal

namespace Plumbline

mutual

/-- An expression and all expressions in it, at any depth. -/
def subexpressions : Expr → List Expr
  | e@(.member value _ _) => e :: subexpressions value
  | e@(.call func args keywords _) =>
    e :: (subexpressions func ++ subexpressionsIn args ++ subexpressionsInKeywords keywords)
  | e@(.collection _ items _) => e :: subexpressionsIn items
  | e@(.literal _ _) | e@(.name _ _) | e@(.other _) => [e]

def subexpressionsIn : List Expr → List Expr
  | [] => []
  | e :: rest => subexpressions e ++ subexpressionsIn rest

def subexpressionsInKeywords : List (String × Expr) → List Expr
  | [] => []
  | (_, e) :: rest => subexpressions e ++ subexpressionsInKeywords rest

end

section

variable (apart : FunctionDef → Bool)

mutual

/-- What a statement holds, at any depth but outside functions that stand apart. -/
def heldBy : Stmt → List Expr
  | .functionDef h body =>
    if apart { h with body } then []
    else
      subexpressionsIn (h.decorators.map (·.expr)) ++
        subexpressionsIn (h.params.filterMap (·.default)) ++ heldIn body
  | .classDef h body =>
    subexpressionsIn (h.decorators.map (·.expr)) ++ subexpressionsIn h.bases ++ heldIn body
  | .returning r => subexpressionsIn r.value.toList
  | .assign a => subexpressionsIn a.value.toList
  | .expr e => subexpressions e
  | .compound h blocks => subexpressionsIn h.heads ++ heldInBlocks blocks
  | .importing _ | .comment _ | .pass _ | .raise _ | .other _ => []

def heldIn : List Stmt → List Expr
  | [] => []
  | s :: rest => heldBy s ++ heldIn rest

def heldInBlocks : List (List Stmt) → List Expr
  | [] => []
  | b :: rest => heldIn b ++ heldInBlocks rest

end

/-- What a function holds in its decorators, its defaults and its body, at any depth but outside
functions in it that stand apart. -/
def FunctionDef.holds (f : FunctionDef) : List Expr :=
  subexpressionsIn (f.decorators.map (·.expr)) ++
    subexpressionsIn (f.params.filterMap (·.default)) ++ heldIn apart f.body

end

/-- The functions among some statements and in them, in source order. -/
def functionsAmong (statements : List Stmt) : List FunctionDef :=
  statements.filterMap fun s => (Node.stmt s).function?

/-- The functions in a body at any depth, in source order. -/
def functionsIn (body : List Stmt) : List FunctionDef := functionsAmong (statementsIn body)

section

variable {apart : FunctionDef → Bool}

/-- Two lists in two parts each, put together part by part. -/
theorem perm_interleave {α : Type} {l l' a a' b b' : List α} (h : l.Perm (a ++ a'))
    (h' : l'.Perm (b ++ b')) : (l ++ l').Perm ((a ++ b) ++ (a' ++ b')) := by
  refine (h.append h').trans ?_
  rw [List.append_assoc, List.append_assoc]
  exact (List.perm_append_comm_assoc a' b b').append_left a

/-- What is in a function is held by it or by a function in it that stands apart, if that is so for
its body. -/
theorem FunctionDef.perm_holds_of_body {f : FunctionDef}
    (h : (heldIn (fun _ => false) f.body).Perm
      (heldIn apart f.body ++ ((functionsIn f.body).filter apart).flatMap (·.holds apart))) :
    (f.holds fun _ => false).Perm
      (f.holds apart ++ ((functionsIn f.body).filter apart).flatMap (·.holds apart)) := by
  have hin := h.append_left (subexpressionsIn (f.decorators.map (·.expr)) ++
    subexpressionsIn (f.params.filterMap (·.default)))
  rwa [← List.append_assoc] at hin

mutual

/-- **All that is in a body** is held there outside functions that stand apart, or by one of these. -/
theorem perm_heldIn : (body : List Stmt) →
    (heldIn (fun _ => false) body).Perm
      (heldIn apart body ++ ((functionsIn body).filter apart).flatMap (·.holds apart))
  | [] => .refl _
  | s :: rest => by
      have hboth := perm_interleave (perm_heldBy s) (perm_heldIn rest)
      rwa [← List.flatMap_append, ← List.filter_append, functionsIn, functionsAmong,
        functionsAmong, ← List.filterMap_append] at hboth

theorem perm_heldBy : (s : Stmt) →
    (heldBy (fun _ => false) s).Perm
      (heldBy apart s ++
        ((functionsAmong (statementsOf s)).filter apart).flatMap (·.holds apart))
  | .functionDef h body => by
      have hin := FunctionDef.perm_holds_of_body (f := { h with body }) (perm_heldIn body)
      have hfunctions : functionsAmong (statementsOf (.functionDef h body)) =
        { h with body } :: functionsIn body := rfl
      rw [hfunctions, heldBy, heldBy, if_neg Bool.false_ne_true]
      by_cases hapart : apart { h with body } = true
      · rw [if_pos hapart, List.filter_cons_of_pos hapart, List.flatMap_cons, List.nil_append]
        exact hin
      · rw [if_neg hapart, List.filter_cons_of_neg hapart]
        exact hin
  | .classDef h body => by
      have hin := (perm_heldIn body).append_left
        (subexpressionsIn (h.decorators.map (·.expr)) ++ subexpressionsIn h.bases)
      rwa [← List.append_assoc] at hin
  | .compound h blocks => by
      have hin := (perm_heldInBlocks blocks).append_left (subexpressionsIn h.heads)
      rwa [← List.append_assoc] at hin
  | .returning _ | .assign _ | .expr _ | .importing _ | .comment _ | .pass _ | .raise _
  | .other _ => .of_eq (List.append_nil _).symm

theorem perm_heldInBlocks : (blocks : List (List Stmt)) →
    (heldInBlocks (fun _ => false) blocks).Perm
      (heldInBlocks apart blocks ++
        ((functionsAmong (statementsInBlocks blocks)).filter apart).flatMap (·.holds apart))
  | [] => .refl _
  | b :: rest => by
      have hboth := perm_interleave (perm_heldIn b) (perm_heldInBlocks rest)
      rwa [← List.flatMap_append, ← List.filter_append, functionsIn, functionsAmong,
        functionsAmong, ← List.filterMap_append] at hboth

end

/-- **All that is in a function** is held by it, or by one of the functions in it that stand apart. -/
theorem FunctionDef.perm_holds (f : FunctionDef) :
    (f.holds fun _ => false).Perm
      (f.holds apart ++ ((functionsIn f.body).filter apart).flatMap (·.holds apart)) :=
  perm_holds_of_body (perm_heldIn f.body)

end

end Plumbline
