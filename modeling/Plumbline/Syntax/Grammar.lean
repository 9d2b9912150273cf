/-
The whole grammar.

The readers of all constructs are tied together here.  Every nested reader costs one unit of
fuel; between two nested readers at least one token is taken except for a bounded number of
steps, so a multiple of the length of the source is always enough.
-/
import Plumbline.Syntax.Statement

namespace Plumbline.Syntax

namespace Knot

/-- Readers that allow nesting `n` deep. -/
def tie : (n : Nat) → Knot
  | 0 =>
    { expression := fun _ _ => Parser.fail
      atom := fun _ => Parser.fail
      arithmetic := fun _ _ => Parser.fail
      type := fun _ _ => Parser.fail
      embedded := fun _ => Parser.fail
      assigned := Parser.fail
      statement := Parser.fail
      casePattern := fun _ => Parser.fail }
  | n + 1 =>
    { expression := fun l p s => Grammar.expression (tie n) l p s
      atom := fun p s => Grammar.atom (tie n) p s
      arithmetic := fun l p s => Grammar.arithmetic (tie n) l p s
      type := fun b p s => Grammar.type (tie n) b p s
      embedded := fun c s => Grammar.embedded (tie n) c s
      assigned := fun s => Grammar.assigned (tie n) s
      statement := fun s => Grammar.statement (tie n) s
      casePattern := fun p s => Grammar.casePattern (tie n) p s }

end Knot

namespace Grammar

open Plumbline.Syntax.Parser

/-- A whole source file. -/
def module (k : Knot) : Parser Tree := node .module do
  let body ← loop (fun acc => do
    let before ← extras
    if (← peek) = .endOfText then
      if before.isEmpty then pure none else pure (some (acc ++ before))
    else pure (some (acc ++ before ++ (← k.statement)))) []
  if (← peek) = .endOfText then pure body else failAhead

end Grammar

/-- Nesting that no source of that many characters exceeds. -/
def nesting (size : Nat) : Nat := 8 * size + 32

/-- The tree of a source file, or the line of its first mistake. -/
def parse (source : String) : Except Nat Tree :=
  match Grammar.module (Knot.tie (nesting source.length)) (State.start source) with
  | .done tree _ => .ok tree
  | .failed reach => .error reach.line

/-- Is the source free of mistakes? -/
def isValid (source : String) : Bool :=
  match parse source with
  | .ok _ => true
  | .error _ => false

theorem exists_parse {source : String} (h : isValid source = true) :
    ∃ tree, parse source = .ok tree := by
  unfold isValid at h
  split at h
  · exact ⟨_, by assumption⟩
  · exact absurd h Bool.false_ne_true

end Plumbline.Syntax
