/-
Two readings of a star.

A star before an item of brackets can unpack all that follows it, or bind to the least it can, so
that attributes, calls and operators apply to the unpacked value.  Both readings take the same
tokens, and here each is turned into the other.  A starred item in parentheses of its own is a
group; it can be read as a whole, or as the expression that the tight reading makes of it.
-/
import Plumbline.Syntax.Tree

namespace Plumbline.Syntax

namespace Kind

/-- Constructs that start with an operand to which they apply. -/
def appliesToFirst : Kind → Bool
  | .binary | .comparison | .booleanOperator | .conditional | .asPattern | .attribute | .call
  | .subscript => true
  | _ => false

/-- Constructs that a star can bind to. -/
def isPlace : Kind → Bool
  | .identifier | .attribute | .subscript => true
  | _ => false

end Kind

namespace Tree

/-- The stretch from the start of one span to the end of another. -/
def spanFrom (a b : Span) : Span := ⟨a.start, b.stop, a.line, a.column⟩

mutual

/-- Binds a star to the least it can inside a tree; `star` is where the star stands, `before` what
lies between the star and the tree. -/
def tighten (star : Span) (before : List Tree) : Tree → Option Tree
  | node k f s cs =>
    let bound := node .listSplat f (spanFrom star s) (before ++ [node k none s cs])
    if k == .identifier then some bound
    else if k.appliesToFirst then
      match tightenFirst star before cs with
      | some ds => some (node k f (spanFrom star s) ds)
      | none => if k.isPlace then some bound else none
    else none

def tightenFirst (star : Span) (before : List Tree) : List Tree → Option (List Tree)
  | [] => none
  | c :: cs => (tighten star before c).map (· :: cs)

end

/-- The tight reading of a star that unpacks a whole expression, if there is one. -/
def tightened? : Tree → Option Tree
  | node .listSplat f s cs =>
    match cs.getLast? with
    | some t => (tighten s cs.dropLast t).map fun
      | node k _ s' ds => node k f s' ds
    | none => none
  | _ => none

mutual

/-- Takes the star off the front of an expression: where it stands, what lies between the star and
the rest, and the rest. -/
def takeStar : Tree → Option (Span × List Tree × Tree)
  | node k f s cs =>
    if k == .listSplat then
      match cs.getLast? with
      | some (node k' _ s' ds) => some (s, cs.dropLast, node k' f s' ds)
      | none => none
    else if k.appliesToFirst then
      match takeStarFirst cs with
      | some (star, before, ds) =>
        match ds with
        | d :: _ => some (star, before, node k f (spanFrom d.span s) ds)
        | [] => none
      | none => none
    else none

def takeStarFirst : List Tree → Option (Span × List Tree × List Tree)
  | [] => none
  | c :: cs => (takeStar c).map fun (star, before, d) => (star, before, d :: cs)

end

/-- The reading of an expression in which the star at its front unpacks all of it. -/
def loosened? (t : Tree) : Option Tree :=
  (takeStar t).map fun (star, before, u) =>
    match u with
    | node k f s cs => node .listSplat f (spanFrom star s) (before ++ [node k none s cs])

/-- Is a tree, or the operand it starts with, of kind `kind`? -/
def leads (kind : Kind) : Tree → Bool
  | node k _ _ cs =>
    k == kind || (k.appliesToFirst &&
      match cs with
      | [] => false
      | c :: _ => leads kind c)

mutual

/-- A group read as a whole, if the tree is one: it becomes of kind `kind`, and the pairs of
parentheses inside it of kind `parenthesized`. -/
def wholeGroup? (kind : Kind) : Tree → Option Tree
  | node k f s cs =>
    if k == .parenthesized || k == .splatTuple || k == .parenthesizedSplat then
      (wholeItems? cs).map (node kind f s)
    else none

def wholeItems? : List Tree → Option (List Tree)
  | [] => none
  | c :: cs =>
    if c.kind == .comment || c.kind == .joined then (wholeItems? cs).map (c :: ·)
    else
      match wholeGroup? .parenthesized c with
      | some g => some (g :: cs)
      | none => (loosened? c).map (· :: cs)

end

/-- The tuple of one unpacked item as which a group can be read. -/
def asTuple? (t : Tree) : Option Tree :=
  match t.wholeGroup? .splatTuple with
  | some (node k f s cs) =>
    some (node k f s (cs.map fun c =>
      if c.kind == .parenthesized then c.withKind .parenthesizedSplat else c))
  | none => none

/-- The same arguments with the first one read as a whole if it is a group. -/
def withFirstGroupWhole : Tree → Tree
  | node k f s cs =>
    let rec first : List Tree → List Tree
      | [] => []
      | c :: cs =>
        if c.kind == .comment || c.kind == .joined then c :: first cs
        else (c.wholeGroup? .parenthesized).getD c :: cs
    if k == .argumentList then node k f s (first cs) else node k f s cs

end Tree

end Plumbline.Syntax
