/-
The inside of string literals.

After its opening marks a literal is a run of pieces: plain text, escapes, embedded expressions
in braces when the literal is a format string, and at last the closing marks.  A piece of plain
text that has not started yet may take a line break, one that has started may not, unless the
literal has triple marks.  Where plain text cannot go on, blanks may lead to a brace or a comment
even on the next line.
-/
import Plumbline.Syntax.Layout

namespace Plumbline.Syntax

/-- The next piece of a literal. -/
inductive Piece where
  /-- Text of that many characters. -/
  | plain (size : Nat)
  /-- Closing marks; any text that still belongs to the literal is counted with them. -/
  | close (size : Nat)
  /-- A brace that opens an embedded expression, after that many blanks. -/
  | embed (blanks : Nat)
  /-- The literal cannot go on. -/
  | broken
deriving Repr, DecidableEq

namespace Quote

/-- Characters that a backslash protects in a raw literal. -/
def rawSkip (q : Quote) (cs : List Char) : Nat :=
  let quoted := match cs with
    | c :: _ => if c = q.mark ∨ c = '\\' then 1 else 0
    | [] => 0
  match cs.drop quoted with
  | '\r' :: '\n' :: _ => quoted + 2
  | '\r' :: _ => quoted + 1
  | '\n' :: _ => quoted + 1
  | _ => quoted

/-- How plain text goes on: `size` characters have been passed, and `begun` says whether they
count as text.  Answers `none` where no plain text or closing mark is found. -/
def scanPlain (q : Quote) (size : Nat) (begun : Bool) (cs : List Char) : Option Piece :=
  let stop := if begun then some (Piece.plain size) else none
  match cs with
  | [] => none
  | c :: more =>
    if c = nul then none
    else if q.format ∧ (c = '\x7b' ∨ c = '\x7d') then stop
    else if c = '\\' then
      if q.raw then
        scanPlain q (size + 1 + q.rawSkip more) begun (more.drop (q.rawSkip more))
      else if q.bytes then
        match more with
        | d :: e :: rest =>
          if d = 'N' ∨ d = 'u' ∨ d = 'U' then scanPlain q (size + 3) true rest else stop
        | _ => stop
      else stop
    else if c = q.mark then
      if q.triple then
        match more with
        | d :: e :: _ =>
          if d = c ∧ e = c then
            if begun then some (.plain size) else some (.close (size + 3))
          else if d = c then some (.plain (size + 2))
          else some (.plain (size + 1))
        | [d] => if d = c then some (.plain (size + 2)) else some (.plain (size + 1))
        | [] => some (.plain (size + 1))
      else if begun then some (.plain size)
      else some (.close (size + 1))
    else if c = '\n' ∧ begun ∧ !q.triple then none
    else scanPlain q (size + 1) true more
termination_by cs.length
decreasing_by all_goals (simp_wf <;> omega)

/-- Are the next `n` characters hexadecimal digits? -/
def hexRun (n : Nat) (cs : List Char) : Bool :=
  (cs.take n).length == n && (cs.take n).all Token.isHexDigit

/-- Length of the escape that a backslash starts; one if it escapes nothing. -/
def escapeSize (cs : List Char) : Nat :=
  match cs with
  | c :: more =>
    if c = 'u' then if hexRun 4 more then 6 else 1
    else if c = 'U' then if hexRun 8 more then 10 else 1
    else if c = 'x' then if hexRun 2 more then 4 else 1
    else if c.isDigit then 1 + min 3 (Token.runLength Char.isDigit cs)
    else if c = '\n' then 2
    else if c = '\r' then if more.head? = some '\n' then 3 else 1
    else if c = 'N' then
      match more with
      | '\x7b' :: name =>
        let size := Token.runLength (· != '\x7d') name
        if 0 < size ∧ size < name.length then 4 + size else 1
      | _ => 1
    else if c = nul then 2
    else if ['\'', '"', 'a', 'b', 'f', 'r', 'n', 't', 'v', '\\'].contains c then 2
    else 1
  | [] => 1

/-- The next piece where no text can go on: an escape, or what may stand between any two pieces,
namely blanks before a brace, a comment or a joined line. -/
def pieceBetween (cs : List Char) : Piece :=
  match cs with
  | '\\' :: more => .plain (escapeSize more)
  | _ =>
    let blanks := Token.runLength isBlank cs
    let rest := cs.drop blanks
    match rest with
    | '\x7b' :: _ => .embed blanks
    | '#' :: _ => .plain (blanks + Token.commentLength rest)
    | _ => if 0 < Token.joinLength rest then .plain (blanks + Token.joinLength rest) else .broken

/-- The next piece of a literal opened by `q`. -/
def piece (q : Quote) (cs : List Char) : Piece :=
  match q.format, cs with
  | true, '\x7b' :: '\x7b' :: _ => .plain 2
  | true, '\x7b' :: _ => .embed 0
  | true, '\x7d' :: '\x7d' :: _ => .plain 2
  | true, '\x7d' :: _ => .broken
  | _, _ => (q.scanPlain 0 false cs).getD (pieceBetween cs)

end Quote

end Plumbline.Syntax
