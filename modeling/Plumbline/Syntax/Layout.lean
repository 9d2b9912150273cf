/-
Line breaks, indentation and string openings.

Which of these marks comes next depends on what the grammar admits at that place, so the
reader is told (`Expect`).  Between two words lies a margin: blanks, line breaks, joined lines
and, where layout matters, whole comment lines.  From the margin and the widths of the open
blocks one decides whether a block opens, a block closes, a line ends, or none of these.
A block is not closed before the comments that are indented like it have been read.
-/
import Plumbline.Syntax.Token

namespace Plumbline.Syntax

/-- The layout marks that the grammar admits at a place. -/
structure Expect where
  newline : Bool := false
  indent : Bool := false
  dedent : Bool := false
  /-- A closing bracket could stand here, so line breaks are inside brackets. -/
  closer : Bool := false
deriving Repr, DecidableEq, Inhabited

namespace Expect

/-- An operand must follow. -/
def operand : Expect := {}
/-- The line may end. -/
def lineEnd : Expect := { newline := true }
/-- The bracket may close. -/
def close : Expect := { closer := true }
/-- A statement may start, or the block end. -/
def statement : Expect := { dedent := true }
/-- A block must follow. -/
def block : Expect := { newline := true, indent := true }

/-- Does layout matter here, so that comment lines belong to the margin? -/
def layout (e : Expect) : Bool := e.newline || e.indent || e.dedent

end Expect

/-- What lies between two words. -/
structure Margin where
  lineBreak : Bool := false
  /-- Width of the blanks before the next word on its line. -/
  width : Nat := 0
  /-- Width before the first comment line, if comment lines were passed. -/
  comment : Option Nat := none
  /-- Characters passed. -/
  size : Nat := 0
  /-- What the margin ends at. -/
  rest : List Char := []
  /-- A backslash that joins no line stops all layout. -/
  stuck : Bool := false
deriving Repr, Inhabited

namespace Margin

/-- Reads a margin; `comments` says whether comment lines belong to it, `inside` whether the
text is inside such a comment. -/
def scan (comments : Bool) : (inside : Bool) → List Char → Margin → Margin
  | _, [], m => { m with lineBreak := true, width := 0, rest := [] }
  | true, c :: cs, m =>
    if c = '\n' ∨ c = nul then scan comments false cs { m with width := 0, size := m.size + 1 }
    else scan comments true cs { m with size := m.size + 1 }
  | false, '\\' :: '\r' :: '\n' :: cs, m => scan comments false cs { m with size := m.size + 3 }
  | false, ['\\', '\r'], m =>
    { m with lineBreak := true, width := 0, size := m.size + 2, rest := [] }
  | false, '\\' :: '\n' :: cs, m => scan comments false cs { m with size := m.size + 2 }
  | false, ['\\'], m =>
    { m with lineBreak := true, width := 0, size := m.size + 1, rest := [] }
  | false, '\\' :: cs, m => { m with stuck := true, rest := '\\' :: cs }
  | false, c :: cs, m =>
    if c = '\n' then
      scan comments false cs { m with lineBreak := true, width := 0, size := m.size + 1 }
    else if c = ' ' then scan comments false cs { m with width := m.width + 1, size := m.size + 1 }
    else if c = '\t' then scan comments false cs { m with width := m.width + 8, size := m.size + 1 }
    else if c = '\r' ∨ c.toNat = 12 then
      scan comments false cs { m with width := 0, size := m.size + 1 }
    else if c = '#' ∧ comments then
      if m.lineBreak then
        scan comments true cs
          { m with comment := some (m.comment.getD m.width), size := m.size + 1 }
      else { m with stuck := true, rest := c :: cs }
    else { m with rest := c :: cs }

/-- The layout mark that a margin stands for, if any; `width` is that of the innermost block, and
`inFormat` says whether a format string is open in which no literal has been closed yet: no
block ends there. -/
def mark? (e : Expect) (width : Nat) (inFormat : Bool) (m : Margin) : Option Token :=
  if m.stuck || !m.lineBreak then none
  else if e.indent && decide (width < m.width) then some (.indent m.width)
  else
    let atQuote := match m.rest with
      | c :: _ => c == '"' || c == '\'' || c.toNat == 96
      | [] => false
    let closes := e.dedent || (!e.newline && !atQuote && !e.closer)
    let passed := match m.comment with
      | some w => decide (w < width)
      | none => true
    if closes && decide (m.width < width) && !inFormat && passed then some .dedent
    else if e.newline then some .newline
    else none

end Margin

namespace Quote

/-- The opening marks of a string after its prefix letters: the quote and the length. -/
def open? (q : Quote) : List Char → Option (Quote × Nat)
  | c :: cs =>
    if c.toNat = 96 then some ({ q with mark := c }, 1)
    else if c = '"' ∨ c = '\'' then
      match cs with
      | d :: e :: _ =>
        if d = c ∧ e = c then some ({ q with mark := c, triple := true }, 3)
        else some ({ q with mark := c }, 1)
      | _ => some ({ q with mark := c }, 1)
    else none
  | [] => none

/-- Reads prefix letters in any order and number, then the opening marks. -/
def read? (q : Quote) (cs : List Char) : Option (Quote × Nat) :=
  match cs with
  | c :: more =>
    let next := fun q' => (read? q' more).map fun (r, n) => (r, n + 1)
    if c = 'f' ∨ c = 'F' ∨ c = 't' ∨ c = 'T' then next { q with format := true }
    else if c = 'r' ∨ c = 'R' then next { q with raw := true }
    else if c = 'b' ∨ c = 'B' then next { q with bytes := true }
    else if c = 'u' ∨ c = 'U' then next q
    else open? q cs
  | [] => none

/-- The string opening at the start of a text. -/
def at? (cs : List Char) : Option (Quote × Nat) :=
  read? ⟨' ', false, false, false, false⟩ cs

end Quote

/-- One token with the text from its start and the text after it. -/
structure Lexeme where
  token : Token
  front : Cursor
  stop : Cursor
deriving Repr, Inhabited

namespace Lexeme

def start (l : Lexeme) : Position := l.front.pos

/-- The word after the blanks at a cursor. -/
def word (c : Cursor) : Lexeme :=
  let start := c.advance (Token.runLength isBlank c.rest)
  let (token, size) := Token.read start.rest
  ⟨token, start, start.advance size⟩

/-- The next token at a cursor: a layout mark, a string opening or a word. -/
def next (e : Expect) (width : Nat) (inFormat : Bool) (c : Cursor) : Lexeme :=
  let margin := Margin.scan e.layout false c.rest {}
  match margin.mark? e width inFormat with
  | some token => ⟨token, c, c⟩
  | none =>
    if margin.stuck || margin.comment.isSome then word c
    else match Quote.at? margin.rest with
      | some (q, size) =>
        let start := c.advance margin.size
        ⟨.quote q, start, start.advance size⟩
      | none => word c

end Lexeme

end Plumbline.Syntax
