/-
Places in a text.

Offsets count bytes of the UTF-8 form, lines count from one, columns count bytes from the
start of the line.  A `Cursor` is a place together with the text that follows it, so every
reader is a function from the rest of the text, and moving forward keeps the offsets right.
-/

namespace Plumbline

/-- A place in a text. -/
structure Position where
  byte : Nat := 0
  line : Nat := 1
  column : Nat := 0
deriving Repr, DecidableEq, Inhabited

/-- The stretch from byte `start` up to byte `stop`, with the line and column it starts at. -/
structure Span where
  start : Nat := 0
  stop : Nat := 0
  line : Nat := 0
  column : Nat := 0
deriving Repr, DecidableEq, Inhabited

/-- The place after `c` when `c` stands at `p`. -/
def Position.after (p : Position) (c : Char) : Position :=
  if c = '\n' then ⟨p.byte + 1, p.line + 1, 0⟩
  else ⟨p.byte + c.utf8Size, p.line, p.column + c.utf8Size⟩

/-- The stretch between two places. -/
def Span.between (first last : Position) : Span := ⟨first.byte, last.byte, first.line, first.column⟩

/-- A place in a text and what follows it. -/
structure Cursor where
  rest : List Char
  pos : Position := {}
deriving Repr, Inhabited

namespace Cursor

def ofString (s : String) : Cursor := { rest := s.toList }

/-- Moves over `n` characters, or to the end. -/
def advance : Nat → Cursor → Cursor
  | 0, c => c
  | _, ⟨[], p⟩ => ⟨[], p⟩
  | n + 1, ⟨x :: xs, p⟩ => advance n ⟨xs, p.after x⟩

end Cursor

/-- Size in bytes of a run of characters. -/
def byteSize (cs : List Char) : Nat := cs.foldr (fun c n => c.utf8Size + n) 0

/-- Splits a text at a byte offset; a character that the offset would cut stays on the right. -/
def splitAtByte : Nat → List Char → List Char × List Char
  | _, [] => ([], [])
  | n, c :: cs =>
    if c.utf8Size ≤ n then
      let (left, right) := splitAtByte (n - c.utf8Size) cs
      (c :: left, right)
    else ([], c :: cs)

/-- What follows a byte offset; a character that the offset would cut is kept. -/
def dropBytes : Nat → List Char → List Char
  | _, [] => []
  | n, c :: cs => if c.utf8Size ≤ n then dropBytes (n - c.utf8Size) cs else c :: cs

theorem dropBytes_eq_splitAtByte_snd (n : Nat) (cs : List Char) :
    dropBytes n cs = (splitAtByte n cs).2 := by
  induction cs generalizing n with
  | nil => rfl
  | cons c cs ih =>
    rw [dropBytes, splitAtByte]
    split
    · exact ih _
    · rfl

/-- The characters of a text between two byte offsets. -/
def sliceBytes (cs : List Char) (start stop : Nat) : List Char :=
  (splitAtByte (stop - start) (dropBytes start cs)).1

/-- The text that a span covers. -/
def Span.text (span : Span) (source : List Char) : String :=
  String.ofList (sliceBytes source span.start span.stop)

end Plumbline
