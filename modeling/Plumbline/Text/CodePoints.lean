/-
Sets of code points.

A property of characters that a standard lists range by range is kept as one text:
hexadecimal numbers that alternate between the gap before a range and its length.
The text is read once, and a character is looked up in the ranges it stands for.
-/

namespace Plumbline

/-- Half-open ranges of code points, in increasing order. -/
structure CodePoints where
  ranges : List (Nat × Nat)

namespace CodePoints

/-- The value of a hexadecimal digit, zero for any other character. -/
def hexValue (c : Char) : Nat :=
  if '0' ≤ c ∧ c ≤ '9' then c.toNat - '0'.toNat
  else if 'a' ≤ c ∧ c ≤ 'f' then c.toNat - 'a'.toNat + 10
  else 0

/-- Hexadecimal numbers separated by single blanks; `n` is the number being read. -/
def readHex (n : Nat) : List Char → List Nat
  | [] => [n]
  | c :: cs => if c = ' ' then n :: readHex 0 cs else readHex (16 * n + hexValue c) cs

/-- Turns alternating gaps and lengths into ranges, counted from `base`. -/
def ofGaps (base : Nat) : List Nat → List (Nat × Nat)
  | gap :: size :: more => (base + gap, base + gap + size) :: ofGaps (base + gap + size) more
  | _ => []

/-- Reads a set from its gap text. -/
def ofText (text : String) : CodePoints := ⟨ofGaps 0 (readHex 0 text.toList)⟩

def contains (s : CodePoints) (c : Char) : Bool :=
  s.ranges.any fun (lo, hi) => lo ≤ c.toNat && c.toNat < hi

end CodePoints

end Plumbline
