/-
Parts of a text.

A text is a list of characters here.  The functions cut it at a character, at a prefix or suffix,
or into lines, and take white space off its ends.  White space is what any script uses as such.
-/

namespace Plumbline.Text

/-- Blanks, line ends and the spaces of every script. -/
def isWhiteSpace (c : Char) : Bool :=
  let n := c.toNat
  (9 ≤ n && n ≤ 13) || n == 0x20 || n == 0x85 || n == 0xA0 || n == 0x1680 ||
    (0x2000 ≤ n && n ≤ 0x200A) || n == 0x2028 || n == 0x2029 || n == 0x202F || n == 0x205F ||
    n == 0x3000

/-- Without the characters of `p` at the end. -/
def dropEndWhile (p : Char → Bool) (cs : List Char) : List Char :=
  (cs.reverse.dropWhile p).reverse

def trimStart (cs : List Char) : List Char := cs.dropWhile isWhiteSpace

def trimEnd (cs : List Char) : List Char := dropEndWhile isWhiteSpace cs

/-- Without white space at both ends. -/
def trim (cs : List Char) : List Char := trimEnd (trimStart cs)

/-- Without the characters of `p` at both ends. -/
def trimBoth (p : Char → Bool) (cs : List Char) : List Char := dropEndWhile p (cs.dropWhile p)

/-- What follows `front`, if the text starts with it. -/
def stripPrefix? (front cs : List Char) : Option (List Char) :=
  if front.isPrefixOf cs then some (cs.drop front.length) else none

/-- What precedes `back`, if the text ends with it. -/
def stripSuffix? (back cs : List Char) : Option (List Char) :=
  if back.isSuffixOf cs then some (cs.take (cs.length - back.length)) else none

/-- Without `front` at the start, as often as it stands there. -/
def dropPrefixes (front : List Char) : (fuel : Nat) → List Char → List Char
  | 0, cs => cs
  | fuel + 1, cs =>
    match stripPrefix? front cs with
    | some rest => dropPrefixes front fuel rest
    | none => cs

/-- Does `part` occur in the text? -/
def contains (part : List Char) : List Char → Bool
  | [] => part.isEmpty
  | c :: cs => part.isPrefixOf (c :: cs) || contains part cs

/-- The text before and after the first `c`. -/
def cut? (c : Char) (cs : List Char) : Option (List Char × List Char) :=
  match cs.dropWhile (· != c) with
  | _ :: rest => some (cs.takeWhile (· != c), rest)
  | [] => none

/-- The text before and after the last `c`. -/
def cutLast? (c : Char) (cs : List Char) : Option (List Char × List Char) :=
  (cut? c cs.reverse).map fun (after, before) => (before.reverse, after.reverse)

/-- The texts between the characters of `p`; there is always one. -/
def splitBy (p : Char → Bool) : List Char → List (List Char)
  | [] => [[]]
  | c :: cs =>
    if p c then [] :: splitBy p cs
    else match splitBy p cs with
      | part :: parts => (c :: part) :: parts
      | [] => [[c]]

/-- The texts between the characters `c`. -/
def split (c : Char) (cs : List Char) : List (List Char) := splitBy (· == c) cs

/-- The text after the last `c`, or all of it. -/
def afterLast (c : Char) (cs : List Char) : List Char :=
  match cutLast? c cs with
  | some (_, after) => after
  | none => cs

def replaceChar (old new : Char) (cs : List Char) : List Char :=
  cs.map fun c => if c = old then new else c

/-- Without one carriage return at the end. -/
def dropReturn (line : List Char) : List Char :=
  match line.reverse with
  | '\r' :: rest => rest.reverse
  | _ => line

/-- The lines of a text.  What follows the last line end is a line only if it is not empty, and it
keeps its carriage return. -/
def lines (cs : List Char) : List (List Char) :=
  let parts := split '\n' cs
  parts.dropLast.map dropReturn ++ (parts.getLast?.filter (!·.isEmpty)).toList

end Plumbline.Text
