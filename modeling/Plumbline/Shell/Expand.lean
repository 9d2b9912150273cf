/-
What words become.

An expanded word is a list of fields.  Text from an unquoted expansion is cut into fields at white
space, and a field with unquoted wildcards becomes the names of files that it matches, if there are
any.  Arithmetic is on whole numbers.
-/
import Plumbline.Files.Tree
import Plumbline.Shell.Bytes

namespace Plumbline.Shell

/-! ### Fields -/

/-- A character of a field, and whether it was quoted. -/
abbrev FieldChar := Char × Bool

/-- Fields under construction. -/
structure Fields where
  /-- Finished fields, last first. -/
  done : List (List FieldChar) := []
  /-- The field that is being built, last character first. -/
  now : Option (List FieldChar) := none
deriving Inhabited

namespace Fields

def add (f : Fields) (cs : List Char) (quoted : Bool) : Fields :=
  { f with now := some ((cs.map (·, quoted)).reverse ++ f.now.getD []) }

/-- Ends the field that is being built. -/
def cut (f : Fields) : Fields :=
  match f.now with
  | some field => { done := field.reverse :: f.done }
  | none => f

/-- Adds text that is cut at white space. -/
def addSplit (f : Fields) (cs : List Char) : Fields :=
  cs.foldl (fun f c => if c == ' ' || c == '\t' || c == '\n' then f.cut else f.add [c] false) f

/-- Adds texts that stay apart; without any, an empty quotation vanishes. -/
def addApart (f : Fields) (texts : List (List Char)) : Fields :=
  match texts with
  | [] => if f.now = some [] then { f with now := none } else f
  | first :: rest => rest.foldl (fun f t => f.cut.add t true) (f.add first true)

def toList (f : Fields) : List (List FieldChar) := f.cut.done.reverse

end Fields

/-! ### Wildcards -/

def isWildcard (c : FieldChar) : Bool := !c.2 && (c.1 == '*' || c.1 == '?')

/-- Does a pattern match a whole text? -/
def wildcardMatches : List FieldChar → List Char → Bool
  | [], cs => cs.isEmpty
  | p :: ps, [] => p == ('*', false) && wildcardMatches ps []
  | p :: ps, c :: cs =>
    if p == ('*', false) then wildcardMatches ps (c :: cs) || wildcardMatches (p :: ps) cs
    else if p == ('?', false) then wildcardMatches ps cs
    else p.1 == c && wildcardMatches ps cs
termination_by ps cs => ps.length + cs.length

/-- The parts of a field between slashes. -/
def fieldParts : List FieldChar → List (List FieldChar)
  | [] => [[]]
  | c :: cs =>
    if c.1 == '/' then [] :: fieldParts cs
    else match fieldParts cs with
      | part :: parts => (c :: part) :: parts
      | [] => [[c]]

/-- The files that match the parts of a field below `dir`; `written` is the text before them. -/
def matchingFiles (t : FileTree) (dir : Place) (written : List Char) : List (List FieldChar) →
    List (List Char)
  | [] => []
  | part :: rest =>
    let text := part.map (·.1)
    let names := if part.any isWildcard then
        (t.entries dir).filter fun n =>
          wildcardMatches part (ofString n) &&
            (n.toList.head? != some '.' || text.head? == some '.')
      else [(String.fromUTF8? (toBytes text)).getD ""]
    (names.map fun n =>
      let here := Path.placeFrom dir n
      match rest with
      | [] => if t.isFile here || t.isDir here then [written ++ ofString n] else []
      | _ :: _ => matchingFiles t here (written ++ ofString n ++ ['/']) rest).flatten

/-- What a field becomes: matching files, or its own text. -/
def fieldTexts (t : FileTree) (cwd : Place) (field : List FieldChar) : List (List Char) :=
  let own := field.map (·.1)
  if field.any isWildcard then
    let found := match fieldParts field with
      | [] :: parts => matchingFiles t [] ['/'] parts
      | parts => matchingFiles t cwd [] parts
    if found.isEmpty then [own] else found
  else [own]

/-- The text without its shortest (or longest) end that matches. -/
def dropMatchingEnd (longest : Bool) (pattern cs : List Char) : List Char :=
  let p := pattern.map (·, false)
  let sizes := List.range (cs.length + 1)
  let sizes := if longest then sizes.reverse else sizes
  match sizes.find? fun n => wildcardMatches p (cs.drop (cs.length - n)) with
  | some n => cs.take (cs.length - n)
  | none => cs

/-- The text without its shortest (or longest) start that matches. -/
def dropMatchingStart (longest : Bool) (pattern cs : List Char) : List Char :=
  let p := pattern.map (·, false)
  let sizes := List.range (cs.length + 1)
  let sizes := if longest then sizes.reverse else sizes
  match sizes.find? fun n => wildcardMatches p (cs.take n) with
  | some n => cs.drop n
  | none => cs

/-! ### Arithmetic -/

namespace Arithmetic

/-- Operators of each rank, weakest first. -/
def ranks : List (List String) :=
  [["||"], ["&&"], ["==", "!="], ["<=", ">=", "<", ">"], ["+", "-"], ["*", "/", "%"]]

def truth (b : Bool) : Int := if b then 1 else 0

/-- What an operator computes; nothing for a division by zero. -/
def compute? (op : String) (a b : Int) : Option Int :=
  match op with
  | "||" => some (truth (a != 0 || b != 0))
  | "&&" => some (truth (a != 0 && b != 0))
  | "==" => some (truth (a == b))
  | "!=" => some (truth (a != b))
  | "<=" => some (truth (a ≤ b))
  | ">=" => some (truth (a ≥ b))
  | "<" => some (truth (a < b))
  | ">" => some (truth (a > b))
  | "+" => some (a + b)
  | "-" => some (a - b)
  | "*" => some (a * b)
  | "/" => if b = 0 then none else some (a.tdiv b)
  | "%" => if b = 0 then none else some (a.tmod b)
  | _ => none

def skipBlanks (cs : List Char) : List Char := cs.dropWhile Text.isWhiteSpace

mutual

/-- A value made of operators of this rank and stronger ones. -/
def value? (look : String → Int) : (fuel : Nat) → List (List String) → List Char →
    Option (Int × List Char)
  | 0, _, _ => none
  | fuel + 1, [], cs => operand? look fuel (skipBlanks cs)
  | fuel + 1, ops :: stronger, cs => do
    let (a, rest) ← value? look fuel stronger cs
    more? look fuel ops stronger a rest

def more? (look : String → Int) : (fuel : Nat) → List String → List (List String) → Int →
    List Char → Option (Int × List Char)
  | 0, _, _, _, _ => none
  | fuel + 1, ops, stronger, a, cs =>
    let cs := skipBlanks cs
    match ops.findSome? fun op => (Text.stripPrefix? op.toList cs).map (op, ·) with
    | none => some (a, cs)
    | some (op, rest) => do
      let (b, rest) ← value? look fuel stronger rest
      more? look fuel ops stronger (← compute? op a b) rest

def operand? (look : String → Int) : (fuel : Nat) → List Char → Option (Int × List Char)
  | 0, _ => none
  | fuel + 1, cs =>
    match cs with
    | '(' :: rest => do
      let (a, rest) ← value? look fuel ranks rest
      match skipBlanks rest with
      | ')' :: rest => pure (a, rest)
      | _ => none
    | '-' :: rest => (operand? look fuel (skipBlanks rest)).map fun (a, rest) => (-a, rest)
    | '+' :: rest => operand? look fuel (skipBlanks rest)
    | '!' :: rest =>
      (operand? look fuel (skipBlanks rest)).map fun (a, rest) => (truth (a == 0), rest)
    | '$' :: rest => operand? look fuel rest
    | c :: _ =>
      if c.isDigit then
        (number? (cs.takeWhile Char.isDigit)).map fun n => (n, cs.dropWhile Char.isDigit)
      else
        let isPart (c : Char) : Bool := c.isAlphanum || c == '_'
        let name := cs.takeWhile isPart
        if name.isEmpty then none else some (look (String.ofList name), cs.drop name.length)
    | [] => none

end

/-- The value of an expression; an empty one is 0. -/
def eval? (look : String → Int) (cs : List Char) : Option Int :=
  if (skipBlanks cs).isEmpty then some 0
  else match value? look (16 * cs.length + 16) ranks cs with
    | some (n, rest) => if (skipBlanks rest).isEmpty then some n else none
    | none => none

end Arithmetic

end Plumbline.Shell
