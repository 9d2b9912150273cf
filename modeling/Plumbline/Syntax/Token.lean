/-
Words of Python source.

One word is read from the start of a text at a time: a name, a number, an operator, a comment
or a joined line.  Nothing here depends on where in a statement the word stands; line breaks,
indentation and string literals, which do, are decided in `Plumbline.Syntax.Layout`.
-/
import Plumbline.Text.Identifier
import Plumbline.Text.Span

namespace Plumbline.Syntax

/-- How a string literal was opened. -/
structure Quote where
  mark : Char
  triple : Bool
  raw : Bool
  bytes : Bool
  format : Bool
deriving Repr, DecidableEq, Inhabited

/-- One word of source text, or one of the marks that layout stands for. -/
inductive Token where
  | name (text : String)
  | integer
  | float
  | op (text : String)
  | conversion
  | comment
  | joined
  | quote (q : Quote)
  | newline
  | indent (width : Nat)
  | dedent
  | endOfText
  | unknown
deriving Repr, DecidableEq, Inhabited

/-- Characters that separate words and mean nothing else: the blanks of ASCII and three characters
without width. -/
def isBlank (c : Char) : Bool :=
  c == ' ' || (9 ≤ c.toNat && c.toNat ≤ 13) || c.toNat == 0xFEFF || c.toNat == 0x2060 ||
    c.toNat == 0x200B

/-- The character that no word goes across. -/
def nul : Char := Char.ofNat 0

/-- Operators and delimiters, longer ones before their beginnings. -/
def operators : List String :=
  ["...", "**=", "//=", ">>=", "<<=",
   "**", "//", ">>", "<<", "<=", ">=", "==", "!=", "<>", "->", ":=",
   "+=", "-=", "*=", "/=", "%=", "@=", "&=", "|=", "^=",
   "+", "-", "*", "/", "%", "@", "&", "|", "^", "~", "<", ">", "=",
   "(", ")", "[", "]", "\x7b", "\x7d", ",", ":", ".", ";"]

/-- Words that are no names of definitions, parameters, attributes or modules. -/
def reservedWords : List String :=
  ["False", "None", "True", "and", "as", "assert", "async", "await", "break", "class", "continue",
   "def", "del", "elif", "else", "except", "finally", "for", "from", "global", "if", "import",
   "in", "is", "lambda", "nonlocal", "not", "or", "pass", "raise", "return", "try", "while",
   "with", "yield"]

/-- Words that start a construct in some places and can be variables all the same. -/
def contextualWords : List String := ["print", "exec", "async", "await", "type", "match"]

namespace Token

/-! ### Numbers

Each reader answers how many characters of the text belong to the number, zero for none.
-/

/-- Length of the longest prefix whose characters satisfy `p`. -/
def runLength (p : Char → Bool) (cs : List Char) : Nat := (cs.takeWhile p).length

/-- Groups of digits, each with at most one underscore after it. -/
def digitGroups : List Char → Nat
  | [] => 0
  | c :: '_' :: cs => if c.isDigit then 2 + digitGroups cs else 0
  | c :: cs => if c.isDigit then 1 + digitGroups cs else 0

/-- Groups of digits of another base, each with at most one underscore before it. -/
def baseGroups (p : Char → Bool) : List Char → Nat
  | [] => 0
  | '_' :: c :: cs => if p c then 2 + baseGroups p cs else 0
  | c :: cs => if p c then 1 + baseGroups p cs else 0

def isHexDigit (c : Char) : Bool := c.isDigit || ('a' ≤ c && c ≤ 'f') || ('A' ≤ c && c ≤ 'F')

/-- One if the text goes on with a character of `marks`, else zero. -/
def optionalMark (marks : List Char) : List Char → Nat
  | c :: _ => if marks.contains c then 1 else 0
  | [] => 0

/-- A number that starts with a base mark such as `0x`. -/
def basedLength : List Char → Nat
  | '0' :: m :: cs =>
    let digits :=
      if m = 'x' ∨ m = 'X' then baseGroups isHexDigit cs
      else if m = 'o' ∨ m = 'O' then baseGroups (fun c => '0' ≤ c && c ≤ '7') cs
      else if m = 'b' ∨ m = 'B' then baseGroups (fun c => c == '0' || c == '1') cs
      else 0
    if digits = 0 then 0 else 2 + digits + optionalMark ['l', 'L'] (cs.drop digits)
  | _ => 0

/-- Length of an integer: based, or decimal with an optional long or imaginary mark. -/
def integerLength (cs : List Char) : Nat :=
  let based := basedLength cs
  let digits := digitGroups cs
  let decimal :=
    if digits = 0 then 0 else digits + optionalMark ['l', 'L', 'j', 'J'] (cs.drop digits)
  max based decimal

/-- Length of an exponent, zero if there is none. -/
def exponentLength : List Char → Nat
  | e :: cs =>
    if e = 'e' ∨ e = 'E' then
      let sign := optionalMark ['+', '-'] cs
      let digits := digitGroups (cs.drop sign)
      if digits = 0 then 0 else 1 + sign + digits
    else 0
  | [] => 0

/-- Length of a number with a point or an exponent. -/
def floatLength (cs : List Char) : Nat :=
  let whole := digitGroups cs
  let body :=
    match cs.drop whole with
    | '.' :: more =>
      let fraction := digitGroups more
      if whole = 0 ∧ fraction = 0 then 0
      else whole + 1 + fraction + exponentLength (more.drop fraction)
    | more =>
      let exponent := exponentLength more
      if whole = 0 ∨ exponent = 0 then 0 else whole + exponent
  if body = 0 then 0 else body + optionalMark ['j', 'J'] (cs.drop body)

/-! ### The next word -/

/-- Length of a joined line break: a backslash before a line end, a NUL or the end of the text. -/
def joinLength : List Char → Nat
  | ['\\'] => 1
  | '\\' :: '\n' :: _ => 2
  | '\\' :: '\r' :: '\n' :: _ => 3
  | '\\' :: c :: _ => if c = nul then 2 else 0
  | _ => 0

/-- Length of a comment, which ends before the line does or at a NUL. -/
def commentLength (cs : List Char) : Nat := runLength (fun c => c != '\n' && c != nul) cs

/-- Length of a conversion mark such as `!r`. -/
def conversionLength : List Char → Nat
  | '!' :: c :: _ => if 'a' ≤ c ∧ c ≤ 'z' then 2 else 0
  | _ => 0

/-- The longest operator that the text starts with. -/
def operator? (cs : List Char) : Option String :=
  operators.find? fun op => op.toList.isPrefixOf cs

/-- The word at the start of a text that starts with no blank, and its length. -/
def read (cs : List Char) : Token × Nat :=
  match cs with
  | [] => (endOfText, 0)
  | c :: _ =>
    if isIdentifierStart c then
      let text := cs.takeWhile isIdentifierPart
      (name (String.ofList text), text.length)
    else if c = '#' then (comment, commentLength cs)
    else if 0 < joinLength cs then (joined, joinLength cs)
    else if 0 < floatLength cs ∧ integerLength cs < floatLength cs then (float, floatLength cs)
    else if 0 < integerLength cs then (integer, integerLength cs)
    else match operator? cs with
      | some text => (op text, text.length)
      | none =>
        if 0 < conversionLength cs then (conversion, conversionLength cs) else (unknown, 1)

/-- Is the token the reserved word or operator `text`? -/
def isMark (t : Token) (text : String) : Bool := t == name text || t == op text

/-- Is the token a name that can be given to anything? -/
def isIdentifier : Token → Bool
  | name text => !reservedWords.contains text
  | _ => false

/-- Is the token a word that a variable can have as its name? -/
def isVariable : Token → Bool
  | name text => !reservedWords.contains text || contextualWords.contains text
  | _ => false

/-- Does the token start with a star that can stand before an unpacked value? -/
def isStar : Token → Bool
  | op text => text == "*" || text == "**"
  | _ => false

/-- Can the token start an expression? -/
def startsExpression (t : Token) : Bool :=
  t.isVariable ||
    match t with
    | name text => ["not", "lambda", "True", "False", "None"].contains text
    | integer | float | quote _ => true
    | op text => ["(", "[", "\x7b", "-", "+", "~", "...", "*", "**"].contains text
    | _ => false

end Token

end Plumbline.Syntax
