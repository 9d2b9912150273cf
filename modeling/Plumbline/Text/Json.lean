/-
Data in brackets and braces.

A value is read from text by the usual grammar.  A number without point and exponent is an integer
if it fits 64 bits and a float otherwise.  The grammar admits values that cannot be held: a number
beyond all floats, and a text with half of a surrogate pair.  They are read as `unrepresentable`, so
that they spoil only what asks for them.  Objects keep the order in which their fields are written.
-/
import Plumbline.Text.Decimal

namespace Plumbline

inductive Json where
  | null
  | bool (b : Bool)
  | int (n : Int)
  | float (x : Float)
  | str (s : String)
  | arr (items : List Json)
  | obj (fields : List (String × Json))
  /-- A well-formed value that cannot be held, or an object with such a text as a key. -/
  | unrepresentable
deriving Repr, Inhabited

namespace Json

/-! ### Access -/

/-- The field `key` of an object; the last one if it is written several times. -/
def field? (j : Json) (key : String) : Option Json :=
  match j with
  | obj fields => (fields.reverse.find? (·.1 == key)).map (·.2)
  | _ => none

def str? : Json → Option String
  | str s => some s
  | _ => none

def items? : Json → Option (List Json)
  | arr items => some items
  | _ => none

def ofOption {α : Type} (f : α → Json) : Option α → Json
  | some a => f a
  | none => null

def ofNat (n : Nat) : Json := int n

/-! ### Reading -/

def isSpace (c : Char) : Bool := c == ' ' || c == '\n' || c == '\t' || c == '\r'

def skipSpace (cs : List Char) : List Char := cs.dropWhile isSpace

def hexValue? (c : Char) : Option Nat :=
  if c.isDigit then some (Decimal.digitValue c)
  else if 'a' ≤ c ∧ c ≤ 'f' then some (c.toNat - 'a'.toNat + 10)
  else if 'A' ≤ c ∧ c ≤ 'F' then some (c.toNat - 'A'.toNat + 10)
  else none

/-- Four hexadecimal digits. -/
def hex4? : List Char → Option (Nat × List Char)
  | a :: b :: c :: d :: rest => do
    let w ← hexValue? a
    let x ← hexValue? b
    let y ← hexValue? c
    let z ← hexValue? d
    pure (((w * 16 + x) * 16 + y) * 16 + z, rest)
  | _ => none

/-- What follows `\u`: one code unit or two that make a pair, and no character for half of a
pair. -/
def unicodeEscape? (cs : List Char) : Option (Option Char × List Char) := do
  let (hi, rest) ← hex4? cs
  if 0xD800 ≤ hi ∧ hi < 0xDC00 then
    match rest with
    | '\\' :: 'u' :: more =>
      match hex4? more with
      | some (lo, after) =>
        if 0xDC00 ≤ lo ∧ lo < 0xE000 then
          pure (some (Char.ofNat (0x10000 + (hi - 0xD800) * 0x400 + (lo - 0xDC00))), after)
        else pure (none, rest)
      | none => pure (none, rest)
    | _ => pure (none, rest)
  else if 0xDC00 ≤ hi ∧ hi < 0xE000 then pure (none, rest)
  else pure (some (Char.ofNat hi), rest)

/-- The character that a short escape stands for. -/
def shortEscape? : Char → Option Char
  | '"' => some '"'
  | '\\' => some '\\'
  | '/' => some '/'
  | 'b' => some (Char.ofNat 8)
  | 'f' => some (Char.ofNat 12)
  | 'n' => some '\n'
  | 'r' => some '\r'
  | 't' => some '\t'
  | _ => none

/-- The rest of a text after its opening quote; `acc` are the characters so far, last first, unless
the text cannot be held. -/
def readText : (fuel : Nat) → List Char → (acc : Option (List Char)) →
    Option (Option String × List Char)
  | 0, _, _ => none
  | fuel + 1, cs, acc =>
    match cs with
    | '"' :: rest => some (acc.map fun acc => String.ofList acc.reverse, rest)
    | '\\' :: 'u' :: rest => do
      let (c, rest) ← unicodeEscape? rest
      readText fuel rest (acc.bind fun acc => c.map (· :: acc))
    | '\\' :: e :: rest => do
      let c ← shortEscape? e
      readText fuel rest (acc.map (c :: ·))
    | c :: rest => if c.toNat < 32 then none else readText fuel rest (acc.map (c :: ·))
    | [] => none

/-- The text after an opening quote. -/
def readText? (cs : List Char) : Option (Option String × List Char) :=
  readText (cs.length + 1) cs (some [])

/-- The exponent of a number and what follows it. -/
def readExponent? (cs : List Char) : Option (Int × List Char) :=
  let (negative, cs) := match cs with
    | '-' :: rest => (true, rest)
    | '+' :: rest => (false, rest)
    | _ => (false, cs)
  let digits := cs.takeWhile Char.isDigit
  if digits.isEmpty then none
  else
    let n : Int := Decimal.digitsValue digits
    some (if negative then -n else n, cs.dropWhile Char.isDigit)

/-- A number with a point or an exponent. -/
def floatNumber (negative : Bool) (whole fraction : List Char) (exponent : Int) : Json :=
  ((Decimal.scaled? negative whole fraction exponent).map float).getD unrepresentable

/-- An integer if it fits 64 bits and is no negative zero, else a float. -/
def wholeNumber (negative : Bool) (digits : List Char) : Json :=
  let n := Decimal.digitsValue digits
  if negative ∧ 0 < n ∧ n ≤ Decimal.signedBound then int (-(n : Int))
  else if !negative ∧ n < Decimal.wordBound then int n
  else floatNumber negative digits [] 0

def readNumber? (cs : List Char) : Option (Json × List Char) := do
  let (negative, cs) := match cs with
    | '-' :: rest => (true, rest)
    | _ => (false, cs)
  let whole := cs.takeWhile Char.isDigit
  let rest := cs.dropWhile Char.isDigit
  if whole.isEmpty ∨ (1 < whole.length ∧ whole.head? = some '0') then none
  else
    let (fraction, rest, pointed) := match rest with
      | '.' :: more => (more.takeWhile Char.isDigit, more.dropWhile Char.isDigit, true)
      | _ => ([], rest, false)
    if pointed ∧ fraction.isEmpty then none
    else
      let plain := if pointed then floatNumber negative whole fraction 0
        else wholeNumber negative whole
      match rest with
      | e :: more =>
        if e = 'e' ∨ e = 'E' then
          let (exponent, rest) ← readExponent? more
          pure (floatNumber negative whole fraction exponent, rest)
        else pure (plain, rest)
      | [] => pure (plain, [])

mutual

/-- A value and what follows it. -/
def readValue : (fuel : Nat) → List Char → Option (Json × List Char)
  | 0, _ => none
  | fuel + 1, cs =>
    match skipSpace cs with
    | 'n' :: 'u' :: 'l' :: 'l' :: rest => some (null, rest)
    | 't' :: 'r' :: 'u' :: 'e' :: rest => some (bool true, rest)
    | 'f' :: 'a' :: 'l' :: 's' :: 'e' :: rest => some (bool false, rest)
    | '"' :: rest => (readText? rest).map fun (s, rest) => ((s.map str).getD unrepresentable, rest)
    | '[' :: rest =>
      match skipSpace rest with
      | ']' :: rest => some (arr [], rest)
      | rest => readItems fuel rest []
    | '\x7b' :: rest =>
      match skipSpace rest with
      | '\x7d' :: rest => some (obj [], rest)
      | rest => readFields fuel rest (some [])
    | rest => readNumber? rest

/-- Items of an array after its opening bracket; `acc` are those so far, last first. -/
def readItems : (fuel : Nat) → List Char → List Json → Option (Json × List Char)
  | 0, _, _ => none
  | fuel + 1, cs, acc => do
    let (item, rest) ← readValue fuel cs
    match skipSpace rest with
    | ',' :: rest => readItems fuel rest (item :: acc)
    | ']' :: rest => some (arr (item :: acc).reverse, rest)
    | _ => none

/-- Fields of an object after its opening brace; `acc` are those so far, last first, unless some
key cannot be held. -/
def readFields : (fuel : Nat) → List Char → (acc : Option (List (String × Json))) →
    Option (Json × List Char)
  | 0, _, _ => none
  | fuel + 1, cs, acc => do
    match skipSpace cs with
    | '"' :: rest =>
      let (key, rest) ← readText? rest
      match skipSpace rest with
      | ':' :: rest =>
        let (value, rest) ← readValue fuel rest
        let acc := acc.bind fun acc => key.map fun key => (key, value) :: acc
        match skipSpace rest with
        | ',' :: rest => readFields fuel rest acc
        | '\x7d' :: rest =>
          some ((acc.map fun acc => obj acc.reverse).getD unrepresentable, rest)
        | _ => none
      | _ => none
    | _ => none

end

/-- The value that a whole text is. -/
def parse? (text : String) : Option Json := do
  let cs := text.toList
  let (value, rest) ← readValue (2 * cs.length + 2) cs
  if (skipSpace rest).isEmpty then some value else none

/-! ### Writing -/

def escapeChar (c : Char) : List Char :=
  if c = '"' then ['\\', '"']
  else if c = '\\' then ['\\', '\\']
  else if c = '\n' then ['\\', 'n']
  else if c = '\r' then ['\\', 'r']
  else if c = '\t' then ['\\', 't']
  else if c.toNat = 8 then ['\\', 'b']
  else if c.toNat = 12 then ['\\', 'f']
  else if c.toNat < 32 then
    ['\\', 'u', '0', '0'] ++ [Nat.digitChar (c.toNat / 16), Nat.digitChar (c.toNat % 16)]
  else [c]

def renderText (s : String) : String :=
  String.ofList ('"' :: (s.toList.flatMap escapeChar ++ ['"']))

mutual

/-- One line, without blanks. -/
def render : Json → String
  | null => "null"
  | bool b => if b then "true" else "false"
  | int n => toString n
  | float x => toString x
  | str s => renderText s
  | arr items => "[" ++ ",".intercalate (renderItems items) ++ "]"
  | obj fields => "\x7b" ++ ",".intercalate (renderFields fields) ++ "\x7d"
  | unrepresentable => "null"

def renderItems : List Json → List String
  | [] => []
  | j :: rest => render j :: renderItems rest

def renderFields : List (String × Json) → List String
  | [] => []
  | (key, value) :: rest => (renderText key ++ ":" ++ render value) :: renderFields rest

end

/-- A line break and the indentation of a level. -/
def newLine (level : Nat) : String := "\n" ++ String.ofList (List.replicate (2 * level) ' ')

mutual

/-- One item or field a line, indented by two blanks a level. -/
def pretty (level : Nat) : Json → String
  | null => "null"
  | bool b => if b then "true" else "false"
  | int n => toString n
  | float x => toString x
  | str s => renderText s
  | arr [] => "[]"
  | arr (j :: rest) =>
    "[" ++ ",".intercalate (prettyItems (level + 1) (j :: rest)) ++ newLine level ++ "]"
  | obj [] => "\x7b\x7d"
  | obj (f :: rest) =>
    "\x7b" ++ ",".intercalate (prettyFields (level + 1) (f :: rest)) ++ newLine level ++ "\x7d"
  | unrepresentable => "null"

def prettyItems (level : Nat) : List Json → List String
  | [] => []
  | j :: rest => (newLine level ++ pretty level j) :: prettyItems level rest

def prettyFields (level : Nat) : List (String × Json) → List String
  | [] => []
  | (key, value) :: rest =>
    (newLine level ++ renderText key ++ ": " ++ pretty level value) :: prettyFields level rest

end

end Json

end Plumbline
