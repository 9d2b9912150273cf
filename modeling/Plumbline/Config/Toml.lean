/-
Configuration files in lines and sections.

The format has `key = value` lines, `[section]` and `[[section]]` headers, and comments.  A document
is read into the same kind of value as data in brackets and braces, so the two kinds of
configuration files are understood by one set of rules.  A date is the object with one field that
holds its text.

A table may be opened once: by a header, or by dotted keys, but not by both.  A table that only
lies on the way to another one may still be opened by a header.
-/
import Plumbline.Text.Json

namespace Plumbline.Toml

/-! ### Characters -/

def isBlank (c : Char) : Bool := c == ' ' || c == '\t'

def skipBlanks (cs : List Char) : List Char := cs.dropWhile isBlank

def isBareKey (c : Char) : Bool := c.isAlphanum || c == '_' || c == '-'

/-- Characters that neither comments nor strings may hold. -/
def isControl (c : Char) : Bool := (c.toNat < 32 && c != '\t') || c.toNat == 127

/-- What follows a line end, if one is ahead. -/
def lineEnd? : List Char → Option (List Char)
  | '\n' :: rest => some rest
  | '\r' :: '\n' :: rest => some rest
  | _ => none

/-- What follows a comment, if the text starts with one. -/
def skipComment (cs : List Char) : List Char :=
  match cs with
  | '#' :: rest => rest.dropWhile (!isControl ·)
  | _ => cs

/-- Skips blanks, comments and line ends. -/
def skipLines : (fuel : Nat) → List Char → List Char
  | 0, cs => cs
  | fuel + 1, cs =>
    let rest := skipComment (skipBlanks cs)
    match lineEnd? rest with
    | some rest => skipLines fuel rest
    | none => rest

/-! ### Strings -/

/-- The value of exactly `n` hexadecimal digits. -/
def hexDigits? : (n acc : Nat) → List Char → Option (Nat × List Char)
  | 0, acc, cs => some (acc, cs)
  | n + 1, acc, c :: cs => do hexDigits? n (16 * acc + (← Json.hexValue? c)) cs
  | _ + 1, _, [] => none

/-- The character that follows a backslash stands for. -/
def escape? : List Char → Option (Char × List Char)
  | 'b' :: rest => some (Char.ofNat 8, rest)
  | 't' :: rest => some ('\t', rest)
  | 'n' :: rest => some ('\n', rest)
  | 'f' :: rest => some (Char.ofNat 12, rest)
  | 'r' :: rest => some ('\r', rest)
  | '"' :: rest => some ('"', rest)
  | '\\' :: rest => some ('\\', rest)
  | 'u' :: rest => scalar? (hexDigits? 4 0 rest)
  | 'U' :: rest => scalar? (hexDigits? 8 0 rest)
  | _ => none
where
  /-- Refuses numbers that are no characters. -/
  scalar? : Option (Nat × List Char) → Option (Char × List Char)
    | some (n, rest) => if n.isValidChar then some (Char.ofNat n, rest) else none
    | none => none

/-- A string on one line after its opening quote. -/
def basicString? : (fuel : Nat) → List Char → List Char → Option (String × List Char)
  | 0, _, _ => none
  | fuel + 1, cs, acc =>
    match cs with
    | '"' :: rest => some (String.ofList acc.reverse, rest)
    | '\\' :: rest => do
      let (c, rest) ← escape? rest
      basicString? fuel rest (c :: acc)
    | c :: rest => if isControl c then none else basicString? fuel rest (c :: acc)
    | [] => none

/-- A string without escapes on one line after its opening quote. -/
def literalString? (cs : List Char) : Option (String × List Char) :=
  match cs.dropWhile fun c => !isControl c && c != '\'' with
  | '\'' :: rest =>
    some (String.ofList (cs.takeWhile fun c => !isControl c && c != '\''), rest)
  | _ => none

/-- What follows a run of at least three quotes, of which the last three close the string; up to
two before them belong to it. -/
def closing? (quote : Char) (cs : List Char) : Option (List Char × List Char) :=
  let run := (cs.takeWhile (· == quote)).length
  if 3 ≤ run then
    let own := min 2 (run - 3)
    some (List.replicate own quote, cs.drop (own + 3))
  else none

/-- After a backslash at the end of a line: what follows the white space on the next lines. -/
def joinedLines? (cs : List Char) : Option (List Char) :=
  match lineEnd? (skipBlanks cs) with
  | some rest => some (skipBreaks (rest.length + 1) rest)
  | none => none
where
  /-- Skips blanks and line ends. -/
  skipBreaks : (fuel : Nat) → List Char → List Char
    | 0, cs => cs
    | fuel + 1, cs =>
      match lineEnd? (skipBlanks cs) with
      | some rest => skipBreaks fuel rest
      | none => skipBlanks cs

/-- A string over several lines after its opening quotes. -/
def longBasic? : (fuel : Nat) → List Char → List Char → Option (String × List Char)
  | 0, _, _ => none
  | fuel + 1, cs, acc =>
    match closing? '"' cs with
    | some (own, rest) => some (String.ofList (acc.reverse ++ own), rest)
    | none =>
      match lineEnd? cs with
      | some rest => longBasic? fuel rest ('\n' :: acc)
      | none =>
        match cs with
        | '\\' :: rest =>
          match joinedLines? rest with
          | some rest => longBasic? fuel rest acc
          | none => do
            let (c, rest) ← escape? rest
            longBasic? fuel rest (c :: acc)
        | c :: rest => if isControl c then none else longBasic? fuel rest (c :: acc)
        | [] => none

/-- A string without escapes over several lines after its opening quotes. -/
def longLiteral? : (fuel : Nat) → List Char → List Char → Option (String × List Char)
  | 0, _, _ => none
  | fuel + 1, cs, acc =>
    match closing? '\'' cs with
    | some (own, rest) => some (String.ofList (acc.reverse ++ own), rest)
    | none =>
      match lineEnd? cs with
      | some rest => longLiteral? fuel rest ('\n' :: acc)
      | none =>
        match cs with
        | c :: rest => if isControl c then none else longLiteral? fuel rest (c :: acc)
        | [] => none

/-- The text after opening quotes, without a line end right behind them. -/
def dropFirstBreak (cs : List Char) : List Char := (lineEnd? cs).getD cs

/-- A string of any kind. -/
def string? : List Char → Option (String × List Char)
  | '"' :: '"' :: '"' :: rest => longBasic? (rest.length + 1) (dropFirstBreak rest) []
  | '\'' :: '\'' :: '\'' :: rest => longLiteral? (rest.length + 1) (dropFirstBreak rest) []
  | '"' :: rest => basicString? (rest.length + 1) rest []
  | '\'' :: rest => literalString? rest
  | _ => none

/-! ### Numbers and dates -/

/-- Digits of `p`, single underscores between them allowed. -/
def digitGroups (p : Char → Bool) : List Char → List Char × List Char
  | c :: '_' :: d :: rest =>
    if p c then
      if p d then
        let (more, rest) := digitGroups p (d :: rest)
        (c :: more, rest)
      else ([c], '_' :: d :: rest)
    else ([], c :: '_' :: d :: rest)
  | c :: rest =>
    if p c then
      let (more, rest) := digitGroups p rest
      (c :: more, rest)
    else ([], c :: rest)
  | [] => ([], [])

/-- The value of digits in the base `base`. -/
def inBase (base : Nat) (digits : List Char) : Nat :=
  digits.foldl (fun n c => base * n + (Json.hexValue? c).getD 0) 0

/-- A whole number of 64 bits. -/
def fitting? (n : Int) (rest : List Char) : Option (Json × List Char) :=
  let bound : Int := Decimal.signedBound
  if -bound ≤ n ∧ n < bound then some (.int n, rest) else none

def based? (base : Nat) (p : Char → Bool) (cs : List Char) : Option (Json × List Char) :=
  match digitGroups p cs with
  | ([], _) => none
  | (digits, rest) => fitting? (inBase base digits) rest

/-- A sign, if there is one: is it a minus, and what follows it. -/
def sign : List Char → Bool × List Char
  | '-' :: rest => (true, rest)
  | '+' :: rest => (false, rest)
  | cs => (false, cs)

def infinity : Float := 1.0 / 0.0

/-- A float that is read from digits is not positive infinity. -/
def floatOf? (negative : Bool) (digits : List Char) (exponent : Int) (rest : List Char) :
    Option (Json × List Char) :=
  let x := Decimal.nearest negative (Decimal.digitsValue digits) exponent
  if x == infinity then none else some (.float x, rest)

/-- What may follow the digits of a whole number: nothing, or a fraction and an exponent. -/
def fraction? (negative : Bool) (whole rest : List Char) : Option (Json × List Char) :=
  let exponent? (digits : List Char) (places : Nat) (cs : List Char) : Option (Json × List Char) :=
    let (down, cs) := sign cs
    match digitGroups Char.isDigit cs with
    | ([], _) => none
    | (ds, rest) =>
      let n : Int := min (Decimal.digitsValue ds) Decimal.exponentBound
      floatOf? negative digits ((if down then -n else n) - places) rest
  match rest with
  | '.' :: more =>
    match digitGroups Char.isDigit more with
    | ([], _) => none
    | (places, rest) =>
      match rest with
      | 'e' :: more => exponent? (whole ++ places) places.length more
      | 'E' :: more => exponent? (whole ++ places) places.length more
      | _ => floatOf? negative (whole ++ places) (-places.length) rest
  | 'e' :: more => exponent? whole 0 more
  | 'E' :: more => exponent? whole 0 more
  | _ =>
    let n : Int := Decimal.digitsValue whole
    fitting? (if negative then -n else n) rest

def number? (cs : List Char) : Option (Json × List Char) :=
  match cs with
  | '0' :: 'x' :: rest => based? 16 (fun c => (Json.hexValue? c).isSome) rest
  | '0' :: 'o' :: rest => based? 8 (fun c => '0' ≤ c && c ≤ '7') rest
  | '0' :: 'b' :: rest => based? 2 (fun c => c == '0' || c == '1') rest
  | _ =>
    let (negative, rest) := sign cs
    match rest with
    | 'i' :: 'n' :: 'f' :: rest => some (.float (if negative then -infinity else infinity), rest)
    | 'n' :: 'a' :: 'n' :: rest => some (.float (0.0 / 0.0), rest)
    | _ =>
      match digitGroups Char.isDigit rest with
      | ([], _) => none
      | ('0' :: _ :: _, _) => none
      | (whole, rest) => fraction? negative whole rest

/-- The value of exactly `n` decimal digits. -/
def fixedDigits? (n : Nat) (cs : List Char) : Option (Nat × List Char) :=
  let digits := cs.take n
  if digits.length = n ∧ digits.all Char.isDigit then some (Decimal.digitsValue digits, cs.drop n)
  else none

def expectChar? (c : Char) : List Char → Option (List Char)
  | d :: rest => if d = c then some rest else none
  | [] => none

def daysIn (year month : Nat) : Nat :=
  if month = 2 then
    if (year % 4 = 0 ∧ year % 100 ≠ 0) ∨ year % 400 = 0 then 29 else 28
  else if [4, 6, 9, 11].contains month then 30
  else 31

/-- A date as it is written, and what follows it. -/
def date? (cs : List Char) : Option (List Char × List Char) := do
  let (year, rest) ← fixedDigits? 4 cs
  let rest ← expectChar? '-' rest
  let (month, rest) ← fixedDigits? 2 rest
  let rest ← expectChar? '-' rest
  let (day, rest) ← fixedDigits? 2 rest
  if 1 ≤ month ∧ month ≤ 12 ∧ 1 ≤ day ∧ day ≤ daysIn year month then some (cs.take 10, rest)
  else none

/-- Up to nine digits of a fraction of a second, without zeros at their end. -/
def fractionText (digits : List Char) : List Char :=
  let kept := ((digits.take 9).reverse.dropWhile (· == '0')).reverse
  if kept.isEmpty then [] else '.' :: kept

/-- A time of day in its shortest form, and what follows it. -/
def time? (cs : List Char) : Option (List Char × List Char) := do
  let (hour, rest) ← fixedDigits? 2 cs
  let rest ← expectChar? ':' rest
  let (minute, rest) ← fixedDigits? 2 rest
  let rest ← expectChar? ':' rest
  let (second, rest) ← fixedDigits? 2 rest
  if 23 < hour ∨ 59 < minute ∨ 60 < second then none
  else match rest with
    | '.' :: more =>
      let digits := more.takeWhile Char.isDigit
      if digits.isEmpty then some (cs.take 8, rest)
      else some (cs.take 8 ++ fractionText digits, more.dropWhile Char.isDigit)
    | _ => some (cs.take 8, rest)

/-- An offset from universal time, empty if there is none, and what follows it.  Without distance
its sign is a plus. -/
def offset (cs : List Char) : List Char × List Char :=
  match cs with
  | 'Z' :: rest => (['Z'], rest)
  | 'z' :: rest => (['Z'], rest)
  | c :: rest =>
    if c = '+' ∨ c = '-' then
      (do
        let (hour, rest) ← fixedDigits? 2 rest
        let rest ← expectChar? ':' rest
        let (minute, rest) ← fixedDigits? 2 rest
        if 23 < hour ∨ 59 < minute then none
        else
          let sign := if hour = 0 ∧ minute = 0 then '+' else c
          some (sign :: (cs.drop 1).take 5, rest)).getD ([], cs)
    else ([], cs)
  | [] => ([], cs)

/-- A date, a time, or both in their usual form, and what follows. -/
def moment? (cs : List Char) : Option (List Char × List Char) :=
  match date? cs with
  | some (date, rest) =>
    match rest with
    | c :: more =>
      if c = 'T' ∨ c = 't' ∨ c = ' ' then
        match time? more with
        | some (time, after) =>
          let (zone, after) := offset after
          some (date ++ 'T' :: time ++ zone, after)
        | none => some (date, rest)
      else some (date, rest)
    | [] => some (date, rest)
  | none => time? cs

/-- The field that holds the text of a date. -/
def momentField : String := "$__toml_private_datetime"

def momentValue (text : List Char) : Json := .obj [(momentField, .str (String.ofList text))]

/-! ### Values -/

/-- Keys joined by dots. -/
def keyPath? : (fuel : Nat) → List Char → Option (List String × List Char)
  | 0, _ => none
  | fuel + 1, cs => do
    let cs := skipBlanks cs
    let (key, rest) ← match cs with
      | '"' :: '"' :: '"' :: _ => none
      | '\'' :: '\'' :: '\'' :: _ => none
      | '"' :: rest => basicString? (rest.length + 1) rest []
      | '\'' :: rest => literalString? rest
      | _ =>
        let word := cs.takeWhile isBareKey
        if word.isEmpty then none else some (String.ofList word, cs.dropWhile isBareKey)
    match skipBlanks rest with
    | '.' :: rest =>
      let (more, rest) ← keyPath? fuel rest
      pure (key :: more, rest)
    | rest => pure ([key], rest)

/-- How a table came to be. -/
inductive Origin where
  /-- By a header, or as a value. -/
  | opened
  /-- On the way to a table with a header. -/
  | passed
  /-- By dotted keys. -/
  | dotted
deriving Repr, DecidableEq, Inhabited

/-- What a key of a document holds. -/
inductive Item where
  | value (v : Json)
  | table (origin : Origin) (entries : List (String × Item))
  /-- Tables under `[[...]]` headers, last first. -/
  | tables (items : List (List (String × Item)))
deriving Inhabited

abbrev Entries := List (String × Item)

mutual

/-- The value of an item. -/
def Item.toJson : Item → Json
  | .value v => v
  | .table _ entries => .obj (entriesToJson entries)
  | .tables items => .arr (tablesToJson items).reverse

def entriesToJson : Entries → List (String × Json)
  | [] => []
  | (key, item) :: rest => (key, item.toJson) :: entriesToJson rest

def tablesToJson : List Entries → List Json
  | [] => []
  | entries :: rest => .obj (entriesToJson entries) :: tablesToJson rest

end

/-- Puts an item under a key, in place of what is there. -/
def put (key : String) (item : Item) : Entries → Entries
  | [] => [(key, item)]
  | (k, old) :: rest => if k = key then (k, item) :: rest else (k, old) :: put key item rest

/-- Levels of nesting that are read. -/
def maxDepth : Nat := 80

/-- Changes the table at the end of a path by `f`, which also gets to know how the table came to
be.  Tables on the way are made by `origin` where they are missing. -/
def alter (origin : Origin) (f : Origin → Entries → Option Entries) (own : Origin) :
    List String → Entries → Option Entries
  | [], entries => f own entries
  | key :: path, entries =>
    match entries.lookup key with
    | none => do
      let inner ← alter origin f origin path []
      pure (put key (.table origin inner) entries)
    | some (.table o inner) =>
      if origin = .dotted ∧ o = .opened then none
      else do
        let inner ← alter origin f o path inner
        pure (put key (.table o inner) entries)
    | some (.tables (last :: before)) => do
      let inner ← alter origin f .opened path last
      pure (put key (.tables (inner :: before)) entries)
    | some _ => none

/-- Enters a value under a dotted key. -/
def assign (path : List String) (value : Json) (entries : Entries) : Option Entries :=
  match path.getLast? with
  | none => none
  | some key =>
    let front := path.dropLast
    if maxDepth ≤ path.length then none
    else alter .dotted (fun origin inner =>
      if (origin = .dotted) = front.isEmpty then none
      else if (inner.lookup key).isSome then none
      else some (inner ++ [(key, .value value)])) .opened front entries

mutual

/-- A value; `depth` is the number of brackets around it. -/
def value? : (fuel depth : Nat) → List Char → Option (Json × List Char)
  | 0, _, _ => none
  | fuel + 1, depth, cs =>
    match cs with
    | '"' :: _ => (string? cs).map fun (s, rest) => (.str s, rest)
    | '\'' :: _ => (string? cs).map fun (s, rest) => (.str s, rest)
    | 't' :: 'r' :: 'u' :: 'e' :: rest => some (.bool true, rest)
    | 'f' :: 'a' :: 'l' :: 's' :: 'e' :: rest => some (.bool false, rest)
    | '[' :: rest =>
      if maxDepth ≤ depth + 1 then none else items? fuel (depth + 1) rest []
    | '\x7b' :: rest =>
      if maxDepth ≤ depth + 1 then none
      else match skipBlanks rest with
        | '\x7d' :: rest => some (.obj [], rest)
        | rest => fields? fuel (depth + 1) rest []
    | _ =>
      match moment? cs with
      | some (text, rest) => some (momentValue text, rest)
      | none => number? cs

/-- Items of an array after its opening bracket or a comma. -/
def items? : (fuel depth : Nat) → List Char → List Json → Option (Json × List Char)
  | 0, _, _, _ => none
  | fuel + 1, depth, cs, acc =>
    match skipLines (cs.length + 1) cs with
    | ']' :: rest => some (.arr acc.reverse, rest)
    | cs => do
      let (item, rest) ← value? fuel depth cs
      match skipLines (rest.length + 1) rest with
      | ',' :: rest => items? fuel depth rest (item :: acc)
      | ']' :: rest => some (.arr (item :: acc).reverse, rest)
      | _ => none

/-- Fields of an inline table; all are on one line. -/
def fields? : (fuel depth : Nat) → List Char → Entries → Option (Json × List Char)
  | 0, _, _, _ => none
  | fuel + 1, depth, cs, acc => do
    let (path, rest) ← keyPath? (cs.length + 1) cs
    let rest ← expectChar? '=' rest
    let (v, rest) ← value? fuel depth (skipBlanks rest)
    let acc ← assign path v acc
    match skipBlanks rest with
    | ',' :: rest => fields? fuel depth rest acc
    | '\x7d' :: rest => some (.obj (entriesToJson acc), rest)
    | _ => none

end

/-! ### Documents -/

/-- A document that is being read: what is finished, and the table that lines now belong to. -/
structure Draft where
  root : Entries := []
  /-- The header of the current table; empty for the lines before all headers. -/
  path : List String := []
  /-- Is the current table one of several under its header? -/
  repeated : Bool := false
  current : Entries := []

namespace Draft

/-- Moves the current table to its place. -/
def close (d : Draft) : Option Entries :=
  match d.path.getLast? with
  | none => some d.current
  | some key =>
    alter .passed (fun _ entries =>
      if d.repeated then
        match entries.lookup key with
        | none => some (entries ++ [(key, .tables [d.current])])
        | some (.tables items) => some (put key (.tables (d.current :: items)) entries)
        | some _ => none
      else some (put key (.table .opened d.current) entries)) .opened d.path.dropLast d.root

/-- What a header finds under its key: the entries of a table that was only passed so far. -/
def found? (repeated : Bool) : Option Item → Option Entries
  | none => some []
  | some (.table .passed inner) => if repeated then none else some inner
  | some (.tables _) => if repeated then some [] else none
  | some _ => none

/-- The entries that a table with this header starts with. -/
def opening? (repeated : Bool) (root : Entries) (path : List String) : Option Entries :=
  match path with
  | [] => none
  | [key] => found? repeated (root.lookup key)
  | key :: rest =>
    match root.lookup key with
    | none => some []
    | some (.table _ inner) => opening? repeated inner rest
    | some (.tables (last :: _)) => opening? repeated last rest
    | some _ => none

/-- Starts the table of a header. -/
def openTable (repeated : Bool) (path : List String) (d : Draft) : Option Draft := do
  let root ← d.close
  let current ← opening? repeated root path
  pure { root, path, repeated, current }

end Draft

/-- A line that is no blank line: a header or a key with its value. -/
def line? (d : Draft) (cs : List Char) : Option (Draft × List Char) :=
  match cs with
  | '[' :: '[' :: rest => do
    let (path, rest) ← keyPath? (rest.length + 1) rest
    let rest ← expectChar? ']' rest
    let rest ← expectChar? ']' rest
    if maxDepth ≤ path.length then none else pure (← d.openTable true path, rest)
  | '[' :: rest => do
    let (path, rest) ← keyPath? (rest.length + 1) rest
    let rest ← expectChar? ']' rest
    if maxDepth ≤ path.length then none else pure (← d.openTable false path, rest)
  | _ => do
    let (path, rest) ← keyPath? (cs.length + 1) cs
    let rest ← expectChar? '=' rest
    let (v, rest) ← value? (rest.length + 1) 0 (skipBlanks rest)
    pure ({ d with current := ← assign path v d.current }, rest)

/-- All lines. -/
def document? : (fuel : Nat) → Draft → List Char → Option Draft
  | 0, _, _ => none
  | fuel + 1, d, cs =>
    match skipLines (cs.length + 1) cs with
    | [] => some d
    | cs => do
      let (d, rest) ← line? d cs
      let rest := skipComment (skipBlanks rest)
      match lineEnd? rest with
      | some rest => document? fuel d rest
      | none => if rest.isEmpty then some d else none

/-- The value that a whole text is. -/
def parse? (text : String) : Option Json := do
  let cs := match text.toList with
    | c :: rest => if c.toNat = 0xFEFF then rest else c :: rest
    | [] => []
  let d ← document? (cs.length + 1) {} cs
  pure (.obj (entriesToJson (← d.close)))

end Plumbline.Toml
