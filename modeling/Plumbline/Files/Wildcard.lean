/-
Wildcard patterns for paths.

A pattern is read into tokens, and tokens are matched against the bytes of a path: `?` stands for
one byte, and a class for one byte of the characters it lists.  Matching is by rests: a token turns
a text into the texts that may follow what it matches, and a pattern matches a text from which it
can reach the empty rest.

Braces hold alternatives, which may be nested.  An alternative that can only be empty does not
count.  A bracket that is never closed, and every bracket after it, stands for itself.
-/
import Plumbline.Text.Slice

namespace Plumbline.Wildcard

inductive Token where
  | char (c : Char)
  /-- One byte other than a slash. -/
  | anyByte
  /-- Any bytes other than slashes. -/
  | anyText
  | oneOf (negated : Bool) (ranges : List (Char × Char))
  /-- `**` and a slash at the start: any directories, or none. -/
  | leadingDirs
  /-- `**` between slashes. -/
  | innerDirs
  /-- `**` after a slash at the end: all that lies below. -/
  | allBelow
  | alternatives (branches : List (List Token))
deriving Repr, Inhabited

/-! ### Matching -/

abbrev Bytes := List UInt8

def bytesOf (cs : List Char) : Bytes := cs.flatMap String.utf8EncodeChar

def slash : UInt8 := 47

/-- The rests of a text after a part without slashes. -/
def withinName : Bytes → List Bytes
  | [] => [[]]
  | b :: bs => (b :: bs) :: (if b = slash then [] else withinName bs)

/-- The rests of a text after each slash. -/
def afterSlashes : Bytes → List Bytes
  | [] => []
  | b :: bs => if b = slash then bs :: afterSlashes bs else afterSlashes bs

/-- All rests of a text. -/
def suffixes : Bytes → List Bytes
  | [] => [[]]
  | b :: bs => (b :: bs) :: suffixes bs

/-- Bytes as numbers, and the ranges between them, that a range of characters stands for: the bytes
of its first character, those of its last, and the bytes between the two where they meet. -/
def byteRanges (low high : Char) : List (UInt8 × UInt8) :=
  let single (bs : Bytes) := bs.map fun b => (b, b)
  let front := String.utf8EncodeChar low
  if low = high then single front
  else
    let back := String.utf8EncodeChar high
    match front.getLast?, back.head? with
    | some a, some b => single front ++ (a, b) :: single back
    | _, _ => []

def inRanges (ranges : List (Char × Char)) (b : UInt8) : Bool :=
  ranges.any fun (low, high) => (byteRanges low high).any fun (x, y) => x ≤ b && b ≤ y

/-- One of several rests of the same length; rests of one text are the same then. -/
def distinct (rests : List Bytes) : List Bytes :=
  rests.foldl (fun acc bs => if acc.any (·.length == bs.length) then acc else bs :: acc) []

mutual

/-- The rests of a text after what one token matches. -/
def Token.rests : Token → Bytes → List Bytes
  | .char c, bs =>
    let own := String.utf8EncodeChar c
    if own.isPrefixOf bs then [bs.drop own.length] else []
  | .anyByte, bs =>
    match bs with
    | b :: rest => if b = slash then [] else [rest]
    | [] => []
  | .oneOf negated ranges, bs =>
    match bs with
    | b :: rest => if inRanges ranges b != negated then [rest] else []
    | [] => []
  | .anyText, bs => withinName bs
  | .leadingDirs, bs => bs :: afterSlashes bs
  | .innerDirs, bs =>
    match bs with
    | b :: rest => if b = slash then rest :: afterSlashes rest else []
    | [] => []
  | .allBelow, bs =>
    match bs with
    | b :: rest => if b = slash then suffixes rest else []
    | [] => []
  | .alternatives branches, bs => if branches.isEmpty then [bs] else branchRests branches bs

/-- The rests after what the tokens match one after the other. -/
def sequenceRests : List Token → Bytes → List Bytes
  | [], bs => [bs]
  | t :: ts, bs => (distinct (t.rests bs)).flatMap fun rest => sequenceRests ts rest

/-- The rests after what one of the branches matches. -/
def branchRests : List (List Token) → Bytes → List Bytes
  | [], _ => []
  | branch :: more, bs => sequenceRests branch bs ++ branchRests more bs

end

/-- Do the tokens match the whole text?  Directories alone match everything. -/
def matchesAll (tokens : List Token) (text : Bytes) : Bool :=
  match tokens with
  | [.leadingDirs] => true
  | _ => (sequenceRests tokens text).any (·.isEmpty)

/-! ### Reading -/

/-- What was read of a class. -/
inductive ClassEnd where
  | closed (ranges : List (Char × Char)) (rest : List Char)
  | unclosed
  /-- A range goes down. -/
  | invalid
deriving Repr, Inhabited

/-- The ranges of a class up to its closing bracket; `acc` are those so far, last first, and
`inRange` says whether a dash waits for the end of the last one. -/
def readClass (inRange : Bool) (acc : List (Char × Char)) : List Char → ClassEnd
  | [] => .unclosed
  | c :: cs =>
    match acc with
    | [] => readClass false [(c, c)] cs
    | (low, high) :: before =>
      if c = ']' then .closed ((if inRange then ('-', '-') :: acc else acc).reverse) cs
      else if inRange then if c < low then .invalid else readClass false ((low, c) :: before) cs
      else if c = '-' then readClass true ((low, high) :: before) cs
      else readClass false ((c, c) :: acc) cs

/-- A group of alternatives that is still open. -/
structure Group where
  /-- The tokens in front of the group, last first. -/
  before : List Token
  /-- The branches that are complete, last first. -/
  branches : List (List Token) := []
deriving Repr, Inhabited

/-- A pattern that is being read. -/
structure Draft where
  /-- The tokens of the current branch, last first. -/
  current : List Token := []
  /-- Groups that are still open, innermost first. -/
  groups : List Group := []
  /-- The character in front of the next one. -/
  previous : Option Char := none
  /-- Does a bracket stand for itself? -/
  plainBrackets : Bool := false
deriving Repr, Inhabited

namespace Draft

/-- Adds tokens that were written with `last` as their last character. -/
def push (d : Draft) (last : Char) (tokens : List Token) : Draft :=
  { d with current := tokens.reverse ++ d.current, previous := some last }

def openGroup (d : Draft) : Draft :=
  { d with current := [], groups := { before := d.current } :: d.groups, previous := some '\x7b' }

/-- A comma ends a branch inside a group and stands for itself elsewhere. -/
def comma (d : Draft) : Draft :=
  match d.groups with
  | [] => d.push ',' [.char ',']
  | g :: more =>
    { d with
      current := []
      groups := { g with branches := d.current.reverse :: g.branches } :: more
      previous := some ',' }

/-- Can the tokens of a branch match nothing but the empty text, because they are groups without
branches? -/
def isVoid (branch : List Token) : Bool := branch.all fun
  | .alternatives [] => true
  | _ => false

def closeGroup? (d : Draft) : Option Draft :=
  match d.groups with
  | [] => none
  | g :: more =>
    let branches := (d.current.reverse :: g.branches).reverse.filter (!isVoid ·)
    some { d with
      current := .alternatives branches :: g.before
      groups := more
      previous := some '\x7d' }

/-- Puts `**` after the separator that was read last; `atEnd` says whether nothing follows it in its
branch. -/
def replaceSeparator (d : Draft) (atEnd : Bool) (last : Char) : Draft :=
  let current := match d.current with
    | .leadingDirs :: before => .leadingDirs :: before
    | .allBelow :: before => .allBelow :: before
    | _ :: before => (if atEnd then .allBelow else .innerDirs) :: before
    | [] => []
  { d with current, previous := some last }

/-- Reads `**` that stands before `rest`; answers what is left. -/
def doubleStar (d : Draft) (rest : List Char) : Draft × List Char :=
  let plain := (d.push '*' [.anyText, .anyText], rest)
  let grouped := !d.groups.isEmpty
  if d.current.isEmpty then
    match rest with
    | [] => (d.push '*' [.leadingDirs], [])
    | '/' :: rest => (d.push '/' [.leadingDirs], rest)
    | _ => plain
  else if d.previous != some '/' &&
      !(grouped && (d.previous == some ',' || d.previous == some '\x7b')) then plain
  else
    match rest with
    | [] => (d.replaceSeparator true '*', [])
    | '/' :: rest => (d.replaceSeparator false '/', rest)
    | c :: _ =>
      if grouped && (c == ',' || c == '\x7d') then (d.replaceSeparator true '*', rest) else plain

end Draft

/-- Reads the rest of a pattern; every step takes at least one character. -/
def readFrom : (fuel : Nat) → Draft → List Char → Option Draft
  | 0, _, _ => none
  | fuel + 1, d, cs =>
    match cs with
    | [] => some d
    | '?' :: rest => readFrom fuel (d.push '?' [.anyByte]) rest
    | '*' :: '*' :: rest =>
      let (d, rest) := d.doubleStar rest
      readFrom fuel d rest
    | '*' :: rest => readFrom fuel (d.push '*' [.anyText]) rest
    | '[' :: rest =>
      if d.plainBrackets then readFrom fuel (d.push '[' [.char '[']) rest
      else
        let (negated, inside) := match rest with
          | '!' :: r | '^' :: r => (true, r)
          | r => (false, r)
        match readClass false [] inside with
        | .closed ranges rest => readFrom fuel (d.push ']' [.oneOf negated ranges]) rest
        | .unclosed => readFrom fuel ({ d with plainBrackets := true }.push '[' [.char '[']) rest
        | .invalid => none
    | '\x7b' :: rest => readFrom fuel d.openGroup rest
    | '\x7d' :: rest => d.closeGroup? >>= fun d => readFrom fuel d rest
    | ',' :: rest => readFrom fuel d.comma rest
    | '\\' :: c :: rest => readFrom fuel (d.push c [.char c]) rest
    | ['\\'] => none
    | c :: rest => readFrom fuel (d.push c [.char c]) rest

/-- The tokens of a pattern, unless it is malformed. -/
def tokens? (pattern : List Char) : Option (List Token) := do
  let d ← readFrom (pattern.length + 1) {} pattern
  if d.groups.isEmpty then some d.current.reverse else none

end Plumbline.Wildcard
