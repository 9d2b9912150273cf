/-
Patterns on lines.

Patterns have literal characters, classes in brackets, a point for any character, repetition,
alternatives, groups and anchors.  Of several matches at one place the first that a search from
left to right finds with the longest repetitions counts.
-/
import Plumbline.Text.Slice

namespace Plumbline.Shell

inductive Pattern where
  | nothing
  | anyChar
  | oneOf (negated : Bool) (ranges : List (Char × Char))
  | lineStart
  | lineEnd
  | sequence (first second : Pattern)
  | alternative (first second : Pattern)
  /-- At least `least` times, and at most `most` times if that is given. -/
  | repeated (body : Pattern) (least : Nat) (most : Option Nat)
  | group (number : Nat) (body : Pattern)
deriving Repr, Inhabited

namespace Pattern

def literal (c : Char) : Pattern := oneOf false [(c, c)]

/-! ### Reading -/

/-- Named classes of characters. -/
def namedClass? : String → Option (List (Char × Char))
  | "alpha" => some [('a', 'z'), ('A', 'Z')]
  | "digit" => some [('0', '9')]
  | "alnum" => some [('a', 'z'), ('A', 'Z'), ('0', '9')]
  | "space" => some [(' ', ' '), ('\t', '\r')]
  | "blank" => some [(' ', ' '), ('\t', '\t')]
  | "upper" => some [('A', 'Z')]
  | "lower" => some [('a', 'z')]
  | "punct" => some [('!', '/'), (':', '@'), ('[', Char.ofNat 96), ('\x7b', '~')]
  | _ => none

/-- The ranges of a bracket expression up to its closing bracket. -/
def ranges? : (fuel : Nat) → List Char → List (Char × Char) →
    Option (List (Char × Char) × List Char)
  | 0, _, _ => none
  | fuel + 1, cs, acc =>
    match cs with
    | ']' :: rest => if acc.isEmpty then ranges? fuel rest [(']', ']')] else some (acc, rest)
    | '[' :: ':' :: rest => do
      let name := rest.takeWhile Char.isAlpha
      match rest.drop name.length with
      | ':' :: ']' :: after => ranges? fuel after (acc ++ (← namedClass? (String.ofList name)))
      | _ => none
    | a :: '-' :: b :: rest =>
      if b == ']' then ranges? fuel ('-' :: b :: rest) (acc ++ [(a, a)])
      else ranges? fuel rest (acc ++ [(a, b)])
    | a :: rest => ranges? fuel rest (acc ++ [(a, a)])
    | [] => none

def bracket? (cs : List Char) : Option (Pattern × List Char) :=
  match cs with
  | '^' :: rest => (ranges? (rest.length + 1) rest []).map fun (rs, rest) => (oneOf true rs, rest)
  | _ => (ranges? (cs.length + 1) cs []).map fun (rs, rest) => (oneOf false rs, rest)

/-- Marks of a pattern, spelled with or without a backslash. -/
inductive Mark where
  | opening | closing | bar | star | plus | optional
deriving Repr, DecidableEq, Inhabited

/-- Marks that need no backslash in an extended pattern and one in a basic pattern. -/
def switchedMark? : Char → Option Mark
  | '(' => some .opening
  | ')' => some .closing
  | '|' => some .bar
  | '+' => some .plus
  | '?' => some .optional
  | _ => none

/-- The mark at the front, if there is one. -/
def mark? (extended : Bool) : List Char → Option (Mark × List Char)
  | '*' :: rest => some (.star, rest)
  | '\\' :: c :: rest => if extended then none else (switchedMark? c).map (·, rest)
  | c :: rest => if extended then (switchedMark? c).map (·, rest) else none
  | [] => none

/-- Repetitions behind an atom. -/
def withRepeats (extended : Bool) : (fuel : Nat) → Pattern → List Char → Pattern × List Char
  | 0, p, cs => (p, cs)
  | fuel + 1, p, cs =>
    match mark? extended cs with
    | some (.star, rest) => withRepeats extended fuel (repeated p 0 none) rest
    | some (.plus, rest) => withRepeats extended fuel (repeated p 1 none) rest
    | some (.optional, rest) => withRepeats extended fuel (repeated p 0 (some 1)) rest
    | _ => (p, cs)

/-- Is the end of the pattern, of a group or of an alternative ahead? -/
def atEnd (extended : Bool) (cs : List Char) : Bool :=
  cs.isEmpty || (match mark? extended cs with
    | some (m, _) => m == .closing || m == .bar
    | none => false)

mutual

/-- Alternatives; `n` groups have been opened before. -/
def alternatives? (extended : Bool) : (fuel n : Nat) → List Char →
    Option (Pattern × Nat × List Char)
  | 0, _, _ => none
  | fuel + 1, n, cs => do
    let (first, n, rest) ← sequence? extended fuel n true cs
    match mark? extended rest with
    | some (.bar, rest) =>
      let (second, n, rest) ← alternatives? extended fuel n rest
      pure (alternative first second, n, rest)
    | _ => pure (first, n, rest)

/-- Atoms one after the other; `first` says whether none has been read yet. -/
def sequence? (extended : Bool) : (fuel n : Nat) → (first : Bool) → List Char →
    Option (Pattern × Nat × List Char)
  | 0, _, _, _ => none
  | fuel + 1, n, first, cs =>
    if atEnd extended cs then some (nothing, n, cs)
    else do
      let (p, n, rest) ← atom? extended fuel n first cs
      let (more, n, rest) ← sequence? extended fuel n false rest
      pure (sequence p more, n, rest)

/-- One atom with its repetitions. -/
def atom? (extended : Bool) : (fuel n : Nat) → (first : Bool) → List Char →
    Option (Pattern × Nat × List Char)
  | 0, _, _, _ => none
  | fuel + 1, n, first, cs => do
    let (p, n, rest) ← match mark? extended cs with
      | some (.opening, rest) => do
        let (body, m, rest) ← alternatives? extended fuel (n + 1) rest
        match mark? extended rest with
        | some (.closing, rest) => pure (group (n + 1) body, m, rest)
        | _ => none
      | _ =>
        match cs with
        | '[' :: rest => (bracket? rest).map fun (p, rest) => (p, n, rest)
        | '.' :: rest => some (anyChar, n, rest)
        | '\\' :: c :: rest => some (literal (if c == 't' then '\t' else c), n, rest)
        | '^' :: rest => some (if first || extended then lineStart else literal '^', n, rest)
        | '$' :: rest =>
          some (if atEnd extended rest || extended then lineEnd else literal '$', n, rest)
        | c :: rest => some (literal c, n, rest)
        | [] => none
    let (p, rest) := withRepeats extended (rest.length + 1) p rest
    pure (p, n, rest)

end

def parse? (extended : Bool) (cs : List Char) : Option Pattern := do
  let (p, _, rest) ← alternatives? extended (4 * cs.length + 4) 0 cs
  if rest.isEmpty then some p else none

/-- The pattern that matches a text literally. -/
def ofText (cs : List Char) : Pattern := cs.foldr (fun c p => sequence (literal c) p) nothing

/-! ### Matching -/

/-- A match in progress. -/
structure Progress where
  rest : List Char
  /-- Is the start of the line here? -/
  fresh : Bool
  /-- What groups matched. -/
  groups : List (Nat × List Char) := []
deriving Inhabited

def inRanges (ranges : List (Char × Char)) (c : Char) : Bool :=
  ranges.any fun (a, b) => a ≤ c && c ≤ b

/-- Takes one character of `p`. -/
def take? (p : Char → Bool) (s : Progress) : Option Progress :=
  match s.rest with
  | c :: rest => if p c then some { s with rest, fresh := false } else none
  | [] => none

/-- Matches a pattern and then what `next` wants. -/
def run (ignoreCase : Bool) : (fuel : Nat) → Pattern → Progress → (Progress → Option Progress) →
    Option Progress
  | 0, _, _, _ => none
  | fuel + 1, p, s, next =>
    match p with
    | nothing => next s
    | anyChar => (take? (fun _ => true) s).bind next
    | oneOf negated ranges =>
      (take? (fun c =>
        let hit := inRanges ranges c ||
          (ignoreCase && (inRanges ranges c.toLower || inRanges ranges c.toUpper))
        hit != negated) s).bind next
    | lineStart => if s.fresh then next s else none
    | lineEnd => if s.rest.isEmpty then next s else none
    | sequence a b => run ignoreCase fuel a s fun s => run ignoreCase fuel b s next
    | alternative a b => (run ignoreCase fuel a s next).or (run ignoreCase fuel b s next)
    | group n body =>
      run ignoreCase fuel body s fun e =>
        next { e with groups := (n, s.rest.take (s.rest.length - e.rest.length)) :: e.groups }
    | repeated body least most =>
      let more : Option Progress :=
        if most == some 0 then none
        else run ignoreCase fuel body s fun e =>
          if e.rest.length < s.rest.length then
            run ignoreCase fuel (repeated body (least - 1) (most.map (· - 1))) e next
          else none
      more.or (if least = 0 then next s else none)

def size : Pattern → Nat
  | sequence a b | alternative a b => a.size + b.size + 1
  | repeated body _ _ | group _ body => body.size + 1
  | _ => 1

/-- A match in a line: what stands before it, what it covers with its groups, what follows. -/
structure Found where
  before : List Char
  matched : List Char
  groups : List (Nat × List Char)
  after : List Char
deriving Inhabited

/-- The match that starts here; `acc` is the part of the line before, last character first. -/
def foundHere? (p : Pattern) (ignoreCase fresh : Bool) (acc cs : List Char) : Option Found :=
  (run ignoreCase ((p.size + 2) * (cs.length + 2)) p { rest := cs, fresh } some).map fun e =>
    { before := acc.reverse, matched := cs.take (cs.length - e.rest.length)
      groups := e.groups, after := e.rest }

/-- The first match from here on. -/
def findFrom? (p : Pattern) (ignoreCase fresh : Bool) (acc : List Char) : List Char → Option Found
  | [] => foundHere? p ignoreCase fresh acc []
  | c :: rest =>
    (foundHere? p ignoreCase fresh acc (c :: rest)).or
      (findFrom? p ignoreCase false (c :: acc) rest)

def find? (p : Pattern) (ignoreCase : Bool) (line : List Char) : Option Found :=
  findFrom? p ignoreCase true [] line

end Pattern

end Plumbline.Shell
