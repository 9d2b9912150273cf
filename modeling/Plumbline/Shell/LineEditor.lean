/-
Scripts that edit lines.

A script is a list of commands, each with an address that says which lines it applies to:
`s` replaces matches, `d` drops the line, `p` writes it once more, and `a`, `i` and `c` put text
after it, before it or in its place.
-/
import Plumbline.Shell.Pattern

namespace Plumbline.Shell

namespace LineEditor

inductive Address where
  | every
  | line (n : Nat)
  | last
  | matching (p : Pattern)
  | range (first second : Address)
deriving Inhabited

inductive Action where
  | substitute (p : Pattern) (replacement : List Char) (all ignoreCase print : Bool) (nth : Nat)
  | delete
  | print
  | append (text : List Char)
  | insert (text : List Char)
  | change (text : List Char)
  | quit
deriving Inhabited

structure Step where
  address : Address
  negated : Bool := false
  action : Action
deriving Inhabited

/-! ### Reading -/

/-- The text up to an unescaped delimiter; an escaped delimiter loses its backslash. -/
def part? (delimiter : Char) : List Char → Option (List Char × List Char)
  | [] => none
  | '\\' :: c :: rest =>
    (part? delimiter rest).map fun (text, after) =>
      (if c == delimiter then c :: text
       else '\\' :: c :: text, after)
  | c :: rest =>
    if c == delimiter then some ([], rest)
    else (part? delimiter rest).map fun (text, after) => (c :: text, after)

def simpleAddress? (extended : Bool) (cs : List Char) : Option (Address × List Char) :=
  match cs with
  | '$' :: rest => some (.last, rest)
  | '/' :: rest => do
    let (text, rest) ← part? '/' rest
    pure (.matching (← Pattern.parse? extended text), rest)
  | c :: _ =>
    if c.isDigit then
      let digits := cs.takeWhile Char.isDigit
      (String.ofList digits).toNat?.map fun n => (.line n, cs.drop digits.length)
    else none
  | [] => none

def address (extended : Bool) (cs : List Char) : Address × List Char :=
  match simpleAddress? extended cs with
  | none => (.every, cs)
  | some (first, ',' :: rest) =>
    match simpleAddress? extended rest with
    | some (second, rest) => (.range first second, rest)
    | none => (first, ',' :: rest)
  | some (first, rest) => (first, rest)

/-- The text of an `a`, `i` or `c` command. -/
def lineText (cs : List Char) : List Char :=
  let cs := cs.dropWhile fun c => c == ' ' || c == '\t'
  match cs with
  | '\\' :: '\n' :: rest => rest
  | '\\' :: rest => rest.dropWhile fun c => c == ' ' || c == '\n'
  | _ => cs

def isBreak (c : Char) : Bool := c == ';' || c == '\n'

/-- The command at the front, and what follows it. -/
def action? (extended : Bool) : List Char → Option (Action × List Char)
  | 's' :: d :: rest => do
    let (pattern, rest) ← part? d rest
    let (replacement, rest) ← part? d rest
    let flags := rest.takeWhile Char.isAlphanum
    let digits := flags.filter Char.isDigit
    let nth := ((String.ofList digits).toNat?).getD 1
    let p ← Pattern.parse? extended pattern
    pure (.substitute p replacement (flags.contains 'g') (flags.contains 'I' || flags.contains 'i')
      (flags.contains 'p') nth, rest.drop flags.length)
  | 'd' :: rest => some (.delete, rest)
  | 'p' :: rest => some (.print, rest)
  | 'q' :: rest => some (.quit, rest)
  | 'a' :: rest =>
    some (.append (lineText (rest.takeWhile (· != '\n'))), rest.dropWhile (· != '\n'))
  | 'i' :: rest =>
    some (.insert (lineText (rest.takeWhile (· != '\n'))), rest.dropWhile (· != '\n'))
  | 'c' :: rest =>
    some (.change (lineText (rest.takeWhile (· != '\n'))), rest.dropWhile (· != '\n'))
  | _ => none

def steps? (extended : Bool) : (fuel : Nat) → List Char → List Step → Option (List Step)
  | 0, _, _ => none
  | fuel + 1, cs, acc =>
    match cs.dropWhile fun c => isBreak c || c == ' ' || c == '\t' with
    | [] => some acc.reverse
    | cs => do
      let (address, rest) := address extended cs
      let rest := Text.trimStart rest
      let (negated, rest) := match rest with
        | '!' :: rest => (true, rest)
        | _ => (false, rest)
      let (action, rest) ← action? extended rest
      match rest.dropWhile fun c => c == ' ' || c == '\t' with
      | [] => some (⟨address, negated, action⟩ :: acc).reverse
      | c :: more =>
        if isBreak c then steps? extended fuel more (⟨address, negated, action⟩ :: acc) else none

def parse? (extended : Bool) (script : List Char) : Option (List Step) :=
  steps? extended (script.length + 1) script []

/-! ### Editing -/

/-- The text that replaces a match. -/
def replacementText (f : Pattern.Found) : List Char → List Char
  | [] => []
  | '&' :: rest => f.matched ++ replacementText f rest
  | '\\' :: c :: rest =>
    (if c.isDigit then (f.groups.lookup (c.toNat - 48)).getD (if c == '0' then f.matched else [])
     else if c == 'n' then ['\n']
     else if c == 't' then ['\t']
     else [c]) ++ replacementText f rest
  | c :: rest => c :: replacementText f rest

/-- Replaces the match number `nth` and, if `all`, those after it.  The answer says whether there
was one. -/
def substitute (p : Pattern) (ignoreCase : Bool) (replacement : List Char) (all : Bool) :
    (fuel : Nat) → (nth : Nat) → (fresh : Bool) → List Char → List Char × Bool
  | 0, _, _, line => (line, false)
  | fuel + 1, nth, fresh, line =>
    match Pattern.findFrom? p ignoreCase fresh [] line with
    | none => (line, false)
    | some f =>
      let chosen := nth ≤ 1
      let here := if chosen then replacementText f replacement else f.matched
      if chosen && !all then (f.before ++ here ++ f.after, true)
      else match f.matched, f.after with
        | [], [] => (f.before ++ here, chosen)
        | [], c :: after =>
          let (rest, hit) := substitute p ignoreCase replacement all fuel (nth - 1) false after
          (f.before ++ here ++ c :: rest, chosen || hit)
        | _ :: _, after =>
          if after.isEmpty then (f.before ++ here, chosen)
          else
            let (rest, hit) := substitute p ignoreCase replacement all fuel (nth - 1) false after
            (f.before ++ here ++ rest, chosen || hit)

/-- What the editor knows about the line it is at. -/
structure Here where
  text : List Char
  number : Nat
  isLast : Bool
deriving Inhabited

def simpleApplies (h : Here) : Address → Bool
  | .every => true
  | .line n => h.number == n
  | .last => h.isLast
  | .matching p => (p.find? false h.text).isSome
  | .range _ _ => false

/-- Does a step apply?  `inside` says whether its range is open; the second answer says whether it
stays open. -/
def applies (h : Here) (inside : Bool) : Address → Bool × Bool
  | .range first second =>
    if inside then (true, !simpleApplies h second)
    else if simpleApplies h first then
      (true, match second with
        | .line n => h.number < n
        | _ => true)
    else (false, false)
  | a => (simpleApplies h a, false)

/-- What comes of a line. -/
structure Result where
  text : List Char
  kept : Bool := true
  before : List (List Char) := []
  printed : List (List Char) := []
  after : List (List Char) := []
  stopped : Bool := false
deriving Inhabited

/-- One step on a line that earlier steps have kept. -/
def act (r : Result) : Action → Result
  | .substitute p replacement all ignoreCase print nth =>
    let (text, hit) := substitute p ignoreCase replacement all (r.text.length + 2) nth true r.text
    { r with text, printed := if hit && print then r.printed ++ [text] else r.printed }
  | .delete => { r with kept := false }
  | .print => { r with printed := r.printed ++ [r.text] }
  | .append t => { r with after := r.after ++ [t] }
  | .insert t => { r with before := r.before ++ [t] }
  | .change t => { r with kept := false, before := r.before ++ [t] }
  | .quit => { r with stopped := true }

/-- All steps on a line; `open_` says for each step whether its range is open. -/
def onLine (h : Here) : List Step → List Bool → Result → Result × List Bool
  | [], _, r => (r, [])
  | s :: steps, flags, r =>
    let inside := flags.headD false
    if !r.kept || r.stopped then
      let (r, rest) := onLine h steps flags.tail r
      (r, inside :: rest)
    else
      let (hit, stays) := applies { h with text := r.text } inside s.address
      let (r, rest) := onLine h steps flags.tail (if hit != s.negated then act r s.action else r)
      (r, stays :: rest)

/-- All lines. -/
def edit (steps : List Step) (quiet : Bool) : (number : Nat) → List Bool → List (List Char) →
    List (List Char)
  | _, _, [] => []
  | n, flags, line :: rest =>
    let (r, flags) := onLine ⟨line, n, rest.isEmpty⟩ steps flags { text := line }
    let own := r.before ++ r.printed ++ (if r.kept && !quiet then [r.text] else []) ++ r.after
    if r.stopped then own else own ++ edit steps quiet (n + 1) flags rest

/-- Edits a text; a last line without line end stays without one. -/
def run (steps : List Step) (quiet : Bool) (text : List Char) : List Char :=
  let ended := text.isEmpty || text.getLast? == some '\n'
  let parts := Text.split '\n' text
  let lines := if ended then parts.dropLast else parts
  let out := edit steps quiet 1 [] lines
  let joined := (out.map (· ++ ['\n'])).flatten
  if ended then joined else joined.dropLast

end LineEditor

end Plumbline.Shell
