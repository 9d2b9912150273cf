/-
Reading trees from source.

A reader looks one token ahead.  The token after the current one is read when the current one is
taken, because only then is it known which layout marks may follow.  Comments and joined lines
before the next token wait in the state; the construct that takes both the token before and the
token after them takes them as parts, so a construct neither starts nor ends with one.

A failed reader reports how far it got, and a choice keeps the farther of the two reports, so
that the place of a mistake is the first token that no alternative could take.
-/
import Plumbline.Syntax.Layout
import Plumbline.Syntax.Tree

namespace Plumbline.Syntax

/-- What a reader knows between two tokens. -/
structure State where
  /-- The token ahead, its start, and the text after it. -/
  ahead : Lexeme
  /-- Comments and joined lines before the token ahead, in order. -/
  extras : List Tree := []
  /-- Where the last taken token ends. -/
  last : Position := {}
  /-- Widths of the open blocks, innermost first. -/
  widths : List Nat := []
  /-- Is a format string open in which no literal has been closed yet? -/
  inFormat : Bool := false
  /-- The farthest place at which some reader failed. -/
  reach : Position := {}
  /-- Number of characters of the whole text, which bounds every repetition. -/
  size : Nat := 0
deriving Inhabited

namespace State

def token (s : State) : Token := s.ahead.token

/-- The farther of two places. -/
def farther (a b : Position) : Position := if a.byte < b.byte then b else a

/-- Reads on from `c`: comments and joined lines first, then a token.  `fuel` bounds the number
of comments. -/
def fill (e : Expect) (s : State) : (fuel : Nat) → Cursor → List Tree → State
  | 0, _, extras => { s with extras := extras.reverse }
  | fuel + 1, c, extras =>
    let l := Lexeme.next e (s.widths.headD 0) s.inFormat c
    match l.token with
    | .comment =>
      fill e s fuel l.stop (Tree.leaf .comment (.between l.start l.stop.pos) :: extras)
    | .joined =>
      fill e s fuel l.stop (Tree.leaf .joined (.between l.start l.stop.pos) :: extras)
    | _ => { s with ahead := l, extras := extras.reverse }

/-- The state whose next token is read at `c`, where `e` may follow. -/
def resume (e : Expect) (c : Cursor) (s : State) : State :=
  fill e s (s.size + 1) c []

/-- The state before the first token of a text. -/
def start (source : String) : State :=
  let c := Cursor.ofString source
  ({ ahead := ⟨.unknown, c, c⟩, size := c.rest.length : State }).resume .statement c

end State

/-- Either a value and the state after it, or how far the reader got. -/
inductive Outcome (α : Type) where
  | done (value : α) (next : State)
  | failed (reach : Position)

/-- A reader of `α`. -/
def Parser (α : Type) : Type := State → Outcome α

namespace Parser

variable {α β : Type}

instance : Inhabited (Parser α) := ⟨fun s => .failed s.reach⟩

instance : Monad Parser where
  pure a := fun s => .done a s
  bind p f := fun s =>
    match p s with
    | .done a s' => f a s'
    | .failed r => .failed r

/-- Fails just after the last token. -/
def fail : Parser α := fun s => .failed (State.farther s.reach s.last)

/-- Fails at the token ahead. -/
def failAhead : Parser α := fun s => .failed (State.farther s.reach s.ahead.start)

/-- Tries `p`, and `q` from the same place if `p` fails. -/
def orElse (p q : Parser α) : Parser α := fun s =>
  match p s with
  | .done a s' => .done a s'
  | .failed r => q { s with reach := State.farther s.reach r }

/-- The token ahead. -/
def peek : Parser Token := fun s => .done s.token s

/-- Takes the token ahead; `e` may follow it. -/
def shift (e : Expect) : Parser Unit := fun s =>
  let s' := { s with last := s.ahead.stop.pos, extras := [] }
  .done () (s'.resume e s.ahead.stop)

/-- Takes only the first character of the token ahead; `e` may follow it. -/
def shiftFirst (e : Expect) : Parser Unit := fun s =>
  let stop := s.ahead.front.advance 1
  let s' := { s with last := stop.pos, extras := [] }
  .done () (s'.resume e stop)

/-- The token after the one ahead, which `e` may follow. -/
def peekSecond (e : Expect) : Parser Token := fun s =>
  match shift e s with
  | .done _ s' => .done s'.token s
  | .failed _ => .done .unknown s

/-- Would `p` succeed here, and the token after it satisfy `next`? -/
def wouldRead (p : Parser α) (next : Token → Bool) : Parser Bool := fun s =>
  match p s with
  | .done _ s' => .done (next s'.token) s
  | .failed _ => .done false s

/-- Does the statement end here, and nothing but blanks follow it? -/
def atTextEnd : Parser Bool := fun s =>
  .done (s.token == .newline && s.ahead.front.rest.all isBlank) s

/-- A number of steps that no reader exceeds, since every step takes a character. -/
def stepLimit : Parser Nat := fun s => .done (s.size + 1) s

/-- The comments and joined lines before the token ahead, which become parts. -/
def extras : Parser (List Tree) := fun s => .done s.extras { s with extras := [] }

/-- Takes the reserved word or operator `text`. -/
def mark (text : String) (e : Expect) : Parser (List Tree) := do
  if (← peek).isMark text then
    let before ← extras
    shift e
    pure before
  else fail

/-- Takes `text` if it is ahead. -/
def mark? (text : String) (e : Expect) : Parser (Option (List Tree)) := do
  if (← peek).isMark text then some <$> mark text e else pure none

/-- Takes the token ahead as a construct without parts. -/
def leaf (k : Kind) (e : Expect) : Parser Tree := fun s =>
  let span := Span.between s.ahead.start s.ahead.stop.pos
  match shift e s with
  | .done _ s' => .done (Tree.leaf k span) s'
  | .failed r => .failed r

/-- A part: what waits before it, then the construct itself. -/
def part (p : Parser Tree) : Parser (List Tree) := do
  let before ← extras
  let t ← p
  pure (before ++ [t])

/-- A part that plays `f` in the construct around it. -/
def partAs (f : Field) (p : Parser Tree) : Parser (List Tree) := part (Tree.withField f <$> p)

/-- A construct that starts at the token ahead and ends with the last token `parts` takes; the
parts also tell which construct it is. -/
def build (parts : Parser (Kind × List Tree)) : Parser Tree := fun s =>
  match parts s with
  | .done (k, cs) s' => .done (.node k none (.between s.ahead.start s'.last) cs) s'
  | .failed r => .failed r

/-- A construct of a known kind. -/
def node (k : Kind) (parts : Parser (List Tree)) : Parser Tree :=
  build do pure (k, ← parts)

/-- A construct that starts where `head` does; the parts also tell which construct it is. -/
def buildFrom (head : Span) (parts : Parser (Kind × List Tree)) : Parser Tree := fun s =>
  match parts s with
  | .done (k, cs) s' => .done (.node k none ⟨head.start, s'.last.byte, head.line, head.column⟩ cs) s'
  | .failed r => .failed r

/-- A construct whose first part `first` has been read already. -/
def extend (k : Kind) (first : Tree) (parts : Parser (List Tree)) : Parser Tree :=
  buildFrom first.span do pure (k, first :: (← parts))

/-- Repeats `step` from `a` as long as it answers `some`; every step takes at least one
character, so `fuel` characters are enough. -/
def loopFor (step : α → Parser (Option α)) : (fuel : Nat) → α → Parser α
  | 0, a => pure a
  | fuel + 1, a => do
    match ← step a with
    | some b => loopFor step fuel b
    | none => pure a

/-- Repeats `step` until it answers `none`. -/
def loop (step : α → Parser (Option α)) (a : α) : Parser α := fun s =>
  loopFor step (s.size + 2) a s

/-- Further items after a first one, each after a comma. -/
def furtherItems (item : Parser Tree) : Parser (List Tree) :=
  loop (fun acc => do
    match ← mark? "," .operand with
    | none => pure none
    | some comma => pure (some (acc ++ comma ++ (← part item)))) []

/-- Further items after a first one, each after a comma, and perhaps a comma at the end, which `e`
may follow.  `more` tells whether the token after a comma starts an item. -/
def moreItems (e : Expect) (more : Token → Bool) (item : Parser Tree) : Parser (List Tree) := do
  let (items, _) ← loop (fun (acc, goesOn) => do
    if !goesOn then pure none
    else match ← mark? "," e with
      | none => pure none
      | some comma =>
        if more (← peek) then pure (some (acc ++ comma ++ (← part item), true))
        else pure (some (acc ++ comma, false))) (([] : List Tree), true)
  pure items

/-- Items separated by commas up to the closing mark `closer`, which `e` may follow.  The
opening mark and the first item have been read. -/
def itemsUntil (closer : String) (item : Parser Tree) (e : Expect) : Parser (List Tree) := do
  let items ← moreItems .close (fun t => !t.isMark closer) item
  let final ← mark closer e
  pure (items ++ final)

end Parser

end Plumbline.Syntax
