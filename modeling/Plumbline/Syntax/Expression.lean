/-
Expressions.

The grammar is written as readers that get the readers of nested constructs as a value (`Knot`),
so each construct is a plain definition of its own; `Plumbline.Syntax.Grammar` ties the knot.

Every reader is told where its construct stands (`Place`), because that decides what may follow
its last token: on a line of its own a line end, inside brackets a closing bracket, in the
header of a compound statement neither.
-/
import Plumbline.Syntax.Parser
import Plumbline.Syntax.Splat
import Plumbline.Syntax.Text

namespace Plumbline.Syntax

/-- Where an expression stands. -/
inductive Place where
  | line | header | inner
deriving Repr, DecidableEq, Inhabited

/-- What may follow a complete expression. -/
def Place.after : Place → Expect
  | line => .lineEnd
  | header => .operand
  | inner => .close

/-- How loosely the operators of an expression may bind. -/
inductive Level where
  /-- Anything, conditional expressions included. -/
  | conditional
  /-- No conditional expression, also not as the body of an anonymous function. -/
  | iterated
  /-- No conditional expression. -/
  | renamed
  | disjunction
  | conjunction
  | negation
deriving Repr, DecidableEq, Inhabited

/-- Does level `l` admit operators of level `m`? -/
def Level.admits (l m : Level) : Bool := l.ctorIdx ≤ m.ctorIdx

/-- The readers of nested constructs. -/
structure Knot where
  /-- An expression whose operators bind at least as tightly as the level says. -/
  expression : Level → Place → Parser Tree
  /-- A name, literal or bracketed construct with the attributes, calls and items after it. -/
  atom : Place → Parser Tree
  /-- Arithmetic whose operators have at least the given strength. -/
  arithmetic : Nat → Place → Parser Tree
  /-- A type; the flag says whether it may carry a bound after a colon. -/
  type : Bool → Place → Parser Tree
  /-- What stands between the braces of a format string, from the opening brace on, and the
  text after the closing brace. -/
  embedded : Cursor → Parser (Tree × Cursor)
  /-- What stands to the right of an assignment sign. -/
  assigned : Parser Tree
  /-- The simple statements of one line, or one compound statement. -/
  statement : Parser (List Tree)
  /-- One pattern of a `case`. -/
  casePattern : Place → Parser Tree

namespace Grammar

open Plumbline.Syntax.Parser

/-! ### Patterns

A target of an assignment or a loop looks like an expression until what follows it is seen, so it
is read as one and turned into a pattern.
-/

mutual

/-- The pattern that a tree stands for as a target, if it can be one. -/
def toPattern? : Tree → Option Tree
  | .node k f s cs =>
    match k with
    | .identifier | .attribute | .subscript => some (.node k f s cs)
    | .listSplat =>
      if cs.any fun c => c.kind = .identifier ∨ c.kind = .attribute ∨ c.kind = .subscript then
        some (.node .listSplatPattern f s cs)
      else none
    | .tuple | .splatTuple | .parenthesized | .parenthesizedSplat =>
      (toPatterns? cs).map (.node .tuplePattern f s)
    | .list => (toPatterns? cs).map (.node .listPattern f s)
    | .comment | .joined => some (.node k f s cs)
    | _ => none

def toPatterns? : List Tree → Option (List Tree)
  | [] => some []
  | t :: ts => do
    let p ← toPattern? t
    let ps ← toPatterns? ts
    pure (p :: ps)

end

/-- Reads a tree and turns it into a pattern. -/
def asPattern (p : Parser Tree) : Parser Tree := do
  match toPattern? (← p) with
  | some t => pure t
  | none => fail

/-! ### Leaves -/

/-- A name that can be given to anything. -/
def identifier (e : Expect) : Parser Tree := do
  if (← peek).isIdentifier then leaf .identifier e else fail

/-- A name of a variable. -/
def variableName (e : Expect) : Parser Tree := do
  if (← peek).isVariable then leaf .identifier e else fail

/-- Is a token one of the marks in `texts`? -/
def isOneOf (t : Token) (texts : List String) : Bool := texts.any t.isMark

section

variable (k : Knot)

/-- An expression of any kind inside brackets. -/
def inner : Parser Tree := k.expression .conditional .inner

/-! ### Strings -/

/-- Reads the pieces of a literal; `trees` are the embedded expressions so far, last first.
Answers them and the text after the closing marks. -/
def stringPieces (q : Quote) : (fuel : Nat) → Cursor → List Tree → Parser (List Tree × Cursor)
  | 0, _, _ => fail
  | fuel + 1, c, trees => do
    match q.piece c.rest with
    | .plain size => stringPieces q fuel (c.advance size) trees
    | .close size => pure (trees.reverse, c.advance size)
    | .embed blanks =>
      let (tree, rest) ← k.embedded (c.advance blanks)
      stringPieces q fuel rest (tree :: trees)
    | .broken => fail

/-- One string literal, which `e` may follow. -/
def string (e : Expect) : Parser Tree := fun s =>
  match s.token with
  | .quote q =>
    let c := s.ahead.stop
    match stringPieces k q (s.size + 1) c []
        { s with last := c.pos, inFormat := q.format } with
    | .done (trees, rest) s' =>
      let tree := Tree.node .string none (.between s.ahead.start rest.pos) trees
      let closed :=
        { s with last := rest.pos, reach := s'.reach, extras := [], inFormat := false }
      .done tree (closed.resume e rest)
    | .failed r => .failed r
  | _ => .failed (State.farther s.reach s.last)

/-- One literal, or several side by side. -/
def strings (e : Expect) : Parser Tree := do
  let first ← string k e
  match ← peek with
  | .quote _ =>
    extend .concatenatedString first <| loop (fun acc => do
      match ← peek with
      | .quote _ =>
        let next ← part (string k e)
        pure (some (acc ++ next))
      | _ => pure none) []
  | _ => pure first

/-- A format specifier: text up to the closing brace, with embedded expressions in it.  Line
breaks are passed over. -/
def formatPieces : (fuel : Nat) → Cursor → List Tree → Parser (List Tree × Cursor)
  | 0, _, _ => fail
  | fuel + 1, c, trees => do
    match c.rest with
    | '\x7d' :: _ => pure (trees.reverse, c)
    | '\x7b' :: _ =>
      let (tree, rest) ← k.embedded c
      formatPieces fuel rest (tree :: trees)
    | [] => fail
    | d :: _ =>
      if 0 < Token.joinLength c.rest then
        formatPieces fuel (c.advance (Token.joinLength c.rest)) trees
      else if d = nul then fail
      else formatPieces fuel (c.advance 1) trees

/-! ### Lists of expressions -/

/-- A `yield`, bare, with values or delegating. -/
def yieldExpression (p : Place) : Parser Tree := node .yield do
  let head ← mark "yield" p.after
  let t ← peek
  if t.isMark "from" then
    let from' ← mark "from" .operand
    let value ← part (k.expression .conditional p)
    pure (head ++ from' ++ value)
  else if t.startsExpression then
    let first ← part (k.expression .conditional p)
    let more ← moreItems p.after Token.startsExpression (k.expression .conditional p)
    pure (head ++ first ++ more)
  else pure head

/-- Expressions after a first one, if commas follow it; they are one construct then. -/
def expressionsAfter (p : Place) (first : Tree) : Parser Tree := do
  if (← peek).isMark "," then
    extend .expressionList first
      (moreItems p.after Token.startsExpression (k.expression .conditional p))
  else pure first

/-- One expression, or several as one construct. -/
def expressions (p : Place) : Parser Tree := do
  expressionsAfter k p (← k.expression .conditional p)

/-! ### Targets of loops -/

/-- Can a star bind to a tree? -/
def isPlace (t : Tree) : Bool := t.kind.isPlace

/-- A name, an attribute or an item. -/
def place (p : Place) : Parser Tree := do
  let t ← k.atom p
  if isPlace t then pure t else fail

/-- A target without operators: a name, an attribute, an item or a bracketed list of targets. -/
def target (p : Place) : Parser Tree := do
  if (← peek).isStar then asPattern <| node .listSplat do
    let before ← extras
    shiftFirst .operand
    pure (before ++ (← part (place k p)))
  else asPattern (k.atom p)

/-- Targets after a first one, if commas follow it. -/
def targets (p : Place) : Parser Tree := do
  let first ← target k p
  if (← peek).isMark "," then
    extend .patternList first (moreItems p.after Token.startsExpression (target k p))
  else pure first

/-! ### Parameters and anonymous functions -/

/-- A starred parameter, perhaps annotated.  What `e` says may follow the star. -/
def starredParameter (typed : Bool) (text : String) (kind : Kind) (e : Expect) (p : Place) :
    Parser Tree := do
  let splat ← node kind do
    let star ← mark text e
    pure (star ++ (← part (place k p)))
  if typed ∧ (← peek).isMark ":" then
    extend .typedParameter splat do
      pure ((← mark ":" .operand) ++ (← partAs .type (k.type true p)))
  else pure splat

/-- A default value of a parameter. -/
def defaultValue (p : Place) : Parser (List Tree) := do
  pure ((← mark "=" .operand) ++ (← partAs .value (k.expression .conditional p)))

/-- One parameter; `typed` says whether it may carry an annotation. -/
def parameter (typed : Bool) (p : Place) : Parser Tree := do
  let t ← peek
  if t.isMark "*" then
    orElse (starredParameter k typed "*" .listSplatPattern p.after p)
      (leaf .keywordSeparator p.after)
  else if t.isMark "**" then
    starredParameter k typed "**" .dictionarySplatPattern .operand p
  else if t.isMark "/" then leaf .positionalSeparator p.after
  else
    let first ← if t.isMark "(" then asPattern (k.atom p) else identifier p.after
    if !(first.kind == .identifier || first.kind == .tuplePattern) then fail
    let next ← peek
    if next.isMark "=" then extend .defaultParameter (first.withField .name) (defaultValue k p)
    else if typed ∧ next.isMark ":" ∧ first.kind = .identifier then
      buildFrom first.span do
        let colon ← mark ":" .operand
        let hint ← partAs .type (k.type true p)
        if (← peek).isMark "=" then
          let value ← defaultValue k p
          pure (.typedDefaultParameter,
            first.withField .name :: colon ++ hint ++ value)
        else pure (.typedParameter, first :: colon ++ hint)
    else pure first

/-- An anonymous function whose body has operators of the given level. -/
def lambda (level : Level) (p : Place) : Parser Tree := node .lambda do
  let head ← mark "lambda" .operand
  let parameters ←
    if (← peek).isMark ":" then pure []
    else partAs .parameters <| node .lambdaParameters do
      let first ← part (parameter k false .header)
      let more ← moreItems .operand (fun t => !t.isMark ":") (parameter k false .header)
      pure (first ++ more)
  let colon ← mark ":" .operand
  pure (head ++ parameters ++ colon ++ (← partAs .body (k.expression level p)))

/-! ### Comprehensions -/

/-- A value that a comprehension runs over. -/
def iterated : Parser Tree := k.expression .iterated .inner

/-- `for targets in values` inside brackets. -/
def forInClause : Parser Tree := node .forInClause do
  let async := (← mark? "async" .operand).getD []
  let head ← mark "for" .operand
  let left ← partAs .left (targets k .header)
  let within ← mark "in" .operand
  let right ← partAs .right (iterated k)
  let more ← moreItems .close (fun t => t.startsExpression && !t.isMark "async") (iterated k)
  pure (async ++ head ++ left ++ within ++ right ++ more)

/-- `if condition` inside brackets or after a case pattern. -/
def ifClause (level : Level) (p : Place) : Parser Tree := node .ifClause do
  pure ((← mark "if" .operand) ++ (← part (k.expression level p)))

/-- Does a token start the clauses that make a display a comprehension? -/
def startsClauses (t : Token) : Bool := isOneOf t ["for", "async"]

/-- The clauses that make a display a comprehension. -/
def clauses : Parser (List Tree) := do
  let first ← part (forInClause k)
  loop (fun acc => do
    let t ← peek
    if startsClauses t then pure (some (acc ++ (← part (forInClause k))))
    else if t.isMark "if" then pure (some (acc ++ (← part (ifClause k .renamed .inner))))
    else pure none) first

/-! ### Items of brackets -/

/-- A star and what it unpacks as a whole. -/
def unpacking : Parser Tree := node .listSplat do
  let before ← extras
  if !(← peek).isStar then fail
  shiftFirst .operand
  pure (before ++ (← part (inner k)))

/-- An expression as an item of brackets; `groupKind` is what a group becomes that can only be read
as a whole.  Such a group is no value, so no operator applies to it. -/
def item (groupKind : Kind) : Parser Tree := do
  let t ← inner k
  if t.leads .splatTuple then
    match t.wholeGroup? groupKind with
    | some g => pure g
    | none => fail
  else pure t

/-- An item of a display: an expression, an unpacked one or a `yield`. -/
def element : Parser Tree := do
  let t ← peek
  if t.isMark "yield" then yieldExpression k .inner
  else if t.isStar then unpacking k
  else item k .parenthesizedSplat

/-- The first item of a display.  Before a comma its star unpacks as much as it can, before any
other token as little as it can. -/
def firstElement : Parser Tree := do
  let t ← element k
  if (← peek).isMark "," then pure ((t.wholeGroup? .parenthesizedSplat).getD t)
  else pure (t.tightened?.getD t)

/-! ### Brackets -/

/-- Can a tree be the value that a comprehension gives?  A star that unpacks as much as it can
is no value. -/
def isValue (t : Tree) : Bool :=
  !(t.kind == .yield || t.kind == .keywordArgument || t.kind == .dictionarySplat ||
    t.kind == .parenthesizedSplat || (t.kind == .listSplat && t.tightened?.isNone))

/-- After the first item of a display: a comprehension, more items, or just the closing mark.
`single` is the construct with one item and no comma. -/
def display (closer : String) (comprehension many single : Kind)
    (item : Parser Tree) (e : Expect) (before : List Tree) : Parser (Kind × List Tree) := do
  let t ← peek
  if startsClauses t ∧ before.all isValue then
    let loops ← clauses k
    pure (comprehension, before ++ loops ++ (← mark closer e))
  else if t.isMark "," then pure (many, before ++ (← itemsUntil closer item e))
  else pure (single, before ++ (← mark closer e))

/-- What parentheses enclose: a tuple, a generator or a single expression.  Where the text ends
after it, a single starred item is a tuple. -/
def parentheses (p : Place) : Parser Tree := do
  let t ← build do
    let head ← mark "(" .close
    if (← peek).isMark ")" then pure (.tuple, head ++ (← mark ")" p.after))
    else
      let first ← part (firstElement k)
      let single := if first.all isValue || first.any (·.kind == .yield) then Kind.parenthesized
        else .splatTuple
      display k ")" .generator .tuple single (element k) p.after (head ++ first)
  if ← atTextEnd then pure (t.asTuple?.getD t) else pure t

/-- A list or a list comprehension. -/
def list (p : Place) : Parser Tree := build do
  let head ← mark "[" .close
  if (← peek).isMark "]" then pure (.list, head ++ (← mark "]" p.after))
  else
    let first ← part (firstElement k)
    display k "]" .listComprehension .list .list (element k) p.after (head ++ first)

/-- `key: value` once the key has been read. -/
def pairAfter (key : Tree) : Parser Tree :=
  extend .pair key do pure ((← mark ":" .operand) ++ (← partAs .value (inner k)))

/-- An item of a dictionary. -/
def dictionaryItem : Parser Tree := do
  if (← peek).isMark "**" then node .dictionarySplat do
    pure ((← mark "**" .operand) ++ (← part (inner k)))
  else pairAfter k (← k.expression .conditional .header)

/-- A dictionary, a set or a comprehension of either. -/
def braced (p : Place) : Parser Tree := build do
  let head ← mark "\x7b" .close
  let t ← peek
  if t.isMark "\x7d" then pure (.dictionary, head ++ (← mark "\x7d" p.after))
  else if t.isMark "," then
    let comma ← mark "," .close
    pure (.dictionary, head ++ comma ++ (← mark "\x7d" p.after))
  else if t.isMark "**" then
    let first ← part (dictionaryItem k)
    pure (.dictionary, head ++ first ++ (← itemsUntil "\x7d" (dictionaryItem k) p.after))
  else
    let before ← extras
    let first ← firstElement k
    if (← peek).isMark ":" ∧ isValue first then
      let pair ← pairAfter k first
      display k "\x7d" .dictionaryComprehension .dictionary .dictionary (dictionaryItem k)
        p.after (head ++ before ++ [pair])
    else
      display k "\x7d" .setComprehension .set .set (element k) p.after
        (head ++ before ++ [first])

/-! ### Calls, items and attributes -/

/-- An argument of a call. -/
def argument : Parser Tree := do
  let t ← peek
  if t.isMark "*" then unpacking k
  else if t.isMark "**" then node .dictionarySplat do
    pure ((← mark "**" .operand) ++ (← part (inner k)))
  else
    let value ← item k .parenthesized
    if value.kind = .identifier ∧ (← peek).isMark "=" then
      extend .keywordArgument (value.withField .name) do
        pure ((← mark "=" .operand) ++ (← partAs .value (inner k)))
    else pure value

/-- The arguments of a call, or a generator in their place. -/
def arguments (p : Place) : Parser Tree := build do
  let head ← mark "(" .close
  let t ← peek
  if t.isMark ")" then pure (.argumentList, head ++ (← mark ")" p.after))
  else if t.isMark "," then
    let comma ← mark "," .close
    pure (.argumentList, head ++ comma ++ (← mark ")" p.after))
  else
    let before ← extras
    let first ← argument k
    let first := if startsClauses (← peek) then first.tightened?.getD first else first
    display k ")" .generator .argumentList .argumentList (argument k) p.after
      (head ++ before ++ [first])

/-- The arguments of a call.  Where the text ends after them, a group that comes first is read as
a whole. -/
def callArguments (p : Place) : Parser Tree := do
  let t ← arguments k p
  if ← atTextEnd then pure (t.withFirstGroupWhole) else pure t

/-- An optional expression between the colons of a slice. -/
def sliceBound : Parser (List Tree) := do
  if (← peek).startsExpression then part (inner k) else pure []

/-- The rest of a slice from its first colon. -/
def sliceTail : Parser (List Tree) := do
  let colon ← mark ":" .close
  let stop ← sliceBound k
  match ← mark? ":" .close with
  | some second => pure (colon ++ stop ++ second ++ (← sliceBound k))
  | none => pure (colon ++ stop)

/-- An index or a slice. -/
def subscriptItem : Parser Tree := do
  if (← peek).isMark ":" then node .slice (sliceTail k)
  else
    let first ← inner k
    if (← peek).isMark ":" then extend .slice first (sliceTail k) else pure first

/-- One attribute, call or item after `t`, if one is ahead. -/
def trailer? (p : Place) (t : Tree) : Parser (Option Tree) := do
  let ahead ← peek
  if ahead.isMark "." then
    some <$> extend .attribute (t.withField .object) do
      pure ((← mark "." .operand) ++ (← partAs .attribute (identifier p.after)))
  else if ahead.isMark "(" then
    some <$> extend .call (t.withField .function) (partAs .arguments (callArguments k p))
  else if ahead.isMark "[" then
    some <$> extend .subscript (t.withField .value) do
      let head ← mark "[" .operand
      let item ← part (subscriptItem k)
      pure (head ++ item ++ (← itemsUntil "]" (subscriptItem k) p.after))
  else pure none

/-- Attributes, calls and items after an atom. -/
def trailers (p : Place) (first : Tree) : Parser Tree := loop (trailer? k p) first

/-- Can a token start the operand of an `await`? -/
def startsOperand (t : Token) : Bool := t.startsExpression && !isOneOf t ["not", "lambda", "**"]

/-- A name, a literal or a bracketed construct, by itself. -/
def bareAtom (p : Place) : Parser Tree := do
  match ← peek with
  | .name text =>
    if text = "True" then leaf .trueLiteral p.after
    else if text = "False" then leaf .falseLiteral p.after
    else if text = "None" then leaf .noneLiteral p.after
    else if text = "await" then
      if startsOperand (← peekSecond p.after) then fail else variableName p.after
    else variableName p.after
  | .integer => leaf .integer p.after
  | .float => leaf .float p.after
  | .quote _ => strings k p.after
  | .op text =>
    if text = "(" then parentheses k p
    else if text = "[" then list k p
    else if text = "\x7b" then braced k p
    else if text = "..." then leaf .ellipsis p.after
    else fail
  | _ => fail

/-- A star and the least that it can bind to: a name, or the first attribute or item after another
atom or after another star. -/
def starred (p : Place) : (depth : Nat) → Parser Tree
  | 0 => fail
  | depth + 1 => node .listSplat do
    let before ← extras
    if !(← peek).isStar then fail
    shiftFirst .operand
    let target ← part do
      let first ← if (← peek).isStar then starred p depth else bareAtom k p
      let t ← loop (fun t => if isPlace t then pure none else trailer? k p t) first
      if isPlace t then pure t else fail
    pure (before ++ target)

/-- An atom or a star with the attributes, calls and items after it. -/
def atom (p : Place) : Parser Tree := do
  let first ← if (← peek).isStar then starred k p (← stepLimit) else bareAtom k p
  trailers k p first

/-! ### Operators -/

/-- Strength of a binary operator. -/
def strength? : Token → Option Nat
  | .op text =>
    if text = "|" then some 14
    else if text = "&" then some 15
    else if text = "^" then some 16
    else if ["<<", ">>"].contains text then some 17
    else if ["+", "-"].contains text then some 18
    else if ["*", "@", "/", "%", "//"].contains text then some 19
    else if text = "**" then some 21
    else none
  | _ => none

/-- Strength of the operator that groups to the right. -/
def powerStrength : Nat := 21

/-- A star that binds to the least it can, and what applies to the unpacked value.  Where the text
ends after it, the star binds to all if that is an attribute or an item. -/
def starOperand (p : Place) : Parser Tree := do
  let t ← k.atom p
  let ends ← atTextEnd
  if isPlace t ∧ ends then pure (t.loosened?.getD t) else pure t

/-- An operand: an atom, perhaps with a sign, awaited or unpacked. -/
def operand (p : Place) : Parser Tree := do
  let t ← peek
  if isOneOf t ["+", "-", "~"] then node .unary do
    let before ← extras
    shift .operand
    pure (before ++ (← partAs .argument (k.arithmetic powerStrength p)))
  else if t.isStar then starOperand k p
  else if t.isMark "await" && startsOperand (← peekSecond p.after) then
    let word ← leaf .keyword p.after
    extend .await word (part (k.arithmetic powerStrength p))
  else k.atom p

/-- Arithmetic with operators of at least the strength `least`. -/
def arithmetic (least : Nat) (p : Place) : Parser Tree := do
  let first ← operand k p
  loop (fun left => do
    let t ← peek
    match strength? t with
    | some n =>
      if least ≤ n then
        some <$> extend .binary left do
          let before ← extras
          shift .operand
          let right ← part (k.arithmetic (if n = powerStrength then n else n + 1) p)
          pure (before ++ right)
      else pure none
    | none => pure none) first

/-- A comparison operator, if one is ahead. -/
def comparisonMark : Parser (Option (List Tree)) := do
  let t ← peek
  if isOneOf t ["<", "<=", "==", "!=", ">=", ">", "<>", "in"] then
    let before ← extras
    shift .operand
    pure (some before)
  else if t.isMark "is" then
    let head ← mark "is" .operand
    pure (some (head ++ (← mark? "not" .operand).getD []))
  else if t.isMark "not" then
    let head ← mark "not" .operand
    pure (some (head ++ (← mark "in" .operand)))
  else pure none

/-- Arithmetic, or a chain of comparisons between such. -/
def comparison (p : Place) : Parser Tree := do
  let first ← k.arithmetic 0 p
  if isOneOf (← peek) ["<", "<=", "==", "!=", ">=", ">", "<>", "in", "is", "not"] then
    extend .comparison first <| loop (fun acc => do
      match ← comparisonMark with
      | some m => pure (some (acc ++ m ++ (← part (k.arithmetic 0 p))))
      | none => pure none) []
  else pure first

/-- An operand of `and`, `or` and the conditional: a comparison, a negation, an anonymous
function or an assignment expression. -/
def clause (level : Level) (p : Place) : Parser Tree := do
  let t ← peek
  if t.isMark "lambda" then lambda k (if level = .iterated then .iterated else .conditional) p
  else if t.isMark "not" then node .notOperator do
    pure ((← mark "not" .operand) ++ (← partAs .argument (k.expression .negation p)))
  else
    let first ← comparison k p
    if first.kind = .identifier ∧ (← peek).isMark ":=" then
      extend .named (first.withField .name) do
        pure ((← mark ":=" .operand) ++ (← partAs .value (k.expression .renamed p)))
    else pure first

/-- An expression whose operators bind at least as tightly as `level`. -/
def expression (level : Level) (p : Place) : Parser Tree := do
  let first ← clause k level p
  loop (fun left => do
    let t ← peek
    if t.isMark "and" ∧ level.admits .conjunction then
      some <$> extend .booleanOperator left do
        pure ((← mark "and" .operand) ++ (← part (k.expression .negation p)))
    else if t.isMark "or" ∧ level.admits .disjunction then
      some <$> extend .booleanOperator left do
        pure ((← mark "or" .operand) ++ (← part (k.expression .conjunction p)))
    else if t.isMark "as" ∧ level.admits .renamed then
      some <$> extend .asPattern left do
        let word ← mark "as" .operand
        let target ← partAs .asName <| node .asPatternTarget (part (k.expression .disjunction p))
        pure (word ++ target)
    else if t.isMark "if" ∧ level.admits .conditional then
      some <$> extend .conditional left do
        let test ← mark "if" .operand
        let condition ← part (k.expression .conditional .header)
        let otherwise ← mark "else" .operand
        pure (test ++ condition ++ otherwise ++ (← part (k.expression .conditional p)))
    else pure none) first

/-! ### Embedded expressions -/

/-- What stands between the braces of a format string; `c` is at the opening brace. -/
def embedded (c : Cursor) : Parser (Tree × Cursor) := fun s =>
  let opened := c.advance 1
  let body : Parser (List Tree) := do
    let value ←
      if (← peek).isMark "yield" then part (yieldExpression k .inner)
      else part (expressions k .inner)
    let equals := (← mark? "=" .close).getD []
    let conversion ←
      if (← peek) = .conversion then do
        let before ← extras
        shift .close
        pure before
      else pure []
    pure (value ++ equals ++ conversion)
  let inside := { s with last := opened.pos, extras := [] }.resume .operand opened
  match body inside with
  | .failed r => .failed r
  | .done parts s' =>
    let finish (trees : List Tree) (rest : Cursor) : Outcome (Tree × Cursor) :=
      let close := rest.advance 1
      .done (.node .interpolation none (.between c.pos close.pos) (parts ++ trees), close)
        { s with reach := s'.reach, inFormat := s'.inFormat }
    if s'.token.isMark "\x7d" then finish s'.extras s'.ahead.front
    else if s'.token.isMark ":" ∨ s'.token.isMark ":=" then
      let colon := s'.ahead.front.advance 1
      match formatPieces k (s.size + 1) colon []
          { s with reach := s'.reach, inFormat := s'.inFormat } with
      | .done (trees, rest) s'' =>
        match finish trees rest with
        | .done v _ => .done v s''
        | .failed r => .failed r
      | .failed r => .failed r
    else .failed (State.farther s'.reach s'.last)

/-! ### Types -/

/-- Parameters of a generic definition or type. -/
def typeParameters (p : Place) : Parser Tree := node .typeParameter do
  let head ← mark "[" .operand
  let first ← part (k.type true .inner)
  pure (head ++ first ++ (← itemsUntil "]" (k.type true .inner) p.after))

/-- Can a token follow a complete type? -/
def followsType (t : Token) : Bool :=
  t == .newline || isOneOf t ["|", ":", ".", "=", ",", "]", ")", ";"]

/-- An unpacked type parameter: stars and a name. -/
def splatType (p : Place) : Parser (List Tree) := do
  let before ← extras
  shift .operand
  pure (before ++ (← part (identifier p.after)))

/-- Is a token a name that a bracket makes a generic type? -/
def isGenericName (t : Token) : Bool := t.isIdentifier && !isOneOf t ["print", "exec", "match"]

/-- A type by itself: an unpacked parameter, a generic name or an expression.  A name before a
bracket is always a generic name. -/
def bareType (p : Place) : Parser (List Tree) := do
  let t ← peek
  let second ← peekSecond (if t.isStar then .operand else p.after)
  if t.isMark "**" then splatType p
  else if t.isMark "*" && !isOneOf second contextualWords &&
      (← wouldRead (splatType p) followsType) then splatType p
  else if isGenericName t && second.isMark "[" then
    let name ← part (identifier p.after)
    pure (name ++ (← part (typeParameters k p)))
  else part (k.expression .conditional p)

/-- A type, perhaps with alternatives, members or a bound. -/
def type (bound : Bool) (p : Place) : Parser Tree := node .type do
  let first ← bareType k p
  loop (fun acc => do
    let t ← peek
    if t.isMark "|" then
      pure (some (acc ++ (← mark "|" .operand) ++ (← part (k.type bound p))))
    else if bound ∧ t.isMark ":" then
      pure (some (acc ++ (← mark ":" .operand) ++ (← part (k.type bound p))))
    else if t.isMark "." then
      pure (some (acc ++ (← mark "." .operand) ++ (← part (identifier p.after))))
    else pure none) first

end

end Grammar

end Plumbline.Syntax
