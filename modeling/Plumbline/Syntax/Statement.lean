/-
Statements.

A line holds simple statements separated by semicolons; a compound statement holds blocks.  A
block is either the rest of its header's line or the indented lines below it, and may be empty.
Comments before the first statement of an indented block are parts of the statement around the
block, comments before its end are parts of the block.
-/
import Plumbline.Syntax.Expression

namespace Plumbline.Syntax

namespace Grammar

open Plumbline.Syntax.Parser

/-! ### Layout marks -/

/-- Takes the end of a line. -/
def lineEnd (e : Expect) : Parser (List Tree) := do
  if (← peek) = .newline then
    let before ← extras
    shift e
    pure before
  else fail

/-- Opens a block of the given width. -/
def openBlock (width : Nat) : Parser Unit := fun s =>
  shift .statement { s with widths := width :: s.widths }

/-- Closes the innermost block. -/
def closeBlock : Parser (List Tree) := do
  if (← peek) = .dedent then
    let before ← extras
    (fun s => shift .statement { s with widths := s.widths.tail } : Parser Unit)
    pure before
  else fail

/-- Does a token end a simple statement? -/
def endsSimple (t : Token) : Bool := t == .newline || t.isMark ";"

/-- A simple statement that must be followed by its end. -/
def ended (p : Parser Tree) : Parser Tree := do
  let t ← p
  if endsSimple (← peek) then pure t else fail

section

variable (k : Knot)

/-- An expression of any kind on a line of its own. -/
def lineExpression : Parser Tree := k.expression .conditional .line

/-- An expression of any kind in a header. -/
def headerExpression : Parser Tree := k.expression .conditional .header

/-! ### Assignments -/

/-- Operators that combine with an assignment. -/
def augmentedMarks : List String :=
  ["+=", "-=", "*=", "/=", "@=", "//=", "%=", "**=", ">>=", "<<=", "&=", "^=", "|="]

/-- Does a token make what stands before it a target? -/
def startsAssignment (t : Token) : Bool := isOneOf t ("=" :: ":" :: augmentedMarks)

/-- The targets that an expression or list of expressions stands for. -/
def toTargets? (t : Tree) : Option Tree :=
  if t.kind = .expressionList then
    match t with
    | .node _ f s cs => (toPatterns? cs).map (.node .patternList f s)
  else toPattern? t

/-- The rest of an assignment to the pattern `target`. -/
def assignmentTo (target : Tree) : Parser Tree := do
  let target := target.withField .left
  let t ← peek
  if t.isMark "=" then extend .assignment target do
    pure ((← mark "=" .operand) ++ (← partAs .right k.assigned))
  else if t.isMark ":" then extend .assignment target do
    let colon ← mark ":" .operand
    let type ← partAs .type (k.type true .line)
    match ← mark? "=" .operand with
    | some equals => pure (colon ++ type ++ equals ++ (← partAs .right k.assigned))
    | none => pure (colon ++ type)
  else extend .augmentedAssignment target do
    let before ← extras
    shift .operand
    pure (before ++ (← partAs .right k.assigned))

/-- The rest of an assignment to what `value` stands for as targets. -/
def assignmentOf (value : Tree) : Parser Tree := do
  match toTargets? value with
  | some target => assignmentTo k target
  | none => fail

/-- Passes over the end of the line. -/
def passLineEnd : Parser Unit := fun s =>
  if s.token == .newline then
    let s' := { s with extras := [] }.resume .operand s.ahead.front
    .done () { s' with extras := s.extras ++ s'.extras }
  else .done () s

/-- Is a tree a bracketed construct with something in it? -/
def isFilledBracket (t : Tree) : Bool :=
  [Kind.list, .tuple, .splatTuple, .parenthesized].contains t.kind &&
    t.children.any fun c => c.kind != .comment && c.kind != .joined

/-- Targets that go on over the end of a line, which ends no targets in brackets or with several
parts.  The target `first` has been read, and further ones stand at `p`. -/
def joinedTargets (first : Tree) (p : Place) : Parser Tree := do
  match toPattern? first with
  | none => fail
  | some target =>
    passLineEnd
    if (← peek).isMark "," then
      extend .patternList target
        (moreItems p.after Token.startsExpression (Grammar.target k p))
    else pure target

/-- What stands to the right of an assignment sign, which may be another assignment. -/
def assigned : Parser Tree := do
  if (← peek).isMark "yield" then yieldExpression k .line
  else
    let first ← k.expression .conditional .line
    let joined : Parser Tree := do
      let targets ← joinedTargets k first .line
      if startsAssignment (← peek) then assignmentTo k targets
      else if targets.kind = .patternList then pure targets
      else fail
    let plain : Parser Tree := do
      let value ← expressionsAfter k .line first
      if startsAssignment (← peek) then assignmentOf k value else pure value
    let atEnd := (← peek) == .newline
    if isFilledBracket first && atEnd then orElse joined plain else plain

/-- Expressions or an assignment as a statement. -/
def expressionStatement : Parser Tree := node .expressionStatement do
  if (← peek).isMark "yield" then part (yieldExpression k .line)
  else
    let first ← k.expression .conditional .line
    let plain : Parser (List Tree) := do
      let value ← expressionsAfter k .line first
      if startsAssignment (← peek) then pure [← assignmentOf k value]
      else if value.kind = .expressionList then pure value.children
      else pure [value]
    let several := (← peek).isMark ","
    let atEnd ← wouldRead (expressionsAfter k .line first) (· == .newline)
    let joined : Parser (List Tree) := do
      let targets ← joinedTargets k first .header
      if startsAssignment (← peek) then pure [← assignmentTo k targets] else fail
    if (several || isFilledBracket first) && atEnd then orElse joined plain else plain

/-! ### Imports -/

def dottedName (e : Expect) : Parser Tree := node .dottedName do
  let first ← part (identifier e)
  loop (fun acc => do
    match ← mark? "." .operand with
    | some dot => pure (some (acc ++ dot ++ (← part (identifier e))))
    | none => pure none) first

/-- One imported name with its alias. -/
def importItem (e : Expect) : Parser Tree := do
  let name ← dottedName e
  let item ←
    if (← peek).isMark "as" then
      extend .aliasedImport (name.withField .name) do
        pure ((← mark "as" .operand) ++ (← partAs .asName (identifier e)))
    else pure name
  pure (item.withField .name)

def importList (e : Expect) : Parser (List Tree) := do
  let first ← part (importItem e)
  let more ← moreItems e Token.isIdentifier (importItem e)
  pure (first ++ more)

/-- The names of a `from` import, perhaps in parentheses. -/
def fromList : Parser (List Tree) := do
  match ← mark? "(" .operand with
  | some head => pure (head ++ (← importList .close) ++ (← mark ")" .lineEnd))
  | none => importList .lineEnd

/-- Leading dots and a name, either of which may be missing. -/
def relativeImport : Parser Tree := node .relativeImport do
  let dots ← loop (fun acc => do
    if isOneOf (← peek) [".", "..."] then
      let before ← extras
      shift .operand
      pure (some (acc ++ before))
    else pure none) []
  if (← peek).isIdentifier then pure (dots ++ (← part (dottedName .operand)))
  else pure dots

def importStatement : Parser Tree := node .importStatement do
  pure ((← mark "import" .operand) ++ (← importList .lineEnd))

def fromStatement : Parser Tree := build do
  let head ← mark "from" .operand
  let t ← peek
  if t.isMark "__future__" then
    let future ← mark "__future__" .operand
    let word ← mark "import" .operand
    pure (.futureImport, head ++ future ++ word ++ (← fromList))
  else
    let source ← partAs .moduleName <|
      if isOneOf t [".", "..."] then relativeImport else dottedName .operand
    let word ← mark "import" .operand
    let names ←
      if (← peek).isMark "*" then part (leaf .wildcardImport .lineEnd) else fromList
    pure (.importFrom, head ++ source ++ word ++ names)

/-! ### Other simple statements -/

/-- A reserved word and expressions after it, which `required` may make obligatory. -/
def wordStatement (kind : Kind) (word : String) (required : Bool) : Parser Tree := node kind do
  let head ← mark word (if required then .operand else .lineEnd)
  if required || (← peek).startsExpression then pure (head ++ (← part (expressions k .line)))
  else pure head

def raiseStatement : Parser Tree := node .raiseStatement do
  let head ← mark "raise" .lineEnd
  let value ← if (← peek).startsExpression then part (expressions k .line) else pure []
  match ← mark? "from" .operand with
  | some word => pure (head ++ value ++ word ++ (← part (lineExpression k)))
  | none => pure (head ++ value)

/-- A reserved word and a list of items without a comma at its end. -/
def listStatement (kind : Kind) (word : String) (item : Parser Tree) : Parser Tree := node kind do
  let head ← mark word .operand
  let first ← part item
  let more ← furtherItems item
  pure (head ++ first ++ more)

/-- The old `print` statement. -/
def printStatement : Parser Tree := node .printStatement do
  let head ← mark "print" .lineEnd
  let first ←
    if (← peek).isMark ">>" then part <| node .chevron do
      pure ((← mark ">>" .operand) ++ (← part (lineExpression k)))
    else part (lineExpression k)
  let more ← moreItems .lineEnd Token.startsExpression (lineExpression k)
  pure (head ++ first ++ more)

/-- The old `exec` statement. -/
def execStatement : Parser Tree := node .execStatement do
  let head ← mark "exec" .lineEnd
  let code ← match ← peek with
    | .quote _ => part (string k .lineEnd)
    | _ => part (identifier .lineEnd)
  match ← mark? "in" .operand with
  | some word =>
    let first ← part (lineExpression k)
    let more ← furtherItems (lineExpression k)
    pure (head ++ code ++ word ++ first ++ more)
  | none => pure (head ++ code)

/-- A named type. -/
def typeAlias : Parser Tree := node .typeAlias do
  let head ← mark "type" .lineEnd
  let left ← part (k.type true .header)
  let equals ← mark "=" .operand
  pure (head ++ left ++ equals ++ (← part (k.type true .line)))

/-- One simple statement. -/
def simpleStatement : Parser Tree := do
  let t ← peek
  if t.isMark "import" then importStatement
  else if t.isMark "from" then fromStatement
  else if t.isMark "return" then wordStatement k .returnStatement "return" false
  else if t.isMark "del" then wordStatement k .deleteStatement "del" true
  else if t.isMark "raise" then raiseStatement k
  else if t.isMark "pass" then leaf .passStatement .lineEnd
  else if t.isMark "break" then leaf .breakStatement .lineEnd
  else if t.isMark "continue" then leaf .continueStatement .lineEnd
  else if t.isMark "global" then listStatement .globalStatement "global" (identifier .lineEnd)
  else if t.isMark "nonlocal" then
    listStatement .nonlocalStatement "nonlocal" (identifier .lineEnd)
  else if t.isMark "assert" then listStatement .assertStatement "assert" (lineExpression k)
  else if t.isMark "print" then
    if (← peekSecond .lineEnd).isMark ">>" then printStatement k
    else orElse (ended (expressionStatement k)) (printStatement k)
  else if t.isMark "exec" then
    match ← peekSecond .lineEnd with
    | .quote _ => execStatement k
    | second => if second.isIdentifier then execStatement k else expressionStatement k
  else if t.isMark "type" then orElse (ended (typeAlias k)) (expressionStatement k)
  else expressionStatement k

/-- The simple statements of one line and its end. -/
def simpleLine : Parser (List Tree) := do
  let first ← part (simpleStatement k)
  let more ← loop (fun acc => do
    match ← mark? ";" .lineEnd with
    | none => pure none
    | some semicolon =>
      if (← peek) = .newline then pure (some (acc ++ semicolon))
      else pure (some (acc ++ semicolon ++ (← part (simpleStatement k))))) first
  pure (more ++ (← lineEnd .statement))

/-! ### Blocks -/

/-- The lines of an indented block and its end. -/
def blockLines : Parser (List Tree) := do
  let lines ← loop (fun acc => do
    if (← peek) = .dedent then pure none
    else
      let before ← extras
      pure (some (acc ++ before ++ (← k.statement)))) []
  pure (lines ++ (← closeBlock))

/-- The block after a header: empty, the rest of the line, or indented lines. -/
def suite : Parser (List Tree) := do
  let before ← extras
  match ← peek with
  | .newline =>
    let empty ← node .block (lineEnd .statement)
    pure (before ++ [empty.withField .body])
  | .indent width =>
    openBlock width
    let lead ← extras
    let block ← node .block (blockLines k)
    pure (before ++ lead ++ [block.withField .body])
  | _ =>
    let block ← node .block (simpleLine k)
    pure (before ++ [block.withField .body])

/-- A colon and a block. -/
def body : Parser (List Tree) := do
  pure ((← mark ":" .block) ++ (← suite k))

/-- A clause that starts with `word` and has nothing but a block, if it is ahead. -/
def wordClause? (word : String) (kind : Kind) : Parser (List Tree) := do
  if (← peek).isMark word then
    part <| node kind do pure ((← mark word .operand) ++ (← body k))
  else pure []

/-- A clause that starts with `word`, has a condition and a block. -/
def conditionClause (word : String) (kind : Kind) (after : Parser (List Tree)) : Parser Tree :=
  node kind do
    let head ← mark word .operand
    let condition ← partAs .condition (headerExpression k)
    let block ← body k
    pure (head ++ condition ++ block ++ (← after))

/-- Repeats a clause as long as `word` is ahead. -/
def clausesOf (word : String) (clause : Parser Tree) : Parser (List Tree) :=
  loop (fun acc => do
    if (← peek).isMark word then pure (some (acc ++ (← part clause))) else pure none) []

/-! ### Compound statements -/

def ifStatement : Parser Tree :=
  conditionClause k "if" .ifStatement do
    let elifs ← clausesOf "elif" (conditionClause k "elif" .elifClause (pure []))
    pure (elifs ++ (← wordClause? k "else" .elseClause))

def whileStatement : Parser Tree :=
  conditionClause k "while" .whileStatement (wordClause? k "else" .elseClause)

/-- The word `async` in front of a statement. -/
def asyncMark : Parser (List Tree) := do
  if (← peek).isMark "async" then
    partAs .async (leaf .keyword .operand)
  else pure []

def forStatement : Parser Tree := node .forStatement do
  let async ← asyncMark
  let head ← mark "for" .operand
  let left ← partAs .left (targets k .header)
  let within ← mark "in" .operand
  let right ← partAs .right (expressions k .header)
  let block ← body k
  pure (async ++ head ++ left ++ within ++ right ++ block ++
    (← wordClause? k "else" .elseClause))

def exceptClause : Parser Tree := node .exceptClause do
  let head ← mark "except" .operand
  let star ←
    if (← peek).isStar then
      let before ← extras
      shiftFirst .operand
      pure before
    else pure []
  let values ←
    if (← peek).isMark ":" then pure []
    else
      let first ← partAs .value (headerExpression k)
      pure (first ++ (← furtherItems (headerExpression k)))
  pure (head ++ star ++ values ++ (← body k))

def tryStatement : Parser Tree := node .tryStatement do
  let head ← mark "try" .operand
  let block ← body k
  let handlers ← clausesOf "except" (exceptClause k)
  let otherwise ← wordClause? k "else" .elseClause
  let finally' ← wordClause? k "finally" .finallyClause
  pure (head ++ block ++ handlers ++ otherwise ++ finally')

def withItem (p : Place) : Parser Tree :=
  node .withItem (partAs .value (k.expression .conditional p))

/-- The items of a `with`: in one pair of parentheses if these hold several items and the colon
follows them, else bare. -/
def withClause : Parser Tree :=
  orElse
    (node .withClause do
      let head ← mark "(" .close
      let first ← part (withItem k .inner)
      let items ← itemsUntil ")" (withItem k .inner) .operand
      if (← peek).isMark ":" ∧ items.any (·.kind = .withItem) then pure (head ++ first ++ items)
      else fail)
    (node .withClause do
      let first ← part (withItem k .header)
      pure (first ++ (← moreItems .operand (fun t => !t.isMark ":") (withItem k .header))))

def withStatement : Parser Tree := node .withStatement do
  let async ← asyncMark
  let head ← mark "with" .operand
  let items ← part (withClause k)
  pure (async ++ head ++ items ++ (← body k))

/-! ### Matching -/

/-- A number in a pattern. -/
def patternNumber (p : Place) : Parser (List Tree) := do
  match ← peek with
  | .integer => part (leaf .integer p.after)
  | .float => part (leaf .float p.after)
  | _ => fail

/-- A number in a pattern, perhaps negative, or the sum of a real and an imaginary one. -/
def patternNumbers (p : Place) : Parser (List Tree) := do
  let sign := (← mark? "-" .operand).getD []
  let first ← patternNumber p
  if isOneOf (← peek) ["+", "-"] then
    let before ← extras
    shift .operand
    pure (sign ++ first ++ before ++ (← patternNumber p))
  else pure (sign ++ first)

/-- Patterns in brackets. -/
def bracketPattern (opener closer : String) (kind : Kind) (item : Parser Tree) (p : Place) :
    Parser Tree := node kind do
  let head ← mark opener .close
  if (← peek).isMark closer then pure (head ++ (← mark closer p.after))
  else
    let first ← part item
    pure (head ++ first ++ (← itemsUntil closer item p.after))

/-- Stars before a name. -/
def splatPattern (p : Place) : Parser Tree := node .splatPattern do
  let before ← extras
  shift .operand
  if (← peek).isMark "_" then pure (before ++ (← part (leaf .keyword p.after)))
  else pure (before ++ (← part (identifier p.after)))

/-- A pattern without alternatives; `keyPattern` reads one item of a dictionary pattern. -/
def simplePattern (keyPattern : Parser Tree) (p : Place) : Parser (List Tree) := do
  match ← peek with
  | .quote _ => part (strings k p.after)
  | .integer | .float => patternNumbers p
  | .op text =>
    if text = "[" then part (bracketPattern "[" "]" .listPattern (k.casePattern .inner) p)
    else if text = "(" then part (bracketPattern "(" ")" .tuplePattern (k.casePattern .inner) p)
    else if text = "\x7b" then part (bracketPattern "\x7b" "\x7d" .dictPattern keyPattern p)
    else if text = "*" ∨ text = "**" then part (splatPattern p)
    else if text = "-" then patternNumbers p
    else fail
  | .name text =>
    if text = "True" then part (leaf .trueLiteral p.after)
    else if text = "False" then part (leaf .falseLiteral p.after)
    else if text = "None" then part (leaf .noneLiteral p.after)
    else if text = "_" then part (leaf .keyword p.after)
    else
      let name ← part (dottedName p.after)
      if (← peek).isMark "(" then
        pure (name ++ (← part
          (bracketPattern "(" ")" .classPattern (k.casePattern .inner) p)))
      else pure name
  | _ => fail

/-- Further alternatives after a pattern. -/
def alternatives (keyPattern : Parser Tree) (p : Place) (first : List Tree) :
    Parser (List Tree) :=
  loop (fun acc => do
    match ← mark? "|" .operand with
    | some bar => pure (some (acc ++ bar ++ (← simplePattern k keyPattern p)))
    | none => pure none) first

/-- Alternatives between simple patterns. -/
def unionPattern (keyPattern : Parser Tree) (p : Place) : Parser (List Tree) := do
  alternatives k keyPattern p (← simplePattern k keyPattern p)

/-- An item of a dictionary pattern: a key with its pattern, or the rest.  Keys may hold dictionary
patterns, nested at most `depth` deep. -/
def keyPattern : (depth : Nat) → Parser Tree
  | 0 => fail
  | depth + 1 => node .pair do
    let starred := (← peek).isStar
    let first ← simplePattern k (keyPattern depth) (if starred then .inner else .header)
    let key ← alternatives k (keyPattern depth) .header first
    if starred && isOneOf (← peek) [",", "\x7d"] && key.length == first.length then pure key
    else pure (key ++ (← mark ":" .operand) ++ (← part (k.casePattern .inner)))

/-- One pattern of a `case`, with its name if it is given one. -/
def casePattern (p : Place) : Parser Tree := node .casePattern do
  let depth ← stepLimit
  let first ← peek
  let second ← peekSecond p.after
  let whole ←
    if first.isIdentifier && !first.isMark "_" && second.isMark "=" then
      let name ← part (identifier p.after)
      pure (name ++ (← mark "=" .operand) ++ (← unionPattern k (keyPattern k depth) p))
    else unionPattern k (keyPattern k depth) p
  loop (fun acc => do
    match ← mark? "as" .operand with
    | some word => pure (some (acc ++ word ++ (← part (identifier p.after))))
    | none => pure none) whole

def caseClause : Parser Tree := node .caseClause do
  let head ← mark "case" .operand
  let first ← part (k.casePattern .header)
  let more ← moreItems .operand (fun t => !isOneOf t [":", "if"]) (k.casePattern .header)
  let guard ← if (← peek).isMark "if" then part (ifClause k .conditional .header) else pure []
  pure (head ++ first ++ more ++ guard ++ (← body k))

/-- The cases of a `match`. -/
def caseBlock : Parser Tree := do
  match ← peek with
  | .newline => node .block (lineEnd .statement)
  | .indent width => node .block do
    let before ← extras
    openBlock width
    let cases' ← clausesOf "case" (caseClause k)
    pure (before ++ cases' ++ (← closeBlock))
  | _ => fail

def matchStatement : Parser Tree := node .matchStatement do
  let head ← mark "match" .lineEnd
  let first ← partAs .subject (headerExpression k)
  let more ← moreItems .operand (fun t => !t.isMark ":") (headerExpression k)
  let colon ← mark ":" .block
  pure (head ++ first ++ more ++ colon ++ (← partAs .body (caseBlock k)))

/-! ### Definitions -/

def parameters : Parser Tree := node .parameters do
  let head ← mark "(" .close
  if (← peek).isMark ")" then pure (head ++ (← mark ")" .operand))
  else
    let first ← part (parameter k true .inner)
    pure (head ++ first ++ (← itemsUntil ")" (parameter k true .inner) .operand))

/-- Type parameters, if there are any. -/
def typeParameters? : Parser (List Tree) := do
  if (← peek).isMark "[" then part (typeParameters k .header) else pure []

/-- Would the line after the colon of a result type go on as a bound of that type?  Such a bound
never ends, so the line is no block. -/
def continuesType : Parser Bool := do
  let t ← peek
  let second ← peekSecond (if t.isStar then .operand else .lineEnd)
  if t.isMark "**" then pure true
  else if t.isMark "*" && !isOneOf second contextualWords then
    wouldRead (splatType .header) fun next => isOneOf next ["|", ":", "."]
  else pure (isGenericName t && second.isMark "[")

def functionDefinition : Parser Tree := node .functionDefinition do
  let async ← asyncMark
  let head ← mark "def" .operand
  let name ← partAs .name (identifier .operand)
  let generics ← typeParameters? k
  let params ← partAs .parameters (parameters k)
  let returns ← match ← mark? "->" .operand with
    | some arrow => pure (arrow ++ (← partAs .returnType (k.type false .header)))
    | none => pure []
  let colon ← mark ":" .block
  let endless ← continuesType
  if endless && !returns.isEmpty then fail
  pure (async ++ head ++ name ++ generics ++ params ++ returns ++ colon ++ (← suite k))

def classDefinition : Parser Tree := node .classDefinition do
  let head ← mark "class" .operand
  let name ← partAs .name (identifier .operand)
  let generics ← typeParameters? k
  let bases ←
    if (← peek).isMark "(" then
      let args ← partAs .superclasses (arguments k .header)
      if args.any (·.kind == .generator) then fail else pure args
    else pure []
  pure (head ++ name ++ generics ++ bases ++ (← body k))

def decorator : Parser Tree := node .decorator do
  let head ← mark "@" .operand
  let value ← part (lineExpression k)
  pure (head ++ value ++ (← lineEnd .operand))

def decoratedDefinition : Parser Tree := node .decoratedDefinition do
  let decorators ← clausesOf "@" (decorator k)
  let definition ← partAs .definition <| do
    if (← peek).isMark "class" then classDefinition k else functionDefinition k
  pure (decorators ++ definition)

/-! ### All statements -/

/-- Can the token start a statement? -/
def startsStatement (t : Token) : Bool :=
  t.startsExpression || isOneOf t
    ["import", "from", "assert", "return", "del", "raise", "pass", "break", "continue", "global",
     "nonlocal", "yield", "if", "for", "while", "try", "with", "def", "class", "@"]

/-- The simple statements of one line, or one compound statement. -/
def statement : Parser (List Tree) := do
  let t ← peek
  if !startsStatement t then failAhead
  else if t.isMark "if" then part (ifStatement k)
  else if t.isMark "for" then part (forStatement k)
  else if t.isMark "while" then part (whileStatement k)
  else if t.isMark "try" then part (tryStatement k)
  else if t.isMark "with" then part (withStatement k)
  else if t.isMark "def" then part (functionDefinition k)
  else if t.isMark "class" then part (classDefinition k)
  else if t.isMark "@" then part (decoratedDefinition k)
  else if t.isMark "match" then orElse (part (matchStatement k)) (simpleLine k)
  else if t.isMark "async" then
    let second ← peekSecond .lineEnd
    if second.isMark "def" then part (functionDefinition k)
    else if second.isMark "for" then part (forStatement k)
    else if second.isMark "with" then part (withStatement k)
    else simpleLine k
  else simpleLine k

end

end Grammar

end Plumbline.Syntax
