/-
Edits.

A plan is resolved in a parsed text to the one stretch that it replaces, or to nothing if the text
already is as the plan wants it.  A plan whose symbol is missing cannot be resolved.
-/
import Plumbline.Fix.Plan
import Plumbline.Module.Query
import Plumbline.Text.Slice

namespace Plumbline

/-- The bytes from `start` up to `stop` are replaced. -/
structure Edit where
  start : Nat
  stop : Nat
  replacement : String
deriving Repr, DecidableEq, Inhabited

namespace Edit

/-- Adds text and replaces nothing. -/
def insert (byte : Nat) (text : String) : Edit := ⟨byte, byte, text⟩

def apply (e : Edit) (text : List Char) : List Char :=
  (splitAtByte e.start text).1 ++ e.replacement.toList ++ dropBytes e.stop text

/-! ### Imports -/

/-- Does a top-level import already bind `name` of `source` to its own name? -/
def hasImport (m : Module) (source name : String) : Bool :=
  m.imports.any fun i =>
    i.level == 0 && i.fromModule == some source &&
      i.names.any fun n => n.name == name && n.asName.isNone

def isImport : Stmt → Bool
  | .importing _ => true
  | _ => false

/-- The statement after which a new import goes: the last import, else a docstring in front, else
the last of the comments in front. -/
def importAnchor? (m : Module) : Option Stmt :=
  (m.body.reverse.find? isImport).or <|
    match m.body with
    | first :: _ =>
      if first.isDocstring then some first else (m.body.takeWhile (·.isComment)).getLast?
    | [] => none

/-- The place after the line end that follows byte `n`, if there is one. -/
def lineAfter? (text : List Char) (n : Nat) : Option Nat :=
  let rest := dropBytes n text
  if rest.contains '\n' then some (n + byteSize (rest.takeWhile (· != '\n')) + 1) else none

def addImport (m : Module) (text : List Char) (source name : String) : Option Edit :=
  if hasImport m source name then none
  else
    let line := "from " ++ source ++ " import " ++ name ++ "\n"
    match importAnchor? m with
    | none => some (insert 0 line)
    | some anchor =>
      match lineAfter? text anchor.span.stop with
      | some n => some (insert n line)
      | none => some (insert (byteSize text) ("\n" ++ line))

/-! ### Types -/

def addReturnType (f : FunctionDef) (t : ApprovedType) : Option Edit :=
  if f.returns.isSome then none
  else some (insert f.paramsSpan.stop (" -> " ++ t.hint))

/-- `x=1` becomes `x: int = 1`. -/
def addParameterType (p : Param) (t : ApprovedType) : Option Edit :=
  if p.hint.isSome then none
  else match p.default with
    | some value =>
      some ⟨p.nameSpan.start, value.span.start, p.name ++ ": " ++ t.hint ++ " = "⟩
    | none => some (insert p.nameSpan.stop (": " ++ t.hint))

/-! ### Records -/

/-- Makes the decorator of a record say that the record is frozen. -/
def freeze : Expr → Option Edit
  | .call _ args keywords span =>
    match keywords.find? (·.1 == "frozen") with
    | some (_, .literal (.bool true) _) => none
    | some (_, value) => some ⟨value.span.start, value.span.stop, "True"⟩
    | none =>
      match (args ++ keywords.map (·.2)).map (·.span.stop) with
      | [] => some (insert (span.stop - 1) "frozen=True")
      | n :: rest => some (insert (rest.foldl max n) ", frozen=True")
  | e => some (insert e.span.stop "(frozen=True)")

/-! ### Comments -/

/-- What every added comment starts with. -/
def commentTag : String := "# archfix:"

mutual

/-- The first import of the module `written`, at the top level or in blocks of compound
statements. -/
def findImportIn (written : String) : List Stmt → Option Span
  | [] => none
  | s :: rest => (findImportAt written s).or (findImportIn written rest)

def findImportAt (written : String) : Stmt → Option Span
  | .importing i => if i.writtenModules.contains written then some i.span else none
  | .compound _ blocks => findImportInBlocks written blocks
  | _ => none

def findImportInBlocks (written : String) : List (List Stmt) → Option Span
  | [] => none
  | b :: rest => (findImportIn written b).or (findImportInBlocks written rest)

end

/-- Where the thing that a comment is about lies. -/
def anchorSpan? (m : Module) : Anchor → Option Span
  | .symbol qualname =>
    ((m.findFunction? qualname).map (·.header)).or ((m.findClass? qualname).map (·.header))
  | .module written => findImportIn written m.body

/-- The text before the line of byte `n`, and the text from the start of that line on. -/
def splitAtLine (text : List Char) (n : Nat) : List Char × List Char :=
  let (before, after) := splitAtByte n text
  let line := before.reverse.takeWhile (· != '\n')
  ((before.reverse.dropWhile (· != '\n')).reverse, line.reverse ++ after)

/-- Is the comment among the comment lines right before? -/
def hasComment (before : List Char) (comment : String) : Bool :=
  (((Text.lines before).reverse.map Text.trim).takeWhile (·.head? == some '#')).contains
    comment.toList

/-- A comment on a line of its own above byte `n`, indented like the line there. -/
def injectComment (text : List Char) (n : Nat) (note : String) : Option Edit :=
  let comment := commentTag ++ " " ++ note
  let (before, line) := splitAtLine text n
  let indent := line.takeWhile fun c => c == ' ' || c == '\t'
  if hasComment before comment then none
  else some (insert (byteSize before) (String.ofList indent ++ comment ++ "\n"))

end Edit

namespace Plan

/-- The edit that a plan asks for in `m`, which is the module of `text`.  The error is the symbol
that is missing. -/
def edit? (m : Module) (text : List Char) : Plan → Except String (Option Edit)
  | addImport source name => .ok (Edit.addImport m text source name)
  | addReturnType function type =>
    match m.findFunction? function with
    | none => .error function
    | some f => .ok (Edit.addReturnType f type)
  | addParameterType function parameter type =>
    match m.findFunction? function with
    | none => .error function
    | some f =>
      match f.param? parameter with
      | none => .error (function ++ "(" ++ parameter ++ ")")
      | some p => .ok (Edit.addParameterType p type)
  | freezeRecord className =>
    match m.findClass? className with
    | none => .error className
    | some c =>
      match c.dataclassDecorator? with
      | none => .error ("@dataclass on " ++ className)
      | some d => .ok (Edit.freeze d.expr)
  | injectComment anchor note =>
    match Edit.anchorSpan? m anchor with
    | none => .error anchor.text
    | some span => .ok (Edit.injectComment text span.start note)

end Plan

end Plumbline
