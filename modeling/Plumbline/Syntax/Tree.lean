/-
Concrete syntax trees.

A tree records which construct a stretch of source is, where it lies, which part of its parent
it plays, and its parts in source order.  Comments and joined lines are parts like any other.
-/
import Plumbline.Text.Span

namespace Plumbline.Syntax

/-- The constructs of the grammar. -/
inductive Kind where
  | module | block
  | expressionStatement | assignment | augmentedAssignment
  | importStatement | importFrom | futureImport | dottedName | aliasedImport | relativeImport
  | wildcardImport
  | returnStatement | deleteStatement | raiseStatement | passStatement | breakStatement
  | continueStatement | globalStatement | nonlocalStatement | assertStatement | printStatement
  | chevron | execStatement | typeAlias
  | ifStatement | elifClause | elseClause | forStatement | whileStatement
  | tryStatement | exceptClause | finallyClause
  | withStatement | withClause | withItem
  | matchStatement | caseClause | casePattern | keywordPattern | classPattern | splatPattern
  | unionPattern | dictPattern | complexPattern
  | functionDefinition | classDefinition | decoratedDefinition | decorator
  | parameters | lambdaParameters | typedParameter | defaultParameter | typedDefaultParameter
  | listSplatPattern | dictionarySplatPattern | keywordSeparator | positionalSeparator
  | typeParameter | type
  | tuplePattern | listPattern | patternList
  | argumentList | keywordArgument | listSplat | dictionarySplat | expressionList
  | identifier | string | interpolation | formatSpecifier | concatenatedString
  | integer | float | trueLiteral | falseLiteral | noneLiteral | ellipsis
  | attribute | call | subscript | slice
  | list | listComprehension | dictionary | pair | dictionaryComprehension | set
  | setComprehension | tuple | splatTuple | parenthesized | parenthesizedSplat | generator
  | forInClause | ifClause
  | unary | binary | comparison | notOperator | booleanOperator | lambda | conditional
  | named | asPattern | asPatternTarget | await | yield
  | comment | joined | keyword
deriving Repr, DecidableEq, Inhabited

/-- The part a tree plays in its parent. -/
inductive Field where
  | name | asName | moduleName | left | right | type | condition | subject | body | parameters
  | returnType | superclasses | definition | object | attribute | function | arguments
  | argument | value | async
deriving Repr, DecidableEq, Inhabited

/-- A construct with its parts. -/
inductive Tree where
  | node (kind : Kind) (field : Option Field) (span : Span) (children : List Tree)
deriving Repr, Inhabited

namespace Tree

def kind : Tree → Kind
  | node k _ _ _ => k

def field : Tree → Option Field
  | node _ f _ _ => f

def span : Tree → Span
  | node _ _ s _ => s

def children : Tree → List Tree
  | node _ _ _ cs => cs

/-- A construct without parts. -/
def leaf (k : Kind) (s : Span) : Tree := node k none s []

/-- The same tree in the part `f` of its parent. -/
def withField (f : Field) : Tree → Tree
  | node k _ s cs => node k (some f) s cs

/-- The same parts under another construct. -/
def withKind (k : Kind) : Tree → Tree
  | node _ f s cs => node k f s cs

/-- The first child that plays the part `f`. -/
def child? (t : Tree) (f : Field) : Option Tree :=
  t.children.find? fun c => c.field == some f

/-- All children that play the part `f`. -/
def childrenWith (t : Tree) (f : Field) : List Tree :=
  t.children.filter fun c => c.field == some f

/-- The first child that is no comment. -/
def content? (t : Tree) : Option Tree :=
  t.children.find? fun c => c.kind != .comment

end Tree

namespace Kind

/-- Constructs that continue a compound statement after its first header. -/
def isClause : Kind → Bool
  | elifClause | elseClause | exceptClause | finallyClause | withClause | caseClause | ifClause
  | forInClause => true
  | _ => false

end Kind

end Plumbline.Syntax
