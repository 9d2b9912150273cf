/-
Rules.

A rule says which kinds of nodes it wants to see.  A checking rule looks at each such node by
itself.  A scoped rule opens a record at some nodes, notes in the innermost open record what it sees
below, and reports when the node is left.  A rule may fail on a file, by an error or by breaking
down; then it says nothing more about that file.

Rules ask questions in some monad `m`; the rules of this library ask about a project.
-/
import Plumbline.Fix.Plan
import Plumbline.Layers.Basic
import Plumbline.Module.Node
import Plumbline.Rule.Violation

namespace Plumbline

/-- How a hook of a rule fails. -/
inductive Fault where
  | error (message : String)
  /-- The hook broke down, perhaps with a message. -/
  | panic (message : Option String)
deriving Repr, DecidableEq, Inhabited

def Fault.message : Fault → String
  | error m => m
  | panic m => "panicked: " ++ m.getD "Unknown panic"

/-- Do fixes of a rule change code, or only add comments? -/
inductive FixType where
  | code | commentOnly
deriving Repr, DecidableEq, Inhabited

def FixType.text : FixType → String
  | code => "code"
  | commentOnly => "comment-only"

/-- What a rule knows about the node it looks at. -/
structure RuleContext where
  module : Module
  config : ProjectConfig
  classifier : LayerClassifier
  around : Around := {}

def RuleContext.file (c : RuleContext) : Path := c.module.path

def RuleContext.location (c : RuleContext) (span : Span) : Location :=
  ⟨c.file, span.line, span.column⟩

/-- What a scoped rule has noted in one scope. -/
structure ScopeRecord where
  /-- Qualified name of what the scope belongs to. -/
  owner : String
  location : Location
  counts : List (String × Nat) := []
deriving Repr, DecidableEq, Inhabited

namespace ScopeRecord

def count (r : ScopeRecord) (key : String) : Nat := (r.counts.lookup key).getD 0

def bump (r : ScopeRecord) (key : String) : ScopeRecord :=
  { r with counts := (key, r.count key + 1) :: r.counts.filter (·.1 != key) }

end ScopeRecord

/-- A hook that looks at a node. -/
abbrev Hook (m : Type → Type) (α : Type) := RuleContext → Node → m (Except Fault α)

/-- How a rule looks at nodes. -/
inductive Watch (m : Type → Type) where
  | checks (check : Hook m (List Violation))
  | scopes (kinds : List NodeKind) (opens : Hook m (Option ScopeRecord))
      (notes : ScopeRecord → Hook m (List Violation × ScopeRecord))
      (closes : ScopeRecord → RuleContext → m (Except Fault (List Violation)))

/-- How a rule's violations are fixed. -/
structure Fixer (m : Type → Type) where
  fix : Violation → RuleContext → m (Except Fault (List Plan))
  /-- What a person should do about a violation. -/
  instructions : Violation → String

structure Rule (m : Type → Type) where
  code : String
  name : String
  description : String
  fixType : FixType
  /-- Does the rule ask for type annotations? -/
  isTypeHint : Bool := false
  /-- Kinds of nodes that are checked or noted. -/
  interests : List NodeKind
  watch : Watch m
  fixer : Option (Fixer m) := none

/-- Why a fix is not planned for a symbol that several definitions share. -/
def sharedNameReason : String := "another definition shares this name"

end Plumbline
