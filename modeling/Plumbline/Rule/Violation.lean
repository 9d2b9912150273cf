/-
What rules report.
-/
import Plumbline.Files.Path

namespace Plumbline

/-- A place in a source file. -/
structure Location where
  file : Path
  line : Nat
  column : Nat
deriving Repr, DecidableEq, Inhabited

def Location.text (l : Location) : String :=
  l.file ++ ":" ++ toString l.line ++ ":" ++ toString l.column

/-- The symbol that a violation is about: a qualified name, and perhaps a parameter. -/
structure Target where
  symbol : String
  member : Option String := none
deriving Repr, DecidableEq, Inhabited

structure Violation where
  code : String
  message : String
  location : Location
  /-- Can a fix be planned for it? -/
  fixable : Bool := false
  /-- Why not. -/
  reason : Option String := none
  /-- Does its fix only add a comment? -/
  commentOnly : Bool := false
  target : Option Target := none
deriving Repr, DecidableEq, Inhabited

namespace Violation

def text (v : Violation) : String := v.location.text ++ " [" ++ v.code ++ "] " ++ v.message

/-- The violation, marked as fixable. -/
def asFixable (v : Violation) : Violation := { v with fixable := true, reason := none }

/-- The violation, marked as not fixable for this reason. -/
def asUnfixable (v : Violation) (reason : String) : Violation :=
  { v with fixable := false, reason := some reason }

end Violation

/-- A rule that could not finish a file. -/
structure RuleFailure where
  code : String
  file : Path
  message : String
deriving Repr, DecidableEq, Inhabited

def RuleFailure.text (f : RuleFailure) : String :=
  f.code ++ " failed on " ++ f.file ++ ": " ++ f.message

end Plumbline
