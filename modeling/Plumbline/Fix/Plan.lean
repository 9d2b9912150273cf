/-
Plans for changes to a source file.

A plan names what to change by symbol and never by position.  The position is looked up in the
text as it is when the plan is carried out, so plans can be made in advance and in any number.
-/
import Plumbline.Analysis.Type

namespace Plumbline

/-- A type that a fix may write into source. -/
structure ApprovedType where
  type : TypeRef
deriving Repr, DecidableEq, Inhabited

/-- The text of the annotation. -/
def ApprovedType.hint (t : ApprovedType) : String := t.type.name

/-- What a comment is about. -/
inductive Anchor where
  /-- A function or class, by qualified name. -/
  | symbol (qualname : String)
  /-- An import, by the module as it is written there. -/
  | module (written : String)
deriving Repr, DecidableEq, Inhabited

def Anchor.text : Anchor → String
  | symbol qualname => qualname
  | module written => "import " ++ written

inductive Plan where
  | addImport (module name : String)
  | addReturnType (function : String) (type : ApprovedType)
  | addParameterType (function parameter : String) (type : ApprovedType)
  | freezeRecord (className : String)
  | injectComment (anchor : Anchor) (note : String)
deriving Repr, DecidableEq, Inhabited

namespace Plan

/-- The symbol that the plan changes. -/
def target : Plan → String
  | addImport module name => module ++ "." ++ name
  | addReturnType function _ => function
  | addParameterType function parameter _ => function ++ "(" ++ parameter ++ ")"
  | freezeRecord className => className
  | injectComment anchor _ => anchor.text

/-- Does the plan only add a comment? -/
def isCommentOnly : Plan → Bool
  | injectComment _ _ => true
  | _ => false

/-- The plan in words. -/
def text : Plan → String
  | addImport module name => "add `from " ++ module ++ " import " ++ name ++ "`"
  | addReturnType function type =>
    "annotate " ++ function ++ " with `-> " ++ type.hint ++ "`"
  | addParameterType function parameter type =>
    "annotate parameter `" ++ parameter ++ "` of " ++ function ++ " as `" ++ type.hint ++ "`"
  | freezeRecord className => "make dataclass " ++ className ++ " frozen"
  | injectComment anchor note => "comment on " ++ anchor.text ++ ": " ++ note

end Plan

end Plumbline
