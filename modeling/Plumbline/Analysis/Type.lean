/-
Types that inference speaks about.

A type is named as it is written in an annotation, together with the module that defines it unless
it is built in.  An inferred type may also be the marker that stands for any type, which fixes never
write, or unknown.
-/

namespace Plumbline

/-- A concrete, named type. -/
structure TypeRef where
  /-- As it is written in an annotation. -/
  name : String
  /-- The module that defines it; nothing for built-in types. -/
  module : Option String := none
deriving Repr, DecidableEq, Inhabited

namespace TypeRef

def isBuiltin (t : TypeRef) : Bool := t.module.isNone

def text (t : TypeRef) : String :=
  match t.module with
  | some m => m ++ "." ++ t.name
  | none => t.name

end TypeRef

inductive InferredType where
  | known (t : TypeRef)
  /-- The marker for any type. -/
  | dynamic
  | unknown
deriving Repr, DecidableEq, Inhabited

namespace InferredType

def builtin (name : String) : InferredType := known { name }

def text : InferredType → String
  | known t => t.text
  | dynamic => "Any"
  | unknown => "<unknown>"

end InferredType

/-- Names of the built-in types. -/
def builtinTypes : List String :=
  ["str", "int", "float", "bool", "bytes", "bytearray", "complex", "None", "object", "list",
   "dict", "set", "frozenset", "tuple", "type"]

/-- Built-in types that take arguments in brackets. -/
def builtinGenerics : List String := ["list", "dict", "set", "frozenset", "tuple", "type"]

/-- Built-in functions with the type of what they return. -/
def builtinCalls : List (String × String) :=
  [("str", "str"), ("repr", "str"), ("chr", "str"), ("format", "str"), ("input", "str"),
   ("int", "int"), ("len", "int"), ("hash", "int"), ("ord", "int"), ("id", "int"),
   ("float", "float"),
   ("bool", "bool"), ("isinstance", "bool"), ("issubclass", "bool"), ("callable", "bool"),
   ("hasattr", "bool"),
   ("bytes", "bytes"), ("bytearray", "bytearray"),
   ("list", "list"), ("sorted", "list"),
   ("dict", "dict"), ("set", "set"), ("frozenset", "frozenset"), ("tuple", "tuple")]

end Plumbline
