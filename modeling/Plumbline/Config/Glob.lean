/-
Path patterns.

A pattern has one of four shapes.  `**/X/**` accepts the paths that have `X` as a directory,
`**/A*B` those whose last segment starts with `A` and ends with `B`, `**/X` those that end in the
segment `X`, and `A*B` those that start with `A` and end with `B`.  Any other pattern accepts the
paths that start with it.
-/
import Plumbline.Text.Slice

namespace Plumbline.Glob

/-- Is `dir` a directory of the path? -/
def hasDirectory (dir path : List Char) : Bool :=
  (dir ++ ['/']).isPrefixOf path || Text.contains ('/' :: dir ++ ['/']) path

/-- Does the path end in the segments `tail`? -/
def hasTail (tail path : List Char) : Bool :=
  path == tail || ('/' :: tail).isSuffixOf path

/-- Does the path start with `front` and end with `back`? -/
def hasEnds (front back path : List Char) : Bool :=
  front.isPrefixOf path && back.isSuffixOf path

/-- What remains of a pattern that starts at any depth. -/
def anyDepth? (pattern : List Char) : Option (List Char) :=
  Text.stripPrefix? ['*', '*', '/'] pattern

/-- Patterns that do not start at any depth. -/
def acceptsRooted (pattern path : List Char) : Bool :=
  match Text.cut? '*' pattern with
  | some (front, back) =>
    if back.contains '*' then pattern.isPrefixOf path else hasEnds front back path
  | none => pattern.isPrefixOf path

/-- Does the pattern accept the path? -/
def accepts (pattern path : List Char) : Bool :=
  match anyDepth? pattern with
  | some rest =>
    match Text.stripSuffix? ['/', '*', '*'] rest with
    | some dir => hasDirectory dir path
    | none =>
      match Text.cut? '*' rest with
      | some (front, back) => hasEnds front back (Text.afterLast '/' path)
      | none => hasTail rest path
  | none => acceptsRooted pattern path

/-- Does the pattern accept the path? -/
def matchesPath (pattern path : String) : Bool := accepts pattern.toList path.toList

end Plumbline.Glob
