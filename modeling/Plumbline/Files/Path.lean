/-
Paths.

A path is the text it is written as.  Two paths are the same place when their components are the
same: empty segments and `.` count for nothing, except a `.` that a relative path starts with.
`..` is an ordinary component until a place on disk is looked up.
-/
import Plumbline.Text.Slice

namespace Plumbline

/-- A path as it is written. -/
abbrev Path := String

namespace Path

/-- The texts between slashes. -/
def segments (p : Path) : List String := (Text.split '/' p.toList).map String.ofList

def isAbsolute (p : Path) : Bool := p.toList.head? == some '/'

/-- Segments that count for nothing. -/
def isVoid (s : String) : Bool := s == "" || s == "."

/-- The parts that tell which place a path names; an absolute one starts with `/`. -/
def components (p : Path) : List String :=
  let parts := p.segments
  let named := parts.filter (!isVoid ·)
  if p.isAbsolute then "/" :: named
  else if parts.head? == some "." then "." :: named
  else named

/-- The path with these components. -/
def ofComponents : List String → Path
  | "/" :: rest => "/" ++ "/".intercalate rest
  | parts => "/".intercalate parts

/-- `p` seen from `base`. -/
def join (base p : Path) : Path :=
  if p.isAbsolute then p
  else if base.isEmpty then p
  else if base.toList.getLast? == some '/' then base ++ p
  else base ++ "/" ++ p

/-- Drops segments until `n` components have gone by, then what counts for nothing. -/
def dropComponents : (n : Nat) → List String → List String
  | _, [] => []
  | 0, s :: rest => if isVoid s then dropComponents 0 rest else s :: rest
  | n + 1, s :: rest =>
    if isVoid s then dropComponents (n + 1) rest else dropComponents n rest

/-- The text of some segments, without segments at the end that count for nothing. -/
def ofSegments (parts : List String) : Path :=
  "/".intercalate ((parts.reverse.dropWhile isVoid).reverse)

/-- Does the path lie at or below `base`? -/
def isBelow (p base : Path) : Bool := base.components.isPrefixOf p.components

/-- The path from `base` on, if it lies at or below `base`. -/
def relativeTo? (p base : Path) : Option Path :=
  if p.isBelow base then
    let special := match base.components.head? with
      | some s => s == "/" || s == "."
      | none => false
    let named := base.components.length - (if special then 1 else 0)
    some (ofSegments (dropComponents named p.segments))
  else none

/-- The last component, if it is a name. -/
def fileName? (p : Path) : Option String :=
  p.components.getLast?.filter fun s => s != "/" && s != "." && s != ".."

/-- The path without its last component. -/
def parent? (p : Path) : Option Path :=
  match p.components with
  | [] => none
  | ["/"] => none
  | parts => some (ofComponents parts.dropLast)

/-- The path and those above it, innermost first. -/
def ancestors (p : Path) : List Path :=
  let parts := p.components
  let least := if parts.head? == some "/" then 1 else 0
  p :: ((List.range' least (parts.length - least)).map fun n => ofComponents (parts.take n)).reverse

/-- Does the path end in `.`, which is the directory itself under a second name? -/
def isSelf (p : Path) : Bool :=
  (p.segments.reverse.dropWhile (· == "")).head? == some "."

/-- The same path with another last component. -/
def withFileName (p : Path) (name : String) : Path :=
  match p.fileName?, p.parent? with
  | some _, some dir => dir.join name
  | _, _ => p.join name

/-- A name without its extension; a dot at the start begins none. -/
def stem (name : String) : String :=
  match Text.cutLast? '.' name.toList with
  | some (before, _) => if before.isEmpty then name else String.ofList before
  | none => name

/-- The extension of the last component. -/
def extension? (p : Path) : Option String := do
  let name ← p.fileName?
  let (before, after) ← Text.cutLast? '.' name.toList
  if before.isEmpty then none else some (String.ofList after)

/-- The path with the extension `ext` in place of its own; an empty `ext` is none. -/
def withExtension (p : Path) (ext : String) : Path :=
  match p.fileName? with
  | some name => p.withFileName (if ext.isEmpty then stem name else stem name ++ "." ++ ext)
  | none => p

/-- Are two paths the same, however they are written? -/
def same (a b : Path) : Bool := a.components == b.components

/-- The order of a component among others: the root, then `.`, then `..`, then names. -/
def componentRank (s : String) : Nat :=
  if s == "/" then 0 else if s == "." then 1 else if s == ".." then 2 else 3

def componentsLe : List String → List String → Bool
  | [], _ => true
  | _ :: _, [] => false
  | a :: as, b :: bs =>
    if a = b then componentsLe as bs
    else if componentRank a ≠ componentRank b then componentRank a < componentRank b
    else a < b

/-- Paths in order, component by component. -/
def le (a b : Path) : Bool := componentsLe a.components b.components

/-- Adds a path to an ordered list without repetitions. -/
def insert (p : Path) : List Path → List Path
  | [] => [p]
  | q :: rest =>
    if same p q then q :: rest
    else if le p q then p :: q :: rest
    else q :: insert p rest

end Path

end Plumbline
