/-
What names mean.

A name at the top level of a module is bound by the last statement there that defines or imports
it.  An import is followed to the module it names; chains of imports longer than a fixed number of
hops are not followed.
-/
import Plumbline.Analysis.Project
import Plumbline.Layers.Basic
import Plumbline.Text.Letter

namespace Plumbline

/-- What a name is bound to. -/
inductive Symbol where
  | «class» (module name : String) (path : Path)
  | function (path : Path) (qualname : String)
  | module (dotted : String)
deriving Repr, DecidableEq, Inhabited

/-- Imports that are followed from one module to the next. -/
def maxHops : Nat := 8

namespace Module

/-- The absolute name of the module that an import takes names from. -/
def importSource? (m : Module) (i : Import) : Option String := do
  let written ← i.fromModule
  if i.level = 0 then some written
  else
    let parts := if m.name.isEmpty then [] else (Text.split '.' m.name.toList).map String.ofList
    let package := if m.path.fileName? = some "__init__.py" then parts else parts.dropLast
    if package.length < i.level - 1 then none
    else
      let package := package.take (package.length - (i.level - 1))
      some (".".intercalate (if written.isEmpty then package else package ++ [written]))

/-- The absolute names of the modules that an import names. -/
def importedModules (m : Module) (i : Import) : List String :=
  if i.isFrom then ((m.importSource? i).filter (!·.isEmpty)).toList
  else i.names.map (·.name)

end Module

namespace Query

/-- What a name taken from the module `source` means, where `lookIn` looks up a name in a module. -/
def imported (lookIn : String → String → Query (Option Symbol)) (source name : String) :
    Query (Option Symbol) := do
  match ← lookIn source name with
  | some symbol => pure (some symbol)
  | none =>
    let dotted := if source.isEmpty then name else source ++ "." ++ name
    pure (((← read).moduleFile? dotted).map fun _ => .module dotted)

/-- What one imported name means. -/
def importedSymbol (lookIn : String → String → Query (Option Symbol)) (m : Module) (i : Import)
    (n : ImportedName) : Query (Option Symbol) :=
  if i.isFrom then
    match m.importSource? i with
    | some source => imported lookIn source n.name
    | none => pure none
  else match n.asName with
    | some _ => pure (some (.module n.name))
    | none => pure (some (.module n.boundName))

/-- What `name` means after one more statement, if it meant `found` before. -/
def bindingStep (lookIn : String → String → Query (Option Symbol)) (m : Module) (name : String)
    (found : Option Symbol) : Stmt → Query (Option Symbol)
  | .classDef h _ => pure (if h.name = name then some (.class m.name h.name m.path) else found)
  | .functionDef h _ => pure (if h.name = name then some (.function m.path h.qualname) else found)
  | .importing i =>
    if i.wildcard then pure found
    else (i.names.filter (·.boundName == name)).foldlM
      (fun _ n => importedSymbol lookIn m i n) found
  | _ => pure found

/-- What `name` means at the end of a module, if at most `hops` more imports are followed. -/
def lookup : (hops : Nat) → Module → String → Query (Option Symbol)
  | 0, _, _ => pure none
  | hops + 1, m, name =>
    let lookIn (dotted name : String) : Query (Option Symbol) := do
      match (← read).moduleFile? dotted with
      | none => pure none
      | some path =>
        match ← parse path with
        | .ok m => lookup hops m name
        | .error _ => pure none
    m.body.foldlM (bindingStep lookIn m name) none

/-- What a name means in a module. -/
def symbol (m : Module) (name : String) : Query (Option Symbol) := lookup (maxHops + 1) m name

/-- What a name means in the module called `dotted`. -/
def symbolIn (dotted name : String) : Query (Option Symbol) := do
  match (← read).moduleFile? dotted with
  | none => pure none
  | some path =>
    match ← parse path with
    | .ok m => lookup maxHops m name
    | .error _ => pure none

/-- What a name or a dotted name means: what stands before the last dot must be a module. -/
def dottedSymbol (m : Module) (text : String) : Query (Option Symbol) :=
  match Text.cutLast? '.' text.toList with
  | none => symbol m text
  | some (receiver, attr) => do
    match ← symbol m (String.ofList receiver) with
    | some (.module dotted) => symbolIn dotted (String.ofList attr)
    | _ => pure none

/-- Can the type be used without its module in front? -/
def isReachable (m : Module) (t : TypeRef) : Query Bool := do
  match t.module with
  | none => pure true
  | some defining =>
    if defining = m.name then pure true
    else match ← symbol m t.name with
      | some (.class module name _) => pure (module == defining && name == t.name)
      | _ => pure false

/-! ### Annotations -/

/-- An annotation without white space and quotes around it. -/
def hintText (hint : String) : List Char :=
  Text.trim (Text.trimBoth (fun c => c == '"' || c == '\'') (Text.trim hint.toList))

/-- The names in an annotation. -/
def hintTokens (text : List Char) : List String :=
  ((Text.splitBy (fun c => !(isLetterOrDigit c || c == '_' || c == '.')) text).filter
    (!·.isEmpty)).map String.ofList

/-- Does a name stand for the marker of any type? -/
def isAnyMarker (token : String) : Bool := token == "Any" || ".Any".toList.isSuffixOf token.toList

/-- The type of an annotation with brackets or alternatives, all parts of which must be built
in. -/
def compositeType (text : List Char) : InferredType :=
  let base := String.ofList (Text.trim (text.takeWhile (· != '[')))
  let generic := !text.contains '[' || builtinGenerics.contains base
  let known := (hintTokens text).all fun t => builtinTypes.contains t || t == "..."
  if generic && known then .builtin (String.ofList text) else .unknown

/-- The type that an annotation of `m` denotes. -/
def resolveHint (m : Module) (hint : String) : Query InferredType := do
  let chars := hintText hint
  let text := String.ofList chars
  if (hintTokens chars).any isAnyMarker then pure .dynamic
  else if builtinTypes.contains text then pure (.builtin text)
  else if chars.contains '[' || chars.contains '|' then pure (compositeType chars)
  else match ← dottedSymbol m text with
    | some (.class module name _) => pure (.known { name, module := some module })
    | _ => pure .unknown

/-! ### Ancestors of classes -/

/-- A search through base classes. -/
structure Ancestry where
  /-- Classes found so far, nearest first. -/
  chain : List Ancestor := []
  /-- Classes whose own bases are still to be looked at, with the module that defines them. -/
  queue : List (Module × String) := []
  /-- Classes whose bases have been looked at. -/
  seen : List (FileKey × String) := []
deriving Inhabited

/-- Adds one base class. -/
def ancestryStep (m : Module) (a : Ancestry) (base : Expr) : Query Ancestry :=
  match base.dottedName? with
  | none => pure a
  | some dotted =>
    if dotted = "object" then pure a
    else do
      match ← dottedSymbol m dotted with
      | some (.class _ name path) =>
        let project ← read
        let chain := a.chain ++ [{ name, path := some (project.relative (project.absolute path)) }]
        match ← parse path with
        | .ok defining => pure { a with chain, queue := a.queue ++ [(defining, name)] }
        | .error _ => pure { a with chain }
      | _ =>
        let name := String.ofList (Text.afterLast '.' dotted.toList)
        pure { a with chain := a.chain ++ [{ name }] }

/-- Adds the base classes of a class. -/
def addBases (m : Module) (c : ClassDef) (a : Ancestry) : Query Ancestry :=
  c.bases.foldlM (ancestryStep m) a

/-- Ancestors after which the search stops. -/
def maxAncestors : Nat := 4 * maxHops

/-- Takes classes from the queue.  Each class in the queue is one of the chain, and the search
stops when the chain is longer than `maxAncestors`, so that many rounds are enough. -/
def searchAncestors : (rounds : Nat) → Ancestry → Query Ancestry
  | 0, a => pure a
  | rounds + 1, a =>
    match a.queue with
    | [] => pure a
    | (m, name) :: queue =>
      if maxAncestors < a.chain.length then pure a
      else
        let key := (m.path.components, name)
        if a.seen.contains key then searchAncestors rounds { a with queue }
        else do
          let a := { a with queue, seen := key :: a.seen }
          match m.findClass? name with
          | some c => searchAncestors rounds (← addBases m c a)
          | none => searchAncestors rounds a

/-- Base classes of a class, and theirs, nearest first. -/
def ancestors (m : Module) (c : ClassDef) : Query (List Ancestor) := do
  let a ← addBases m c {}
  pure (← searchAncestors (maxAncestors + a.queue.length + 1) a).chain

end Query

end Plumbline
