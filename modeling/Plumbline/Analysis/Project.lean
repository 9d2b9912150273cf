/-
Projects under analysis.

A query reads the files of a project and may use what earlier queries found out.  A module is
parsed once and then remembered by where its file lies; only successful parses are remembered.
Clearing the memory is the only way to make later queries see files that have changed.
-/
import Plumbline.Analysis.Type
import Plumbline.Files.Tree
import Plumbline.Module.Lower

namespace Plumbline

/-- The files of a project, and where it starts. -/
structure Project where
  root : Path
  tree : FileTree := {}
  /-- Where relative paths start. -/
  cwd : Place := []
deriving Inhabited

/-- Why a file is no module. -/
inductive ParseError where
  | unreadable (path : Path) (cause : FileError)
  | malformed (e : SyntaxError)
deriving Repr, DecidableEq, Inhabited

def ParseError.message : ParseError → String
  | unreadable path cause => "failed to read " ++ path ++ ": " ++ cause.message
  | malformed e => e.message

/-- Where a file lies, whatever its path looks like. -/
abbrev FileKey := List String

/-- What earlier queries found out. -/
structure Cache where
  modules : List (FileKey × Module) := []
  /-- What functions declare to return, by file and qualified name. -/
  declared : List ((FileKey × String) × InferredType) := []
  /-- What functions return by their bodies, by file, qualified name and place. -/
  inferred : List ((FileKey × String × Nat) × InferredType) := []
deriving Inhabited

/-- Number of remembered answers. -/
def Cache.size (c : Cache) : Nat := c.modules.length + c.declared.length + c.inferred.length

/-- A question about a project. -/
abbrev Query := ReaderT Project (StateM Cache)

namespace Project

/-- The path from which a file is read. -/
def absolute (p : Project) (path : Path) : Path :=
  if path.isAbsolute || path.isBelow p.root then path else p.root.join path

/-- The path from the root of the project, where that is possible. -/
def relative (p : Project) (path : Path) : Path := (path.relativeTo? p.root).getD path

def isFile (p : Project) (path : Path) : Bool := p.tree.isFile (path.placeFrom p.cwd)

/-- The file that implements a dotted module name: a source file, or else a package. -/
def moduleFile? (p : Project) (dotted : String) : Option Path :=
  if dotted.isEmpty then none
  else
    let names := (Text.split '.' dotted.toList).map String.ofList
    let base := names.foldl Path.join p.root
    [base.withExtension "py", base.join "__init__.py"].find? p.isFile

end Project

/-- `app/domain/user.py` is `app.domain.user`, and a package is called like its directory. -/
def moduleName (path : Path) : String :=
  let parts := (path.withExtension "").components
  ".".intercalate (if parts.getLast? = some "__init__" then parts.dropLast else parts)

namespace Query

/-- The module of a file. -/
def parse (path : Path) : Query (Except ParseError Module) := do
  let project ← read
  let file := project.absolute path
  let cache ← get
  match cache.modules.lookup file.components with
  | some m => pure (.ok m)
  | none =>
    match project.tree.locate project.cwd file >>= project.tree.readText with
    | .error e => pure (.error (.unreadable file e))
    | .ok source =>
      let path := project.relative file
      match Module.parse source path (moduleName path) with
      | .error e => pure (.error (.malformed e))
      | .ok m =>
        set { cache with modules := (file.components, m) :: cache.modules }
        pure (.ok m)

/-- Number of remembered answers. -/
def cached : Query Nat := do pure (← get).size

/-- Forgets everything. -/
def clear : Query Unit := set ({} : Cache)

end Query

end Plumbline
