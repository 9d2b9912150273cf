/-
Trees of files.

A tree says which places are directories and what the files hold.  A place is the list of names
from the root of the tree down, so a path written with `.`, `..` or repeated slashes names the same
place as its plain form.  Operations either change the tree as a whole or fail and leave it alone;
an operation fails when a directory on the way is missing, or is a file.  Links, owners and
permissions are left out.
-/
import Plumbline.Files.Path

namespace Plumbline

/-- Names from the root of the tree down. -/
abbrev Place := List String

/-- Why an operation on files fails. -/
inductive FileError where
  | notFound | alreadyExists | notADirectory | isADirectory | notEmpty | denied | notText
deriving Repr, DecidableEq, Inhabited

namespace FileError

def message : FileError → String
  | notFound => "No such file or directory (os error 2)"
  | denied => "Permission denied (os error 13)"
  | alreadyExists => "File exists (os error 17)"
  | notADirectory => "Not a directory (os error 20)"
  | isADirectory => "Is a directory (os error 21)"
  | notEmpty => "Directory not empty (os error 39)"
  | notText => "stream did not contain valid UTF-8"

end FileError

namespace Path

/-- The place that is `path` seen from the directory `cwd`. -/
def placeFrom (cwd : Place) (path : Path) : Place :=
  path.components.foldl
    (fun here s =>
      if s == "/" then []
      else if s == "." then here
      else if s == ".." then here.dropLast
      else here ++ [s])
    cwd

/-- The absolute path of a place. -/
def ofPlace (p : Place) : Path := "/" ++ "/".intercalate p

end Path

structure FileTree where
  /-- What files hold. -/
  files : List (Place × ByteArray) := []
  /-- Directories other than the root. -/
  dirs : List Place := []
deriving Inhabited

namespace FileTree

/-! ### Questions -/

/-- What the file at `p` holds. -/
def file? (t : FileTree) (p : Place) : Option ByteArray := t.files.lookup p

def isFile (t : FileTree) (p : Place) : Bool := (t.file? p).isSome

def isDir (t : FileTree) (p : Place) : Bool := p.isEmpty || t.dirs.contains p

/-- The places above `p`, outermost first, without the root. -/
def above (p : Place) : List Place := (List.range' 1 (p.length - 1)).map p.take

/-- What is wrong with the way to `p`, if anything is. -/
def obstacle? (t : FileTree) (p : Place) : Option FileError :=
  (above p).findSome? fun dir =>
    if t.isFile dir then some .notADirectory
    else if t.isDir dir then none
    else some .notFound

/-- What is wrong with `p` as a directory, if anything is. -/
def notDir? (t : FileTree) (p : Place) : Option FileError :=
  (t.obstacle? p).or <|
    if t.isFile p then some .notADirectory else if t.isDir p then none else some .notFound

/-- One component further; only a directory can be left for the one above it. -/
def step (t : FileTree) (here : Place) (s : String) : Except FileError Place :=
  if s == "/" then .ok []
  else if s == "." then .ok here
  else if s == ".." then
    match t.notDir? here with
    | some e => .error e
    | none => .ok here.dropLast
  else .ok (here ++ [s])

/-- The place that is `path` seen from the directory `cwd`.  A path that ends in a slash names no
file. -/
def locate (t : FileTree) (cwd : Place) (path : Path) : Except FileError Place :=
  match path.components.foldlM t.step cwd with
  | .error e => .error e
  | .ok p =>
    if t.isFile p && path.segments.getLast?.any Path.isVoid then .error .notADirectory
    else .ok p

def read (t : FileTree) (p : Place) : Except FileError ByteArray :=
  match t.obstacle? p with
  | some e => .error e
  | none =>
    if t.isDir p then .error .isADirectory
    else match t.file? p with
      | some bytes => .ok bytes
      | none => .error .notFound

/-- The text of a file, which must be well-formed UTF-8. -/
def readText (t : FileTree) (p : Place) : Except FileError String :=
  match t.read p with
  | .error e => .error e
  | .ok bytes =>
    match String.fromUTF8? bytes with
    | some s => .ok s
    | none => .error .notText

/-- The places of the files below `dir`. -/
def filesBelow (t : FileTree) (dir : Place) : List (Place × ByteArray) :=
  t.files.filter fun f => dir.isPrefixOf f.1 && f.1.length != dir.length

/-- Names of the entries of a directory, in order and without repetition. -/
def entries (t : FileTree) (dir : Place) : List String :=
  let below := t.dirs ++ t.files.map (·.1)
  let names := below.filterMap fun p =>
    if dir.isPrefixOf p ∧ p.length = dir.length + 1 then p.getLast? else none
  names.mergeSort (· ≤ ·)

/-! ### Changes -/

/-- Puts `bytes` at `p`, in place of what is there. -/
def setFile (t : FileTree) (p : Place) (bytes : ByteArray) : FileTree :=
  if t.isFile p then
    { t with files := t.files.map fun f => if f.1 = p then (p, bytes) else f }
  else { t with files := t.files ++ [(p, bytes)] }

def eraseFile (t : FileTree) (p : Place) : FileTree :=
  { t with files := t.files.filter (·.1 != p) }

/-- Writes a whole file. -/
def write (t : FileTree) (p : Place) (bytes : ByteArray) : Except FileError FileTree :=
  match t.obstacle? p with
  | some e => .error e
  | none => if t.isDir p then .error .isADirectory else .ok (t.setFile p bytes)

/-- Moves the file `source` to `target`, in place of a file that is there. -/
def rename (t : FileTree) (source target : Place) : Except FileError FileTree :=
  match t.read source with
  | .error e => .error e
  | .ok bytes =>
    match t.obstacle? target with
    | some e => .error e
    | none =>
      if t.isDir target then .error .isADirectory
      else if source = target then .ok t
      else .ok ((t.eraseFile source).setFile target bytes)

def remove (t : FileTree) (p : Place) : Except FileError FileTree :=
  match t.read p with
  | .error e => .error e
  | .ok _ => .ok (t.eraseFile p)

/-- Makes a directory and those above it. -/
def makeDir (t : FileTree) (p : Place) : Except FileError FileTree :=
  match (above p).findSome? fun dir => if t.isFile dir then some () else none with
  | some _ => .error .notADirectory
  | none =>
    if t.isFile p then .error .alreadyExists
    else .ok { t with dirs := t.dirs ++ ((above p ++ [p]).filter (!t.isDir ·)) }

/-- Makes one directory; the directory above it must be there. -/
def makeOne (t : FileTree) (cwd : Place) (path : Path) : Except FileError FileTree := do
  let p ← path.components.foldlM t.step cwd
  match t.obstacle? p with
  | some e => .error e
  | none =>
    if t.isFile p || t.isDir p then .error .alreadyExists
    else if path.isSelf then .error .notFound
    else .ok { t with dirs := t.dirs ++ [p] }

/-- Is there a directory at `path`? -/
def hasDir (t : FileTree) (cwd : Place) (path : Path) : Bool :=
  match t.locate cwd path with
  | .ok p => (t.notDir? p).isNone
  | .error _ => false

/-- Makes the first of some nested directories, innermost first, and as many of the others as it
needs. -/
def makeNested (t : FileTree) (cwd : Place) : List Path → Except FileError FileTree
  | [] => .error .notFound
  | path :: above =>
    if path.isEmpty then .ok t
    else
      let settle (t : FileTree) (e : FileError) : Except FileError FileTree :=
        if t.hasDir cwd path then .ok t else .error e
      match t.makeOne cwd path with
      | .ok t => .ok t
      | .error .notFound => do
        let t ← makeNested t cwd above
        match t.makeOne cwd path with
        | .ok t => .ok t
        | .error e => settle t e
      | .error e => settle t e

/-- Makes the directory at `path` and what is missing on the way there, also where the way leads
through `..`. -/
def makePath (t : FileTree) (cwd : Place) (path : Path) : Except FileError FileTree :=
  t.makeNested cwd path.ancestors

/-- Removes a directory with all that is below it. -/
def removeDir (t : FileTree) (p : Place) : Except FileError FileTree :=
  match t.obstacle? p with
  | some e => .error e
  | none =>
    if t.isFile p then .error .notADirectory
    else if t.isDir p then
      .ok { files := t.files.filter (!p.isPrefixOf ·.1), dirs := t.dirs.filter (!p.isPrefixOf ·) }
    else .error .notFound

/-- Adds a file and the directories above it. -/
def withFile (t : FileTree) (p : Place) (bytes : ByteArray) : FileTree :=
  { t with dirs := t.dirs ++ ((above p).filter (!t.isDir ·)) }.setFile p bytes

end FileTree

end Plumbline
