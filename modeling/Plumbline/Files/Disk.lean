/-
A disk that can fail.

A disk holds a tree of files and counts the operations that are done on it.  Which operations fail
is part of the disk: `faults n` is the fault of operation `n`, if it has one.  An operation with a
fault changes nothing, except that a write can fail when its file has been opened and a part of the
content is there.  A machine that dies in operation `k` leaves the tree that a disk leaves on which
this and every later operation fails, so statements about all disks speak about every crash as well.

The disk also hands out names for new files that no other file has, and knows the time.
-/
import Plumbline.Files.Tree
import Plumbline.Text.Timestamp

namespace Plumbline

/-- How an operation fails. -/
structure DiskFault where
  error : FileError
  /-- How much of the content a write has put into its file; nothing if it did not open the file. -/
  written : Option Nat := none

structure Disk where
  tree : FileTree := {}
  /-- Where relative paths start. -/
  cwd : Place := []
  /-- Operations so far. -/
  steps : Nat := 0
  faults : Nat → Option DiskFault := fun _ => none
  /-- Names handed out so far. -/
  drawn : Nat := 0
  now : Timestamp := ⟨0, 0⟩

instance : Inhabited Disk := ⟨{}⟩

/-- A computation that works on a disk. -/
abbrev DiskM := StateM Disk

namespace Disk

/-- One operation: the disk's fault for it, or what `f` makes of the tree. -/
def perform {α : Type} (f : FileTree → Except FileError (α × FileTree)) :
    DiskM (Except FileError α) := fun d =>
  let next := { d with steps := d.steps + 1 }
  match d.faults d.steps with
  | some fault => (.error fault.error, next)
  | none =>
    match f d.tree with
    | .error e => (.error e, next)
    | .ok (a, tree) => (.ok a, { next with tree })

/-- An operation that only changes the tree. -/
def change (f : FileTree → Except FileError FileTree) : DiskM (Except FileError Unit) :=
  perform fun t => (f t).map fun t' => ((), t')

/-- An operation that only looks. -/
def look {α : Type} (f : FileTree → Except FileError α) : DiskM (Except FileError α) :=
  perform fun t => (f t).map fun a => (a, t)

def place (d : Disk) (path : Path) : Place := path.placeFrom d.cwd

def read (path : Path) : DiskM (Except FileError ByteArray) := do
  let d ← get
  look fun t => t.locate d.cwd path >>= t.read

def readText (path : Path) : DiskM (Except FileError String) := do
  let d ← get
  look fun t => t.locate d.cwd path >>= t.readText

/-- The tree with `bytes` in a file. -/
def put (cwd : Place) (path : Path) (bytes : ByteArray) (t : FileTree) :
    Except FileError FileTree := t.locate cwd path >>= (t.write · bytes)

/-- The tree when the next operation is a write that fails. -/
def torn (d : Disk) (path : Path) (bytes : ByteArray) : FileTree :=
  match (d.faults d.steps).bind (·.written) with
  | none => d.tree
  | some n => (put d.cwd path (bytes.extract 0 n) d.tree).toOption.getD d.tree

/-- Writes a file, which is opened first: a write that fails may leave a part of the content in place
of what the file held. -/
def write (path : Path) (bytes : ByteArray) : DiskM (Except FileError Unit) := do
  let d ← get
  match ← change (put d.cwd path bytes) with
  | .ok () => pure (.ok ())
  | .error e =>
    modify fun d' => { d' with tree := d.torn path bytes }
    pure (.error e)

def rename (source target : Path) : DiskM (Except FileError Unit) := do
  let d ← get
  change fun t => do t.rename (← t.locate d.cwd source) (← t.locate d.cwd target)

def remove (path : Path) : DiskM (Except FileError Unit) := do
  let d ← get
  change fun t => t.locate d.cwd path >>= t.remove

def makeDir (path : Path) : DiskM (Except FileError Unit) := do
  let d ← get
  change (·.makePath d.cwd path)

def removeDir (path : Path) : DiskM (Except FileError Unit) := do
  let d ← get
  change fun t => t.locate d.cwd path >>= t.removeDir

/-- The absolute path of something that exists. -/
def canonical (path : Path) : DiskM (Except FileError Path) := do
  let d ← get
  look fun t => do
    let p ← t.locate d.cwd path
    match t.obstacle? p with
    | some e => .error e
    | none => if t.isFile p || t.isDir p then .ok (Path.ofPlace p) else .error .notFound

/-- The sibling through which a file is replaced. -/
def draftPath (path : Path) : Path :=
  path.withFileName ("." ++ path.fileName?.getD "" ++ ".archfix-tmp")

/-- Replaces a file as a whole: the new content is written beside it and then takes its name. -/
def replace (path : Path) (bytes : ByteArray) : DiskM (Except FileError Unit) := do
  let draft := draftPath path
  match ← write draft bytes with
  | .error e => pure (.error e)
  | .ok () =>
    match ← rename draft path with
    | .ok () => pure (.ok ())
    | .error e =>
      let _ ← remove draft
      pure (.error e)

/-- The `n`-th name for a new file. -/
def freshName (n : Nat) : String :=
  let digits := Nat.toDigits 16 n
  "00000000-0000-4000-8000-" ++
    String.ofList (List.replicate (12 - digits.length) '0' ++ digits)

/-- A name that was not handed out before. -/
def draw : DiskM String := fun d => (freshName d.drawn, { d with drawn := d.drawn + 1 })

end Disk

end Plumbline
