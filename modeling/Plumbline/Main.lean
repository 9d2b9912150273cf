/-
The program.

It reads the files of the project into a tree, lets the command work on that tree, and writes back
what has changed.  Everything else is in the modules that it calls.
-/
import Plumbline.Cli.Commands
import Plumbline.Shell.Programs

namespace Plumbline.Main

/-- Adds a file or directory, with all that lies below it. -/
partial def load (t : FileTree) (path : String) : IO FileTree := do
  let place := Path.placeFrom [] path
  let real := (← IO.currentDir) / path
  if ← real.isDir then
    let t := { t with dirs := t.dirs ++ ((FileTree.above place ++ [place]).filter (!t.isDir ·)) }
    let mut t := t
    for entry in ← real.readDir do
      t ← load t (Path.join path entry.fileName)
    pure t
  else if ← real.pathExists then
    pure (t.withFile place (← IO.FS.readBinFile path))
  else pure t

/-- Adds the rule files of the directories above a place. -/
def loadRules (t : FileTree) (p : Place) : IO FileTree := do
  let mut t := t
  for dir in Ignore.dirsAbove p do
    for (file, _) in Ignore.ruleFiles do
      let place := dir ++ file
      let path := (← IO.currentDir) / Path.ofPlace place
      if ← path.pathExists then
        t := t.withFile place (← IO.FS.readBinFile path)
  pure t

/-- Makes the files on the disk what they are in `after`; `before` is what they were. -/
def store (before after : FileTree) : IO Unit := do
  for (place, bytes) in after.files do
    if before.file? place != some bytes then
      IO.FS.createDirAll (Path.ofPlace place.dropLast)
      IO.FS.writeBinFile (Path.ofPlace place) bytes
  for (place, _) in before.files do
    unless after.isFile place do
      IO.FS.removeFile (Path.ofPlace place)

/-- The time at which a file is written now. -/
def now : IO Timestamp := do
  let (_, path) ← IO.FS.createTempFile
  let time := (← path.metadata).modified
  IO.FS.removeFile path
  pure ⟨time.sec, time.nsec.toNat⟩

def cacheHome : IO Path := do
  match ← IO.getEnv "XDG_CACHE_HOME" with
  | some dir => pure dir
  | none => pure (Path.join ((← IO.getEnv "HOME").getD ".") ".cache")

/-- Runs a command line and gives its exit code. -/
def run (args : List String) : IO UInt32 := do
  let cwd := Path.placeFrom [] (← IO.currentDir).toString
  let home ← cacheHome
  let target := match Cli.request? args with
    | some (.run path _ _) => path
    | _ => "."
  let place := Path.placeFrom cwd target
  let mut tree ← loadRules { dirs := FileTree.above cwd ++ [cwd] } place
  for path in [Path.ofPlace place, Path.join home "archfix"] do
    if ← ((← IO.currentDir) / path).pathExists then
      tree ← load tree path
  let disk : Disk := { tree, cwd, now := ← now, drawn := ← IO.rand 0 0xffffffffffff }
  let (ending, disk) := (Cli.execute ⟨Shell.programs, home⟩ args).run disk
  store tree disk.tree
  (← IO.getStdout).putStr ending.out
  (← IO.getStderr).putStr ending.err
  pure ending.code.toUInt32

end Plumbline.Main

def main (args : List String) : IO UInt32 := Plumbline.Main.run args
