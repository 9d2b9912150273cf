/-
Applying plans.

Each plan is resolved in the text that the plan before it left, and that text must still be a
module.  A file is replaced as a whole, and only if all its plans succeed and change something.
-/
import Plumbline.Files.Disk
import Plumbline.Fix.Edit
import Plumbline.Module.Lower

namespace Plumbline

/-- Why plans could not be applied. -/
inductive ApplyError where
  | unreadable (path : Path) (cause : FileError)
  | unwritable (path : Path) (cause : FileError)
  | unparsable (path : Path)
  | targetMissing (path : Path) (target : String)
  | brokenOutput (path : Path) (target : String)
deriving Repr, DecidableEq, Inhabited

namespace ApplyError

def path : ApplyError → Path
  | unreadable p _ | unwritable p _ | unparsable p | targetMissing p _ | brokenOutput p _ => p

def message : ApplyError → String
  | unreadable p cause => "failed to read " ++ p ++ ": " ++ cause.message
  | unwritable p cause => "failed to write " ++ p ++ ": " ++ cause.message
  | unparsable p => p ++ " does not parse before the edit"
  | targetMissing p target => "target `" ++ target ++ "` not found in " ++ p
  | brokenOutput p target => "edit for `" ++ target ++ "` in " ++ p ++ " produced invalid syntax"

end ApplyError

namespace Plan

/-- The text after one plan. -/
def applyTo (path : Path) (text : String) (plan : Plan) : Except ApplyError String :=
  match Module.parse text path "" with
  | .error _ => .error (.brokenOutput path plan.target)
  | .ok m =>
    match plan.edit? m text.toList with
    | .error target => .error (.targetMissing path target)
    | .ok none => .ok text
    | .ok (some e) =>
      let edited := String.ofList (e.apply text.toList)
      if Syntax.isValid edited then .ok edited else .error (.brokenOutput path plan.target)

/-- The text after all plans. -/
def applyAll (path : Path) (source : String) (plans : List Plan) : Except ApplyError String :=
  if Syntax.isValid source then plans.foldlM (applyTo path) source
  else .error (.unparsable path)

/-- Applies plans to a file; the answer says whether it changed. -/
def applyToFile (path : Path) (plans : List Plan) : DiskM (Except ApplyError Bool) := do
  match ← Disk.readText path with
  | .error e => pure (.error (.unreadable path e))
  | .ok source =>
    match applyAll path source plans with
    | .error e => pure (.error e)
    | .ok updated =>
      if updated = source then pure (.ok false)
      else match ← Disk.replace path updated.toUTF8 with
        | .ok () => pure (.ok true)
        | .error e => pure (.error (.unwritable path e))

end Plan

end Plumbline
