/-
Tools that a project names.

A tool is a command with its arguments, run in a directory of the project and given up after a
time.  Its exit code is not a failure: many tools end with another code than 0 to say that they
have found something.
-/
import Plumbline.Files.Disk
import Plumbline.Shell.Launch
import Plumbline.Text.Utf8

namespace Plumbline

/-- What is known after a tool was to be run. -/
inductive ToolRun where
  | notRun (reason : String)
  | timedOut (tool : String) (seconds : Nat)
  | ended (code : Int) (out err : String)
deriving Repr, DecidableEq, Inhabited

namespace ToolRun

/-- Why there is no result, if there is none. -/
def failure? : ToolRun → Option String
  | notRun reason => some reason
  | timedOut tool seconds => some (tool ++ " timed out after " ++ toString seconds ++ "s")
  | ended .. => none

def code? : ToolRun → Option Int
  | ended code _ _ => some code
  | _ => none

def out : ToolRun → String
  | ended _ out _ => out
  | _ => ""

def err : ToolRun → String
  | ended _ _ err => err
  | _ => ""

/-- Both outputs, for tools that report on either. -/
def combined (r : ToolRun) : String := r.out ++ "\n" ++ r.err

/-- Runs a command in a directory; a time of 0 seconds is no limit. -/
def start (programs : Programs) (command : List String) (tool : String) (seconds : Nat)
    (dir : Path) : DiskM ToolRun := fun d =>
  match command with
  | [] => (notRun "Empty command", d)
  | program :: args =>
    match programs.launch (d.place dir) program args d.tree with
    | .missing => (notRun (tool ++ " not found. Please install it first."), d)
    | .refused cause => (notRun ("Failed to run " ++ tool ++ ": " ++ cause.message), d)
    | .ended millis code out err tree =>
      let d := { d with tree }
      if seconds ≠ 0 ∧ seconds * 1000 < millis then (timedOut tool seconds, d)
      else (ended code (Utf8.textOf out) (Utf8.textOf err), d)

end ToolRun

end Plumbline
