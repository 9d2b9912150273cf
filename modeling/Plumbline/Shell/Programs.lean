/-
The programs of an ordinary machine: the command interpreter and the usual small tools.
-/
import Plumbline.Shell.Launch
import Plumbline.Shell.Run

namespace Plumbline.Shell

/-- Directories that programs are looked for in. -/
def programDirs : List String := ["/usr/local/bin/", "/usr/bin/", "/bin/"]

/-- The name of a program that is written with its directory. -/
def baseName (program : String) : String :=
  (programDirs.findSome? fun dir =>
    (Text.stripPrefix? dir.toList program.toList).map String.ofList).getD program

/-- Is it a program of its own, and not only a word of the command interpreter? -/
def isProgram (name : String) : Bool := name == "sh" || (Utility.find? false name).isSome

/-- Starts the machine on a program. -/
def start (cwd : Place) (program : String) (args : List (List Char)) (tree : FileTree) : Machine :=
  let m : Machine := { tree, cwd }
  let name := baseName program
  let work : ShellM Unit :=
    if name == "sh" then interpret runFuel (ofString program) args
    else match Utility.find? false name with
      | some tool => do
        let o := tool m.bench args
        let slept := if name == "sleep" then milliseconds (args.headD []) else 0
        set { ((m.writeTo .out o.out).writeTo .err o.err) with
          tree := o.tree, status := o.status, slept }
      | none => pure ()
  (work.run m).2

/-- What is wrong with a file that is no program, but named by its path. -/
def refusal (cwd : Place) (program : String) (tree : FileTree) : Launch :=
  let p := Path.placeFrom cwd program
  match tree.obstacle? p with
  | some .notFound => .missing
  | some e => .refused e
  | none => if tree.isFile p || tree.isDir p then .refused .denied else .missing

def programs : Programs where
  launch cwd program args tree :=
    if !tree.isDir cwd then .missing
    else if isProgram (baseName program) then
      let m := start cwd program (args.map ofString) tree
      let code : Int := if m.halt = some .killed then -1 else m.status
      let written (parts : List (List Char)) : List UInt8 := (toBytes parts.reverse.flatten).toList
      .ended m.slept code (written m.out) (written m.err) m.tree
    else if program.toList.contains '/' then refusal cwd program tree
    else .missing

end Plumbline.Shell
