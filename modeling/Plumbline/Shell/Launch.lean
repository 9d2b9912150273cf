/-
Starting programs.

What programs there are and what they do is a parameter of everything that starts one: a program
gets its arguments, the directory it starts in and the files, and leaves the files changed.
-/
import Plumbline.Files.Tree

namespace Plumbline

/-- What comes of starting a program. -/
inductive Launch where
  /-- There is no such program. -/
  | missing
  | refused (cause : FileError)
  /-- It ran for so many milliseconds, ended with a code (-1 if it was killed), wrote something and
  left the files as they are now. -/
  | ended (millis : Nat) (code : Int) (out err : List UInt8) (tree : FileTree)
deriving Inhabited

/-- The programs of a machine. -/
structure Programs where
  launch : (cwd : Place) → (program : String) → (args : List String) → FileTree → Launch

instance : Inhabited Programs := ⟨⟨fun _ _ _ _ => .missing⟩⟩

end Plumbline
