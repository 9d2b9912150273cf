/-
Where the data of a project is kept.

Each project has a directory of its own below the user's cache directory.  It is named after the
project, so that a person can recognize it, and after a digest of the project's path, so that two
projects of one name stay apart.
-/
import Plumbline.Files.Path
import Plumbline.Text.Digest
import Plumbline.Text.Letter

namespace Plumbline.CacheDir

/-- Characters of a project's name that are kept, at most. -/
def nameLimit : Nat := 20

/-- The name of a project's own directory. -/
def entryName (root : Path) : String :=
  let name := (root.fileName?.getD "project").toList.filter
    fun c => isLetterOrDigit c || c == '-' || c == '_'
  let digest := Digest.hex ((Digest.sha256 root.toUTF8.toList).take 6)
  String.ofList (name.take nameLimit) ++ "-" ++ digest

/-- A project's directory below the user's cache directory. -/
def ofProject (root : Path) : Path := "archfix/" ++ entryName root

/-- The directory of the snapshots that are taken before edits. -/
def backups (root : Path) : Path := ofProject root ++ "/backups"

end Plumbline.CacheDir
