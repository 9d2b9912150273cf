/-
The source files of a project.
-/
import Plumbline.Config.Basic
import Plumbline.Files.Ignore

namespace Plumbline.Discovery

/-- The source files at or below `root`, as paths from there and in order, without those that rule
files or the configuration leave out. -/
def sourceFiles (t : FileTree) (root : Place) (config : ProjectConfig) : List Path :=
  let candidates := t.files.map (·.1) |>.filter fun p =>
    root.isPrefixOf p && (p.getLast?.bind Path.extension?) == some "py" && Ignore.isReached t root p
  let paths := candidates.map fun p => "/".intercalate (p.drop root.length)
  (paths.filter (!config.excludes ·)).mergeSort Path.le

end Plumbline.Discovery
