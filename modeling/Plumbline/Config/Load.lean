/-
The configuration files of a project.

`archfix.toml` comes first.  If it is missing or cannot be understood, `.archfixrc.json` is tried,
and after that everything has its default.
-/
import Plumbline.Analysis.Project
import Plumbline.Config.Decode

namespace Plumbline.ProjectConfig

/-- The text of a file in the root of the project. -/
def rootText? (p : Project) (name : String) : Option String :=
  (p.tree.locate p.cwd (p.root.join name) >>= p.tree.readText).toOption

/-- The configuration of a project. -/
def load (p : Project) : ProjectConfig :=
  (((rootText? p "archfix.toml").bind Toml.parse?).bind (Decode.config? .sections)).getD <|
    (((rootText? p ".archfixrc.json").bind Json.parse?).bind (Decode.config? .braces)).getD {}

end Plumbline.ProjectConfig
