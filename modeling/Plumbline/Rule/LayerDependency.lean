/-
Inner layers must not import outer ones (ARC001).

A file of a layer may import modules of its own layer and of layers before it in the configured
order.  The fix is a comment at the import; moving code is left to a person.
-/
import Plumbline.Analysis.Resolve
import Plumbline.Rule.Basic

namespace Plumbline.LayerDependency

def code : String := "ARC001"

def violation (ctx : RuleContext) (i : Import) (importer imported : Layer)
    (written absolute : String) : Violation :=
  { code
    message := importer.name ++ " layer imports " ++ imported.name ++ " module `" ++ absolute ++ "`"
    location := ctx.location i.span
    fixable := true
    commentOnly := true
    target := some { symbol := written } }

/-- The layer of a module, if it comes after the layer of rank `rank`. -/
def outerLayer? (c : LayerClassifier) (rank : Nat) (absolute : String) : Option Layer := do
  let layer ← c.ofModule? absolute
  if rank < (← c.rank? layer) then some layer else none

/-- The modules of an import that lie in outer layers: as written, absolute, and their layers.
Each is named once. -/
def breaches (c : LayerClassifier) (rank : Nat) :
    List String → List (String × String) → List (String × String × Layer)
  | _, [] => []
  | seen, (written, absolute) :: rest =>
    match outerLayer? c rank absolute with
    | none => breaches c rank seen rest
    | some layer =>
      if seen.contains written then breaches c rank seen rest
      else (written, absolute, layer) :: breaches c rank (written :: seen) rest

def check (ctx : RuleContext) (node : Node) : Query (Except Fault (List Violation)) :=
  match node.import? with
  | none => pure (.ok [])
  | some i =>
    let found : Option (List Violation) := do
      let importer ← ctx.classifier.ofPath? ctx.file
      let rank ← ctx.classifier.rank? importer
      let modules := i.writtenModules.zip (ctx.module.importedModules i)
      pure ((breaches ctx.classifier rank [] modules).map fun (written, absolute, imported) =>
        violation ctx i importer imported written absolute)
    pure (.ok (found.getD []))

def fix (v : Violation) (_ : RuleContext) : Query (Except Fault (List Plan)) :=
  match v.target with
  | none => pure (.ok [])
  | some t => pure (.ok [.injectComment (.module t.symbol) (code ++ " " ++ v.message)])

def instructions (v : Violation) : String :=
  v.message ++
    ". Depend on an abstraction owned by the inner layer and implement it in the outer one."

def rule : Rule Query :=
  { code
    name := "layer-dependency"
    description := "Inner layers must not import outer layers"
    fixType := .commentOnly
    interests := [.importing]
    watch := .checks check
    fixer := some { fix, instructions } }

end Plumbline.LayerDependency
