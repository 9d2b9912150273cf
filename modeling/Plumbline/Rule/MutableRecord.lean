/-
Records of immutable layers must be frozen (ARC003).

The layer of a record may also come from one of its ancestors, so a record that derives from a
class of such a layer is covered wherever it stands.
-/
import Plumbline.Analysis.Resolve
import Plumbline.Rule.Basic

namespace Plumbline.MutableRecord

def code : String := "ARC003"

/-- Does the decorator of the record say that it is frozen? -/
def isFrozen (c : ClassDef) : Bool :=
  match c.dataclassDecorator? with
  | some { expr := .call _ _ keywords _, .. } =>
    keywords.any fun k => k.1 == "frozen" && (match k.2 with
      | .literal (.bool true) _ => true
      | _ => false)
  | _ => false

/-- Is the class a record that can be changed? -/
def isMutable (c : ClassDef) : Bool := c.dataclassDecorator?.isSome && !isFrozen c

def violation (ctx : RuleContext) (c : ClassDef) (layer : Layer) : Violation :=
  let v : Violation :=
    { code
      message := layer.name ++ " record `" ++ c.qualname ++ "` is a mutable dataclass"
      location := ctx.location c.span
      target := some { symbol := c.qualname } }
  if ctx.module.isAmbiguous c.qualname then v.asUnfixable sharedNameReason else v.asFixable

def check (ctx : RuleContext) (node : Node) : Query (Except Fault (List Violation)) :=
  match node.class? with
  | none => pure (.ok [])
  | some c =>
    if isMutable c then do
      let chain ← Query.ancestors ctx.module c
      match ctx.classifier.resolve? c.name ctx.file chain with
      | some layer =>
        pure (.ok (if ctx.classifier.isImmutable layer then [violation ctx c layer] else []))
      | none => pure (.ok [])
    else pure (.ok [])

def fix (v : Violation) (ctx : RuleContext) : Query (Except Fault (List Plan)) :=
  match v.target with
  | none => pure (.ok [])
  | some t =>
    if ctx.module.isAmbiguous t.symbol || (ctx.module.findClass? t.symbol).isNone then
      pure (.ok [])
    else pure (.ok [.freezeRecord t.symbol])

def instructions (v : Violation) : String :=
  "Declare `" ++ (v.target.map (·.symbol)).getD "the record" ++
    "` with `@dataclass(frozen=True)` and replace in-place updates with `dataclasses.replace`."

def rule : Rule Query :=
  { code
    name := "mutable-domain-record"
    description := "Dataclasses in immutable layers must be frozen"
    fixType := .code
    interests := [.classDef]
    watch := .checks check
    fixer := some { fix, instructions } }

end Plumbline.MutableRecord
