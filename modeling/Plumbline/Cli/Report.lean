/-
What the commands print.
-/
import Plumbline.Remedy.Summary
import Plumbline.Rule.Evaluate
import Plumbline.Text.Json

namespace Plumbline.Report

/-! ### Text -/

def padEnd (width : Nat) (s : String) : String :=
  s ++ String.ofList (List.replicate (width - s.length) ' ')

def padStart (width : Nat) (s : String) : String :=
  String.ofList (List.replicate (width - s.length) ' ') ++ s

def lines (ls : List String) : String := String.join (ls.map (· ++ "\n"))

/-- How a violation can be dealt with. -/
def remedyText (v : Violation) : String :=
  if v.commentOnly then "comment" else if v.fixable then "fixable" else "manual"

def violationLines (registry : Registry) (v : Violation) : List String :=
  let own := v.location.text ++ " " ++ v.code ++ " " ++ v.message ++ " [" ++ remedyText v ++ "]"
  let advice := if v.fixable then none else registry.instructions? v
  own :: (advice.map ("    " ++ ·)).toList

def evaluationLines (registry : Registry) (e : FileEvaluation) : List String :=
  (e.parseError.map fun cause => "skipped " ++ e.path ++ ": " ++ cause).toList ++
    e.failures.map (fun f => "rule error " ++ f.text) ++
    (e.violations.map (violationLines registry)).flatten

def violationCount (es : List FileEvaluation) : Nat :=
  es.foldr (fun e n => e.violations.length + n) 0

def checkText (registry : Registry) (files : Nat) (es : List FileEvaluation) : String :=
  let total := violationCount es
  let headline := toString total ++ " violations in " ++ toString files ++ " files"
  lines ((es.map (evaluationLines registry)).flatten) ++
    if total = 0 then headline ++ "\n"
    else "\n" ++ headline ++ "\nRun `archfix fix` to apply the fixable ones.\n"

def passLine (pass : Pass) (s : PassSummary) : String :=
  padEnd 36 pass.text ++ " " ++ padStart 4 (toString s.modified) ++ " modified  " ++
    padStart 4 (toString s.rolledBack) ++ " rolled back  " ++
    padStart 4 (toString s.violations) ++ " found"

def countText : Option Nat → String
  | some n => toString n
  | none => "?"

def regressionLine (r : Regression) : String :=
  "Rolled back " ++ r.file ++ " (" ++ r.pass.text ++ "): test failures went from " ++
    countText r.baseline ++ " to " ++ countText r.observed

def failureLine (f : ApplierFailure) : String :=
  "Not applied " ++ f.file ++ " (" ++ f.pass.text ++ "): " ++ f.cause

def unresolvedLines (registry : Registry) (v : Violation) : List String :=
  ("  " ++ v.text) :: ((registry.instructions? v).map ("    " ++ ·)).toList

def fixText (registry : Registry) (s : RunSummary) : String :=
  lines <|
    (s.baseline.map fun n => "Baseline: " ++ toString n ++ " failing tests").toList ++
    s.passes.map (fun (pass, stats) => passLine pass stats) ++
    s.regressions.map regressionLine ++
    s.applierFailures.map failureLine ++
    s.ruleFailures.map (fun f => "Rule error " ++ f.text) ++
    (if s.unresolved.isEmpty then []
      else ["", "Needs a human:"] ++ (s.unresolved.map (unresolvedLines registry)).flatten) ++
    ["", "Done: " ++ toString s.modified.length ++ " files modified, " ++
      toString s.rolledBack.length ++ " rolled back"]

def fixTypeText : FixType → String
  | .code => "code"
  | .commentOnly => "comment-only"

/-- The catalogue, with the rules that are turned off. -/
def rulesText (config : ProjectConfig) : String :=
  lines <| (Registry.catalogue {}).map fun rule =>
    (if config.isEnabled rule.code rule.name then "on " else "off") ++ " " ++ rule.code ++ " " ++
      padEnd 30 rule.name ++ " " ++ padEnd 12 (fixTypeText rule.fixType) ++ " " ++ rule.description

/-- What is asked before a file is edited. -/
def question (path : Path) (plans : List Plan) : String :=
  "\nFix: " ++ path ++ "\n" ++ lines (plans.map fun p => "  • " ++ p.text) ++
    "Apply these changes? [y/N] "

/-- A failure with its causes, outermost first. -/
def errorText (message : String) (causes : List String) : String :=
  let listed := match causes with
    | [] => ""
    | [cause] => "\n\nCaused by:\n    " ++ cause
    | _ => "\n\nCaused by:" ++
        String.join (causes.zipIdx.map fun (cause, n) => "\n    " ++ toString n ++ ": " ++ cause)
  "Error: " ++ message ++ listed ++ "\n"

/-! ### JSON -/

def violationFields (v : Violation) : List (String × Json) :=
  [("code", .str v.code), ("message", .str v.message),
   ("location", .obj
     [("file", .str v.location.file), ("line", .ofNat v.location.line),
      ("column", .ofNat v.location.column)]),
   ("fixable", .bool v.fixable)] ++
  (v.reason.map fun r => ("fix_failure_reason", Json.str r)).toList ++
  [("is_comment_only", .bool v.commentOnly)] ++
  (v.target.map fun t => ("target", Json.obj (("symbol", .str t.symbol) ::
    (t.member.map fun m => ("member", Json.str m)).toList))).toList

def checkJson (registry : Registry) (files : Nat) (es : List FileEvaluation) : Json :=
  .obj
    [("files", .ofNat files),
     ("violations", .arr ((es.map (·.violations)).flatten.map fun v =>
       .obj (violationFields v ++
         [("instructions", Json.ofOption Json.str (registry.instructions? v))]))),
     ("parse_errors", .arr (es.filterMap fun e =>
       e.parseError.map fun cause => .arr [.str e.path, .str cause])),
     ("rule_failures", .arr ((es.map (·.failures)).flatten.map fun f => .str f.text))]

def passJson (s : PassSummary) : Json :=
  .obj
    [("files_evaluated", .ofNat s.filesEvaluated), ("modified_count", .ofNat s.modified),
     ("rolled_back_count", .ofNat s.rolledBack), ("violations", .ofNat s.violations)]

def fixJson (s : RunSummary) : Json :=
  .obj
    [("passes", .arr (s.passes.map fun (pass, stats) => .arr [.str pass.key, passJson stats])),
     ("modified", .arr (s.modified.map .str)),
     ("rolled_back", .arr (s.rolledBack.map .str)),
     ("rule_failures", .arr (s.ruleFailures.map fun f =>
       .obj [("code", .str f.code), ("file", .str f.file), ("message", .str f.message)])),
     ("applier_failures", .arr (s.applierFailures.map fun f =>
       .obj [("file", .str f.file), ("pass", .str f.pass.key), ("cause", .str f.cause)])),
     ("regressions", .arr (s.regressions.map fun r =>
       .obj [("file", .str r.file), ("pass", .str r.pass.key),
         ("baseline", Json.ofOption Json.ofNat r.baseline),
         ("observed", Json.ofOption Json.ofNat r.observed)])),
     ("unresolved", .arr (s.unresolved.map fun v => .obj (violationFields v))),
     ("baseline_failures", Json.ofOption Json.ofNat s.baseline)]

end Plumbline.Report
