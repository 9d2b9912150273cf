/-
Remediation runs.

A run formats the files, then edits them in three passes, first type annotations, then other code,
then comments, and formats them again.  An editing pass evaluates every file before it edits any,
and edits one file at a time: ask, keep a snapshot, apply the plans, run the tests, and put the
snapshot back if more tests fail than before the run.  Only a snapshot that cannot be taken or put
back ends a run.

Who runs the tests, answers questions and formats is a parameter, and may keep a state of its own.
So is who applies plans; if nobody is named, they are applied as a whole or not at all.  What was
found out about files is forgotten whenever files may have changed.
-/
import Plumbline.Files.CacheDir
import Plumbline.Fix.Apply
import Plumbline.Remedy.Backup
import Plumbline.Remedy.Formatter
import Plumbline.Remedy.Summary
import Plumbline.Remedy.TestRun
import Plumbline.Rule.Evaluate

namespace Plumbline

/-- Those who take part in a run, with a state of type `σ` of their own. -/
structure Crew (σ : Type) where
  /-- Runs the tests; without it, edits are not validated. -/
  tests : Option (StateT σ DiskM TestOutcome)
  /-- May these plans be applied to this file? -/
  confirm : Path → List Plan → StateT σ DiskM Bool
  /-- Formats files and counts those that changed; nothing if that failed. -/
  format : List Path → StateT σ DiskM (Option Nat)

/-- Who applies plans to a file.  The answer says whether the file changed. -/
def Applier (σ : Type) : Type := Path → List Plan → StateT σ DiskM (Except ApplyError Bool)

/-- Applies plans as a whole or not at all, and asks nobody. -/
def Applier.standard {σ : Type} : Applier σ := fun path plans => liftM (Plan.applyToFile path plans)

/-- A run before it starts, in which plans are applied by `apply`. -/
structure Remediation (σ : Type) (apply : Applier σ := .standard) where
  root : Path
  config : ProjectConfig
  registry : Registry
  crew : Crew σ

/-- What changes during a run. -/
structure RunState (σ : Type) where
  disk : Disk
  crew : σ
  /-- Where snapshots are kept; without it nothing can be put back. -/
  store : Option BackupStore := none
  cache : Cache := {}
  summary : RunSummary := {}

/-- A step of a run, which may have to give up. -/
abbrev RunM (σ : Type) := ExceptT BackupError (StateM (RunState σ))

namespace RunM

variable {σ : Type}

/-- Works on the disk. -/
def onDisk {α : Type} (work : DiskM α) : RunM σ α := do
  let s ← get
  let (a, disk) := work.run s.disk
  set { s with disk }
  pure a

/-- Lets someone of the crew work. -/
def byCrew {α : Type} (work : StateT σ DiskM α) : RunM σ α := do
  let s ← get
  let ((a, crew), disk) := (work.run s.crew).run s.disk
  set { s with disk, crew }
  pure a

def report (f : RunSummary → RunSummary) : RunM σ Unit :=
  modify fun s => { s with summary := f s.summary }

/-- Forgets what was found out about files. -/
def clearCache : RunM σ Unit := modify fun s => { s with cache := {} }

end RunM

namespace Remediation

variable {σ : Type} {apply : Applier σ}

open RunM

/-! ### Tests -/

/-- The number of failures under the policy of the run; nothing if the worst is to be assumed. -/
def observed (policy : OraclePolicy) : TestOutcome → Option Nat
  | .completed failures => some failures
  | _ =>
    match policy with
    | .optimistic => some 0
    | .strict => none

/-- Have more tests failed than before?  An unknown number counts as more. -/
def isWorse : (baseline after : Option Nat) → Bool
  | some before, some after => before < after
  | _, _ => true

/-- Runs the tests; nothing if there are none to be run. -/
def runTests (r : Remediation σ apply) : RunM σ (Option (Option Nat)) :=
  match r.crew.tests with
  | none => pure none
  | some tests => do
    let outcome ← byCrew tests
    pure (some (observed r.config.pipeline.oraclePolicy outcome))

/-! ### Snapshots -/

/-- Keeps what a file holds. -/
def snapshot (path : Path) : RunM σ (Option Snapshot) := do
  match (← get).store with
  | none => pure none
  | some store =>
    let (result, store) ← onDisk (store.snapshot path)
    modify fun s => { s with store := some store }
    match result with
    | .ok shot => pure (some shot)
    | .error e => throw e

/-- Drops a snapshot. -/
def discard : Option Snapshot → RunM σ Unit
  | none => pure ()
  | some shot => do
    match (← get).store with
    | none => pure ()
    | some store =>
      let store ← onDisk (store.discard shot)
      modify fun s => { s with store := some store }

/-- Puts back what a file held, and drops the snapshot. -/
def rollBack : Option Snapshot → RunM σ Unit
  | none => pure ()
  | some shot => do
    match ← onDisk (BackupStore.restore shot) with
    | .error e => throw e
    | .ok () => discard (some shot)

/-! ### Editing -/

/-- Decides by the tests whether an edit stays. -/
def validate (r : Remediation σ apply) (pass : Pass) (file : Path) (baseline : Option Nat)
    (shot : Option Snapshot) : RunM σ FileResult := do
  match ← r.runTests with
  | none =>
    discard shot
    pure .modified
  | some after =>
    if isWorse baseline after then
      rollBack shot
      report fun s => { s with regressions := s.regressions ++ [⟨file, pass, baseline, after⟩] }
      pure .rolledBack
    else
      discard shot
      pure .modified

/-- Applies the plans for one file as a unit. -/
def transact (r : Remediation σ apply) (pass : Pass) (e : FileEvaluation) (baseline : Option Nat) :
    RunM σ FileResult := do
  if ← byCrew (r.crew.confirm e.path e.plans) then
    let path := r.root.join e.path
    let shot ← snapshot path
    match ← byCrew (apply path e.plans) with
    | .ok true => r.validate pass e.path baseline shot
    | .ok false =>
      discard shot
      pure .unchanged
    | .error cause =>
      report fun s =>
        { s with applierFailures := s.applierFailures ++ [⟨e.path, pass, cause.message⟩] }
      discard shot
      pure .unchanged
  else pure .unchanged

/-- An editing pass in progress. -/
structure PassState where
  pass : Pass
  baseline : Option Nat
  summary : PassSummary := {}
  /-- Files that were put back and are left alone from then on. -/
  reverted : List Path := []
  /-- Files that the current round has changed. -/
  changed : Nat := 0
deriving Inhabited

/-- Edits one file, if there is anything to do. -/
def editFile (r : Remediation σ apply) (first : Bool) (state : PassState) (e : FileEvaluation) :
    RunM σ PassState := do
  let counted := if first then
      { state.summary with
        filesEvaluated := state.summary.filesEvaluated + 1
        violations := state.summary.violations + e.violations.length }
    else state.summary
  let state := { state with summary := counted }
  report (·.recordFailures e.failures)
  if e.plans.isEmpty || state.reverted.any (Path.same e.path) then pure state
  else
    let result ← r.transact state.pass e state.baseline
    report (·.recordFile e.path result)
    pure
      { state with
        summary := state.summary.add result
        reverted := if result = .rolledBack then state.reverted ++ [e.path] else state.reverted
        changed := if result = .modified then state.changed + 1 else state.changed }

/-- Evaluates all files as they are now. -/
def evaluate (r : Remediation σ apply) (s : Selection) (files : List Path) :
    RunM σ (List FileEvaluation) := do
  let state ← get
  let project : Project := { root := r.root, tree := state.disk.tree, cwd := state.disk.cwd }
  let (evaluations, cache) := ((r.registry.evaluate r.config s files).run project).run state.cache
  set { state with cache }
  pure evaluations

/-- One round of an editing pass; violations are counted in the first round only. -/
def editFiles (r : Remediation σ apply) (s : Selection) (files : List Path) (first : Bool)
    (state : PassState) : RunM σ PassState := do
  if r.registry.hasRules s then
    let evaluations ← r.evaluate s files
    let state ← evaluations.foldlM (r.editFile first) { state with changed := 0 }
    clearCache
    pure state
  else
    clearCache
    pure { state with changed := 0 }

/-- Rounds of an editing pass, until one changes nothing. -/
def editRounds (r : Remediation σ apply) (s : Selection) (files : List Path) :
    (left : Nat) → (first : Bool) → PassState → RunM σ PassState
  | 0, _, state => pure state
  | left + 1, first, state => do
    let state ← r.editFiles s files first state
    if state.changed = 0 then pure state else editRounds r s files left false state

/-! ### Passes -/

def formatFiles (r : Remediation σ apply) (files : List Path) : RunM σ PassSummary := do
  let changed ← byCrew (r.crew.format files)
  clearCache
  pure { filesEvaluated := files.length, modified := changed.getD 0 }

def runPass (r : Remediation σ apply) (files : List Path) (baseline : Option Nat) (pass : Pass) :
    RunM σ Unit := do
  let summary ← match pass with
    | .mechanicalNormalization | .finalCleanup => r.formatFiles files
    | .typeHints => do
      let rounds := max 1 r.config.pipeline.maxHintRounds
      pure (← r.editRounds .typeHints files rounds true { pass, baseline }).summary
    | .architectureFixes => do
      pure (← r.editFiles .architecture files true { pass, baseline }).summary
    | .governanceNotes => do
      pure (← r.editFiles .governance files true { pass, baseline }).summary
  report (·.recordPass pass summary)

/-- Lists what is left for a person. -/
def conclude (r : Remediation σ apply) (files : List Path) : RunM σ Unit := do
  for e in ← r.evaluate .all files do
    report fun s =>
      { s.recordFailures e.failures with
        unresolved := s.unresolved ++ e.violations.filter (!·.fixable) }

/-- All passes over some files, given from the root or as absolute paths below it. -/
def run (r : Remediation σ apply) (files : List Path) : RunM σ RunSummary := do
  let files := files.map fun f => (f.relativeTo? r.root).getD f
  let baseline := (← r.runTests).getD none
  report fun s => { s with baseline }
  for pass in Pass.all do
    r.runPass files baseline pass
  r.conclude files
  pure (← get).summary

/-- Where a run keeps snapshots: a run that is validated always keeps them, so that its edits can be
put back. -/
def backupDir? (settings : PipelineConfig) (root : Path) (cacheHome : Path) : Option Path :=
  if !settings.backup && !settings.validate then none
  else match settings.backupDir with
    | some dir => some (root.join dir)
    | none => some (cacheHome.join (CacheDir.backups root))

end Remediation

end Plumbline
