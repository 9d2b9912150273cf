/-
The commands.

A command works on a disk and ends with an exit code and what it prints.  A check that finds
violations, and a command that fails, end with 1; a command line that is misused ends with 2.
-/
import Plumbline.Cli.Arguments
import Plumbline.Cli.Discovery
import Plumbline.Cli.Report
import Plumbline.Config.Load
import Plumbline.Remedy.Run

namespace Plumbline.Cli

/-- What a command leaves on the screen. -/
structure Ending where
  code : Nat := 0
  out : String := ""
  err : String := ""
deriving Repr, DecidableEq, Inhabited

/-- What a command finds on the machine. -/
structure Surroundings where
  programs : Programs
  /-- The user's cache directory. -/
  cacheHome : Path

def versionText : String := "archfix 0.1.0\n"

def helpText : String :=
  Report.lines
    ["Architecture-convention linter for Python with a gated, test-validated fix pipeline", "",
     "Usage: archfix [OPTIONS] [PATH] [COMMAND]", "",
     "Examples:",
     "  archfix . check                     Report violations (exit 1 if any)",
     "  archfix . check --format json       JSON output for scripting",
     "  archfix . fix                       Run all fix passes, validated by the test suite",
     "  archfix . fix --no-validate         Apply fixes without running tests",
     "  archfix . restore                   Roll back edits left by an interrupted run",
     "  archfix rules                       List the rule catalogue"]

def Ending.ofError (message : String) (causes : List String) : Ending :=
  { code := 1, err := Report.errorText message causes }

/-- The ending of a command whose project cannot be found. -/
def inaccessible (path : Path) (cause : FileError) : Ending :=
  .ofError ("Cannot access " ++ path) [cause.message]

/-- The project at `root` as it is on the disk. -/
def projectAt (root : Path) (d : Disk) : Project := { root, tree := d.tree, cwd := d.cwd }

/-- The source files of a project. -/
def sourceFiles (root : Path) (config : ProjectConfig) (d : Disk) : List Path :=
  Discovery.sourceFiles d.tree (d.place root) config

/-- Evaluates every rule and changes nothing. -/
def check (path : Path) (format : Format) : DiskM Ending := do
  match ← Disk.canonical path with
  | .error e => pure (inaccessible path e)
  | .ok root =>
    let d ← get
    let project := projectAt root d
    let config := ProjectConfig.load project
    let files := sourceFiles root config d
    let registry := Registry.ofConfig config
    let (es, _) := ((registry.evaluate config .all files).run project).run {}
    let out := match format with
      | .json => Json.pretty 0 (Report.checkJson registry files.length es) ++ "\n"
      | .text => Report.checkText registry files.length es
    pure { code := if Report.violationCount es = 0 then 0 else 1, out }

/-- The configuration of a project with what the command line says. -/
def withOptions (config : ProjectConfig) (o : FixOptions) : ProjectConfig :=
  let p := config.pipeline
  { config with
    pipeline :=
      { p with
        validate := p.validate && o.validate
        backup := p.backup && o.backup
        interactive := p.interactive || o.interactive
        oraclePolicy := if o.strictOracle then .strict else p.oraclePolicy } }

/-- Those who take part in a run from the command line; their state is what they have printed.
Without a terminal nobody can approve of a plan. -/
def crew (s : Surroundings) (settings : PipelineConfig) (root : Path) (format : Bool) :
    Crew String where
  tests :=
    if settings.validate then
      some (TestRun.perform s.programs settings.testCommand settings.testTimeout root)
    else none
  confirm path plans :=
    if settings.interactive then do
      modify (· ++ Report.question path plans)
      pure false
    else pure true
  format files :=
    if format then do
      let f : Formatter :=
        { commands := settings.formatterCommands, maxRounds := settings.maxFormatterIterations
          timeout := settings.formatterTimeout }
      pure (some (← f.normalize s.programs root files))
    else pure (some 0)

/-- The ending of a remediation run. -/
def fixEnding (registry : Registry) (format : Format) :
    Except BackupError RunSummary → Ending
  | .error e =>
    .ofError "Remediation aborted; run `archfix restore` to undo partial edits"
      [e.message, e.cause.message]
  | .ok summary =>
    match format with
    | .json => { out := Json.pretty 0 (Report.fixJson summary) ++ "\n" }
    | .text => { err := Report.fixText registry summary }

/-- A remediation run. -/
def fix (s : Surroundings) (path : Path) (o : FixOptions) : DiskM Ending := do
  match ← Disk.canonical path with
  | .error e => pure (inaccessible path e)
  | .ok root =>
    let config := withOptions (ProjectConfig.load (projectAt root (← get))) o
    let files := sourceFiles root config (← get)
    let store ← match Remediation.backupDir? config.pipeline root s.cacheHome with
      | some dir => do pure (some (← BackupStore.onDisk dir))
      | none => pure none
    let registry := Registry.ofConfig config
    let r : Remediation String :=
      { root, config, registry, crew := crew s config.pipeline root o.format }
    let (result, state) := (r.run files).run.run { disk := ← get, crew := "", store }
    set state.disk
    let ending := fixEnding registry o.output result
    pure { ending with err := state.crew ++ ending.err }

/-- Undoes what an interrupted run left. -/
def restore (s : Surroundings) (path : Path) : DiskM Ending := do
  match ← Disk.canonical path with
  | .error e => pure (inaccessible path e)
  | .ok root =>
    let config := ProjectConfig.load (projectAt root (← get))
    let dir := match config.pipeline.backupDir with
      | some dir => root.join dir
      | none => s.cacheHome.join (CacheDir.backups root)
    let store ← BackupStore.onDisk dir
    if store.pending.isEmpty then pure { err := "Nothing to restore.\n" }
    else match ← store.recover with
      | (.error e, _) => pure (.ofError e.message [e.cause.message])
      | (.ok restored, _) =>
        pure { err := Report.lines (restored.map ("Restored " ++ ·) ++
          [toString restored.length ++ " files restored"]) }

/-- Lists the rules. -/
def rules (path : Path) : DiskM Ending := do
  let config := ProjectConfig.load (projectAt path (← get))
  pure { out := Report.rulesText config }

/-- Does what a command line asks for. -/
def execute (s : Surroundings) (args : List String) : DiskM Ending :=
  match request? args with
  | none => pure { code := 2, err := "error: invalid arguments; try --help\n" }
  | some .version => pure { out := versionText }
  | some .help => pure { out := helpText }
  | some (.run path _ command) =>
    match command with
    | .check format => check path format
    | .fix options => fix s path options
    | .restore => restore s path
    | .rules => rules path

end Plumbline.Cli
