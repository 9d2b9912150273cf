/-
Configuration of a project.

Everything has a default, so an empty configuration is complete.  Overrides of rules are looked up
by code first, then by the code in small letters, then by the rule's name.
-/
import Plumbline.Config.Glob
import Plumbline.Config.RuleName
import Plumbline.Files.Path

namespace Plumbline

/-- A symbol whose name ends in `suffix` belongs to `layer`. -/
structure SuffixConvention where
  suffix : String
  layer : String
deriving Repr, DecidableEq, Inhabited

/-- A file below a directory called `name` belongs to `layer`. -/
structure DirectoryConvention where
  name : String
  layer : String
deriving Repr, DecidableEq, Inhabited

/-- Layers, and how symbols and files are assigned to them. -/
structure LayerConfig where
  /-- From innermost to outermost. -/
  order : List String := ["Domain", "UseCase", "Infrastructure", "Interface"]
  /-- Layers whose records must be immutable. -/
  immutable : List String := ["Domain"]
  /-- Layers of path or module prefixes, in the order of the prefixes. -/
  paths : List (String × String) := []
  suffixes : List SuffixConvention :=
    [⟨"Entity", "Domain"⟩, ⟨"ValueObject", "Domain"⟩, ⟨"Aggregate", "Domain"⟩,
     ⟨"UseCase", "UseCase"⟩, ⟨"Interactor", "UseCase"⟩, ⟨"Service", "UseCase"⟩,
     ⟨"Repository", "Infrastructure"⟩, ⟨"Gateway", "Infrastructure"⟩,
     ⟨"Adapter", "Infrastructure"⟩, ⟨"Client", "Infrastructure"⟩, ⟨"Controller", "Interface"⟩,
     ⟨"View", "Interface"⟩, ⟨"Router", "Interface"⟩]
  directories : List DirectoryConvention :=
    [⟨"domain", "Domain"⟩, ⟨"entities", "Domain"⟩, ⟨"usecases", "UseCase"⟩,
     ⟨"use_cases", "UseCase"⟩, ⟨"application", "UseCase"⟩, ⟨"services", "UseCase"⟩,
     ⟨"infrastructure", "Infrastructure"⟩, ⟨"adapters", "Infrastructure"⟩,
     ⟨"repositories", "Infrastructure"⟩, ⟨"persistence", "Infrastructure"⟩, ⟨"api", "Interface"⟩,
     ⟨"interface", "Interface"⟩, ⟨"interfaces", "Interface"⟩, ⟨"web", "Interface"⟩,
     ⟨"cli", "Interface"⟩, ⟨"controllers", "Interface"⟩]
deriving Repr, DecidableEq, Inhabited

/-- A setting of a rule. -/
inductive Threshold where
  | integer (n : Int)
  | float (x : Float)
  | boolean (b : Bool)
  | text (s : String)
deriving Repr, Inhabited

namespace Threshold

/-- A number as a whole number of 64 bits: the fraction is dropped, what is too large is the
nearest such number, and what is no number at all is zero. -/
def int? : Threshold → Option Int
  | integer n => some n
  | float x => some x.toInt64.toInt
  | _ => none

def bool? : Threshold → Option Bool
  | boolean b => some b
  | _ => none

def str? : Threshold → Option String
  | text s => some s
  | _ => none

end Threshold

/-- What a project says about a rule. -/
structure RuleOverride where
  enabled : Option Bool := none
  thresholds : List (String × Threshold) := []
deriving Repr, Inhabited

/-- What to make of a test run that gives no count of failures. -/
inductive OraclePolicy where
  /-- It counts as a run without failures. -/
  | optimistic
  /-- It counts as a regression. -/
  | strict
deriving Repr, DecidableEq, Inhabited

/-- Settings of a remediation run. -/
structure PipelineConfig where
  /-- Run the tests after each edit and undo what makes them worse. -/
  validate : Bool := true
  /-- Keep snapshots on disk. -/
  backup : Bool := true
  /-- Ask before each edit. -/
  interactive : Bool := false
  testCommand : List String := ["pytest", "-q"]
  testTimeout : Nat := 300
  oraclePolicy : OraclePolicy := .optimistic
  formatterCommands : List (List String) :=
    [["ruff", "check", "--fix", "--select", "I"], ["ruff", "format"]]
  maxFormatterIterations : Nat := 5
  formatterTimeout : Nat := 120
  maxHintRounds : Nat := 3
  workers : Nat := 0
  backupDir : Option Path := none
deriving Repr, DecidableEq, Inhabited

/-- Which paths are left out. -/
structure ExcludeConfig where
  paths : List String := []
  skipDefaults : Bool := false
deriving Repr, DecidableEq, Inhabited

/-- Environments and caches of tools, which no project wants to be looked at. -/
def defaultExcludes : List String :=
  ["**/.venv/**", "**/venv/**", "**/.tox/**", "**/site-packages/**", "**/node_modules/**",
   "**/__pycache__/**", "**/.git/**"]

/-- All patterns, each once, the default ones first. -/
def ExcludeConfig.patterns (e : ExcludeConfig) : List String :=
  e.paths.foldl (fun acc p => if acc.contains p then acc else acc ++ [p])
    (if e.skipDefaults then [] else defaultExcludes)

structure ProjectConfig where
  layers : LayerConfig := {}
  /-- In the order of the keys. -/
  rules : List (String × RuleOverride) := []
  pipeline : PipelineConfig := {}
  exclude : ExcludeConfig := {}
deriving Repr, Inhabited

namespace ProjectConfig

/-- The entry that applies to a rule. -/
def override? (c : ProjectConfig) (code name : String) : Option RuleOverride :=
  (c.rules.lookup code).or <|
    (c.rules.lookup code.toLower).or <|
      (c.rules.lookup (RuleName.normalize name)).or (c.rules.lookup name)

/-- Rules are on unless they are turned off. -/
def isEnabled (c : ProjectConfig) (code name : String) : Bool :=
  ((c.override? code name).bind (·.enabled)).getD true

def threshold? (c : ProjectConfig) (code name key : String) : Option Threshold :=
  (c.override? code name).bind (·.thresholds.lookup key)

/-- Is the path, seen from the root of the project, left out? -/
def excludes (c : ProjectConfig) (path : Path) : Bool :=
  let path := String.ofList (Text.replaceChar '\\' '/' path.toList)
  c.exclude.patterns.any fun pattern => Glob.matchesPath pattern path

def isImmutable (c : ProjectConfig) (layer : String) : Bool := c.layers.immutable.contains layer

end ProjectConfig

end Plumbline
