/-
Configuration from data.

A record is read from an object, or from an array that lists its fields in order.  Missing fields
have their defaults, unknown ones are ignored, a known field that is written twice is refused, and
so is any value of the wrong kind.  The two kinds of configuration files differ in a few forms
(`Dialect`).
-/
import Plumbline.Config.Basic
import Plumbline.Config.Toml

namespace Plumbline

/-- What a kind of configuration file admits beyond the forms that all kinds share. -/
structure Dialect where
  /-- May an array have more items than the record it stands for has fields? -/
  extraItems : Bool
  /-- What may stand beside a name that is written as the only key of an object. -/
  isFiller : Json → Bool

namespace Dialect

/-- Data in brackets and braces. -/
def braces : Dialect where
  extraItems := false
  isFiller
    | .null => true
    | _ => false

/-- Lines and sections. -/
def sections : Dialect where
  extraItems := true
  isFiller
    | .obj [] | .arr [] => true
    | _ => false

end Dialect

namespace Decode

/-! ### Plain values -/

def string? : Json → Option String
  | .str s => some s
  | _ => none

def boolean? : Json → Option Bool
  | .bool b => some b
  | _ => none

/-- A whole number of 64 bits that is not negative. -/
def natural? : Json → Option Nat
  | .int n => if 0 ≤ n ∧ n < Decimal.wordBound then some n.toNat else none
  | _ => none

def list? {α : Type} (item? : Json → Option α) : Json → Option (List α)
  | .arr items => items.mapM item?
  | _ => none

/-- A value that may be absent. -/
def optional? {α : Type} (value? : Json → Option α) : Json → Option (Option α)
  | .null => some none
  | j => (value? j).map some

/-- Puts a pair in its place among pairs in the order of their keys, in place of an older one. -/
def insertPair {α : Type} (key : String) (value : α) : List (String × α) → List (String × α)
  | [] => [(key, value)]
  | (k, v) :: rest =>
    if key < k then (key, value) :: (k, v) :: rest
    else if k < key then (k, v) :: insertPair key value rest
    else (key, value) :: rest

/-- Pairs in the order of their keys; the last of several with one key counts. -/
def dictionary? {α : Type} (value? : Json → Option α) : Json → Option (List (String × α))
  | .obj fields => do
    let pairs ← fields.mapM fun (key, j) => (value? j).map (key, ·)
    pure (pairs.foldl (fun acc p => insertPair p.1 p.2 acc) [])
  | _ => none

/-! ### Records -/

section

variable (d : Dialect)

/-- The written fields of a record with these field names, in that order. -/
def fields? (names : List String) : Json → Option (List (Option Json))
  | .obj fields => names.mapM fun name =>
    match fields.filter (·.1 == name) with
    | [] => some none
    | [(_, j)] => some (some j)
    | _ => none
  | .arr items =>
    if d.extraItems ∨ items.length ≤ names.length then
      some ((items.map some).take names.length ++
        List.replicate (names.length - items.length) none)
    else none
  | _ => none

/-- A field, or its default if it is missing. -/
def orDefault? {α : Type} (value? : Json → Option α) (default : α) : Option Json → Option α
  | none => some default
  | some j => value? j

def suffix? (j : Json) : Option SuffixConvention := do
  match ← fields? d ["suffix", "layer"] j with
  | [some s, some l] => pure { suffix := ← string? s, layer := ← string? l }
  | _ => none

def directory? (j : Json) : Option DirectoryConvention := do
  match ← fields? d ["name", "layer"] j with
  | [some n, some l] => pure { name := ← string? n, layer := ← string? l }
  | _ => none

def layers? (j : Json) : Option LayerConfig := do
  let base : LayerConfig := {}
  match ← fields? d ["order", "immutable", "paths", "suffixes", "directories"] j with
  | [order, immutable, paths, suffixes, directories] =>
    pure
      { order := ← orDefault? (list? string?) base.order order
        immutable := ← orDefault? (list? string?) base.immutable immutable
        paths := ← orDefault? (dictionary? string?) base.paths paths
        suffixes := ← orDefault? (list? (suffix? d)) base.suffixes suffixes
        directories := ← orDefault? (list? (directory? d)) base.directories directories }
  | _ => none

/-- Whole numbers beyond 64 bits with sign are floats. -/
def threshold? : Json → Option Threshold
  | .int n => some (if n < Decimal.signedBound then .integer n else .float (Float.ofInt n))
  | .float x => some (.float x)
  | .bool b => some (.boolean b)
  | .str s => some (.text s)
  | _ => none

def ruleOverride? (j : Json) : Option RuleOverride := do
  match ← fields? d ["enabled", "thresholds"] j with
  | [enabled, thresholds] =>
    pure
      { enabled := ← orDefault? (optional? boolean?) none enabled
        thresholds := ← orDefault? (dictionary? threshold?) [] thresholds }
  | _ => none

def policyNamed? : String → Option OraclePolicy
  | "optimistic" => some .optimistic
  | "strict" => some .strict
  | _ => none

/-- A policy is given by its name, or by an object that has the name as its only key. -/
def policy? : Json → Option OraclePolicy
  | .str s => policyNamed? s
  | .obj [(name, filler)] => if d.isFiller filler then policyNamed? name else none
  | _ => none

def pipeline? (j : Json) : Option PipelineConfig := do
  let base : PipelineConfig := {}
  match ← fields? d ["validate", "backup", "interactive", "test_command", "test_timeout_secs",
      "oracle_policy", "formatter_commands", "max_formatter_iterations", "formatter_timeout_secs",
      "max_hint_rounds", "workers", "backup_dir"] j with
  | [validate, backup, interactive, command, timeout, policy, commands, iterations, limit, rounds,
      workers, dir] =>
    pure
      { validate := ← orDefault? boolean? base.validate validate
        backup := ← orDefault? boolean? base.backup backup
        interactive := ← orDefault? boolean? base.interactive interactive
        testCommand := ← orDefault? (list? string?) base.testCommand command
        testTimeout := ← orDefault? natural? base.testTimeout timeout
        oraclePolicy := ← orDefault? (policy? d) base.oraclePolicy policy
        formatterCommands := ← orDefault? (list? (list? string?)) base.formatterCommands commands
        maxFormatterIterations := ← orDefault? natural? base.maxFormatterIterations iterations
        formatterTimeout := ← orDefault? natural? base.formatterTimeout limit
        maxHintRounds := ← orDefault? natural? base.maxHintRounds rounds
        workers := ← orDefault? natural? base.workers workers
        backupDir := ← orDefault? (optional? string?) none dir }
  | _ => none

def exclude? (j : Json) : Option ExcludeConfig := do
  match ← fields? d ["paths", "skip_defaults"] j with
  | [paths, skip] =>
    pure
      { paths := ← orDefault? (list? string?) [] paths
        skipDefaults := ← orDefault? boolean? false skip }
  | _ => none

/-- A whole configuration. -/
def config? (j : Json) : Option ProjectConfig := do
  match ← fields? d ["layers", "rules", "pipeline", "exclude"] j with
  | [layers, rules, pipeline, exclude] =>
    pure
      { layers := ← orDefault? (layers? d) {} layers
        rules := ← orDefault? (dictionary? (ruleOverride? d)) [] rules
        pipeline := ← orDefault? (pipeline? d) {} pipeline
        exclude := ← orDefault? (exclude? d) {} exclude }
  | _ => none

end

end Decode

end Plumbline
