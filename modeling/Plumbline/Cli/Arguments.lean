/-
The command line.

Options may stand before or after the command; those that every command knows may be given on both
sides, and then what follows the command counts.  An option is given once on each side.
-/
import Plumbline.Files.Path

namespace Plumbline.Cli

inductive Format where
  | text | json
deriving Repr, DecidableEq, Inhabited

structure FixOptions where
  validate : Bool := true
  backup : Bool := true
  interactive : Bool := false
  strictOracle : Bool := false
  format : Bool := true
  output : Format := .text
deriving Repr, DecidableEq, Inhabited

inductive Command where
  | check (output : Format)
  | fix (options : FixOptions)
  | restore
  | rules
deriving Repr, DecidableEq, Inhabited

/-- What the user asks for. -/
inductive Request where
  | run (path : Path) (workers : Option Nat) (command : Command)
  | version
  | help
deriving Repr, DecidableEq, Inhabited

/-- Why a command line is not followed to its end. -/
inductive Stop where
  | misuse
  | version
  | help
deriving Repr, DecidableEq, Inhabited

/-- An option by its long name. -/
structure Switch where
  name : String
  short : Option Char := none
  takesValue : Bool := false
deriving Repr, DecidableEq, Inhabited

/-- Options that every command knows. -/
def everywhere : List Switch :=
  [⟨"log-level", none, true⟩, ⟨"workers", none, true⟩, ⟨"help", some 'h', false⟩]

/-- The options behind a command, or in front of it. -/
def switches : Option String → List Switch
  | none => ⟨"version", some 'V', false⟩ :: everywhere
  | some "check" => ⟨"format", some 'f', true⟩ :: everywhere
  | some "fix" =>
    [⟨"no-validate", none, false⟩, ⟨"no-backup", none, false⟩, ⟨"interactive", some 'i', false⟩,
     ⟨"strict-oracle", none, false⟩, ⟨"no-format", none, false⟩, ⟨"format", some 'f', true⟩] ++
      everywhere
  | some _ => everywhere

def commandNames : List String := ["check", "fix", "restore", "rules"]

def maxWorkers : Nat := 64

/-- A number of workers, which may have a plus sign. -/
def workers? (value : String) : Option Nat :=
  let digits := match value.toList with
    | '+' :: ds => ds
    | ds => ds
  if digits.isEmpty || !digits.all Char.isDigit then none
  else
    let n := digits.foldl (fun n d => n * 10 + (d.toNat - 48)) 0
    if n ≤ maxWorkers then some n else none

/-- Is a value allowed for an option? -/
def isValid (name value : String) : Bool :=
  match name with
  | "format" => ["text", "json"].contains value
  | "log-level" => ["error", "warn", "info", "debug", "trace"].contains value
  | "workers" => (workers? value).isSome
  | "path" => !value.isEmpty
  | _ => true

/-- What has been read so far. -/
structure Given where
  command : Option String := none
  /-- What stands in front of the command. -/
  before : List (String × String) := []
  /-- What stands behind it, or in front of it as long as there is none. -/
  own : List (String × String) := []
deriving Repr, Inhabited

namespace Given

/-- Notes an option, once. -/
def put (g : Given) (name value : String) : Except Stop Given :=
  if name == "help" then .error .help
  else if name == "version" then .error .version
  else if (g.own.lookup name).isSome || !isValid name value then .error .misuse
  else .ok { g with own := g.own ++ [(name, value)] }

def value? (g : Given) (name : String) : Option String :=
  (g.own.lookup name).or (g.before.lookup name)

def has (g : Given) (name : String) : Bool := (g.own.lookup name).isSome

/-- An argument that is no option: a command, or the path of the project. -/
def positional (g : Given) (arg : String) : Except Stop Given :=
  if g.command.isNone && commandNames.contains arg then
    .ok { command := some arg, before := g.own }
  else g.put "path" arg

end Given

/-- Does an argument look like an option? -/
def isOption (arg : String) : Bool := arg.toList.head? == some '-' && arg != "-"

/-- The value of an option that is not attached to it, and the arguments behind it. -/
def nextValue : List String → Except Stop (String × List String)
  | [] => .error .misuse
  | arg :: rest => if isOption arg then .error .misuse else .ok (arg, rest)

/-- Options of one letter, written together. -/
def letters (g : Given) (rest : List String) : List Char → Except Stop (Given × List String)
  | [] => .ok (g, rest)
  | c :: cs =>
    match (switches g.command).find? (·.short == some c) with
    | none => .error .misuse
    | some s =>
      if s.takesValue then
        match cs with
        | [] => do
          let (value, rest) ← nextValue rest
          pure (← g.put s.name value, rest)
        | '=' :: value => do pure (← g.put s.name (String.ofList value), rest)
        | value => do pure (← g.put s.name (String.ofList value), rest)
      else do letters (← g.put s.name "") rest cs

/-- An option by its long name, perhaps with a value attached. -/
def long (g : Given) (rest : List String) (text : List Char) :
    Except Stop (Given × List String) :=
  let (name, attached) := match Text.cut? '=' text with
    | some (name, value) => (String.ofList name, some (String.ofList value))
    | none => (String.ofList text, none)
  match (switches g.command).find? (·.name == name), attached with
  | none, _ => .error .misuse
  | some s, some value =>
    if s.takesValue then do pure (← g.put s.name value, rest) else .error .misuse
  | some s, none =>
    if s.takesValue then do
      let (value, rest) ← nextValue rest
      pure (← g.put s.name value, rest)
    else do pure (← g.put s.name "", rest)

/-- What the word `help` asks for: help, perhaps about one command. -/
def helpFor : List String → Stop
  | [] => .help
  | [name] => if name == "help" || commandNames.contains name then .help else .misuse
  | _ => .misuse

/-- Reads arguments; at most `fuel` of them. -/
def scan : (fuel : Nat) → Given → List String → Except Stop Given
  | 0, g, _ => .ok g
  | _, g, [] => .ok g
  | fuel + 1, g, arg :: rest =>
    match arg.toList with
    | ['-', '-'] => rest.foldlM (fun g a => g.put "path" a) g
    | '-' :: '-' :: text => do
      let (g, rest) ← long g rest text
      scan fuel g rest
    | '-' :: c :: cs => do
      let (g, rest) ← letters g rest (c :: cs)
      scan fuel g rest
    | _ =>
      if g.command.isNone && arg == "help" then .error (helpFor rest)
      else do scan fuel (← g.positional arg) rest

def outputFormat (g : Given) : Format :=
  if g.value? "format" == some "json" then .json else .text

/-- The command that was asked for; without one, a check. -/
def commandOf (g : Given) : Command :=
  match g.command with
  | some "fix" =>
    .fix
      { validate := !g.has "no-validate", backup := !g.has "no-backup"
        interactive := g.has "interactive", strictOracle := g.has "strict-oracle"
        format := !g.has "no-format", output := outputFormat g }
  | some "restore" => .restore
  | some "rules" => .rules
  | _ => .check (outputFormat g)

/-- What a command line asks for; nothing if it is misused. -/
def request? (args : List String) : Option Request :=
  match scan args.length {} args with
  | .error .misuse => none
  | .error .version => some .version
  | .error .help => some .help
  | .ok g =>
    some (.run ((g.value? "path").getD ".") ((g.value? "workers").bind workers?) (commandOf g))

end Plumbline.Cli
