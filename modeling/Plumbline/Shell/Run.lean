/-
Running scripts.

A machine holds what a script can see and change: the files, the directory it is in, its variables
and arguments, its input, and what it has written.  Loops and nested scripts use up fuel, so every
run ends.
-/
import Plumbline.Shell.Expand
import Plumbline.Shell.Syntax
import Plumbline.Shell.Utility

namespace Plumbline.Shell

/-- Where what a command writes goes. -/
inductive Sink where
  | out | err | nowhere
  | file (p : Place)
deriving Repr, DecidableEq, Inhabited

/-- Why a script stops before its end. -/
inductive Halt where
  | exited (status : Nat)
  | killed
  | leaveLoop
  | nextRound
deriving Repr, DecidableEq, Inhabited

structure Machine where
  tree : FileTree
  cwd : Place
  input : List Char := []
  vars : List (String × List Char) := []
  /-- The name under which the script runs. -/
  name : List Char := ofString "sh"
  args : List (List Char) := []
  status : Nat := 0
  /-- The status of the last script whose output stands in the command that is being run. -/
  inner : Nat := 0
  /-- What was written to the output, last first. -/
  out : List (List Char) := []
  err : List (List Char) := []
  sink : Sink := .out
  errSink : Sink := .err
  halt : Option Halt := none
  /-- Does a command that fails end the script? -/
  strict : Bool := false
  /-- Milliseconds slept. -/
  slept : Nat := 0
deriving Inhabited

abbrev ShellM := StateM Machine

namespace Machine

def bench (m : Machine) : Bench := { tree := m.tree, cwd := m.cwd, input := m.input }

def set (m : Machine) (name : String) (value : List Char) : Machine :=
  { m with vars := (name, value) :: m.vars.filter (·.1 != name) }

/-- Writes to a sink. -/
def writeTo (m : Machine) (s : Sink) (cs : List Char) : Machine :=
  if cs.isEmpty then m
  else match s with
    | .out => { m with out := cs :: m.out }
    | .err => { m with err := cs :: m.err }
    | .nowhere => m
    | .file p =>
      let old := ((m.tree.file? p).map ofBytes).getD []
      { m with tree := m.tree.setFile p (toBytes (old ++ cs)) }

/-- A complaint about a line of the script. -/
def complainAt (m : Machine) (line : Nat) (message : String) (status : Nat) : Machine :=
  let text := m.name ++ ofString (": " ++ toString line ++ ": " ++ message ++ "\n")
  { m.writeTo m.errSink text with status }

/-- A complaint of the script itself. -/
def complain (m : Machine) (message : String) (status : Nat) : Machine :=
  m.complainAt 1 message status

/-- Back to the surroundings `outer` after a nested script: only files and what was written stay. -/
def leave (m outer : Machine) : Machine :=
  { outer with
    tree := m.tree, out := m.out, err := m.err, status := m.status, slept := m.slept
    halt := if m.halt = some .killed then some .killed else outer.halt }

/-- The status with which a script ends. -/
def endStatus (m : Machine) : Nat :=
  match m.halt with
  | some (.exited n) => n
  | _ => m.status

/-- The number that the script knows itself by. -/
def processId : List Char := ofString "4242"

/-- The value of a parameter, if it is set. -/
def value? (m : Machine) (name : String) : Option (List Char) :=
  match name with
  | "#" => some (Nat.toDigits 10 m.args.length)
  | "?" => some (Nat.toDigits 10 m.status)
  | "$" => some processId
  | "*" | "@" => some ([' '].intercalate m.args)
  | "0" => some m.name
  | "PWD" => some (ofString (Path.ofPlace m.cwd))
  | _ =>
    match number? name.toList with
    | some n => m.args[n.toNat - 1]?
    | none => m.vars.lookup name

/-- The text of a parameter in braces, with a part taken off or counted. -/
def braced (m : Machine) (inside : String) : List Char :=
  match inside.toList with
  | '#' :: c :: rest => Nat.toDigits 10 ((m.value? (String.ofList (c :: rest))).getD []).length
  | cs =>
    let name := cs.takeWhile isNamePart
    let value := (m.value? (String.ofList (if name.isEmpty then cs else name))).getD []
    if name.isEmpty then value
    else match cs.drop name.length with
      | '%' :: '%' :: p => dropMatchingEnd true p value
      | '%' :: p => dropMatchingEnd false p value
      | '#' :: '#' :: p => dropMatchingStart true p value
      | '#' :: p => dropMatchingStart false p value
      | _ => value

end Machine

/-- Opens a file for a redirection. -/
def openOutput (append : Bool) (arg : List Char) (m : Machine) : Except String (Sink × Machine) :=
  if arg = ofString "/dev/null" then .ok (.nowhere, m)
  else
    let p := m.bench.place arg
    let old := if append then (m.tree.file? p).getD ⟨#[]⟩ else ⟨#[]⟩
    match m.tree.write p old with
    | .ok tree => .ok (.file p, { m with tree })
    | .error .isADirectory => .error ("cannot create " ++ String.ofList arg ++ ": Is a directory")
    | .error _ => .error ("cannot create " ++ String.ofList arg ++ ": Directory nonexistent")

def openInput (arg : List Char) (m : Machine) : Except String Machine :=
  if arg = ofString "/dev/null" then .ok { m with input := [] }
  else match m.bench.read arg with
    | .ok input => .ok { m with input }
    | .error _ => .error ("cannot open " ++ String.ofList arg ++ ": No such file")

/-- The commands that work on the machine itself. -/
def builtin? (name : String) (args : List (List Char)) (m : Machine) : Option Machine :=
  let ok : Machine := { m with status := 0 }
  match name with
  | ":" => some ok
  | "exit" =>
    let status := ((args.head?.bind number?).map fun n => (n % 256).toNat).getD m.status
    some { m with halt := some (.exited status), status }
  | "break" => some { ok with halt := some .leaveLoop }
  | "continue" => some { ok with halt := some .nextRound }
  | "shift" =>
    let n := ((args.head?.bind number?).getD 1).toNat
    some { ok with args := m.args.drop n }
  | "set" =>
    match args with
    | ['-', '-'] :: rest => some { ok with args := rest }
    | ('-' :: letters) :: _ => some { ok with strict := m.strict || letters.contains 'e' }
    | ('+' :: letters) :: _ => some { ok with strict := m.strict && !letters.contains 'e' }
    | [] => some ok
    | rest => some { ok with args := rest }
  | "cd" =>
    let arg := args.headD []
    let p := m.bench.place arg
    if m.tree.isDir p then some { ok with cwd := p }
    else some (m.complain ("cd: can't cd to " ++ String.ofList arg) 2)
  | "export" | "readonly" =>
    some (args.foldl (fun m a =>
      match Text.cut? '=' a with
      | some (name, value) => m.set (String.ofList name) value
      | none => m) ok)
  | "unset" => some { ok with vars := m.vars.filter fun v => !args.contains v.1.toList }
  | "read" =>
    let args := args.filter (· != ['-', 'r'])
    match Text.cut? '\n' m.input with
    | some (line, rest) =>
      let name := String.ofList (args.headD [])
      some ({ ok with input := rest }.set name (Text.trim line))
    | none =>
      let name := String.ofList (args.headD [])
      some ({ m with input := [], status := 1 }.set name (Text.trim m.input))
  | "kill" =>
    let target := args.getLast?.getD []
    if target = Machine.processId then
      if args.contains ['-', '0'] then some ok else some { m with halt := some .killed }
    else some (m.complain "kill: No such process" 1)
  | "wait" => some ok
  | _ => none

/-- Milliseconds of a number of seconds with a decimal point. -/
def milliseconds (cs : List Char) : Nat :=
  let whole := cs.takeWhile Char.isDigit
  let part := (cs.drop (whole.length + 1)).takeWhile Char.isDigit
  let digits := (part ++ ['0', '0', '0']).take 3
  ((number? whole).getD 0).toNat * 1000 + ((number? digits).getD 0).toNat

mutual

/-- The fields of a word. -/
def fieldsOf (fuel : Nat) (w : Word) (f : Fields) : ShellM Fields :=
  match fuel with
  | 0 => pure f
  | fuel + 1 => do
    match w with
    | [] => pure f
    | p :: rest =>
      let f ← match p with
        | .text cs quoted => pure (f.add cs quoted)
        | .param "@" _ true => do pure (f.addApart (← get).args)
        | .param name fallback quoted => do
          let m ← get
          let text ← match fallback with
            | none => pure (m.braced name)
            | some other =>
              let value := (m.value? name).getD []
              if value.isEmpty then
                match tokens? (other.length + 1) other [] with
                | some [.word w] => textOf fuel w
                | _ => pure other
              else pure value
          pure (if quoted then f.add text true else f.addSplit text)
        | .arithmetic expr quoted => do
          let m ← get
          let look (name : String) : Int := ((m.value? name).bind number?).getD 0
          let text := match Arithmetic.eval? look expr with
            | some n => ofNumber n
            | none => []
          pure (if quoted then f.add text true else f.addSplit text)
        | .output script quoted => do
          let text ← outputOf fuel script
          pure (if quoted then f.add text true else f.addSplit text)
      fieldsOf fuel rest f

/-- The text of a word that is not cut into fields. -/
def textOf (fuel : Nat) (w : Word) : ShellM (List Char) :=
  match fuel with
  | 0 => pure []
  | fuel + 1 => do
    let quoted := w.map fun
      | .text cs _ => .text cs true
      | .param name fallback _ => .param (if name == "@" then "*" else name) fallback true
      | .arithmetic e _ => .arithmetic e true
      | .output s _ => .output s true
    let fields ← fieldsOf fuel quoted {}
    pure ((fields.toList.map fun field => field.map (·.1)).flatten)

/-- What a script writes to its output, without line ends at its end. -/
def outputOf (fuel : Nat) (script : List Char) : ShellM (List Char) :=
  match fuel with
  | 0 => pure []
  | fuel + 1 => do
    let outer ← get
    set { outer with out := [], sink := .out }
    runScript fuel script
    let m ← get
    set { (m.leave outer) with out := outer.out, status := outer.status, inner := m.endStatus }
    pure (Text.dropEndWhile (· == '\n') m.out.reverse.flatten)

def runScript (fuel : Nat) (script : List Char) : ShellM Unit :=
  match fuel with
  | 0 => pure ()
  | fuel + 1 =>
    match parse? script with
    | some c => run fuel false c
    | none => modify fun m =>
      { m.complain "Syntax error: unexpected end of file" 2 with halt := some (.exited 2) }

/-- A program with its arguments. -/
def call (fuel : Nat) (name : List Char) (args : List (List Char)) : ShellM Unit :=
  match fuel with
  | 0 => pure ()
  | fuel + 1 => do
    let m ← get
    let text := String.ofList name
    match builtin? text args m with
    | some m => set m
    | none =>
      let base := ((Text.stripPrefix? "/usr/bin/".toList name).or
        (Text.stripPrefix? "/bin/".toList name)).getD name
      if base = ['s', 'h'] then interpret fuel name args
      else match Utility.find? (base == name) (String.ofList base) with
        | some tool =>
          let o := tool m.bench args
          let slept := if base = ofString "sleep" then milliseconds (args.headD []) else 0
          set { (({ m with tree := o.tree }.writeTo m.sink o.out).writeTo m.errSink o.err) with
            status := o.status, slept := m.slept + slept }
        | none =>
          if name.contains '/' && m.tree.isFile (m.bench.place name) then
            set (m.complain (text ++ ": Permission denied") 126)
          else set (m.complain (text ++ ": not found") 127)

/-- The command interpreter as a program that was called by a name. -/
def interpret (fuel : Nat) (self : List Char) (args : List (List Char)) : ShellM Unit :=
  match fuel with
  | 0 => pure ()
  | fuel + 1 => do
    let outer ← get
    let start (name : List Char) (args : List (List Char)) (strict : Bool) : Machine :=
      { outer with name, args, strict, status := 0, halt := none }
    let inside (m : Machine) (script : List Char) : ShellM Unit := do
      set m
      runScript fuel script
      let m ← get
      set { (m.leave outer) with status := m.endStatus }
    let (strict, args) := match args with
      | ['-', 'e'] :: rest => (true, rest)
      | _ => (false, args)
    match args with
    | ['-', 'c'] :: script :: rest =>
      inside (start (rest.headD self) rest.tail strict) script
    | ['-', 'e', 'c'] :: script :: rest =>
      inside (start (rest.headD self) rest.tail true) script
    | [['-', 'c']] | [['-', 'e', 'c']] =>
      let m := start self [] false
      set { ((m.complainAt 0 "-c requires an argument" 2).leave outer) with status := 2 }
    | file :: rest =>
      match outer.bench.read file with
      | .ok script => inside (start file rest strict) script
      | .error _ =>
        let m := start self [] false
        let message := "cannot open " ++ String.ofList file ++ ": No such file"
        set { ((m.complainAt 0 message 2).leave outer) with status := 2 }
    | [] => inside (start self [] strict) outer.input

/-- Follows redirections; says whether all could be opened. -/
def redirect (fuel : Nat) (rs : List Redirect) : ShellM Bool :=
  match fuel with
  | 0 => pure false
  | fuel + 1 => do
    match rs with
    | [] => pure true
    | r :: rest =>
      let opened : Except String Machine ← match r with
        | .input w => do
          let arg ← textOf fuel w
          pure (openInput arg (← get))
        | .output fd append w => do
          let arg ← textOf fuel w
          pure ((openOutput append arg (← get)).map fun (sink, m) =>
            if fd = 2 then { m with errSink := sink } else { m with sink })
        | .copy fd source => do
          let m ← get
          pure (.ok (if fd = 2 then
              { m with errSink := if source = 1 then m.sink else m.errSink }
            else { m with sink := if source = 2 then m.errSink else m.sink }))
      match opened with
      | .ok m =>
        set m
        redirect fuel rest
      | .error message =>
        modify (·.complain message 2)
        pure false

/-- Runs a command.  A command is guarded if its status is asked for, so that a failure is no
reason to end a strict script. -/
def run (fuel : Nat) (guarded : Bool) (c : Command) : ShellM Unit :=
  match fuel with
  | 0 => pure ()
  | fuel + 1 => do
    let outer ← get
    match c with
    | .nothing => pure ()
    | .simple assigns words redirects =>
      let mut fields : List (List Char) := []
      set { outer with inner := 0 }
      for w in words do
        let f ← fieldsOf fuel w {}
        let m ← get
        fields := fields ++ (f.toList.map (fieldTexts m.tree m.cwd)).flatten
      if fields.isEmpty then
        for (name, w) in assigns do
          let text ← textOf fuel w
          modify (·.set name text)
        modify fun m => { m with status := m.inner }
      let m ← get
      if ← redirect fuel redirects then
        match fields with
        | [] => pure ()
        | name :: args =>
          for (name, w) in assigns do
            let text ← textOf fuel w
            modify (·.set name text)
          call fuel name args
          unless assigns.isEmpty do modify fun n => { n with vars := m.vars }
      modify fun n =>
        let n := { n with sink := m.sink, errSink := m.errSink }
        let n := if redirects.any fun | .input _ => true | _ => false
          then { n with input := m.input } else n
        if n.strict && !guarded && n.status != 0 && n.halt.isNone then
          { n with halt := some (.exited n.status) }
        else n
    | .pipe first second =>
      set { outer with out := [], sink := .out, halt := none }
      run fuel true first
      let left ← get
      let middle := left.leave outer
      set { middle with out := outer.out, input := left.out.reverse.flatten, halt := none }
      run fuel guarded second
      let right ← get
      set { (right.leave outer) with
        status := right.endStatus
        halt := if right.halt = some Halt.killed then right.halt else none }
    | .negated body =>
      run fuel true body
      modify fun m => { m with status := if m.status = 0 then 1 else 0 }
    | .sequence first second =>
      run fuel guarded first
      unless (← get).halt.isSome do run fuel guarded second
    | .both first second =>
      run fuel true first
      let m ← get
      if m.halt.isNone && m.status = 0 then run fuel guarded second
    | .either first second =>
      run fuel true first
      let m ← get
      if m.halt.isNone && m.status != 0 then run fuel guarded second
    | .conditional test yes no =>
      run fuel true test
      let m ← get
      if m.halt.isNone then
        if m.status = 0 then run fuel guarded yes
        else match no with
          | .nothing => set { m with status := 0 }
          | no => run fuel guarded no
    | .loop whileTrue test body =>
      run fuel true test
      let m ← get
      if m.halt.isNone then
        if (m.status == 0) == whileTrue then
          run fuel guarded body
          let m ← get
          match m.halt with
          | some .leaveLoop => set { m with halt := none }
          | some .nextRound =>
            set { m with halt := none }
            run fuel guarded (.loop whileTrue test body)
          | some _ => pure ()
          | none => run fuel guarded (.loop whileTrue test body)
        else set { m with status := 0 }
    | .each name words body =>
      let mut values := outer.args
      if let some ws := words then
        values := []
        for w in ws do
          let f ← fieldsOf fuel w {}
          let m ← get
          values := values ++ (f.toList.map (fieldTexts m.tree m.cwd)).flatten
      if values.isEmpty then modify fun m => { m with status := 0 }
      rounds fuel guarded name values body
    | .choice word arms =>
      let text ← textOf fuel word
      modify fun m => { m with status := 0 }
      choose fuel guarded text arms
    | .background body =>
      run fuel true body
      let m ← get
      set { (m.leave outer) with status := 0 }
    | .grouped apart body redirects =>
      let m ← get
      if ← redirect fuel redirects then
        run fuel guarded body
      modify fun n =>
        let n := { n with sink := m.sink, errSink := m.errSink }
        let n := if redirects.any fun | .input _ => true | _ => false
          then { n with input := m.input } else n
        if apart then { (n.leave m) with status := n.endStatus } else n

/-- Runs the first arm with a pattern that the text has. -/
def choose (fuel : Nat) (guarded : Bool) (text : List Char) (arms : List (List Word × Command)) :
    ShellM Unit :=
  match fuel with
  | 0 => pure ()
  | fuel + 1 => do
    match arms with
    | [] => pure ()
    | (patterns, body) :: rest =>
      let mut hit := false
      for w in patterns do
        let f ← fieldsOf fuel w {}
        hit := hit || wildcardMatches f.toList.flatten text
      if hit then run fuel guarded body else choose fuel guarded text rest

/-- Runs the body of a loop for each value. -/
def rounds (fuel : Nat) (guarded : Bool) (name : String) (values : List (List Char))
    (body : Command) : ShellM Unit :=
  match fuel with
  | 0 => pure ()
  | fuel + 1 => do
    match values with
    | [] => pure ()
    | v :: rest =>
      modify (·.set name v)
      run fuel guarded body
      let m ← get
      match m.halt with
      | some .leaveLoop => set { m with halt := none }
      | some .nextRound =>
        set { m with halt := none }
        rounds fuel guarded name rest body
      | some _ => pure ()
      | none => rounds fuel guarded name rest body

end

/-- How much fuel a run gets. -/
def runFuel : Nat := 100000

end Plumbline.Shell
