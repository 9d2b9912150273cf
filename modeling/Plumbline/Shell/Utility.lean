/-
The tools that scripts call.

A tool gets its arguments, its input and a tree of files; it answers with an exit status, what it
writes, and the tree as it leaves it.
-/
import Plumbline.Files.Tree
import Plumbline.Shell.Bytes
import Plumbline.Shell.LineEditor

namespace Plumbline.Shell

/-- What a tool works on. -/
structure Bench where
  tree : FileTree
  cwd : Place
  input : List Char
deriving Inhabited

/-- What a tool leaves. -/
structure Outcome where
  status : Nat := 0
  out : List Char := []
  err : List Char := []
  tree : FileTree
deriving Inhabited

namespace Bench

def place (b : Bench) (arg : List Char) : Place :=
  Path.placeFrom b.cwd ((String.fromUTF8? (toBytes arg)).getD "")

def quiet (b : Bench) (status : Nat) : Outcome := { status, tree := b.tree }

def prints (b : Bench) (out : List Char) : Outcome := { out, tree := b.tree }

/-- A complaint on the error output. -/
def fails (b : Bench) (status : Nat) (message : String) : Outcome :=
  { status, err := ofString message ++ ['\n'], tree := b.tree }

def read (b : Bench) (arg : List Char) : Except FileError (List Char) :=
  if arg = ['-'] then .ok b.input else (b.tree.read (b.place arg)).map ofBytes

end Bench

/-- The words for an error of the file system. -/
def errorText : FileError → String
  | .notFound => "No such file or directory"
  | .denied => "Permission denied"
  | .alreadyExists => "File exists"
  | .notADirectory => "Not a directory"
  | .isADirectory => "Is a directory"
  | .notEmpty => "Directory not empty"
  | .notText => "Invalid argument"

/-- What a tool writes around the name of a file that it complains about. -/
structure Wording where
  before : String
  after : String := ""
deriving Repr, Inhabited

/-- A complaint about a file. -/
def Wording.complaint (w : Wording) (arg : List Char) (e : FileError) : List Char :=
  ofString w.before ++ arg ++ ofString (w.after ++ ": " ++ errorText e ++ "\n")

/-! ### Options -/

/-- Letters given as options, and the other arguments; `valued` are the letters that take a value,
`long` are options that are kept as they are. -/
structure Options where
  letters : List Char := []
  values : List (Char × List Char) := []
  rest : List (List Char) := []
deriving Inhabited

/-- Takes the letters of one argument; a letter with a value takes the rest of the argument, or the
next one. -/
def letterOptions (valued : List Char) : List Char → List (List Char) → Options →
    Options × List (List Char)
  | [], more, o => (o, more)
  | c :: cs, more, o =>
    if valued.contains c then
      if cs.isEmpty then
        ({ o with values := o.values ++ [(c, more.headD [])] }, more.tail)
      else ({ o with values := o.values ++ [(c, cs)] }, more)
    else letterOptions valued cs more { o with letters := o.letters ++ [c] }

def optionsLoop (valued : List Char) : (fuel : Nat) → List (List Char) → Options → Options
  | 0, _, o => o
  | _, [], o => o
  | fuel + 1, arg :: more, o =>
    match arg with
    | ['-', '-'] => { o with rest := o.rest ++ more }
    | '-' :: c :: cs =>
      let (o, more) := letterOptions valued (c :: cs) more o
      optionsLoop valued fuel more o
    | _ => optionsLoop valued fuel more { o with rest := o.rest ++ [arg] }

def options (valued : List Char) (args : List (List Char)) : Options :=
  optionsLoop valued (args.length + 1) args {}

namespace Options

def has (o : Options) (c : Char) : Bool := o.letters.contains c

def value? (o : Options) (c : Char) : Option (List Char) := o.values.lookup c

end Options

namespace Utility

/-! ### Words -/

/-- Reads up to `most` octal digits. -/
def octal (most : Nat) (cs : List Char) : Nat × List Char :=
  let isOctal (c : Char) : Bool := '0' ≤ c && c ≤ '7'
  let ds := (cs.take most).takeWhile isOctal
  (ds.foldl (fun n d => n * 8 + (d.toNat - 48)) 0, cs.drop ds.length)

/-- The character that a letter after a backslash stands for. -/
def escape? : Char → Option Char
  | 'n' => some '\n' | 't' => some '\t' | 'r' => some '\r' | '\\' => some '\\'
  | 'a' => some '\x07' | 'b' => some '\x08' | 'f' => some '\x0c' | 'v' => some '\x0b'
  | _ => none

/-- Text with backslash sequences replaced; an octal number is introduced by a zero if `zero` says
so.  The answer says whether `\c` ended the output. -/
def unescape (zero : Bool) : (fuel : Nat) → List Char → List Char × Bool
  | 0, _ => ([], false)
  | fuel + 1, cs =>
    let keep (c : Char) (rest : List Char) : List Char × Bool :=
      let (out, ended) := unescape zero fuel rest
      (c :: out, ended)
    match cs with
    | [] => ([], false)
    | '\\' :: c :: rest =>
      if c == 'c' then ([], true)
      else if zero && c == '0' then
        let (n, rest) := octal 3 rest
        keep (Char.ofNat (n % 256)) rest
      else if !zero && '0' ≤ c && c ≤ '7' then
        let (n, rest) := octal 3 (c :: rest)
        keep (Char.ofNat (n % 256)) rest
      else match escape? c with
        | some e => keep e rest
        | none =>
          let (out, ended) := keep c rest
          ('\\' :: out, ended)
    | c :: rest => keep c rest

/-- Writes its arguments with blanks between; with `escapes`, backslash sequences are replaced. -/
def echo (escapes : Bool) (args : List (List Char)) : List Char :=
  let (noEnd, args) := match args with
    | ['-', 'n'] :: rest => (true, rest)
    | _ => (false, args)
  let text := [' '].intercalate args
  let (text, ended) := if escapes then unescape true (text.length + 1) text else (text, false)
  if noEnd || ended then text else text ++ ['\n']

def pad (width : Nat) (left : Bool) (fill : Char) (cs : List Char) : List Char :=
  let blanks := List.replicate (width - cs.length) (if left then ' ' else fill)
  if left then cs ++ blanks else blanks ++ cs

/-- One pass over a format; the answer has the arguments that are left. -/
def formatOnce : (fuel : Nat) → List Char → List (List Char) → List Char × List (List Char) × Bool
  | 0, _, args => ([], args, false)
  | fuel + 1, cs, args =>
    let put (text rest : List Char) (args : List (List Char)) :
        List Char × List (List Char) × Bool :=
      let (out, args, ended) := formatOnce fuel rest args
      (text ++ out, args, ended)
    match cs with
    | [] => ([], args, false)
    | '%' :: '%' :: rest => put ['%'] rest args
    | '%' :: rest =>
      let flags := rest.takeWhile fun c => c == '-' || c == '0'
      let digits := (rest.drop flags.length).takeWhile Char.isDigit
      let width := (digits.foldl (fun n d => n * 10 + (d.toNat - 48)) 0)
      let fill := if flags.contains '0' then '0' else ' '
      let shape := pad width (flags.contains '-') fill
      let arg := args.headD []
      match rest.drop (flags.length + digits.length) with
      | 's' :: rest => put (shape arg) rest args.tail
      | 'd' :: rest | 'i' :: rest =>
        put (shape (ofNumber ((number? arg).getD 0))) rest args.tail
      | 'c' :: rest => put (shape (arg.take 1)) rest args.tail
      | 'b' :: rest =>
        let (text, ended) := unescape true (arg.length + 1) arg
        if ended then (text, [], true) else put (shape text) rest args.tail
      | _ => put ['%'] rest args
    | '\\' :: rest =>
      let taken := match rest with
        | c :: _ => if '0' ≤ c && c ≤ '7' then (octal 3 rest).2 else rest.drop 1
        | [] => []
      let (text, ended) := unescape false (cs.length + 1) (cs.take (cs.length - taken.length))
      if ended then (text, [], true) else put text taken args
    | c :: rest => put [c] rest args

/-- The format is used again as long as it takes arguments. -/
def formatAll (format : List Char) : (fuel : Nat) → List (List Char) → List Char
  | 0, _ => []
  | fuel + 1, args =>
    let (out, left, ended) := formatOnce (format.length + 1) format args
    if ended || left.isEmpty || left.length == args.length then out
    else out ++ formatAll format fuel left

def printf (args : List (List Char)) : List Char :=
  match args with
  | format :: args => formatAll format (args.length + 1) args
  | [] => []

/-! ### Conditions -/

/-- What `test` says of one operand. -/
def testOne (b : Bench) (op : String) (x : List Char) : Option Bool :=
  let p := b.place x
  match op with
  | "-n" => some !x.isEmpty
  | "-z" => some x.isEmpty
  | "-e" => some (b.tree.isFile p || b.tree.isDir p)
  | "-f" => some (b.tree.isFile p)
  | "-d" => some (b.tree.isDir p)
  | "-s" => some ((b.tree.file? p).any (·.size > 0))
  | "-r" | "-w" => some (b.tree.isFile p || b.tree.isDir p)
  | "-x" => some (b.tree.isDir p)
  | _ => none

/-- What `test` says of two operands. -/
def testTwo (x : List Char) (op : String) (y : List Char) : Option Bool :=
  let compare (r : Int → Int → Bool) : Option Bool := do pure (r (← number? x) (← number? y))
  match op with
  | "=" | "==" => some (x == y)
  | "!=" => some (x != y)
  | "-eq" => compare (· == ·)
  | "-ne" => compare (· != ·)
  | "-lt" => compare (· < ·)
  | "-le" => compare (· ≤ ·)
  | "-gt" => compare (· > ·)
  | "-ge" => compare (· ≥ ·)
  | _ => none

def isTrue? (b : Bench) : List (List Char) → Option Bool
  | [] => some false
  | [x] => some !x.isEmpty
  | ['!'] :: rest => (isTrue? b rest).map (!·)
  | [op, x] => testOne b (String.ofList op) x
  | [x, op, y] => testTwo x (String.ofList op) y
  | x :: op :: y :: ['-', 'a'] :: rest => do
    pure ((← testTwo x (String.ofList op) y) && (← isTrue? b rest))
  | x :: op :: y :: ['-', 'o'] :: rest => do
    pure ((← testTwo x (String.ofList op) y) || (← isTrue? b rest))
  | op :: x :: ['-', 'a'] :: rest => do
    pure ((← testOne b (String.ofList op) x) && (← isTrue? b rest))
  | op :: x :: ['-', 'o'] :: rest => do
    pure ((← testOne b (String.ofList op) x) || (← isTrue? b rest))
  | _ => none

def test (b : Bench) (args : List (List Char)) : Outcome :=
  match isTrue? b args with
  | some true => b.quiet 0
  | some false => b.quiet 1
  | none => b.fails 2 "sh: 1: test: unexpected operator"

/-! ### Files as input -/

/-- The texts of some files, or the input if none is named; complaints for those that cannot be
read. -/
def inputs (w : Wording) (b : Bench) (args : List (List Char)) :
    List (List Char × List Char) × List Char :=
  if args.isEmpty then ([(['-'], b.input)], [])
  else args.foldl
    (fun (texts, err) arg =>
      match b.read arg with
      | .ok text => (texts ++ [(arg, text)], err)
      | .error e => (texts, err ++ w.complaint arg e))
    ([], [])

/-- Writes what `f` makes of the files. -/
def filter (w : Wording) (b : Bench) (args : List (List Char)) (f : List Char → List Char) :
    Outcome :=
  let (texts, err) := inputs w b args
  { status := if err.isEmpty then 0 else 1, out := (texts.map fun t => f t.2).flatten, err
    tree := b.tree }

/-- Lines counted from the start, or all but so many at the end for a negative number. -/
def firstLines (n : Int) (text : List Char) : List Char :=
  let parts := Text.split '\n' text
  let ended := parts.getLast? == some []
  let lines := if ended then parts.dropLast else parts
  let count := if n < 0 then lines.length - n.natAbs else n.toNat
  let joined := ofLines (lines.take count)
  if !ended && count ≥ lines.length then joined.dropLast else joined

def lastLines (n : Nat) (text : List Char) : List Char :=
  let parts := Text.split '\n' text
  let ended := parts.getLast? == some []
  let lines := if ended then parts.dropLast else parts
  let joined := ofLines (lines.drop (lines.length - n))
  if ended || n = 0 then joined else joined.dropLast

/-- An old count such as `-5` among the arguments. -/
def oldCount? (args : List (List Char)) : Option (Nat × List (List Char)) :=
  match args with
  | ('-' :: d :: ds) :: rest =>
    if (d :: ds).all Char.isDigit then
      (number? (d :: ds)).map fun n => (n.toNat, rest)
    else none
  | _ => none

def headWording : Wording := ⟨"head: cannot open '", "' for reading"⟩

def tailWording : Wording := ⟨"tail: cannot open '", "' for reading"⟩

def head (b : Bench) (args : List (List Char)) : Outcome :=
  match oldCount? args with
  | some (n, rest) => filter headWording b rest (firstLines n)
  | none =>
    let o := options ['n', 'c'] args
    match (o.value? 'c').bind number? with
    | some n => filter headWording b o.rest (·.take n.toNat)
    | none => filter headWording b o.rest (firstLines (((o.value? 'n').bind number?).getD 10))

def tail (b : Bench) (args : List (List Char)) : Outcome :=
  match oldCount? args with
  | some (n, rest) => filter tailWording b rest (lastLines n)
  | none =>
    let o := options ['n', 'c'] args
    match (o.value? 'c').bind number? with
    | some n => filter tailWording b o.rest fun t => t.drop (t.length - n.natAbs)
    | none =>
      match o.value? 'n' with
      | some ('+' :: ds) =>
        let n := ((number? ds).getD 1).toNat
        filter tailWording b o.rest fun t => lastLines ((linesOf t).length - (n - 1)) t
      | v => filter tailWording b o.rest (lastLines ((v.bind number?).getD 10).natAbs)

def wordCount (cs : List Char) : Nat :=
  ((Text.splitBy Text.isWhiteSpace cs).filter (!·.isEmpty)).length

/-- Counts of lines, words and bytes. -/
def wc (b : Bench) (args : List (List Char)) : Outcome :=
  let o := options [] args
  let (texts, err) := inputs ⟨"wc: ", ""⟩ b o.rest
  let all := o.letters.isEmpty
  let wanted (text : List Char) : List Nat :=
    (if all || o.has 'l' then [text.count '\n'] else []) ++
      (if all || o.has 'w' then [wordCount text] else []) ++
      (if all || o.has 'c' || o.has 'm' then [text.length] else [])
  let rows := texts.map fun (name, text) => (name, wanted text)
  let rows := if rows.length < 2 then rows
    else rows ++ [(ofString "total", rows.foldl (fun acc r => acc.zipWith (· + ·) r.2)
      (List.replicate ((rows.head?.map (·.2.length)).getD 0) 0))]
  let total := (texts.map (·.2.length)).foldl (· + ·) 0
  let width := if rows.length < 2 && rows.all (·.2.length < 2) then 1
    else if o.rest.isEmpty then 7 else (Nat.toDigits 10 total).length
  let line (r : List Char × List Nat) : List Char :=
    [' '].intercalate (r.2.map fun n => pad width false ' ' (Nat.toDigits 10 n)) ++
      (if o.rest.isEmpty then [] else ' ' :: r.1)
  { status := if err.isEmpty then 0 else 1, out := ofLines (rows.map line), err, tree := b.tree }

/-! ### Searching and editing -/

/-- What `-e` gives, or the first argument; and the arguments that are files. -/
def scriptsAndFiles (o : Options) : List (List Char) × List (List Char) :=
  let given : List (Char × List Char) := o.values.filter (·.1 == 'e')
  if given.isEmpty then (o.rest.take 1, o.rest.drop 1) else (given.map (·.2), o.rest)

/-- Searches lines; the status is 0 if a line was selected. -/
def grep (b : Bench) (args : List (List Char)) : Outcome :=
  let o := options ['e', 'm'] args
  let (texts, files) := scriptsAndFiles o
  let patterns := (texts.map (Text.split '\n')).flatten.map fun t =>
    if o.has 'F' then some (Pattern.ofText t) else Pattern.parse? (o.has 'E') t
  match patterns.mapM id with
  | none => b.fails 2 "grep: Invalid regular expression"
  | some patterns =>
    if texts.isEmpty then b.fails 2 "Usage: grep [OPTION]... PATTERNS [FILE]..."
    else
      let isWordPart (c : Char) : Bool := c.isAlphanum || c == '_'
      let hits (line : List Char) : Bool := patterns.any fun p =>
        match p.find? (o.has 'i') line with
        | none => false
        | some f =>
          (!o.has 'x' || (f.before.isEmpty && f.after.isEmpty)) &&
            (!o.has 'w' || !(f.before.getLast?.any isWordPart || f.after.head?.any isWordPart))
      let chosen (line : List Char) : Bool := hits line != o.has 'v'
      let (sources, err) := inputs ⟨"grep: ", ""⟩ b files
      let err := if o.has 's' then [] else err
      let labelled := (files.length > 1 || o.has 'H') && !o.has 'h'
      let found := sources.map fun (name, text) =>
        (name, ((linesOf text).zipIdx 1).filter fun (l : List Char × Nat) => chosen l.1)
      let any := found.any fun f => !f.2.isEmpty
      let label (name : List Char) : List Char := if labelled then name ++ [':'] else []
      let out :=
        if o.has 'q' then []
        else if o.has 'l' then ofLines ((found.filter fun f => !f.2.isEmpty).map (·.1))
        else if o.has 'c' then
          ofLines (found.map fun f => label f.1 ++ Nat.toDigits 10 f.2.length)
        else (found.map fun f => ofLines (f.2.map fun (l : List Char × Nat) =>
          label f.1 ++ (if o.has 'n' then Nat.toDigits 10 l.2 ++ [':'] else []) ++ l.1)).flatten
      { status := if any && (err.isEmpty || o.has 'q') then 0 else if err.isEmpty then 1 else 2
        out, err, tree := b.tree }

/-- Edits lines, in the files themselves with `-i`. -/
def sed (b : Bench) (args : List (List Char)) : Outcome :=
  -- the suffix that may follow `-i` in the same argument is not used
  let args := args.map fun a => if a.take 2 = ['-', 'i'] then ['-', 'i'] else a
  let o := options ['e'] args
  let (scripts, files) := scriptsAndFiles o
  match LineEditor.parse? (o.has 'E' || o.has 'r') (['\n'].intercalate scripts) with
  | none => b.fails 1 "sed: -e expression #1, char 0: unknown command"
  | some steps =>
    if scripts.isEmpty then
      b.fails 1 "Usage: sed [OPTION]... \x7bscript-only-if-no-other-script\x7d [input-file]..."
    else
      let run := LineEditor.run steps (o.has 'n')
      if o.has 'i' then
        files.foldl
          (fun (acc : Outcome) arg =>
            let p := b.place arg
            match acc.tree.read p with
            | .ok bytes => { acc with tree := acc.tree.setFile p (toBytes (run (ofBytes bytes))) }
            | .error e =>
              let text := match e with
                | FileError.isADirectory =>
                  "sed: couldn't edit " ++ String.ofList arg ++ ": not a regular file\n"
                | e => "sed: can't read " ++ String.ofList arg ++ ": " ++ errorText e ++ "\n"
              { acc with status := if e = FileError.isADirectory then 4 else 2
                         err := acc.err ++ text.toList })
          { tree := b.tree }
      else
        let (texts, err) := inputs ⟨"sed: can't read ", ""⟩ b files
        { status := if err.isEmpty then 0 else 2, out := run (texts.map (·.2)).flatten, err
          tree := b.tree }

/-- Ranges such as `a-z` written out. -/
def charRanges : List Char → List Char
  | a :: '-' :: c :: rest =>
    (List.range (c.toNat + 1 - a.toNat)).map (fun i => Char.ofNat (a.toNat + i)) ++ charRanges rest
  | c :: rest => c :: charRanges rest
  | [] => []

def charSet (cs : List Char) : List Char :=
  match String.ofList cs with
  | "[:upper:]" => charRanges ['A', '-', 'Z']
  | "[:lower:]" => charRanges ['a', '-', 'z']
  | "[:digit:]" => charRanges ['0', '-', '9']
  | "[:space:]" => [' ', '\t', '\n', '\r', '\x0b', '\x0c']
  | _ => charRanges (unescape false (cs.length + 1) cs).1

/-- Replaces or deletes characters of the input. -/
def tr (b : Bench) (args : List (List Char)) : Outcome :=
  let o := options [] args
  match o.rest with
  | [set] => if o.has 'd' then b.prints (b.input.filter (!(charSet set).contains ·)) else b.quiet 1
  | [set, into] =>
    let target := charSet into
    let pairs := (charSet set).zipIdx
    b.prints (b.input.map fun c =>
      match pairs.find? (·.1 == c) with
      | some (_, i) => (target[i]?).getD (target.getLast?.getD c)
      | none => c)
  | _ => b.quiet 1

/-- Orders bytes by their number. -/
def lineLe : List Char → List Char → Bool
  | [], _ => true
  | _ :: _, [] => false
  | a :: as, c :: cs => if a = c then lineLe as cs else a < c

def dropRepeats : List (List Char) → List (List Char)
  | a :: c :: rest => if a = c then dropRepeats (c :: rest) else a :: dropRepeats (c :: rest)
  | lines => lines

def sort (b : Bench) (args : List (List Char)) : Outcome :=
  let o := options ['k', 't'] args
  let (texts, err) := inputs ⟨"sort: cannot read: ", ""⟩ b o.rest
  let lines := (texts.map fun t => linesOf t.2).flatten
  let leading (l : List Char) : Int :=
    let l := Text.trimStart l
    let sign := l.takeWhile (· == '-')
    (number? (sign ++ (l.drop sign.length).takeWhile Char.isDigit)).getD 0
  let le (x y : List Char) : Bool :=
    if o.has 'n' && leading x != leading y then leading x < leading y else lineLe x y
  let lines := lines.mergeSort le
  let lines := if o.has 'u' then dropRepeats lines else lines
  let lines := if o.has 'r' then lines.reverse else lines
  { status := if err.isEmpty then 0 else 2, out := ofLines lines, err, tree := b.tree }

/-! ### Changing files -/

/-- Does to each argument what `f` does, and goes on after complaints. -/
def each (w : Wording) (b : Bench) (args : List (List Char))
    (f : FileTree → Place → Except FileError FileTree) : Outcome :=
  args.foldl
    (fun (acc : Outcome) arg =>
      match f acc.tree (b.place arg) with
      | .ok tree => { acc with tree }
      | .error e => { acc with status := 1, err := acc.err ++ w.complaint arg e })
    { tree := b.tree }

def rm (b : Bench) (args : List (List Char)) : Outcome :=
  let o := options [] args
  each ⟨"rm: cannot remove '", "'"⟩ b o.rest fun t p =>
    if t.isDir p then if o.has 'r' || o.has 'R' then t.removeDir p else .error .isADirectory
    else match t.remove p with
      | .error e => if o.has 'f' then .ok t else .error e
      | .ok t => .ok t

def touch (b : Bench) (args : List (List Char)) : Outcome :=
  each ⟨"touch: cannot touch '", "'"⟩ b args fun t p =>
    if t.isFile p || t.isDir p then .ok t else t.write p ⟨#[]⟩

def mkdir (b : Bench) (args : List (List Char)) : Outcome :=
  let o := options [] args
  each ⟨"mkdir: cannot create directory ‘", "’"⟩ b o.rest fun t p =>
    if o.has 'p' then t.makeDir p
    else match t.obstacle? p with
      | some e => .error e
      | none => if t.isFile p || t.isDir p then .error .alreadyExists else t.makeDir p

/-- The place that a file copied or moved to `target` takes. -/
def landing (t : FileTree) (source target : Place) : Place :=
  if t.isDir target then target ++ [source.getLast?.getD ""] else target

def cp (b : Bench) (args : List (List Char)) : Outcome :=
  let o := options [] args
  match o.rest.getLast? with
  | none => b.fails 1 "cp: missing file operand"
  | some target =>
    each ⟨"cp: cannot stat '", "'"⟩ b o.rest.dropLast fun t p => do
      t.write (landing t p (b.place target)) (← t.read p)

def mv (b : Bench) (args : List (List Char)) : Outcome :=
  let o := options [] args
  match o.rest.getLast? with
  | none => b.fails 1 "mv: missing file operand"
  | some target =>
    each ⟨"mv: cannot stat '", "'"⟩ b o.rest.dropLast fun t p =>
      t.rename p (landing t p (b.place target))

def tee (b : Bench) (args : List (List Char)) : Outcome :=
  let o := options [] args
  let done := each ⟨"tee: ", ""⟩ b o.rest fun t p =>
    let old := if o.has 'a' then ((t.file? p).map ofBytes).getD [] else []
    t.write p (toBytes (old ++ b.input))
  { done with out := b.input }

/-- Names in directories. -/
def ls (b : Bench) (args : List (List Char)) : Outcome :=
  let o := options [] args
  let names (p : Place) : List (List Char) :=
    let all := (b.tree.entries p).map ofString
    if o.has 'a' then [['.'], ['.', '.']] ++ all
    else if o.has 'A' then all else all.filter (·.head? != some '.')
  let args := if o.rest.isEmpty then [['.']] else o.rest
  let missing := args.filter fun a => !b.tree.isFile (b.place a) && !b.tree.isDir (b.place a)
  let plain := args.filter fun a =>
    b.tree.isFile (b.place a) || (o.has 'd' && b.tree.isDir (b.place a))
  let dirs := if o.has 'd' then [] else args.filter fun a => b.tree.isDir (b.place a)
  let err := (missing.map fun a =>
    ofString "ls: cannot access '" ++ a ++ ofString "': No such file or directory\n").flatten
  let blocks := dirs.map fun d =>
    (if args.length > 1 then d ++ [':', '\n'] else []) ++ ofLines (names (b.place d))
  let first := ofLines (plain.mergeSort lineLe)
  let blocks := (if plain.isEmpty then [] else [first]) ++ blocks
  { status := if missing.isEmpty then 0 else 2, out := ['\n'].intercalate blocks, err
    tree := b.tree }

/-! ### Numbers and names -/

/-- Numbers one below the other. -/
def seq (b : Bench) (args : List (List Char)) : Outcome :=
  let upTo (low high : Int) : Outcome :=
    let steps := List.range (high + 1 - low).toNat
    b.prints (ofLines (steps.map fun (i : Nat) => ofNumber (low + (i : Int))))
  match args.map number? with
  | [some high] => upTo 1 high
  | [some low, some high] => upTo low high
  | _ => b.fails 1 "seq: missing operand"

def expr (b : Bench) (args : List (List Char)) : Outcome :=
  let prints (cs : List Char) : Outcome :=
    { b.prints (cs ++ ['\n']) with status := if cs.isEmpty || cs = ['0'] then 1 else 0 }
  match args with
  | [x] => prints x
  | [x, op, y] =>
    let truth (v : Bool) : Outcome := prints (if v then ['1'] else ['0'])
    match number? x, String.ofList op, number? y with
    | some m, "+", some n => prints (ofNumber (m + n))
    | some m, "-", some n => prints (ofNumber (m - n))
    | some m, "*", some n => prints (ofNumber (m * n))
    | some m, "/", some n =>
      if n = 0 then b.fails 2 "expr: division by zero" else prints (ofNumber (m.tdiv n))
    | some m, "%", some n =>
      if n = 0 then b.fails 2 "expr: division by zero" else prints (ofNumber (m.tmod n))
    | some m, "<", some n => truth (m < n)
    | some m, ">", some n => truth (m > n)
    | some m, "<=", some n => truth (m ≤ n)
    | some m, ">=", some n => truth (m ≥ n)
    | _, "=", _ => truth (x == y)
    | _, "!=", _ => truth (x != y)
    | _, _, _ => b.fails 2 "expr: syntax error"
  | _ => b.fails 2 "expr: syntax error"

def basename (b : Bench) (args : List (List Char)) : Outcome :=
  match args with
  | name :: more =>
    let last := Text.afterLast '/' (Text.dropEndWhile (· == '/') name)
    let suffix := more.headD []
    let last := match Text.stripSuffix? suffix last with
      | some front => if front.isEmpty then last else front
      | none => last
    b.prints (last ++ ['\n'])
  | [] => b.fails 1 "basename: missing operand"

def dirname (b : Bench) (args : List (List Char)) : Outcome :=
  match args with
  | name :: _ =>
    let dir := match Text.cutLast? '/' (Text.dropEndWhile (· == '/') name) with
      | some ([], _) => ['/']
      | some (dir, _) => dir
      | none => ['.']
    b.prints (dir ++ ['\n'])
  | [] => b.fails 1 "dirname: missing operand"

/-- The tool of a name; `builtIn` says whether the interpreter itself offers it. -/
def find? (builtIn : Bool) (name : String) : Option (Bench → List (List Char) → Outcome) :=
  match name with
  | "true" => some fun b _ => b.quiet 0
  | "false" => some fun b _ => b.quiet 1
  | "echo" => some fun b args => b.prints (echo builtIn args)
  | "printf" => some fun b args => b.prints (printf args)
  | "test" => some test
  | "[" => some fun b args => test b args.dropLast
  | "pwd" => some fun b _ => b.prints (ofString (Path.ofPlace b.cwd) ++ ['\n'])
  | "sleep" => some fun b _ => b.quiet 0
  | "cat" => some fun b args => filter ⟨"cat: ", ""⟩ b (options [] args).rest id
  | "head" => some head
  | "tail" => some tail
  | "wc" => some wc
  | "grep" => some grep
  | "sed" => some sed
  | "tr" => some tr
  | "sort" => some sort
  | "uniq" => some fun b args =>
    filter ⟨"uniq: ", ""⟩ b args fun t => ofLines (dropRepeats (linesOf t))
  | "rm" => some rm
  | "touch" => some touch
  | "mkdir" => some mkdir
  | "cp" => some cp
  | "mv" => some mv
  | "tee" => some tee
  | "ls" => some ls
  | "seq" => some seq
  | "expr" => some expr
  | "basename" => some basename
  | "dirname" => some dirname
  | _ => none

end Utility

end Plumbline.Shell
