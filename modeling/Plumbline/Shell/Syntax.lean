/-
Scripts of the command interpreter.

A script is a text of bytes, each held as the character of that number.  It is read into commands
whose words still hold what has to be expanded: parameters, arithmetic and the output of commands.
-/
import Plumbline.Text.Slice

namespace Plumbline.Shell

/-- A piece of a word; quoted pieces are neither split nor matched with file names. -/
inductive Piece where
  | text (cs : List Char) (quoted : Bool)
  | param (name : String) (fallback : Option (List Char)) (quoted : Bool)
  | arithmetic (expr : List Char) (quoted : Bool)
  | output (script : List Char) (quoted : Bool)
deriving Repr, Inhabited

abbrev Word := List Piece

inductive Redirect where
  | input (file : Word)
  | output (fd : Nat) (append : Bool) (file : Word)
  | copy (fd source : Nat)
deriving Repr, Inhabited

inductive Command where
  | nothing
  | simple (assigns : List (String × Word)) (words : List Word) (redirects : List Redirect)
  | pipe (first second : Command)
  | negated (body : Command)
  | sequence (first second : Command)
  | both (first second : Command)
  | either (first second : Command)
  | conditional (test yes no : Command)
  | loop (whileTrue : Bool) (test body : Command)
  | each (name : String) (words : Option (List Word)) (body : Command)
  /-- The first arm with a pattern that the word has. -/
  | choice (word : Word) (arms : List (List Word × Command))
  | background (body : Command)
  | grouped (apart : Bool) (body : Command) (redirects : List Redirect)
deriving Repr, Inhabited

inductive Token where
  | word (w : Word)
  | mark (text : String)
  | redirect (fd : Option Nat) (mark : String)
deriving Repr, Inhabited

/-! ### Words -/

def isNameStart (c : Char) : Bool := c.isAlpha || c == '_'

def isNamePart (c : Char) : Bool := c.isAlphanum || c == '_'

/-- Characters that end a word. -/
def endsWord (c : Char) : Bool := [' ', '\t', '\n', ';', '&', '|', '<', '>', '(', ')'].contains c

/-- The backward quote. -/
def backquote : Char := Char.ofNat 96

/-- How the characters of a script are taken. -/
inductive Quoting where
  | plain | single | double | escaped | escapedInDouble
deriving Repr, DecidableEq, Inhabited

/-- How the characters after `c` are taken. -/
def Quoting.after (q : Quoting) (c : Char) : Quoting :=
  match q with
  | plain => if c == '\'' then single else if c == '"' then double
      else if c == '\\' then escaped else plain
  | single => if c == '\'' then plain else single
  | double => if c == '"' then plain else if c == '\\' then escapedInDouble else double
  | escaped => plain
  | escapedInDouble => double

/-- The text up to the bracket that closes `depth + 1` open ones, and what follows it. -/
def balanced (opening closing : Char) : (depth : Nat) → Quoting → List Char →
    Option (List Char × List Char)
  | _, _, [] => none
  | depth, q, c :: rest =>
    let keep (depth : Nat) : Option (List Char × List Char) :=
      (balanced opening closing depth (q.after c) rest).map fun (inside, after) =>
        (c :: inside, after)
    if q == .plain && c == closing then
      match depth with
      | 0 => some ([], rest)
      | depth + 1 => keep depth
    else if q == .plain && c == opening then keep (depth + 1)
    else keep depth

/-- Parameters with a name of one character. -/
def isSpecialParam (c : Char) : Bool := ['@', '*', '#', '?', '$', '!', '-'].contains c || c.isDigit

/-- A parameter in braces: its name, and what stands for it when it is unset or empty. -/
def bracedParam (inside : List Char) (quoted : Bool) : Piece :=
  match Text.cut? '-' inside with
  | some (name, fallback) =>
    let name := Text.dropEndWhile (· == ':') name
    if name.isEmpty then .param (String.ofList inside) none quoted
    else .param (String.ofList name) (some fallback) quoted
  | none => .param (String.ofList inside) none quoted

/-- What a `$` introduces; `cs` is the text after it. -/
def expansion? (quoted : Bool) (cs : List Char) : Option (Piece × List Char) :=
  match cs with
  | '(' :: '(' :: rest => do
    let (inside, after) ← balanced '(' ')' 0 .plain rest
    match after with
    | ')' :: after => pure (.arithmetic inside quoted, after)
    | _ => none
  | '(' :: rest => do
    let (inside, after) ← balanced '(' ')' 0 .plain rest
    pure (.output inside quoted, after)
  | '\x7b' :: rest => do
    let (inside, after) ← balanced '\x7b' '\x7d' 0 .plain rest
    pure (bracedParam inside quoted, after)
  | c :: rest =>
    if isNameStart c then
      some (.param (String.ofList (cs.takeWhile isNamePart)) none quoted, cs.dropWhile isNamePart)
    else if isSpecialParam c then some (.param (String.ofList [c]) none quoted, rest)
    else none
  | [] => none

/-- The output of a script between backward quotes; `cs` is the text after the first. -/
def oldOutput? (quoted : Bool) (cs : List Char) : Option (Piece × List Char) :=
  (Text.cut? backquote cs).map fun (inside, after) => (.output inside quoted, after)

/-- The rest of a quoted part after its opening quote; `acc` are the pieces so far, last first. -/
def doubleQuoted : (fuel : Nat) → List Char → Word → Option (Word × List Char)
  | 0, _, _ => none
  | fuel + 1, cs, acc =>
    match cs with
    | [] => none
    | '"' :: rest => some (acc, rest)
    | '\\' :: '\n' :: rest => doubleQuoted fuel rest acc
    | '\\' :: c :: rest =>
      let kept := if ['$', '"', '\\', backquote].contains c then [c] else ['\\', c]
      doubleQuoted fuel rest (.text kept true :: acc)
    | '$' :: rest =>
      match expansion? true rest with
      | some (piece, rest) => doubleQuoted fuel rest (piece :: acc)
      | none => doubleQuoted fuel rest (.text ['$'] true :: acc)
    | c :: rest =>
      if c == backquote then do
        let (piece, rest) ← oldOutput? true rest
        doubleQuoted fuel rest (piece :: acc)
      else doubleQuoted fuel rest (.text [c] true :: acc)

/-- The rest of a word; `acc` are its pieces so far, last first. -/
def word? : (fuel : Nat) → List Char → Word → Option (Word × List Char)
  | 0, _, _ => none
  | fuel + 1, cs, acc =>
    match cs with
    | [] => some (acc.reverse, [])
    | '\\' :: '\n' :: rest => word? fuel rest acc
    | '\\' :: c :: rest => word? fuel rest (.text [c] true :: acc)
    | '\'' :: rest => do
      let (inside, rest) ← Text.cut? '\'' rest
      word? fuel rest (.text inside true :: acc)
    | '"' :: rest => do
      let (acc, rest) ← doubleQuoted (rest.length + 1) rest (.text [] true :: acc)
      word? fuel rest acc
    | '$' :: rest =>
      match expansion? false rest with
      | some (piece, rest) => word? fuel rest (piece :: acc)
      | none => word? fuel rest (.text ['$'] false :: acc)
    | c :: rest =>
      if endsWord c then some (acc.reverse, cs)
      else if c == backquote then do
        let (piece, rest) ← oldOutput? false rest
        word? fuel rest (piece :: acc)
      else word? fuel rest (.text [c] false :: acc)

/-! ### Tokens -/

/-- Operators, longer ones first. -/
def operators : List String := ["&&", "||", ";;", ";", "&", "|", "(", ")", "\n"]

def redirectMarks : List String := [">>", ">&", "<&", ">", "<"]

/-- The first of some marks that the text starts with, and what follows it. -/
def mark? (marks : List String) (cs : List Char) : Option (String × List Char) :=
  marks.findSome? fun m => (Text.stripPrefix? m.toList cs).map (m, ·)

/-- The number of a file descriptor in front of a redirection. -/
def descriptor? (cs : List Char) : Option (Nat × String × List Char) :=
  match cs with
  | d :: rest =>
    if d.isDigit then (mark? redirectMarks rest).map fun (m, rest) => (d.toNat - 48, m, rest)
    else none
  | [] => none

def tokens? : (fuel : Nat) → List Char → List Token → Option (List Token)
  | 0, _, _ => none
  | fuel + 1, cs, acc =>
    match cs with
    | [] => some acc.reverse
    | '\\' :: '\n' :: rest => tokens? fuel rest acc
    | c :: rest =>
      if c == ' ' || c == '\t' then tokens? fuel rest acc
      else if c == '#' then tokens? fuel (rest.dropWhile (· != '\n')) acc
      else match descriptor? cs with
        | some (fd, m, rest) => tokens? fuel rest (.redirect (some fd) m :: acc)
        | none =>
          match mark? redirectMarks cs with
          | some (m, rest) => tokens? fuel rest (.redirect none m :: acc)
          | none =>
            match mark? operators cs with
            | some (m, rest) => tokens? fuel rest (.mark m :: acc)
            | none => do
              let (w, rest) ← word? (cs.length + 1) cs []
              tokens? fuel rest (.word w :: acc)

/-! ### Commands -/

/-- The text of a word without quotes and expansions. -/
def plainText? (w : Word) : Option String :=
  let parts : Option (List (List Char)) := w.mapM fun p =>
    match p with
    | .text cs false => some cs
    | _ => none
  parts.map fun parts => String.ofList parts.flatten

def isWord (text : String) : Token → Bool
  | .word w => plainText? w == some text
  | _ => false

def isMark (text : String) : Token → Bool
  | .mark m => m == text
  | _ => false

def isLineEnd (t : Token) : Bool := isMark "\n" t || isMark ";" t

/-- Words that end a list of commands. -/
def closers : List String := ["then", "else", "elif", "fi", "do", "done", "esac", "\x7d"]

def endsList : List Token → Bool
  | [] => true
  | t :: _ => isMark ")" t || isMark ";;" t || closers.any (isWord · t)

/-- Takes the word `text`. -/
def expect? (text : String) : List Token → Option (List Token)
  | t :: rest => if isWord text t then some rest else none
  | [] => none

def skipBreaks (ts : List Token) : List Token := ts.dropWhile isLineEnd

def skipLines (ts : List Token) : List Token := ts.dropWhile (isMark "\n")

/-- A variable and the word assigned to it, if a word is an assignment. -/
def assignment? (w : Word) : Option (String × Word) :=
  let plain := (w.takeWhile fun
    | .text _ false => true
    | _ => false)
  let front := plain.flatMap fun
    | .text cs _ => cs
    | _ => []
  match Text.cut? '=' front with
  | some (name, value) =>
    if name.head?.any isNameStart && name.all isNamePart then
      some (String.ofList name, .text value false :: w.drop plain.length)
    else none
  | none => none

/-- Redirections at the front. -/
def redirect? : List Token → Option (Redirect × List Token)
  | .redirect fd m :: .word w :: rest =>
    match m with
    | "<" => some (.input w, rest)
    | ">" => some (.output (fd.getD 1) false w, rest)
    | ">>" => some (.output (fd.getD 1) true w, rest)
    | _ => do
      let n ← (← plainText? w).toNat?
      pure (.copy (fd.getD 1) n, rest)
  | _ => none

/-- Words, assignments and redirections of a simple command. -/
def simple? : (fuel : Nat) → List Token → List (String × Word) → List Word → List Redirect →
    Option (Command × List Token)
  | 0, _, _, _, _ => none
  | fuel + 1, ts, assigns, words, redirects =>
    match ts with
    | .redirect .. :: _ => do
      let (r, rest) ← redirect? ts
      simple? fuel rest assigns words (redirects ++ [r])
    | .word w :: rest =>
      match if words.isEmpty then assignment? w else none with
      | some a => simple? fuel rest (assigns ++ [a]) words redirects
      | none => simple? fuel rest assigns (words ++ [w]) redirects
    | _ =>
      if assigns.isEmpty && words.isEmpty && redirects.isEmpty then none
      else some (.simple assigns words redirects, ts)

/-- Redirections behind a compound command. -/
def redirects? : (fuel : Nat) → List Token → List Redirect → Option (List Redirect × List Token)
  | 0, _, _ => none
  | fuel + 1, ts, acc =>
    match ts with
    | .redirect .. :: _ => do
      let (r, rest) ← redirect? ts
      redirects? fuel rest (acc ++ [r])
    | _ => some (acc, ts)

/-- Words up to the end of a line. -/
def wordsOf : List Token → List Word
  | .word w :: rest => w :: wordsOf rest
  | _ => []

/-- Patterns with bars between, up to the bracket that ends them. -/
def patterns? : List Token → Option (List Word × List Token)
  | .word w :: .mark ")" :: rest => some ([w], rest)
  | .word w :: .mark "|" :: rest => (patterns? rest).map fun (ws, rest) => (w :: ws, rest)
  | _ => none

mutual

/-- Commands up to a word or mark that ends them. -/
def list? : (fuel : Nat) → List Token → Option (Command × List Token)
  | 0, _ => none
  | fuel + 1, ts =>
    let ts := skipBreaks ts
    if endsList ts then some (.nothing, ts)
    else do
      let (first, rest) ← andOr? fuel ts
      match rest with
      | t :: rest' =>
        if isLineEnd t then
          let (second, rest) ← list? fuel rest'
          pure (.sequence first second, rest)
        else if isMark "&" t then
          let (second, rest) ← list? fuel rest'
          pure (.sequence (.background first) second, rest)
        else if endsList rest then pure (first, rest)
        else none
      | [] => pure (first, [])

/-- Pipelines joined by `&&` and `||`. -/
def andOr? : (fuel : Nat) → List Token → Option (Command × List Token)
  | 0, _ => none
  | fuel + 1, ts => do
    let (first, rest) ← pipeline? fuel ts
    andOrRest? fuel first rest

def andOrRest? : (fuel : Nat) → Command → List Token → Option (Command × List Token)
  | 0, _, _ => none
  | fuel + 1, left, ts =>
    match ts with
    | t :: rest =>
      if isMark "&&" t then do
        let (right, rest) ← pipeline? fuel (skipLines rest)
        andOrRest? fuel (.both left right) rest
      else if isMark "||" t then do
        let (right, rest) ← pipeline? fuel (skipLines rest)
        andOrRest? fuel (.either left right) rest
      else some (left, ts)
    | [] => some (left, [])

def pipeline? : (fuel : Nat) → List Token → Option (Command × List Token)
  | 0, _ => none
  | fuel + 1, ts => do
    match ts with
    | t :: rest =>
      if isWord "!" t then
        let (body, rest) ← pipeline? fuel rest
        pure (.negated body, rest)
      else
        let (first, rest) ← command? fuel ts
        match rest with
        | t :: rest' =>
          if isMark "|" t then
            let (second, rest) ← pipeline? fuel (skipLines rest')
            pure (.pipe first second, rest)
          else pure (first, rest)
        | [] => pure (first, [])
    | [] => none

/-- What follows `if` or `elif`. -/
def branches? : (fuel : Nat) → List Token → Option (Command × List Token)
  | 0, _ => none
  | fuel + 1, ts => do
    let (test, rest) ← list? fuel ts
    let (yes, rest) ← list? fuel (← expect? "then" rest)
    match rest with
    | t :: rest =>
      if isWord "elif" t then
        let (no, rest) ← branches? fuel rest
        pure (.conditional test yes no, rest)
      else if isWord "else" t then
        let (no, rest) ← list? fuel rest
        pure (.conditional test yes no, ← expect? "fi" rest)
      else if isWord "fi" t then pure (.conditional test yes .nothing, rest)
      else none
    | [] => none

/-- The arms of a choice up to its end. -/
def arms? : (fuel : Nat) → List Token → Option (List (List Word × Command) × List Token)
  | 0, _ => none
  | fuel + 1, ts => do
    match skipLines ts with
    | [] => none
    | t :: rest =>
      if isWord "esac" t then pure ([], rest)
      else
        let (patterns, rest) ← patterns? (if isMark "(" t then rest else t :: rest)
        let (body, rest) ← list? fuel rest
        match rest with
        | u :: rest =>
          if isMark ";;" u then
            let (arms, rest) ← arms? fuel rest
            pure ((patterns, body) :: arms, rest)
          else if isWord "esac" u then pure ([(patterns, body)], rest)
          else none
        | [] => none

def command? : (fuel : Nat) → List Token → Option (Command × List Token)
  | 0, _ => none
  | fuel + 1, ts => do
    match ts with
    | [] => none
    | t :: rest =>
      let compound? : Option (Option (Command × List Token)) :=
        if isWord "if" t then some (branches? fuel rest)
        else if isWord "while" t || isWord "until" t then some do
          let (test, rest) ← list? fuel rest
          let (body, rest) ← list? fuel (← expect? "do" rest)
          pure (.loop (isWord "while" t) test body, ← expect? "done" rest)
        else if isWord "for" t then some do
          match rest with
          | .word w :: rest =>
            let name ← plainText? w
            let (words, rest) := match rest with
              | u :: more =>
                if isWord "in" u then (some (wordsOf more), more.drop (wordsOf more).length)
                else (none, rest)
              | [] => (none, rest)
            let (body, rest) ← list? fuel (← expect? "do" (skipBreaks rest))
            pure (.each name words body, ← expect? "done" rest)
          | _ => none
        else if isWord "case" t then some do
          match rest with
          | .word w :: rest =>
            let (arms, rest) ← arms? fuel (← expect? "in" (skipLines rest))
            pure (.choice w arms, rest)
          | _ => none
        else if isWord "\x7b" t then some do
          let (body, rest) ← list? fuel rest
          pure (.grouped false body [], ← expect? "\x7d" rest)
        else if isMark "(" t then some do
          let (body, rest) ← list? fuel rest
          match rest with
          | u :: rest => if isMark ")" u then pure (.grouped true body [], rest) else none
          | [] => none
        else none
      match compound? with
      | some result =>
        let (c, rest) ← result
        let (redirects, rest) ← redirects? (rest.length + 1) rest []
        pure (if redirects.isEmpty then c else .grouped false c redirects, rest)
      | none => simple? (ts.length + 1) ts [] [] []

end

/-- The commands of a script. -/
def parse? (script : List Char) : Option Command := do
  let ts ← tokens? (script.length + 1) script []
  let (c, rest) ← list? (6 * ts.length + 6) ts
  if rest.isEmpty then some c else none

end Plumbline.Shell
