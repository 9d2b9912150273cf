/-
Files that a project wants to be passed over.

Rules stand in files that any directory may hold.  They name paths below that directory by patterns;
the last rule of a file that matches decides, and a rule with a `!` asks for a path to be kept.  An
inner directory comes before an outer one, and one kind of rule file before another.
-/
import Plumbline.Files.Tree
import Plumbline.Files.Wildcard

namespace Plumbline.Ignore

/-! ### Rules -/

structure Rule where
  pattern : List Wildcard.Token
  /-- Does it keep what it matches? -/
  keeps : Bool
  /-- Does it speak about directories only? -/
  onlyDirs : Bool
deriving Repr, Inhabited

/-- A pattern with what makes it match at any depth, and never a directory that it names the inside
of. -/
def completed (anchored : Bool) (pattern : List Char) : List Char :=
  let anywhere := ['*', '*', '/']
  let pattern :=
    if anchored || pattern.contains '/' || pattern = ['*', '*'] || anywhere.isPrefixOf pattern then
      pattern
    else anywhere ++ pattern
  if ['/', '*', '*'].isSuffixOf pattern then pattern ++ ['/', '*'] else pattern

/-- The rule of a line. -/
def Rule.ofLine? (line : List Char) : Option Rule := do
  let line := if ['\\', ' '].isSuffixOf line then line else Text.trimEnd line
  if line.isEmpty || line.head? = some '#' then none
  let escaped := ['\\', '!'].isPrefixOf line || ['\\', '#'].isPrefixOf line
  let keeps := line.head? = some '!'
  let line := if escaped || keeps then line.drop 1 else line
  let anchored := line.head? = some '/'
  let line := if anchored && !escaped then line.drop 1 else line
  let onlyDirs := line.getLast? = some '/'
  let line := if onlyDirs then
      if line.dropLast.getLast? = some '\\' then line.dropLast.dropLast else line.dropLast
    else line
  let pattern ← Wildcard.tokens? (completed anchored line)
  pure { pattern, keeps, onlyDirs }

/-- The bytes between line feeds. -/
def splitLines : List UInt8 → List (List UInt8)
  | [] => [[]]
  | b :: bs =>
    if b = 10 then [] :: splitLines bs
    else match splitLines bs with
      | line :: lines => (b :: line) :: lines
      | [] => [[b]]

/-- The texts up to the first line that is no well-formed text. -/
def readable : List (List UInt8) → List (List Char)
  | [] => []
  | line :: lines =>
    match String.fromUTF8? ⟨line.toArray⟩ with
    | some text => text.toList :: readable lines
    | none => []

/-- The rules of a file.  A mark of the byte order at the start of the file counts for nothing, and
so do all lines from one on that is no well-formed text. -/
def rulesOf (bytes : ByteArray) : List Rule :=
  let byteOrderMark := Char.ofNat 0xFEFF
  match readable (splitLines bytes.toList) with
  | first :: lines => (first.dropWhile (· == byteOrderMark) :: lines).filterMap Rule.ofLine?
  | [] => []

/-- What rules say about a path. -/
inductive Verdict where
  | silent | skipped | kept
deriving Repr, DecidableEq, Inhabited

def Verdict.or : Verdict → Verdict → Verdict
  | .silent, v => v
  | v, _ => v

/-- What the last rule that matches says. -/
def verdict (rules : List Rule) (path : Wildcard.Bytes) (isDir : Bool) : Verdict :=
  match rules.reverse.find? fun r =>
      (!r.onlyDirs || isDir) && Wildcard.matchesAll r.pattern path with
  | some r => if r.keeps then .kept else .skipped
  | none => .silent

/-! ### Rule files in directories -/

/-- The rules of a file of the tree; none if it cannot be read. -/
def rulesAt (t : FileTree) (p : Place) : List Rule :=
  match t.read p with
  | .ok bytes => rulesOf bytes
  | .error _ => []

/-- The directory of version control in a directory. -/
def repository (dir : Place) : Place := dir ++ [".git"]

/-- The kinds of rule files, in the order in which they are asked, and whether they stop to count
above the directory of a repository. -/
def ruleFiles : List (List String × Bool) :=
  [([".archfixignore"], false), ([".ignore"], false), ([".gitignore"], true),
   ([".git", "info", "exclude"], true)]

/-- The directories above `p`, innermost first, with the root. -/
def dirsAbove (p : Place) : List Place := (List.range p.length).reverse.map p.take

/-- The directories up to the first that holds a repository. -/
def upToRepository (t : FileTree) : List Place → List Place
  | [] => []
  | dir :: rest =>
    if t.isDir (repository dir) || t.isFile (repository dir) then [dir]
    else dir :: upToRepository t rest

/-- What all rule files say about a path: the innermost that says something decides. -/
def verdictAt (t : FileTree) (p : Place) : Verdict :=
  let isDir := t.isDir p
  ruleFiles.foldl (fun v (file, bounded) =>
    v.or <|
      let dirs := if bounded then upToRepository t (dirsAbove p) else dirsAbove p
      dirs.foldl (fun v dir =>
        let path := Wildcard.bytesOf ("/".intercalate (p.drop dir.length)).toList
        v.or (verdict (rulesAt t (dir ++ file)) path isDir))
        .silent)
    .silent

/-- Is the path passed over?  So are hidden files that no rule keeps. -/
def isSkipped (t : FileTree) (p : Place) : Bool :=
  match verdictAt t p with
  | .skipped => true
  | .kept => false
  | .silent => (p.getLast?.getD "").toList.head? = some '.'

/-- Is a file below `root` reached, with all directories on the way to it? -/
def isReached (t : FileTree) (root p : Place) : Bool :=
  (List.range (p.length - root.length)).all fun n => !isSkipped t (p.take (root.length + n + 1))

end Plumbline.Ignore
