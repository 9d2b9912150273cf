/-
Formatters.

Formatting runs the configured commands over the files again and again until their content stays as
it is, or a number of rounds is used up.  Contents are compared by their digests.  Long lists of files
are split over several calls.
-/
import Plumbline.Remedy.Tool
import Plumbline.Text.Digest

namespace Plumbline

structure Formatter where
  /-- Each command gets the files as further arguments. -/
  commands : List (List String)
  maxRounds : Nat
  /-- Seconds for each call. -/
  timeout : Nat := 120
  /-- Bytes of file arguments for one call. -/
  budget : Nat := 32 * 1024
deriving Repr, Inhabited

namespace Formatter

/-- Bytes that a path takes among the arguments. -/
def argSize (p : Path) : Nat := p.utf8ByteSize + 1

/-- The batches of the files that follow a batch under construction of size `used`. -/
def fillBatches (budget : Nat) (batch : List Path) (used : Nat) : List Path → List (List Path)
  | [] => [batch]
  | p :: rest =>
    if used + argSize p > budget then batch :: fillBatches budget [p] (argSize p) rest
    else fillBatches budget (batch ++ [p]) (used + argSize p) rest

/-- Splits files into batches that fit the budget; a path that is too long stands alone. -/
def batches (budget : Nat) : List Path → List (List Path)
  | [] => []
  | p :: rest => fillBatches budget [p] (argSize p) rest

/-- Runs a command on each batch; says whether a call ended.  A tool that cannot be run is not tried
again. -/
def runBatches (f : Formatter) (programs : Programs) (root : Path) (tool : String)
    (command : List String) : List (List Path) → DiskM Bool
  | [] => pure false
  | batch :: rest => do
    match ← ToolRun.start programs (command ++ batch) tool f.timeout root with
    | .notRun _ => pure false
    | .timedOut .. => runBatches f programs root tool command rest
    | .ended .. =>
      let _ ← runBatches f programs root tool command rest
      pure true

/-- Runs every command once; says whether any call ended. -/
def runOnce (f : Formatter) (programs : Programs) (root : Path) (files : List Path) : DiskM Bool :=
  f.commands.foldlM
    (fun ran command =>
      match command with
      | [] => pure ran
      | tool :: _ => do
        let ended ← f.runBatches programs root tool command (batches f.budget files)
        pure (ran || ended))
    false

/-- The paths without those that a later one names again. -/
def distinct : List Path → List Path
  | [] => []
  | p :: rest => if rest.any (Path.same p) then distinct rest else p :: distinct rest

def digest (bytes : ByteArray) : List UInt8 := Digest.sha256 bytes.data.toList

/-- The digests of what the files hold now; a file that cannot be read holds nothing. -/
def digests (root : Path) (files : List Path) : DiskM (List (Path × List UInt8)) :=
  (distinct files).mapM fun p => do
    match ← Disk.read (root.join p) with
    | .ok bytes => pure (p, digest bytes)
    | .error _ => pure (p, digest ⟨#[]⟩)

/-- One digest for all files. -/
def treeDigest (digests : List (Path × List UInt8)) : List UInt8 :=
  Digest.sha256 (digests.flatMap fun (p, digest) => p.toUTF8.data.toList ++ digest)

/-- Repeats until nothing changes; `previous` is the digest of what the files hold now. -/
def rounds (f : Formatter) (programs : Programs) (root : Path) (files : List Path) :
    (left : Nat) → (previous : List UInt8) → DiskM Unit
  | 0, _ => pure ()
  | left + 1, previous => do
    if ← f.runOnce programs root files then
      let current := treeDigest (← digests root files)
      if current = previous then pure () else rounds f programs root files left current
    else pure ()

/-- Formats files; the answer is the number of files that hold something else now. -/
def normalize (f : Formatter) (programs : Programs) (root : Path) (files : List Path) :
    DiskM Nat := do
  if files.isEmpty || f.commands.isEmpty then pure 0
  else
    let before ← digests root files
    f.rounds programs root files (max 1 f.maxRounds) (treeDigest before)
    let after ← digests root files
    pure ((before.zip after).countP fun (a, b) => a.2 != b.2)

end Formatter

end Plumbline
