/-
Snapshots of files.

Before a file is changed its content is kept, so that the change can be undone.  A store on disk
also writes each snapshot to a directory of its own and lists it in a manifest there; a run that
dies can then be undone by reading the manifest.  The manifest is replaced as a whole.
-/
import Plumbline.Config.Decode
import Plumbline.Files.Disk

namespace Plumbline

/-- One snapshot in a manifest. -/
structure ManifestEntry where
  /-- The name of the snapshot's file. -/
  id : String
  /-- The file that was kept. -/
  path : Path
  createdAt : Timestamp
deriving Repr, DecidableEq, Inhabited

/-- What a file held. -/
structure Snapshot where
  id : String
  path : Path
  content : ByteArray
deriving Inhabited

/-- Why a run cannot go on. -/
inductive BackupError where
  | backupFailed (path : Path) (cause : FileError)
  | restoreFailed (path : Path) (cause : FileError)
deriving Repr, DecidableEq, Inhabited

def BackupError.message : BackupError → String
  | backupFailed path cause =>
    "could not back up " ++ path ++ " before editing: " ++ cause.message
  | restoreFailed path cause =>
    "could not restore " ++ path ++ " from its snapshot: " ++ cause.message

def BackupError.cause : BackupError → FileError
  | backupFailed _ cause | restoreFailed _ cause => cause

structure BackupStore where
  /-- Where snapshots are kept; nothing for a store that only hands them out. -/
  dir : Option Path := none
  /-- Snapshots that are still needed, oldest first. -/
  entries : List ManifestEntry := []
deriving Inhabited

namespace BackupStore

/-! ### Manifests -/

def manifestPath (dir : Path) : Path := dir.join "manifest.json"

def entryJson (e : ManifestEntry) : Json :=
  .obj [("id", .str e.id), ("original", .str e.path), ("created_at", .str e.createdAt.render)]

def manifestText (entries : List ManifestEntry) : String :=
  Json.pretty 0 (.obj [("entries", .arr (entries.map entryJson))])

def entry? (j : Json) : Option ManifestEntry := do
  match ← Decode.fields? .braces ["id", "original", "created_at"] j with
  | [some id, some path, some time] =>
    pure
      { id := ← Decode.string? id, path := ← Decode.string? path
        createdAt := ← Timestamp.parse? (← Decode.string? time) }
  | _ => none

def manifest? (j : Json) : Option (List ManifestEntry) := do
  match ← Decode.fields? .braces ["entries"] j with
  | [some entries] => Decode.list? entry? entries
  | _ => none

/-- The entries that the text of a manifest lists; none if it cannot be understood. -/
def entriesOf (text : String) : List ManifestEntry :=
  ((Json.parse? text).bind manifest?).getD []

def saveManifest (dir : Path) (entries : List ManifestEntry) : DiskM (Except FileError Unit) :=
  Disk.replace (manifestPath dir) (manifestText entries).toUTF8

/-! ### Stores -/

/-- A store in a directory, with the snapshots that an earlier run left there. -/
def onDisk (dir : Path) : DiskM BackupStore := do
  match ← Disk.readText (manifestPath dir) with
  | .ok text => pure { dir := some dir, entries := entriesOf text }
  | .error _ => pure { dir := some dir }

def inMemory : BackupStore := {}

/-- Writes a snapshot to its own file and lists it. -/
def persist (s : BackupStore) (dir : Path) (shot : Snapshot) :
    DiskM (Except FileError Unit × BackupStore) := do
  match ← Disk.makeDir dir with
  | .error e => pure (.error e, s)
  | .ok () =>
    match ← Disk.write (dir.join shot.id) shot.content with
    | .error e => pure (.error e, s)
    | .ok () =>
      let entry : ManifestEntry :=
        { id := shot.id, path := shot.path, createdAt := (← get).now }
      let s := { s with entries := s.entries ++ [entry] }
      pure (← saveManifest dir s.entries, s)

/-- Keeps what a file holds now. -/
def snapshot (s : BackupStore) (path : Path) :
    DiskM (Except BackupError Snapshot × BackupStore) := do
  match ← Disk.read path with
  | .error e => pure (.error (.backupFailed path e), s)
  | .ok content =>
    let shot : Snapshot := { id := ← Disk.draw, path, content }
    match s.dir with
    | none => pure (.ok shot, s)
    | some dir =>
      match ← s.persist dir shot with
      | (.ok (), s) => pure (.ok shot, s)
      | (.error e, s) => pure (.error (.backupFailed path e), s)

/-- Puts back what a file held. -/
def restore (shot : Snapshot) : DiskM (Except BackupError Unit) := do
  match ← Disk.replace shot.path shot.content with
  | .ok () => pure (.ok ())
  | .error e => pure (.error (.restoreFailed shot.path e))

/-- Drops a snapshot that is no longer needed. -/
def discard (s : BackupStore) (shot : Snapshot) : DiskM BackupStore := do
  match s.dir with
  | none => pure s
  | some dir =>
    let s := { s with entries := s.entries.filter (·.id != shot.id) }
    let _ ← saveManifest dir s.entries
    let _ ← Disk.remove (dir.join shot.id)
    pure s

/-- Files with snapshots that are still needed. -/
def pending (s : BackupStore) : List Path := s.entries.map (·.path)

/-- Puts back the content of one entry and drops the entry; `left` are the other entries. -/
def recoverEntry (dir : Path) (left : List ManifestEntry) (e : ManifestEntry) :
    DiskM (Except BackupError Unit) := do
  let stored := dir.join e.id
  match ← Disk.read stored with
  | .error cause => pure (.error (.restoreFailed e.path cause))
  | .ok content =>
    match ← Disk.replace e.path content with
    | .error cause => pure (.error (.restoreFailed e.path cause))
    | .ok () =>
      let _ ← Disk.remove stored
      match ← saveManifest dir left with
      | .error cause => pure (.error (.restoreFailed e.path cause))
      | .ok () => pure (.ok ())

/-- Puts back entries, given last first. -/
def recoverEntries (dir : Path) :
    List ManifestEntry → List Path → DiskM (Except BackupError (List Path) × List ManifestEntry)
  | [], restored => pure (.ok restored, [])
  | e :: rest, restored => do
    match ← recoverEntry dir rest.reverse e with
    | .error cause => pure (.error cause, rest.reverse)
    | .ok () =>
      let restored :=
        if restored.any (Path.same e.path) then restored else restored ++ [e.path]
      recoverEntries dir rest restored

/-- Undoes what an interrupted run left: puts back all snapshots, newest first, so that of several
snapshots of one file the oldest has the last word. -/
def recover (s : BackupStore) : DiskM (Except BackupError (List Path) × BackupStore) := do
  match s.dir with
  | none => pure (.ok [], s)
  | some dir =>
    let (result, entries) ← recoverEntries dir s.entries.reverse []
    pure (result, { s with entries })

end BackupStore

end Plumbline
