/-
What a crash leaves of the snapshots.

A store writes a snapshot before it lists it, so a machine that dies in between leaves a file that
nobody asks for.  It takes back a snapshot the other way round: a recovery removes the file before it
saves the manifest, and a discard removes it even if the manifest could not be saved.  So a manifest
may list a snapshot whose file is gone.  But this happens only to snapshots that have done their duty
(`kept_until_settled`): those that were dropped, and those whose content was put back.

A session is a store at work, with all that was ever read for it.  Its disk fails as it likes; a
process that dies is one whose operations all fail from some point on, until another one opens the
store again.  In between, others may write other files.
-/
import Mathlib.Logic.Relation
import Plumbline.Proofs.Remedy.Manifest

namespace Plumbline.BackupStore

open DiskM Disk

/-! ### Sessions -/

/-- A store at work, with what it has done so far. -/
structure Session where
  disk : Disk
  store : BackupStore
  /-- What was read for each snapshot, under the name that it was given. -/
  taken : List Snapshot := []
  /-- Names of snapshots that were dropped, and of those whose content was put back. -/
  settled : List String := []

/-- What is read for a snapshot that is taken now, if the file can be read. -/
def readNow (path : Path) (d : Disk) : List Snapshot :=
  match (Disk.read path).run d with
  | (.ok content, _) => [{ id := freshName d.drawn, path, content }]
  | (.error _, _) => []

/-- Does the file of an entry get its content back? -/
def isPutBack (dir : Path) (e : ManifestEntry) (d : Disk) : Bool :=
  match (Disk.read (dir.join e.id)).run d with
  | (.ok content, d') => ((Disk.replace e.path content).run d').1.toBool
  | (.error _, _) => false

/-- The entries, given last first, whose content a recovery puts back. -/
def putBack (dir : Path) : List ManifestEntry → Disk → List ManifestEntry
  | [], _ => []
  | e :: rest, d =>
    (if isPutBack dir e d then [e] else []) ++
      match (recoverEntry dir rest.reverse e).run d with
      | (.ok (), d') => putBack dir rest d'
      | (.error _, _) => []

namespace Session

def snapshot (s : Session) (path : Path) : Session :=
  let ((_, store), disk) := (s.store.snapshot path).run s.disk
  { s with disk, store, taken := s.taken ++ readNow path s.disk }

/-- A snapshot that was taken is needed. -/
@[simp] theorem settled_snapshot (s : Session) (path : Path) :
    (s.snapshot path).settled = s.settled := rfl

def discard (s : Session) (shot : Snapshot) : Session :=
  let (store, disk) := (s.store.discard shot).run s.disk
  { s with disk, store, settled := shot.id :: s.settled }

def recover (s : Session) (dir : Path) : Session :=
  let ((_, store), disk) := s.store.recover.run s.disk
  { s with
    disk, store
    settled := (putBack dir s.store.entries.reverse s.disk).map (·.id) ++ s.settled }

/-- Another process opens the store, on a disk that may fail in other ways. -/
def restart (s : Session) (dir : Path) (faults : Nat → Option DiskFault) : Session :=
  let (store, disk) := (onDisk dir).run { s.disk with faults }
  { s with disk, store }

end Session

/-- From `d` to `d'` others may have written files, but none of the store's own. -/
structure Untouched (dir : Path) (d d' : Disk) : Prop where
  cwd : d'.cwd = d.cwd
  manifest : d'.tree.file? (d.place (manifestPath dir)) = d.tree.file? (d.place (manifestPath dir))
  snapshots : ∀ n content, d.Holds (dir.join (freshName n)) content →
    d'.Holds (dir.join (freshName n)) content

/-- One call, or something that happens between two calls. -/
inductive Step (dir : Path) : Session → Session → Prop
  /-- Names of snapshots are new, and the store's own files are not edited. -/
  | snapshot {s : Session} {path : Path} (hpath : ¬ Owns (some dir) s.disk.cwd (s.disk.place path))
      (hnew : ∀ shot ∈ s.taken, shot.id ≠ freshName s.disk.drawn) : Step dir s (s.snapshot path)
  | discard {s : Session} {shot : Snapshot} (hshot : shot ∈ s.taken) : Step dir s (s.discard shot)
  | recover {s : Session} : Step dir s (s.recover dir)
  | restart {s : Session} (faults : Nat → Option DiskFault) : Step dir s (s.restart dir faults)
  | meanwhile {s : Session} {d : Disk} (h : Untouched dir s.disk d) : Step dir s { s with disk := d }

/-- Any number of calls, with whatever happens between them. -/
abbrev Reaches (dir : Path) : Session → Session → Prop := Relation.ReflTransGen (Step dir)

/-! ### What is kept -/

section

variable (dir : Path) (taken : List Snapshot) (settled : List String)

/-- An entry that was made for a snapshot, whose file is there unless the entry is settled. -/
def Backed (d : Disk) (e : ManifestEntry) : Prop :=
  ∃ shot ∈ taken, shot.id = e.id ∧ shot.path = e.path ∧
    (e.id ∈ settled ∨ d.Holds (dir.join e.id) shot.content)

/-- The manifest on the disk lists an entry. -/
def Lists (d : Disk) (e : ManifestEntry) : Prop :=
  ∃ content text, d.tree.file? (d.place (manifestPath dir)) = some content ∧
    String.fromUTF8? content = some text ∧ e ∈ entriesOf text

/-- All entries that a store knows of, and all that its manifest lists, are backed. -/
structure Shelters (entries : List ManifestEntry) (d : Disk) : Prop where
  names : ∀ shot ∈ taken, ∃ n, shot.id = freshName n
  apart : ∀ shot ∈ taken, ¬ Owns (some dir) d.cwd (d.place shot.path)
  memory : ∀ e ∈ entries, Backed dir taken settled d e
  manifest : ∀ e, Lists dir d e → Backed dir taken settled d e

end

variable {dir : Path} {taken taken' : List Snapshot} {settled settled' : List String}
  {entries : List ManifestEntry} {d d' : Disk} {e e' : ManifestEntry}

/-- Only the name and the path of an entry matter. -/
theorem Backed.of_same (h : Backed dir taken settled d e) (hid : e'.id = e.id)
    (hpath : e'.path = e.path) : Backed dir taken settled d e' := by
  unfold Backed
  rw [hid, hpath]
  exact h

theorem Backed.mono (h : Backed dir taken settled d e) (htaken : ∀ shot ∈ taken, shot ∈ taken')
    (hsettled : ∀ id ∈ settled, id ∈ settled') : Backed dir taken' settled' d e := by
  obtain ⟨shot, hshot, hid, hpath, hkept⟩ := h
  exact ⟨shot, htaken shot hshot, hid, hpath, hkept.imp_left (hsettled e.id)⟩

namespace Shelters

/-- More may be settled at any time. -/
theorem settle (h : Shelters dir taken settled entries d)
    (hmore : ∀ id ∈ settled, id ∈ settled') : Shelters dir taken settled' entries d where
  names := h.names
  apart := h.apart
  memory e he := (h.memory e he).mono (fun _ h => h) hmore
  manifest e he := (h.manifest e he).mono (fun _ h => h) hmore

/-- What is forgotten needs no file. -/
theorem forget (h : Shelters dir taken settled entries d) {fewer : List ManifestEntry}
    (hfewer : ∀ e ∈ fewer, e ∈ entries) : Shelters dir taken settled fewer d :=
  ⟨h.names, h.apart, fun e he => h.memory e (hfewer e he), h.manifest⟩

/-- The manifest stays as it is, and so do the files of all snapshots that are not settled. -/
theorem frame (h : Shelters dir taken settled entries d) (hcwd : d'.cwd = d.cwd)
    (hmanifest : d'.tree.file? (d.place (manifestPath dir)) =
      d.tree.file? (d.place (manifestPath dir)))
    (hholds : ∀ shot ∈ taken, shot.id ∉ settled → ∀ content,
      d.Holds (dir.join shot.id) content → d'.Holds (dir.join shot.id) content) :
    Shelters dir taken settled entries d' := by
  have hplace : ∀ path, d'.place path = d.place path := by
    intro path
    rw [place, place, hcwd]
  have hbacked : ∀ e, Backed dir taken settled d e → Backed dir taken settled d' e := by
    rintro e ⟨shot, hshot, hid, hpath, hkept⟩
    refine ⟨shot, hshot, hid, hpath, ?_⟩
    by_cases hsettled : e.id ∈ settled
    · exact Or.inl hsettled
    · have hheld := hkept.resolve_left hsettled
      rw [← hid] at hsettled hheld ⊢
      exact Or.inr (hholds shot hshot hsettled _ hheld)
  refine ⟨h.names, ?_, fun e he => hbacked e (h.memory e he), ?_⟩
  · intro shot hshot
    rw [hcwd, hplace]
    exact h.apart shot hshot
  · rintro e ⟨content, text, hcontent, htext, he⟩
    rw [hplace, hmanifest] at hcontent
    exact hbacked e (h.manifest e ⟨content, text, hcontent, htext, he⟩)

/-- Nothing happens to the store's own files. -/
theorem of_keepsWays (h : Shelters dir taken settled entries d) (hways : KeepsWays d d')
    (hfiles : ∀ q, Owns (some dir) d.cwd q → d'.tree.file? q = d.tree.file? q) :
    Shelters dir taken settled entries d' := by
  refine h.frame hways.cwd (hfiles _ (owns_manifest dir d.cwd)) ?_
  intro shot hshot _ content hheld
  obtain ⟨n, hn⟩ := h.names shot hshot
  rw [hn] at hheld ⊢
  exact hways.holds hheld (hfiles _ (owns_snapshot dir d.cwd n))

theorem step (h : Shelters dir taken settled entries d) (n : Nat) :
    Shelters dir taken settled entries { d with steps := n } :=
  h.of_keepsWays ⟨rfl, .refl _⟩ fun _ _ => rfl

/-! ### Operations -/

/-- Whatever becomes of the new manifest, no file is missing. -/
theorem after_saveManifest (h : Shelters dir taken settled entries d) :
    After (saveManifest dir entries) d fun _ d' => Shelters dir taken settled entries d' := by
  refine ((after_saveManifest_holds dir entries d).and
    (after_replace (manifestPath dir) (manifestText entries).toUTF8 d)).imp ?_
  rintro r d' ⟨⟨hways, hsnapshots, -⟩, hcwd, -, hcase⟩
  have hholds : ∀ shot ∈ taken, ∀ content,
      d.Holds (dir.join shot.id) content → d'.Holds (dir.join shot.id) content := by
    intro shot hshot content hheld
    obtain ⟨n, hn⟩ := h.names shot hshot
    rw [hn] at hheld ⊢
    exact hways.holds hheld (hsnapshots n)
  rcases hcase with ⟨-, hfiles⟩ | ⟨e, -, hfiles, -⟩
  · -- The manifest is the new one: what it lists are entries of the store.
    have hbacked : ∀ e ∈ entries, Backed dir taken settled d' e := by
      intro e he
      obtain ⟨shot, hshot, hid, hpath, hkept⟩ := h.memory e he
      refine ⟨shot, hshot, hid, hpath, hkept.imp_right ?_⟩
      rw [← hid]
      exact hholds shot hshot _
    refine ⟨h.names, ?_, hbacked, ?_⟩
    · intro shot hshot
      rw [hways.cwd, hways.place]
      exact h.apart shot hshot
    · rintro e ⟨content, text, hcontent, htext, he⟩
      rw [hways.place] at hcontent
      have hnew : d'.tree.file? (d.place (manifestPath dir)) =
          some (manifestText entries).toUTF8 := (hfiles _).trans (if_pos rfl)
      have hsame : (manifestText entries).toUTF8 = content :=
        Option.some.inj (hnew.symm.trans hcontent)
      rw [← hsame, fromUTF8?_toUTF8] at htext
      rw [← Option.some.inj htext] at he
      obtain ⟨e', he', hid, hpath⟩ := exists_of_mem_entriesOf he
      exact (hbacked e' he').of_same hid hpath
  · refine h.frame hcwd (hfiles _ ?_) fun shot hshot _ => hholds shot hshot
    unfold place
    rw [place_manifest, place_manifest_draft]
    exact fun heq => absurd (List.append_cancel_left heq) (by decide)

/-- The file of a settled snapshot may go. -/
theorem after_remove (h : Shelters dir taken settled entries d) {n : Nat}
    (hsettled : freshName n ∈ settled) :
    After (remove (dir.join (freshName n))) d fun _ d' => Shelters dir taken settled entries d' := by
  refine (after_remove_snapshot dir n d).imp ?_
  rintro _ d' ⟨-, hways, hfiles⟩
  refine h.frame hways.cwd (hfiles _ (place_snapshot_ne dir n d).1.symm) ?_
  intro shot hshot hopen content hheld
  obtain ⟨m, hm⟩ := h.names shot hshot
  refine hways.holds hheld (hfiles _ ?_)
  rw [hm] at hopen ⊢
  unfold place
  rw [Path.placeFrom_join (isName_freshName m), Path.placeFrom_join (isName_freshName n)]
  intro heq
  have hname : freshName m = freshName n := by simpa using heq
  exact hopen (hname ▸ hsettled)

/-- Other files may be replaced. -/
theorem after_replace_other (h : Shelters dir taken settled entries d) {path : Path}
    (hpath : ¬ Owns (some dir) d.cwd (d.place path)) (content : ByteArray) :
    After (replace path content) d fun _ d' => Shelters dir taken settled entries d' := by
  refine ((after_replace_changesOnly path content d).and
    (after_replace_keepsWays path content d)).imp ?_
  rintro _ d' ⟨hchanges, hways, -⟩
  refine h.of_keepsWays hways fun q hq => hchanges.files q ?_
  rintro (rfl | rfl)
  · exact hpath hq
  · exact not_owns_draft hpath hq

/-- Something was read for a new snapshot. -/
theorem take (h : Shelters dir taken settled entries d) {shot : Snapshot} {n : Nat}
    (hid : shot.id = freshName n) (hpath : ¬ Owns (some dir) d.cwd (d.place shot.path)) :
    Shelters dir (taken ++ [shot]) settled entries d where
  names := List.forall_mem_append.mpr ⟨h.names, by simpa using ⟨n, hid⟩⟩
  apart := List.forall_mem_append.mpr ⟨h.apart, by simpa using hpath⟩
  memory e he := (h.memory e he).mono (fun _ h => List.mem_append_left _ h) fun _ h => h
  manifest e he := (h.manifest e he).mono (fun _ h => List.mem_append_left _ h) fun _ h => h

/-! ### Calls -/

/-- The directory may be made. -/
theorem after_makeDir (h : Shelters dir taken settled entries d) :
    After (makeDir dir) d fun _ d' => d'.cwd = d.cwd ∧ Shelters dir taken settled entries d' := by
  refine (Disk.after_makeDir dir d).imp ?_
  rintro _ _ ⟨t, rfl, hadds⟩
  refine ⟨rfl, h.frame rfl (hadds.file? _) ?_⟩
  intro shot _ _ content hheld
  have hfile : d.tree.isFile (d.place (dir.join shot.id)) = true := by
    rw [FileTree.isFile, hheld.file?]
    rfl
  have hnoDir := (FileTree.read_eq_ok.mp hheld.read).2.1
  exact hheld.of_grows rfl hadds.grows ((hadds.noFile _ hfile).trans hnoDir) (hadds.file? _)

/-- A new snapshot gets a file of its own. -/
theorem after_write (h : Shelters dir taken settled entries d) {n : Nat}
    (hnew : ∀ shot ∈ taken, shot.id ≠ freshName n) (content : ByteArray) :
    After (write (dir.join (freshName n)) content) d fun r d' => d'.cwd = d.cwd ∧
      Shelters dir taken settled entries d' ∧
        (r = .ok () → d'.Holds (dir.join (freshName n)) content) := by
  refine (((after_write_changesOnly (dir.join (freshName n)) content d).and
    (after_write_keepsWays _ content d)).and
    (after_write_holds (getLast?_snapshotPath dir rfl) content d)).imp ?_
  rintro r d' ⟨⟨hchanges, hways⟩, hheld⟩
  refine ⟨hchanges.cwd, h.frame hchanges.cwd ?_ ?_, hheld⟩
  · exact hchanges.files _ (place_snapshot_ne dir n d).1.symm
  · intro shot hshot _ content' hheld'
    refine hways.holds hheld' (hchanges.files _ ?_)
    obtain ⟨m, hm⟩ := h.names shot hshot
    have hne := hnew shot hshot
    rw [hm] at hne ⊢
    unfold place
    rw [Path.placeFrom_join (isName_freshName m), Path.placeFrom_join (isName_freshName n)]
    intro heq
    exact hne (by simpa using heq)

/-- **A snapshot is written before it is listed.** -/
theorem after_persist {store : BackupStore} {shot : Snapshot} {n : Nat}
    (h : Shelters dir taken settled store.entries d) (hid : shot.id = freshName n)
    (hpath : ¬ Owns (some dir) d.cwd (d.place shot.path))
    (hnew : ∀ other ∈ taken, other.id ≠ freshName n) :
    After (store.persist dir shot) d fun r d' =>
      r.2.dir = store.dir ∧ Shelters dir (taken ++ [shot]) settled r.2.entries d' := by
  have htake : ∀ d' : Disk, d'.cwd = d.cwd → Shelters dir taken settled store.entries d' →
      Shelters dir (taken ++ [shot]) settled store.entries d' := by
    intro d' hcwd h'
    refine h'.take hid ?_
    rw [place, hcwd]
    exact hpath
  refine after_bind (h.after_makeDir.imp ?_)
  rintro (e | ⟨⟩) d₁ ⟨hcwd₁, h₁⟩
  · exact ⟨rfl, htake d₁ hcwd₁ h₁⟩
  · dsimp only
    rw [hid]
    refine after_bind ((h₁.after_write hnew shot.content).imp ?_)
    rintro (e | ⟨⟩) d₂ ⟨hcwd₂, h₂, hheld⟩
    · exact ⟨rfl, htake d₂ (hcwd₂.trans hcwd₁) h₂⟩
    · have h₃ := htake d₂ (hcwd₂.trans hcwd₁) h₂
      have hlisted : Shelters dir (taken ++ [shot]) settled (store.entries ++
          [{ id := freshName n, path := shot.path, createdAt := d₂.now }]) d₂ := by
        refine ⟨h₃.names, h₃.apart, List.forall_mem_append.mpr ⟨h₃.memory, ?_⟩, h₃.manifest⟩
        intro e he
        obtain rfl := List.mem_singleton.mp he
        exact ⟨shot, by simp, hid, rfl, Or.inr (hheld rfl)⟩
      refine after_get (after_bind (hlisted.after_saveManifest.imp ?_))
      exact fun r d₄ h₄ => ⟨rfl, h₄⟩

theorem after_snapshot {store : BackupStore} (h : Shelters dir taken settled store.entries d)
    (hdir : store.dir = some dir) {path : Path} (hpath : ¬ Owns (some dir) d.cwd (d.place path))
    (hnew : ∀ shot ∈ taken, shot.id ≠ freshName d.drawn) :
    After (store.snapshot path) d fun r d' => r.2.dir = some dir ∧
      Shelters dir (taken ++ readNow path d) settled r.2.entries d' := by
  unfold readNow
  rcases hread : (Disk.read path).run d with ⟨e | content, d₁⟩
  · obtain ⟨rfl, -⟩ := (after_read path d).of_run hread
    refine after_bind_of_run hread ⟨hdir, ?_⟩
    show Shelters dir (taken ++ []) settled store.entries _
    rw [List.append_nil]
    exact h.step _
  · obtain ⟨rfl, -⟩ := (after_read path d).of_run hread
    refine after_bind_of_run hread (after_bind ((after_draw _).imp ?_))
    rintro _ _ ⟨rfl, rfl⟩
    have h₁ : Shelters dir taken settled store.entries
        { d with steps := d.steps + 1, drawn := d.drawn + 1 } := h.of_keepsWays ⟨rfl, .refl _⟩
      fun _ _ => rfl
    have hid : ({ id := freshName d.drawn, path, content } : Snapshot).id = freshName d.drawn := rfl
    have hpersisted := h₁.after_persist hid hpath hnew
    simp only [hdir]
    refine after_bind (hpersisted.imp ?_)
    rintro ⟨e | ⟨⟩, store'⟩ d₂ ⟨hdir', h₂⟩
    · exact ⟨hdir'.trans hdir, h₂⟩
    · exact ⟨hdir'.trans hdir, h₂⟩

/-- **A dropped snapshot needs no file.** -/
theorem after_discard {store : BackupStore} (h : Shelters dir taken settled store.entries d)
    (hdir : store.dir = some dir) {shot : Snapshot} (hshot : shot ∈ taken) :
    After (store.discard shot) d fun store' d' => store'.dir = some dir ∧
      Shelters dir taken (shot.id :: settled) store'.entries d' := by
  obtain ⟨n, hn⟩ := h.names shot hshot
  have hsettled : Shelters dir taken (shot.id :: settled) store.entries d :=
    h.settle fun _ hid => List.mem_cons_of_mem _ hid
  have hfewer : Shelters dir taken (shot.id :: settled)
      (store.entries.filter (·.id != shot.id)) d :=
    hsettled.forget fun e he => (List.mem_filter.mp he).1
  unfold discard
  simp only [hdir]
  refine after_bind (hfewer.after_saveManifest.imp ?_)
  intro _ d₁ h₁
  rw [hn] at h₁ ⊢
  refine after_bind ((h₁.after_remove (n := n) List.mem_cons_self).imp ?_)
  exact fun _ d₂ h₂ => ⟨rfl, h₂⟩

/-- The file of an entry is removed only after its content was put back. -/
theorem after_recoverEntry {left : List ManifestEntry}
    (h : Shelters dir taken settled (left ++ [e]) d) :
    After (recoverEntry dir left e) d fun _ d' => Shelters dir taken
      ((if isPutBack dir e d then [e.id] else []) ++ settled) left d' := by
  have hleft : Shelters dir taken settled left d := h.forget fun e' he' => List.mem_append_left _ he'
  obtain ⟨shot, hshot, hid, hpath, -⟩ := h.memory e (by simp)
  have hapart : ¬ Owns (some dir) d.cwd (d.place e.path) := hpath ▸ h.apart shot hshot
  obtain ⟨n, hn⟩ := h.names shot hshot
  have hen : e.id = freshName n := hid.symm.trans hn
  unfold isPutBack
  rcases hread : (Disk.read (dir.join e.id)).run d with ⟨cause | content, d₁⟩
  · obtain ⟨rfl, -⟩ := (after_read _ d).of_run hread
    refine after_bind_of_run hread ?_
    show Shelters dir taken settled left _
    exact hleft.step _
  · obtain ⟨rfl, -⟩ := (after_read _ d).of_run hread
    refine after_bind_of_run hread ?_
    have hreplaced := (hleft.step (d.steps + 1)).after_replace_other hapart content
    rcases hreplace : (Disk.replace e.path content).run { d with steps := d.steps + 1 }
      with ⟨cause | ⟨⟩, d₂⟩
    · refine after_bind_of_run hreplace ?_
      have h₂ : Shelters dir taken settled left d₂ := hreplaced.of_run hreplace
      simp only [hreplace]
      exact h₂
    · refine after_bind_of_run hreplace ?_
      have h₂ : Shelters dir taken (e.id :: settled) left d₂ :=
        (hreplaced.of_run hreplace).settle fun _ hid => List.mem_cons_of_mem _ hid
      simp only [hreplace, Except.toBool, if_true, List.singleton_append]
      rw [hen] at h₂ ⊢
      refine after_bind ((h₂.after_remove (n := n) List.mem_cons_self).imp ?_)
      intro _ d₃ h₃
      refine after_bind (h₃.after_saveManifest.imp ?_)
      rintro (cause | ⟨⟩) d₄ h₄
      · exact h₄
      · exact h₄

theorem after_recoverEntries {entries : List ManifestEntry} {restored : List Path}
    (h : Shelters dir taken settled entries.reverse d) :
    After (recoverEntries dir entries restored) d fun r d' => Shelters dir taken
      ((putBack dir entries d).map (·.id) ++ settled) r.2 d' := by
  induction entries generalizing settled d restored with
  | nil => exact h
  | cons e rest ih =>
      rw [List.reverse_cons] at h
      unfold putBack
      -- Whether the content of `e` was put back is known when its turn is over.
      have hids : ∀ ids : List ManifestEntry, ∀ id ∈
          ids.map (·.id) ++ ((if isPutBack dir e d then [e.id] else []) ++ settled),
          id ∈ ((if isPutBack dir e d then [e] else []) ++ ids).map (·.id) ++ settled := by
        intro ids id hid
        by_cases hback : isPutBack dir e d = true
        · simp only [hback, if_true, List.mem_append, List.map_append] at hid ⊢
          tauto
        · simpa [hback] using hid
      rcases hrun : (recoverEntry dir rest.reverse e).run d with ⟨cause | ⟨⟩, d₁⟩
      · have h₁ := h.after_recoverEntry.of_run hrun
        exact after_bind_of_run hrun (h₁.settle (hids []))
      · have h₁ := h.after_recoverEntry.of_run hrun
        exact after_bind_of_run hrun ((ih h₁).imp fun _ _ h₂ => h₂.settle (hids _))

theorem after_recover {store : BackupStore} (h : Shelters dir taken settled store.entries d)
    (hdir : store.dir = some dir) :
    After store.recover d fun r d' => r.2.dir = some dir ∧ Shelters dir taken
      ((putBack dir store.entries.reverse d).map (·.id) ++ settled) r.2.entries d' := by
  unfold recover
  simp only [hdir]
  rw [← List.reverse_reverse store.entries] at h
  exact after_bind (h.after_recoverEntries.imp fun r d' h' => ⟨rfl, h'⟩)

/-- A process that opens the store knows of what the manifest lists. -/
theorem after_onDisk (h : Shelters dir taken settled entries d) :
    After (onDisk dir) d fun store d' => store.dir = some dir ∧
      Shelters dir taken settled store.entries d' := by
  refine after_bind ((after_readText (manifestPath dir) d).imp ?_)
  rintro (e | text) _ ⟨rfl, hread⟩
  · refine ⟨rfl, (h.step _).forget ?_⟩
    exact fun e he => absurd he List.not_mem_nil
  · obtain ⟨content, hheld, htext⟩ := hread text rfl
    have h₁ := h.step (d.steps + 1)
    refine ⟨rfl, h₁.names, h₁.apart, fun e he => ?_, h₁.manifest⟩
    exact h₁.manifest e ⟨content, text, hheld.file?, htext, he⟩

end Shelters

/-! ### Sessions -/

/-- All entries of a session are backed. -/
structure Session.Sheltered (dir : Path) (s : Session) : Prop where
  opened : s.store.dir = some dir
  kept : Shelters dir s.taken s.settled s.store.entries s.disk

/-- A store that was opened where nothing is listed. -/
theorem Session.sheltered_start {d : Disk} (h : ∀ e, ¬ Lists dir d e) :
    Sheltered dir { disk := d, store := { dir := some dir } } where
  opened := rfl
  kept := ⟨by simp, by simp, by simp, fun e he => absurd he (h e)⟩

/-- **Each call keeps what is needed**, and so does what happens in between. -/
theorem Step.sheltered {s s' : Session} (hstep : Step dir s s') (h : s.Sheltered dir) :
    s'.Sheltered dir := by
  cases hstep with
  | snapshot hpath hnew =>
      have hafter := h.kept.after_snapshot h.opened hpath hnew
      exact ⟨hafter.1, hafter.2⟩
  | discard hshot =>
      have hafter := h.kept.after_discard h.opened hshot
      exact ⟨hafter.1, hafter.2⟩
  | recover =>
      have hafter := h.kept.after_recover h.opened
      exact ⟨hafter.1, hafter.2⟩
  | restart faults =>
      have hfaults : Shelters dir s.taken s.settled s.store.entries { s.disk with faults } :=
        h.kept.of_keepsWays ⟨rfl, .refl _⟩ fun _ _ => rfl
      have hafter := hfaults.after_onDisk
      exact ⟨hafter.1, hafter.2⟩
  | meanwhile hquiet =>
      refine ⟨h.opened, h.kept.frame hquiet.cwd hquiet.manifest ?_⟩
      intro shot hshot _ content hheld
      obtain ⟨n, hn⟩ := h.kept.names shot hshot
      rw [hn] at hheld ⊢
      exact hquiet.snapshots n content hheld

theorem Reaches.sheltered {s s' : Session} (hreach : Reaches dir s s') (h : s.Sheltered dir) :
    s'.Sheltered dir := by
  induction hreach with
  | refl => exact h
  | tail _ hstep ih => exact hstep.sheltered ih

/-- **A snapshot is kept until it is settled**, however often the store dies: whatever a store lists
when it is reopened was taken, and its file holds what was read then, unless it was dropped or its
content was put back. -/
theorem kept_until_settled {s s' : Session} (hstart : s.Sheltered dir) (hreach : Reaches dir s s') :
    ∀ e ∈ (reopened dir s'.disk).entries, ∃ shot ∈ s'.taken, shot.id = e.id ∧ shot.path = e.path ∧
      (e.id ∈ s'.settled ∨ s'.disk.Holds (dir.join e.id) shot.content) := by
  intro e he
  obtain ⟨content, text, hheld, htext, hlisted⟩ := holds_of_mem_reopened he
  exact (hreach.sheltered hstart).kept.manifest e ⟨content, text, hheld.file?, htext, hlisted⟩

/-- A store in `/b`, beside a project with one file, on a disk whose operations fail from the given
one on. -/
def newSession (dies : Nat) : Session where
  disk :=
    { tree := { files := [(["p", "a.py"], "x = 1\n".toUTF8)], dirs := [["p"]] }
      faults := fun n => if n < dies then none else some { error := .denied } }
  store := { dir := some "/b" }

/-- A process takes a snapshot of the file, and dies then. -/
def oneSnapshot : Session := (newSession 6).snapshot "/p/a.py"

/-- A process takes a snapshot of the file and recovers it, and dies when it has removed the
snapshot. -/
def dyingRecovery : Session := ((newSession 10).snapshot "/p/a.py").recover "/b"

/-- The entry for the snapshot. -/
def onlyEntry : ManifestEntry := { id := freshName 0, path := "/p/a.py", createdAt := ⟨0, 0⟩ }

theorem reaches_snapshot (dies : Nat) :
    Reaches "/b" (newSession dies) ((newSession dies).snapshot "/p/a.py") := by
  have hpath : ¬ Owns (some "/b") (newSession dies).disk.cwd
      ((newSession dies).disk.place "/p/a.py") := by
    intro hown
    obtain ⟨path, hpath, hbelow⟩ := hown.below
    rw [← Option.some.inj hpath] at hbelow
    have hplaces : ¬ Path.placeFrom [] "/b" <+: Path.placeFrom [] "/p/a.py" := by decide +kernel
    exact hplaces hbelow
  exact Relation.ReflTransGen.single (Step.snapshot hpath fun _ h => absurd h List.not_mem_nil)

theorem sheltered_newSession (dies : Nat) : (newSession dies).Sheltered "/b" := by
  have hnone : (newSession dies).disk.tree.file?
      ((newSession dies).disk.place (manifestPath "/b")) = none := by
    show FileTree.file? { files := [(["p", "a.py"], "x = 1\n".toUTF8)], dirs := [["p"]] }
      (Path.placeFrom [] (manifestPath "/b")) = none
    decide +kernel
  have hunlisted : ∀ e, ¬ Lists "/b" (newSession dies).disk e := by
    rintro e ⟨content, text, hcontent, -⟩
    exact absurd (hnone.symm.trans hcontent) (by simp)
  exact Session.sheltered_start hunlisted

/-- When a manifest with this one entry stands on the disk, the entry is what a new process finds. -/
theorem mem_reopened_onlyEntry {d : Disk}
    (h : d.Holds (manifestPath "/b") (manifestText [onlyEntry]).toUTF8) :
    onlyEntry ∈ (reopened "/b" d).entries := by
  have htime : ∀ e ∈ [onlyEntry], e.createdAt.IsTellable := by
    intro e he
    rw [List.mem_singleton.mp he]
    exact ⟨by decide, by decide⟩
  rw [reopened_of_holds h, entriesOf_manifestText htime]
  exact List.mem_cons_self

/-- A snapshot that was taken is on the disk.  When the recovery has died, the manifest still lists
it, but its file is gone, because its content was put back. -/
theorem kept_until_dying_recovery :
    (∃ e ∈ (reopened "/b" oneSnapshot.disk).entries, ∃ content,
      oneSnapshot.disk.Holds (Path.join "/b" e.id) content) ∧
    ∃ e ∈ (reopened "/b" dyingRecovery.disk).entries,
      (∀ content, ¬ dyingRecovery.disk.Holds (Path.join "/b" e.id) content) ∧
        e.id ∈ dyingRecovery.settled := by
  constructor
  · obtain ⟨hlocated, hread⟩ :
        oneSnapshot.disk.tree.locate oneSnapshot.disk.cwd (manifestPath "/b") =
          .ok (oneSnapshot.disk.place (manifestPath "/b")) ∧
        oneSnapshot.disk.tree.read (oneSnapshot.disk.place (manifestPath "/b")) =
          .ok (manifestText [onlyEntry]).toUTF8 := by decide +kernel
    have hlisted : onlyEntry ∈ (reopened "/b" oneSnapshot.disk).entries :=
      mem_reopened_onlyEntry ⟨hlocated, hread⟩
    have hopen : onlyEntry.id ∉ oneSnapshot.settled := by
      rw [oneSnapshot, Session.settled_snapshot]
      exact List.not_mem_nil
    obtain ⟨shot, -, -, -, hkept⟩ :=
      kept_until_settled (sheltered_newSession 6) (reaches_snapshot 6) onlyEntry hlisted
    exact ⟨onlyEntry, hlisted, shot.content, hkept.resolve_left hopen⟩
  · obtain ⟨hlocated, hread, hnone⟩ :
        dyingRecovery.disk.tree.locate dyingRecovery.disk.cwd (manifestPath "/b") =
          .ok (dyingRecovery.disk.place (manifestPath "/b")) ∧
        dyingRecovery.disk.tree.read (dyingRecovery.disk.place (manifestPath "/b")) =
          .ok (manifestText [onlyEntry]).toUTF8 ∧
        dyingRecovery.disk.tree.file?
          (dyingRecovery.disk.place (Path.join "/b" onlyEntry.id)) = none := by decide +kernel
    have hlisted : onlyEntry ∈ (reopened "/b" dyingRecovery.disk).entries :=
      mem_reopened_onlyEntry ⟨hlocated, hread⟩
    have hmissing : ∀ content,
        ¬ dyingRecovery.disk.Holds (Path.join "/b" onlyEntry.id) content := by
      intro content hheld
      exact absurd (hnone.symm.trans hheld.file?) (by simp)
    obtain ⟨shot, -, -, -, hkept⟩ := kept_until_settled (sheltered_newSession 10)
      ((reaches_snapshot 10).tail .recover) onlyEntry hlisted
    exact ⟨onlyEntry, hlisted, hmissing, hkept.resolve_right (hmissing _)⟩

end Plumbline.BackupStore
