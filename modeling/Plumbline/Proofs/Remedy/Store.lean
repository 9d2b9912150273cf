/-
A store writes its own files only.

A store on disk has a directory, and in it a manifest, for a moment the draft of the manifest, and
one file for each snapshot.  Taking and dropping snapshots changes these files and no others,
whatever fails on the way (`after_snapshot`, `after_discard`).  Directories may come into being, but
none where a file lies.

Names of snapshots are those that the disk hands out; a file that had such a name before would be
the store's own in this sense.
-/
import Plumbline.Proofs.Files.Disk
import Plumbline.Remedy.Backup

namespace Plumbline

open DiskM Disk FileTree

/-! ### Names that the disk hands out -/

theorem mem_toDigits {n : Nat} {c : Char} (h : c ∈ Nat.toDigits 16 n) :
    ∃ k, k < 16 ∧ c = k.digitChar := by
  induction n using Nat.strongRecOn with
  | _ n ih =>
      rw [Nat.toDigits_eq_if (by decide)] at h
      split at h
      · rename_i hlt
        exact ⟨n, hlt, by simpa using h⟩
      · rename_i hge
        rcases List.mem_append.mp h with hmem | hmem
        · exact ih (n / 16) (by omega) hmem
        · exact ⟨n % 16, by omega, by simpa using hmem⟩

theorem isName_freshName (n : Nat) : Path.IsName (freshName n) := by
  have hlist : (freshName n).toList = "00000000-0000-4000-8000-".toList ++
      (List.replicate (12 - (Nat.toDigits 16 n).length) '0' ++ Nat.toDigits 16 n) := by
    unfold freshName
    rw [String.toList_append, String.toList_ofList, String.toList_ofList]
  have hlong : 3 ≤ (freshName n).toList.length := by
    rw [hlist, List.length_append]
    exact Nat.le_trans (by decide) (Nat.le_add_right _ _)
  have hne : ∀ s : String, s.toList.length < 3 → freshName n ≠ s := by
    intro s hs heq
    rw [heq] at hlong
    omega
  refine ⟨?_, ?_, hne ".." (by decide)⟩
  · rw [hlist]
    intro hmem
    rcases List.mem_append.mp hmem with h | h
    · exact absurd h (by decide)
    · rcases List.mem_append.mp h with h | h
      · exact absurd (List.eq_of_mem_replicate h) (by decide)
      · obtain ⟨k, hk, heq⟩ := mem_toDigits h
        have : ∀ k, k < 16 → '/' ≠ k.digitChar := by decide
        exact this k hk heq
  · simp [Path.isVoid, hne "" (by decide), hne "." (by decide)]

theorem head?_freshName (n : Nat) : (freshName n).toList.head? = some '0' := by
  unfold freshName
  rw [String.toList_append]
  rfl

/-! ### New directories -/

namespace FileTree

variable {t t' : FileTree} {cwd : Place}

/-- From `t` to `t'` directories were added, none of them where a file lies. -/
structure AddsDirs (t t' : FileTree) : Prop where
  files : t'.files = t.files
  dirs : ∀ q, t.isDir q = true → t'.isDir q = true
  noFile : ∀ q, t.isFile q = true → t'.isDir q = t.isDir q

namespace AddsDirs

theorem refl (t : FileTree) : AddsDirs t t := ⟨rfl, fun _ h => h, fun _ _ => rfl⟩

theorem file? (h : AddsDirs t t') (q : Place) : t'.file? q = t.file? q := by
  unfold FileTree.file?
  rw [h.files]

theorem trans {t'' : FileTree} (h : AddsDirs t t') (h' : AddsDirs t' t'') : AddsDirs t t'' where
  files := h'.files.trans h.files
  dirs q hq := h'.dirs q (h.dirs q hq)
  noFile q hq := by
    have hq' : t'.isFile q = true := by rwa [isFile, h.file?]
    exact (h'.noFile q hq').trans (h.noFile q hq)

theorem grows (h : AddsDirs t t') : Grows t t' where
  dirs := h.dirs
  files q _ hfile := by rwa [isFile, h.file?]

end AddsDirs

theorem addsDirs_makeOne {path : Path} (h : t.makeOne cwd path = .ok t') : AddsDirs t t' := by
  unfold makeOne at h
  cases hfold : path.components.foldlM t.step cwd with
  | error e => simp [hfold, bind, Except.bind] at h
  | ok p =>
      simp only [hfold, bind, Except.bind] at h
      split at h
      · exact absurd h (by simp)
      · split at h
        · exact absurd h (by simp)
        · rename_i hfree
          split at h
          · exact absurd h (by simp)
          · rw [← Except.ok.inj h]
            refine ⟨rfl, ?_, ?_⟩
            · intro q hq
              unfold isDir at hq ⊢
              simp only [Bool.or_eq_true, List.contains_eq_mem, List.mem_append,
                decide_eq_true_eq] at hq ⊢
              exact hq.imp_right Or.inl
            · intro q hq
              have hne : q ≠ p := by
                rintro rfl
                simp [hq] at hfree
              simp [isDir, hne]

theorem addsDirs_makeNested {paths : List Path} (h : t.makeNested cwd paths = .ok t') :
    AddsDirs t t' := by
  induction paths generalizing t' with
  | nil => exact absurd h (by simp [makeNested])
  | cons path above ih =>
      unfold makeNested at h
      split at h
      · rw [← Except.ok.inj h]
        exact .refl t
      · simp only at h
        split at h
        · rename_i hone
          rw [← Except.ok.inj h]
          exact addsDirs_makeOne hone
        · cases hnest : t.makeNested cwd above with
          | error e => simp [hnest, bind, Except.bind] at h
          | ok u =>
              simp only [hnest, bind, Except.bind] at h
              have hu := ih hnest
              split at h
              · rename_i hone
                rw [← Except.ok.inj h]
                exact hu.trans (addsDirs_makeOne hone)
              · split at h
                · rw [← Except.ok.inj h]
                  exact hu
                · exact absurd h (by simp)
        · split at h
          · rw [← Except.ok.inj h]
            exact .refl t
          · exact absurd h (by simp)

end FileTree

theorem Disk.after_makeDir (path : Path) (d : Disk) : After (makeDir path) d fun _ d' =>
    ∃ t, d' = { d with steps := d.steps + 1, tree := t } ∧ AddsDirs d.tree t := by
  refine after_get (after_change ?_ fun e _ => ⟨d.tree, rfl, .refl _⟩)
  exact fun t h => ⟨t, rfl, addsDirs_makeNested h⟩

theorem Disk.changesOnly_of_addsDirs (A : Place → Prop) {d : Disk} {t : FileTree}
    (h : AddsDirs d.tree t) : ChangesOnly A d { d with steps := d.steps + 1, tree := t } :=
  ⟨rfl, rfl, fun q _ => h.file? q⟩

/-! ### Files of a store -/

namespace BackupStore

/-- The names of the files in a store's directory. -/
inductive OwnName : String → Prop
  | manifest : OwnName "manifest.json"
  | draft : OwnName (draftName "manifest.json")
  | snapshot (n : Nat) : OwnName (freshName n)

/-- The places of a store's own files. -/
def Owns (dir : Option Path) (cwd : Place) (q : Place) : Prop :=
  ∃ path name, dir = some path ∧ OwnName name ∧ q = path.placeFrom cwd ++ [name]

/-- A file that lies elsewhere than in the directory is not the store's own. -/
theorem Owns.below {dir : Option Path} {cwd q : Place} (h : Owns dir cwd q) :
    ∃ path, dir = some path ∧ path.placeFrom cwd <+: q := by
  obtain ⟨path, name, hdir, -, rfl⟩ := h
  exact ⟨path, hdir, List.prefix_append _ _⟩

theorem isName_manifest : Path.IsName "manifest.json" := ⟨by decide, by decide, by decide⟩

theorem place_manifest (dir : Path) (cwd : Place) :
    (manifestPath dir).placeFrom cwd = dir.placeFrom cwd ++ ["manifest.json"] :=
  Path.placeFrom_join isName_manifest cwd dir

theorem place_manifest_draft (dir : Path) (cwd : Place) :
    (draftPath (manifestPath dir)).placeFrom cwd =
      dir.placeFrom cwd ++ [draftName "manifest.json"] := by
  have hname : (manifestPath dir).fileName? = some "manifest.json" := by
    unfold manifestPath Path.fileName?
    rw [Path.components_join isName_manifest]
    simp
  obtain ⟨front, hplace, hdraft⟩ := placeFrom_draftPath hname cwd
  rw [place_manifest] at hplace
  rw [hdraft, (List.append_inj' hplace rfl).1]

/-- A draft is the store's own only if its file is. -/
theorem not_owns_draft {dir : Option Path} {cwd : Place} {path : Path}
    (h : ¬ Owns dir cwd (path.placeFrom cwd)) :
    ¬ Owns dir cwd ((draftPath path).placeFrom cwd) := by
  rintro ⟨store, name, hdir, hname, heq⟩
  obtain ⟨hdraft, front, hjoin⟩ := draftPath_eq_join path
  rw [hjoin, Path.placeFrom_join hdraft] at heq
  obtain rfl : draftName (path.fileName?.getD "") = name := by
    simpa using (List.append_inj' heq rfl).2
  have hhead := head?_draftName (path.fileName?.getD "")
  generalize hown : draftName (path.fileName?.getD "") = own at hname hhead
  cases hname with
  | manifest => exact absurd hhead (by decide)
  | draft =>
      have hfile : path.fileName? = some "manifest.json" := by
        have hget := draftName_injective hown
        cases hf : path.fileName? with
        | none => exact absurd (hf ▸ hget) (by decide)
        | some file => exact congrArg some (by simpa [hf] using hget)
      obtain ⟨beside, hplace, hbeside⟩ := placeFrom_draftPath hfile cwd
      rw [hjoin, Path.placeFrom_join hdraft, heq] at hbeside
      refine h ⟨store, _, hdir, .manifest, ?_⟩
      rw [hplace, (List.append_inj' hbeside rfl).1]
  | snapshot n =>
      exact absurd (hhead.symm.trans (head?_freshName n)) (by decide)

/-! ### Operations of a store -/

variable {d : Disk}

theorem owns_manifest (dir : Path) (cwd : Place) :
    Owns (some dir) cwd ((manifestPath dir).placeFrom cwd) :=
  ⟨dir, _, rfl, .manifest, place_manifest dir cwd⟩

theorem after_saveManifest (dir : Path) (entries : List ManifestEntry) (d : Disk) :
    After (saveManifest dir entries) d fun _ d' => ChangesOnly (Owns (some dir) d.cwd) d d' := by
  refine (after_replace_changesOnly _ _ d).imp fun _ d' h => h.mono ?_
  rintro q (rfl | rfl)
  · exact owns_manifest dir d.cwd
  · exact ⟨dir, _, rfl, .draft, place_manifest_draft dir d.cwd⟩

theorem owns_snapshot (dir : Path) (cwd : Place) (n : Nat) :
    Owns (some dir) cwd ((dir.join (freshName n)).placeFrom cwd) :=
  ⟨dir, _, rfl, .snapshot n, Path.placeFrom_join (isName_freshName n) cwd dir⟩

theorem after_persist (s : BackupStore) (dir : Path) {shot : Snapshot} {n : Nat}
    (hid : shot.id = freshName n) (d : Disk) : After (s.persist dir shot) d fun r d' =>
      ChangesOnly (Owns (some dir) d.cwd) d d' ∧ r.2.dir = s.dir := by
  refine after_bind ((after_makeDir dir d).imp ?_)
  rintro r d₁ ⟨t, rfl, hadds⟩
  have hdir := changesOnly_of_addsDirs (Owns (some dir) d.cwd) hadds
  rcases r with e | ⟨⟩
  · exact ⟨hdir, rfl⟩
  · refine after_bind ((after_write_changesOnly (dir.join shot.id) shot.content _).imp ?_)
    intro r d₂ hfile
    have hwrite : ChangesOnly (Owns (some dir) d.cwd) d d₂ := by
      refine hdir.trans (hfile.mono ?_)
      rintro _ rfl
      rw [hid]
      exact owns_snapshot dir d.cwd n
    rcases r with e | ⟨⟩
    · exact ⟨hwrite, rfl⟩
    · refine after_get (after_bind ((after_saveManifest dir _ _).imp fun r d₃ hsave => ?_))
      rw [hwrite.cwd] at hsave
      exact ⟨hwrite.trans hsave, rfl⟩

/-- A snapshot that was taken of a disk: it holds what the file held, under a name of its own. -/
structure TakenOf (shot : Snapshot) (path : Path) (d : Disk) : Prop where
  samePath : shot.path = path
  content : d.Holds path shot.content
  id : ∃ n, shot.id = freshName n

theorem after_draw (d : Disk) : After draw d fun name d' =>
    name = freshName d.drawn ∧ d' = { d with drawn := d.drawn + 1 } := ⟨rfl, rfl⟩

/-- **Taking a snapshot changes the store's own files only**, and the snapshot holds what the file
held.  If none can be taken, the run is told that a backup failed. -/
theorem after_snapshot (s : BackupStore) (path : Path) (d : Disk) :
    After (s.snapshot path) d fun r d' =>
      ChangesOnly (Owns s.dir d.cwd) d d' ∧ r.2.dir = s.dir ∧
        ((∃ shot, r.1 = .ok shot ∧ TakenOf shot path d) ∨
          ∃ cause, r.1 = .error (.backupFailed path cause)) := by
  refine after_bind ((after_read path d).imp ?_)
  rintro (e | content) d₁ ⟨rfl, hread⟩
  · exact ⟨⟨rfl, rfl, fun _ _ => rfl⟩, rfl, Or.inr ⟨e, rfl⟩⟩
  · refine after_bind ((after_draw _).imp ?_)
    rintro name d₂ ⟨rfl, rfl⟩
    have htaken : TakenOf { id := freshName d.drawn, path, content } path d :=
      ⟨rfl, hread content rfl, d.drawn, rfl⟩
    cases hdir : s.dir with
    | none =>
        exact ⟨⟨rfl, rfl, fun _ _ => rfl⟩, hdir, Or.inl ⟨_, rfl, htaken⟩⟩
    | some dir =>
        refine after_bind ((after_persist s dir rfl _).imp ?_)
        rintro ⟨r, s'⟩ d₃ ⟨hchanges, hsame⟩
        have hchanges' : ChangesOnly (Owns (some dir) d.cwd) d d₃ :=
          ⟨hchanges.cwd, hchanges.faults, hchanges.files⟩
        cases r with
        | error e => exact ⟨hchanges', hsame.trans hdir, Or.inr ⟨e, rfl⟩⟩
        | ok _ => exact ⟨hchanges', hsame.trans hdir, Or.inl ⟨_, rfl, htaken⟩⟩

/-! ### What a snapshot writes -/

theorem getLast?_manifestPath (dir : Path) :
    (manifestPath dir).segments.getLast?.any Path.isVoid = false := by
  obtain ⟨-, front, hsegs, -⟩ := Path.segments_join isName_manifest dir
  rw [manifestPath, hsegs]
  simp [isName_manifest.notVoid]

theorem getLast?_snapshotPath (dir : Path) {id : String} {n : Nat} (hid : id = freshName n) :
    (dir.join id).segments.getLast?.any Path.isVoid = false := by
  obtain ⟨-, front, hsegs, -⟩ := Path.segments_join (isName_freshName n) dir
  rw [hid, hsegs]
  simp [(isName_freshName n).notVoid]

/-- A snapshot has a file of its own. -/
theorem place_snapshot_ne (dir : Path) (n : Nat) (d : Disk) :
    d.place (dir.join (freshName n)) ≠ d.place (manifestPath dir) ∧
      d.place (dir.join (freshName n)) ≠ d.place (draftPath (manifestPath dir)) := by
  have hname : ∀ name : String, name.toList.head? ≠ some '0' →
      dir.placeFrom d.cwd ++ [freshName n] ≠ dir.placeFrom d.cwd ++ [name] := by
    intro name hhead heq
    have hsame : freshName n = name := by simpa using heq
    rw [← hsame] at hhead
    exact hhead (head?_freshName n)
  unfold place
  rw [Path.placeFrom_join (isName_freshName n), place_manifest, place_manifest_draft]
  exact ⟨hname _ (by decide), hname _ (by decide)⟩

/-- A manifest that was saved can be read and saved again, and no snapshot was touched. -/
theorem after_saveManifest_holds (dir : Path) (entries : List ManifestEntry) (d : Disk) :
    After (saveManifest dir entries) d fun r d' => KeepsWays d d' ∧
      (∀ n, d'.tree.file? (d.place (dir.join (freshName n))) =
        d.tree.file? (d.place (dir.join (freshName n)))) ∧
      (r = .ok () → d'.Holds (manifestPath dir) (manifestText entries).toUTF8 ∧
        d'.Replaceable (manifestPath dir)) := by
  refine (((after_replace_changesOnly _ _ d).and (after_replace_keepsWays _ _ d)).and
    (after_replace_holds (getLast?_manifestPath dir) _ d)).imp ?_
  rintro r d' ⟨⟨hchanges, hways, -⟩, hheld⟩
  refine ⟨hways, fun n => hchanges.files _ ?_, hheld⟩
  obtain ⟨hmanifest, hdraft⟩ := place_snapshot_ne dir n d
  exact fun h => h.elim hmanifest hdraft

/-- What is on the disk when a snapshot was taken: the file of the snapshot, and a manifest that
lists it after the entries that were there. -/
structure Stores (s : BackupStore) (dir : Path) (shot : Snapshot) (time : Timestamp)
    (s' : BackupStore) (d : Disk) : Prop where
  entries : s'.entries = s.entries ++ [{ id := shot.id, path := shot.path, createdAt := time }]
  file : d.Holds (dir.join shot.id) shot.content
  manifest : d.Holds (manifestPath dir) (manifestText s'.entries).toUTF8
  replaceable : d.Replaceable (manifestPath dir)

theorem after_persist_stores (s : BackupStore) (dir : Path) {shot : Snapshot} {n : Nat}
    (hid : shot.id = freshName n) (d : Disk) : After (s.persist dir shot) d fun r d' =>
      r.1 = .ok () → Stores s dir shot d.now r.2 d' := by
  refine after_bind ((after_makeDir dir d).imp ?_)
  rintro (e | ⟨⟩) _ ⟨t, rfl, -⟩
  · exact fun h => absurd h (by simp)
  · refine after_bind (((after_write (dir.join shot.id) shot.content _).and
      (after_write_holds (getLast?_snapshotPath dir hid) shot.content _)).imp ?_)
    rintro _ d₂ ⟨⟨e, rfl, -⟩ | ⟨e, part, rfl, -⟩ | ⟨rfl, -, -, -, rfl⟩, hfile⟩
    · exact fun h => absurd h (by simp)
    · exact fun h => absurd h (by simp)
    · refine after_get (after_bind ((after_saveManifest_holds dir _ _).imp ?_))
      rintro r d₃ ⟨hways, hkept, hsaved⟩ hok
      obtain rfl : r = .ok () := hok
      obtain ⟨hmanifest, hreplaceable⟩ := hsaved rfl
      have hsame := hkept n
      rw [← hid] at hsame
      exact ⟨rfl, hways.holds (hfile rfl) hsame, hmanifest, hreplaceable⟩

/-- **A snapshot that was taken is on the disk.** -/
theorem after_snapshot_stores {s : BackupStore} {dir : Path} (hdir : s.dir = some dir) (path : Path)
    (d : Disk) : After (s.snapshot path) d fun r d' =>
      ∀ shot, r.1 = .ok shot → shot.id = freshName d.drawn ∧ Stores s dir shot d.now r.2 d' := by
  refine after_bind ((after_read path d).imp ?_)
  rintro (e | content) d₁ ⟨rfl, -⟩
  · exact fun shot h => absurd h (by simp)
  · refine after_bind ((after_draw _).imp ?_)
    rintro name d₂ ⟨rfl, rfl⟩
    simp only [hdir]
    refine after_bind ((after_persist_stores s dir rfl _).imp ?_)
    rintro ⟨e | _, s'⟩ d₃ hstores
    · exact fun _ hok => absurd hok (by simp)
    · intro shot hok
      obtain rfl := Except.ok.inj hok
      exact ⟨rfl, hstores rfl⟩

theorem after_remove_snapshot (dir : Path) (n : Nat) (d : Disk) :
    After (remove (dir.join (freshName n))) d fun _ d' =>
      ChangesOnly (Owns (some dir) d.cwd) d d' ∧ KeepsWays d d' ∧
        ∀ q, q ≠ d.place (dir.join (freshName n)) → d'.tree.file? q = d.tree.file? q := by
  refine (after_remove_elsewhere (dir.join (freshName n)) d).imp ?_
  rintro _ d' ⟨hways, hfaults, -, hfiles⟩
  refine ⟨⟨hways.cwd, hfaults, fun q hq => hfiles q fun heq => hq ?_⟩, hways, hfiles⟩
  rw [heq]
  exact owns_snapshot dir d.cwd n

/-- **Dropping a snapshot changes the store's own files only.** -/
theorem after_discard (s : BackupStore) {shot : Snapshot} {n : Nat} (hid : shot.id = freshName n)
    (d : Disk) : After (s.discard shot) d fun s' d' =>
      ChangesOnly (Owns s.dir d.cwd) d d' ∧ s'.dir = s.dir := by
  unfold discard
  cases hdir : s.dir with
  | none => exact ⟨ChangesOnly.refl _ d, hdir⟩
  | some dir =>
      rw [hid]
      refine after_bind ((after_saveManifest dir _ d).imp fun _ d₁ hsave => ?_)
      refine after_bind ((after_remove_snapshot dir n d₁).imp ?_)
      rintro _ d₂ ⟨hremoved, -⟩
      rw [hsave.cwd] at hremoved
      exact ⟨hsave.trans hremoved, rfl⟩

/-- Putting a snapshot back gives the file the snapshot's content, or the run is told that it
failed. -/
theorem after_restore (shot : Snapshot) (d : Disk) : After (restore shot) d fun r d' =>
    (∃ cause, r = .error (.restoreFailed shot.path cause)) ∨
    (r = .ok () ∧ d'.cwd = d.cwd ∧ d'.faults = d.faults ∧ ∀ q, d'.tree.file? q =
      if q = d.place shot.path then some shot.content
      else if q = d.place (draftPath shot.path) then none else d.tree.file? q) := by
  refine after_bind ((after_replace shot.path shot.content d).imp ?_)
  rintro r d' ⟨hcwd, hfaults, ⟨rfl, hfiles⟩ | ⟨e, rfl, -⟩⟩
  · exact Or.inr ⟨rfl, hcwd, hfaults, hfiles⟩
  · exact Or.inl ⟨e, rfl⟩

end BackupStore

end Plumbline
