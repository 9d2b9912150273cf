/-
What a validated run keeps on the disk for whoever has to undo it.

While an edit is on trial, the store lists one snapshot, that of the edited file, and it holds what
the file held before (`after_edit`), so that recovery takes back this one edit and no other
(`Undoable.after_recover`).  Between transactions, and when the run is over, the store lists nothing
(`maintained_clear`).

A transaction asks, edits, and drops its snapshot in the end.  `Remediation.edit` is its second part,
and `untilDrop` all of it up to the point where the snapshot is dropped.
-/
import Plumbline.Proofs.Remedy.Recovery
import Plumbline.Proofs.Remedy.Safety

namespace Plumbline

open Disk

variable {σ : Type}

/-! ### Recovering one file -/

namespace BackupStore

open DiskM

/-- A disk on which one edit is on trial: the store lists one snapshot, that of the edited file, and
all that is needed to put it back is there. -/
structure Undoable (dir target : Path) (content : ByteArray) (e : ManifestEntry) (d : Disk) :
    Prop where
  path : e.path = target
  id : ∃ n, e.id = freshName n
  time : e.createdAt.IsTellable
  stored : d.Holds (dir.join e.id) content
  manifest : d.Holds (manifestPath dir) (manifestText [e]).toUTF8
  saves : d.Replaceable (manifestPath dir)
  restores : d.Replaceable target
  notOwned : ¬ Owns (some dir) d.cwd (d.place target)

variable {dir target : Path} {content : ByteArray} {e : ManifestEntry} {d : Disk}

theorem Undoable.reopened (h : Undoable dir target content e d) :
    reopened dir d = { dir := some dir, entries := [e] } := by
  rw [reopened_of_holds h.manifest, entriesOf_manifestText]
  intro e' he'
  obtain rfl := List.mem_singleton.mp he'
  exact h.time

theorem Undoable.repaired (h : Undoable dir target content e d) :
    Undoable dir target content e d.repaired := by
  have hways : KeepsWays d d.repaired := ⟨rfl, .refl _⟩
  exact ⟨h.path, h.id, h.time, hways.holds h.stored rfl, hways.holds h.manifest rfl,
    hways.replaceable h.saves, hways.replaceable h.restores, h.notOwned⟩

/-- The file is put back, and apart from the store's own files nothing else changes. -/
def PutBack (dir target : Path) (content : ByteArray) (d d' : Disk) : Prop :=
  ∀ q, ¬ Owns (some dir) d.cwd q → d'.tree.file? q =
    if q = d.place target then some content
    else if q = d.place (draftPath target) then none else d.tree.file? q

theorem Undoable.after_recoverEntry (h : Undoable dir target content e d) (hsound : d.Sound) :
    After (recoverEntry dir [] e) d fun r d' =>
      r = .ok () ∧ PutBack dir target content d d' := by
  obtain ⟨n, hn⟩ := h.id
  have hrestores : d.Replaceable e.path := h.path ▸ h.restores
  have hfaults : OnlyRemovalsFail d 1 := fun _ _ _ _ _ => hsound _
  refine (BackupStore.after_recoverEntry h.stored hrestores h.saves hfaults []).imp ?_
  rintro r d' ⟨rfl, hback⟩
  refine ⟨rfl, fun q hq => ?_⟩
  rw [← h.path]
  refine hback.files q ?_ ?_ ?_
  · rintro rfl
    rw [hn] at hq
    exact hq (owns_snapshot dir d.cwd n)
  · rintro rfl
    exact hq (owns_manifest dir d.cwd)
  · rintro rfl
    exact hq ⟨dir, _, rfl, .draft, place_manifest_draft dir d.cwd⟩

/-- **Recovery takes back the edit that is on trial**, and nothing else. -/
theorem Undoable.after_recover (h : Undoable dir target content e d) (hsound : d.Sound) :
    After (recover { dir := some dir, entries := [e] }) d fun r d' =>
      r.1 = .ok [target] ∧ r.2 = { dir := some dir, entries := [] } ∧
        PutBack dir target content d d' := by
  refine after_bind (after_bind ((h.after_recoverEntry hsound).imp ?_))
  rintro _ d' ⟨rfl, hback⟩
  rw [← h.path]
  exact ⟨rfl, rfl, h.path ▸ hback⟩

end BackupStore

/-! ### Editing a file -/

/-- Applying plans touches the file and its draft only; if they change the file, it can be replaced
again. -/
theorem Plan.after_applyToFile_keepsWays (path : Path) (plans : List Plan) (d : Disk) :
    DiskM.After (Plan.applyToFile path plans) d fun r d' => d.KeepsWays d' ∧
      Disk.ChangesOnly (fun q => q = d.place path ∨ q = d.place (draftPath path)) d d' ∧
      (r = .ok true → d'.Replaceable path ∧ (d.place (draftPath path) ≠ d.place path →
        d'.tree.file? (d.place (draftPath path)) = none)) := by
  refine DiskM.after_bind ((after_readText path d).imp ?_)
  rintro (e | source) d₁ ⟨rfl, hread⟩
  · exact ⟨keepsWays_step d, ⟨rfl, rfl, fun _ _ => rfl⟩, by simp⟩
  · obtain ⟨content, hheld, -⟩ := hread source rfl
    cases hplans : Plan.applyAll path source plans with
    | error e =>
        simp only [hplans]
        exact ⟨keepsWays_step d, ⟨rfl, rfl, fun _ _ => rfl⟩, by simp⟩
    | ok updated =>
        simp only [hplans]
        by_cases hsame : updated = source
        · rw [if_pos hsame]
          refine ⟨keepsWays_step d, ⟨rfl, rfl, fun _ _ => rfl⟩, fun h => ?_⟩
          exact absurd (Except.ok.inj h) (by decide)
        · rw [if_neg hsame]
          refine DiskM.after_bind ((((after_replace path updated.toUTF8 _).and
            (after_replace_keepsWays path updated.toUTF8 _)).and
            (after_replace_changesOnly path updated.toUTF8 _)).imp ?_)
          rintro r d₂ ⟨⟨⟨-, -, hcase⟩, hways, hready⟩, hchanges⟩
          have hchanges : Disk.ChangesOnly
              (fun q => q = d.place path ∨ q = d.place (draftPath path)) d d₂ :=
            ⟨hchanges.cwd, hchanges.faults, hchanges.files⟩
          cases r with
          | error e => exact ⟨(keepsWays_step d).trans hways, hchanges, fun h => nomatch h⟩
          | ok _ =>
              obtain ⟨-, hfiles⟩ := hcase.resolve_right (by simp)
              refine ⟨(keepsWays_step d).trans hways, hchanges, fun _ =>
                ⟨hready rfl hheld.writable.noSlash, fun hne => ?_⟩⟩
              exact (hfiles _).trans ((if_neg hne).trans (if_pos rfl))

namespace Remediation

open RunM BackupStore

/-! ### The parts of a transaction -/

/-- Takes a snapshot and applies plans. -/
def edit (path : Path) (plans : List Plan) :
    RunM σ (Option Snapshot × Except ApplyError Bool) := do
  let shot ← snapshot path
  pure (shot, ← onDisk (Plan.applyToFile path plans))

/-- Runs the tests, and puts back what they find to be worse; the snapshot is still there. -/
def judge (r : Remediation σ) (baseline : Option Nat) (shot : Option Snapshot) : RunM σ Unit := do
  match ← r.runTests with
  | none => pure ()
  | some after =>
    if isWorse baseline after then
      match shot with
      | none => pure ()
      | some taken =>
        match ← onDisk (BackupStore.restore taken) with
        | .error e => throw e
        | .ok () => pure ()

/-- A transaction up to the point where it drops its snapshot. -/
def untilDrop (r : Remediation σ) (e : FileEvaluation) (baseline : Option Nat) :
    RunM σ (Option Snapshot) := do
  if ← byCrew (r.crew.confirm e.path e.plans) then
    let (shot, outcome) ← edit (r.root.join e.path) e.plans
    match outcome with
    | .ok true => r.judge baseline shot
    | _ => pure ()
    pure shot
  else pure none

variable {E : BackupError → RunState σ → Prop}

/-- **A transaction drops its snapshot last.**  What it writes into the summary is left open. -/
theorem after_transact_of_untilDrop (r : Remediation σ) (pass : Pass) (e : FileEvaluation)
    (baseline : Option Nat) {s : RunState σ} {Q : RunState σ → Prop}
    (hQ : ∀ s summary, Q s → Q { s with summary })
    (h : After (r.untilDrop e baseline) s
      (fun shot s' => ∀ summary, After (discard shot) { s' with summary } (fun _ s'' => Q s'') E) E) :
    After (r.transact pass e baseline) s (fun _ s' => Q s') E := by
  have hdrop : ∀ (result : FileResult) shot s', After (discard shot) s' (fun _ s'' => Q s'') E →
      After (do discard shot; pure result) s' (fun _ s'' => Q s'') E :=
    fun _ _ _ h => after_bind (h.imp (fun _ _ h => h) fun _ _ h => h)
  refine after_bind ((after_bind_iff.mp h).imp ?_ fun _ _ h => h)
  rintro (_ | _) s₁ h
  · exact h s₁.summary
  · have h := after_bind_iff.mp (after_bind_iff.mp h)
    refine after_bind (h.imp ?_ fun _ _ h => h)
    intro shot s₂ h
    have h := after_bind_iff.mp h
    refine after_bind (h.imp ?_ fun _ _ h => h)
    rintro (cause | _ | _) s₃ h
    · exact after_bind (after_report (hdrop _ _ _ (h _)))
    · exact hdrop _ _ _ (h s₃.summary)
    · have h := after_bind_iff.mp (after_bind_iff.mp h)
      refine after_bind (h.imp ?_ fun _ _ h => h)
      rintro (_ | after) s₄ h
      · exact hdrop _ _ _ (h s₄.summary)
      · dsimp only at h ⊢
        by_cases hworse : isWorse baseline after = true
        · rw [if_pos hworse] at h ⊢
          cases shot with
          | none => exact hQ _ _ (h s₄.summary)
          | some taken =>
              have h := after_bind_iff.mp h
              refine after_bind (after_bind (h.imp ?_ fun _ _ h => h))
              rintro (cause | _) s₅ h
              · exact h
              · refine (h s₅.summary).imp (fun _ s₆ h => ?_) fun _ _ h => h
                exact after_bind (after_report (after_pure (hQ _ _ h)))
        · rw [if_neg hworse] at h ⊢
          exact hdrop _ _ _ (h s₄.summary)

/-- The state in which a transaction goes on after it has asked. -/
def asked (r : Remediation σ) (t : Transaction σ) : RunState σ :=
  ((byCrew (r.crew.confirm t.evaluation.path t.evaluation.plans)).run.run t.before).2

/-- If a transaction drops a snapshot, the manifest without it is saved. -/
def SavesOnDrop (r : Remediation σ) (t : Transaction σ) : Prop :=
  match (r.untilDrop t.evaluation t.baseline).run.run t.before with
  | (.ok (some shot), s) => ∀ store ∈ s.store, ∀ dir ∈ store.dir,
      ((saveManifest dir (store.entries.filter (·.id != shot.id))).run s.disk).1 = .ok ()
  | _ => True

instance (r : Remediation σ) (t : Transaction σ) : Decidable (r.SavesOnDrop t) :=
  match h : (r.untilDrop t.evaluation t.baseline).run.run t.before with
  | (.ok (some shot), s) =>
    decidable_of_iff (∀ store ∈ s.store, ∀ dir ∈ store.dir,
      ((saveManifest dir (store.entries.filter (·.id != shot.id))).run s.disk).1 = .ok ())
      (by unfold SavesOnDrop; rw [h])
  | (.ok none, _) => isTrue (by unfold SavesOnDrop; rw [h]; trivial)
  | (.error _, _) => isTrue (by unfold SavesOnDrop; rw [h]; trivial)

/-! ### Edits on trial -/

/-- From `s` to `s'` a snapshot of the file at `path` was taken, and it is the only one. -/
structure Snapped (dir path : Path) (s : RunState σ) (taken : Snapshot) (e : ManifestEntry)
    (s' : RunState σ) : Prop where
  entry : e = { id := taken.id, path, createdAt := s.disk.now }
  id : ∃ n, taken.id = freshName n
  held : s.disk.Holds path taken.content
  store : s'.store = some { dir := some dir, entries := [e] }
  stored : s'.disk.Holds (dir.join e.id) taken.content
  manifest : s'.disk.Holds (manifestPath dir) (manifestText [e]).toUTF8
  saves : s'.disk.Replaceable (manifestPath dir)
  changes : Disk.ChangesOnly (Owns (some dir) s.disk.cwd) s.disk s'.disk

variable {dir : Path} {s : RunState σ}

theorem after_snapshot_snapped (hstore : s.store = some { dir := some dir }) (path : Path) :
    After (snapshot path) s
      (fun shot s' => ∃ taken e, shot = some taken ∧ Snapped dir path s taken e s')
      (fun _ _ => True) := by
  refine after_get ?_
  rw [hstore]
  refine after_bind (after_onDisk (((BackupStore.after_snapshot _ path s.disk).and
    (after_snapshot_stores rfl path s.disk)).imp ?_))
  rintro ⟨result, store⟩ d ⟨⟨hchanges, hdir, hresult⟩, hstores⟩
  refine after_bind (after_modify ?_)
  rcases hresult with ⟨shot, hshot, htaken⟩ | ⟨cause, hcause⟩
  · obtain rfl : result = .ok shot := hshot
    obtain ⟨hid, hentries, hfile, hmanifest, hsaves⟩ := hstores shot rfl
    have hlisted : store.entries = [{ id := shot.id, path, createdAt := s.disk.now }] := by
      rw [hentries, htaken.samePath]
      rfl
    have hsame : store = { dir := some dir, entries := store.entries } := by
      obtain ⟨storeDir, entries⟩ := store
      obtain rfl : storeDir = some dir := hdir
      rfl
    rw [hlisted] at hsame hmanifest
    refine ⟨shot, _, rfl, rfl, htaken.id, htaken.content, ?_, hfile, hmanifest, hsaves, hchanges⟩
    rw [← hsame]
  · obtain rfl : result = .error (.backupFailed path cause) := hcause
    trivial

/-- **While an edit is on trial it can be undone.** -/
theorem after_edit (hstore : s.store = some { dir := some dir })
    (hclock : s.disk.now.IsTellable) {path : Path}
    (hown : ¬ Owns (some dir) s.disk.cwd (s.disk.place path)) (plans : List Plan) :
    After (edit path plans) s
      (fun result s' => ∃ taken e, result.1 = some taken ∧ taken.id = e.id ∧
        (∃ n, taken.id = freshName n) ∧ s'.store = some { dir := some dir, entries := [e] } ∧
        s'.disk.cwd = s.disk.cwd ∧ s.disk.Holds path taken.content ∧
        (result.2 = .ok true → Undoable dir path taken.content e s'.disk ∧
          ∀ q, ¬ Owns (some dir) s.disk.cwd q → q ≠ s.disk.place path →
            s'.disk.tree.file? q =
              if q = s.disk.place (draftPath path) then none else s.disk.tree.file? q))
      (fun _ _ => True) := by
  refine after_bind ((after_snapshot_snapped hstore path).imp ?_ fun _ _ h => h)
  rintro _ s₁ ⟨taken, e, rfl, hsnap⟩
  refine after_bind (after_onDisk
    ((Plan.after_applyToFile_keepsWays path plans s₁.disk).imp ?_))
  rintro outcome d ⟨hways, hchanges, happlied⟩
  have hcwd : d.cwd = s.disk.cwd := hways.cwd.trans hsnap.changes.cwd
  have hid : taken.id = e.id := by rw [hsnap.entry]
  refine after_pure ⟨taken, e, rfl, hid, hsnap.id, hsnap.store, hcwd, hsnap.held, fun hok => ?_⟩
  obtain ⟨hrestores, hdraft⟩ := happlied hok
  obtain ⟨n, hn⟩ := hsnap.id
  have hplace (p : Path) : s₁.disk.place p = s.disk.place p := hsnap.changes.place p
  -- Applying the plans touches none of the store's own files.
  have hkept : ∀ q, Owns (some dir) s.disk.cwd q → d.tree.file? q = s₁.disk.tree.file? q := by
    refine fun q hq => hchanges.files q ?_
    rw [hplace, hplace]
    rintro (heq | heq)
    · rw [heq] at hq
      exact hown hq
    · rw [heq] at hq
      exact not_owns_draft hown hq
  have hstored : d.tree.file? (s₁.disk.place (dir.join e.id)) =
      s₁.disk.tree.file? (s₁.disk.place (dir.join e.id)) := by
    rw [hplace, ← hid, hn]
    exact hkept _ (owns_snapshot dir _ n)
  have hmanifest : d.tree.file? (s₁.disk.place (manifestPath dir)) =
      s₁.disk.tree.file? (s₁.disk.place (manifestPath dir)) := by
    rw [hplace]
    exact hkept _ (owns_manifest dir _)
  constructor
  · refine ⟨by rw [hsnap.entry], ⟨n, hid ▸ hn⟩, by rwa [hsnap.entry], hways.holds hsnap.stored hstored,
      hways.holds hsnap.manifest hmanifest, hways.replaceable hsnap.saves, hrestores, ?_⟩
    unfold place
    rw [hcwd]
    exact hown
  · intro q hq hne
    show d.tree.file? q = _
    by_cases hbeside : q = s.disk.place (draftPath path)
    · rw [if_pos hbeside, hbeside, ← hplace]
      refine hdraft ?_
      rw [hplace, hplace, ← hbeside]
      exact hne
    · rw [if_neg hbeside, hchanges.files q, hsnap.changes.files q hq]
      rw [hplace, hplace]
      exact fun h => h.elim hne hbeside

/-! ### Dropping the snapshot -/

end Remediation

theorem BackupStore.after_discard_saved {s : BackupStore} {dir : Path} (hdir : s.dir = some dir)
    {shot : Snapshot} {n : Nat} (hid : shot.id = freshName n) {d : Disk}
    (hsaved : ((saveManifest dir (s.entries.filter (·.id != shot.id))).run d).1 = .ok ()) :
    DiskM.After (s.discard shot) d fun s' d' =>
      s' = { s with entries := s.entries.filter (·.id != shot.id) } ∧ d'.cwd = d.cwd ∧
        d'.Holds (manifestPath dir)
          (manifestText (s.entries.filter (·.id != shot.id))).toUTF8 := by
  unfold discard
  rw [hdir]
  refine DiskM.after_bind (((after_saveManifest_holds dir _ d).and
    (show DiskM.After (saveManifest dir _) d fun r _ => r = .ok () from hsaved)).imp ?_)
  rintro r d₁ ⟨⟨hways₁, -, hheld⟩, hok⟩
  obtain ⟨hmanifest, -⟩ := hheld hok
  have hremove := after_remove_snapshot dir n d₁
  rw [← hid] at hremove
  refine DiskM.after_bind (hremove.imp ?_)
  rintro _ d₂ ⟨-, hways₂, hfiles⟩
  refine ⟨rfl, hways₂.cwd.trans hways₁.cwd, hways₂.holds hmanifest (hfiles _ ?_)⟩
  rw [hid]
  exact (place_snapshot_ne dir n d₁).1.symm

/-- A store that lists nothing. -/
theorem BackupStore.reopened_eq {dir : Path} {d : Disk} (h : (reopened dir d).entries = []) :
    reopened dir d = { dir := some dir } := by
  have hdir := dir_reopened dir d
  generalize reopened dir d = store at h hdir
  obtain ⟨storeDir, entries⟩ := store
  obtain rfl : storeDir = some dir := hdir
  obtain rfl : entries = [] := h
  rfl

/-- A manifest without entries lists nothing. -/
theorem BackupStore.reopened_of_holds_nil {dir : Path} {d : Disk}
    (h : d.Holds (manifestPath dir) (manifestText []).toUTF8) : (reopened dir d).entries = [] := by
  have hnone : ∀ e ∈ ([] : List ManifestEntry), e.createdAt.IsTellable := by simp
  have hlisted : (reopened dir d).entries = entriesOf (manifestText []) := by
    rw [reopened_of_holds h]
  have hnil : entriesOf (manifestText []) = [] := entriesOf_manifestText hnone
  exact hlisted.trans hnil

/-- Someone who works for a run lists nothing in the manifest of its store, and relative paths stay
what they are. -/
structure Spares {α : Type} (dir : Path) (work : StateT σ DiskM α) : Prop where
  cwd : ∀ c d, ((work.run c).run d).2.cwd = d.cwd
  pending : ∀ c d, (BackupStore.reopened dir d).entries = [] →
    (BackupStore.reopened dir ((work.run c).run d).2).entries = []

/-- Nobody of the crew lists anything in the manifest of the store in `dir`. -/
structure Crew.Spares (crew : Crew σ) (dir : Path) : Prop where
  tests : ∀ work, crew.tests = some work → Plumbline.Spares dir work
  confirm : ∀ path plans, Plumbline.Spares dir (crew.confirm path plans)
  format : ∀ files, Plumbline.Spares dir (crew.format files)

namespace Remediation

open RunM BackupStore

/-- Nothing is pending: neither does the store know of a snapshot, nor does the disk. -/
structure Clear (r : Remediation σ) (dir : Path) (files : List Path) (s : RunState σ) : Prop where
  store : s.store = some { dir := some dir }
  listed : (reopened dir s.disk).entries = []
  notOwned : ∀ f ∈ files, ¬ Owns (some dir) s.disk.cwd (s.disk.place (r.root.join f))

variable {r : Remediation σ} {dir : Path} {files : List Path} {s : RunState σ}

theorem Clear.of_cwd {s' : RunState σ} (h : Clear r dir files s)
    (hstore : s'.store = some { dir := some dir })
    (hlisted : (reopened dir s'.disk).entries = []) (hcwd : s'.disk.cwd = s.disk.cwd) :
    Clear r dir files s' := by
  refine ⟨hstore, hlisted, ?_⟩
  unfold place
  rw [hcwd]
  exact h.notOwned

theorem Clear.after_byCrew {α : Type} (h : Clear r dir files s) {work : StateT σ DiskM α}
    (hspares : Spares dir work) {E : BackupError → RunState σ → Prop} :
    After (byCrew work) s (fun _ s' => Clear r dir files s' ∧ s'.disk.cwd = s.disk.cwd) E :=
  RunM.after_byCrew ⟨h.of_cwd h.store (hspares.pending _ _ h.listed) (hspares.cwd _ _),
    hspares.cwd _ _⟩

/-- Judging an edit leaves the store alone. -/
theorem after_judge (htests : ∀ work, r.crew.tests = some work → Spares dir work)
    (baseline : Option Nat) (shot : Option Snapshot) (s : RunState σ) :
    After (r.judge baseline shot) s
      (fun _ s' => s'.store = s.store ∧ s'.disk.cwd = s.disk.cwd) (fun _ _ => True) := by
  have hrun : After r.runTests s (fun _ s' => s'.store = s.store ∧ s'.disk.cwd = s.disk.cwd)
      (fun _ _ => True) := by
    unfold runTests
    cases hwork : r.crew.tests with
    | none => exact ⟨rfl, rfl⟩
    | some work => exact after_bind (RunM.after_byCrew ⟨rfl, (htests work hwork).cwd _ _⟩)
  refine after_bind (hrun.imp ?_ fun _ _ h => h)
  rintro (_ | after) s₁ hs₁
  · exact hs₁
  · dsimp only
    split
    · split
      · exact hs₁
      · rename_i taken
        refine after_bind (after_onDisk ((after_restore taken s₁.disk).imp ?_))
        rintro _ d (⟨cause, rfl⟩ | ⟨rfl, hcwd, -⟩)
        · trivial
        · exact ⟨hs₁.1, hcwd.trans hs₁.2⟩
    · exact hs₁

/-- Before a transaction drops its snapshot, it is the only one that the store knows of. -/
theorem Clear.after_untilDrop (h : Clear r dir files s) (hspares : r.crew.Spares dir)
    {e : FileEvaluation} (he : e.path ∈ files) (baseline : Option Nat)
    (hclock : ((byCrew (r.crew.confirm e.path e.plans)).run.run s).2.disk.now.IsTellable) :
    After (r.untilDrop e baseline) s
      (fun shot s' => s'.disk.cwd = s.disk.cwd ∧
        (shot = none → s'.store = some { dir := some dir } ∧ (reopened dir s'.disk).entries = []) ∧
        ∀ taken, shot = some taken → (∃ n, taken.id = freshName n) ∧
          ∃ entry, entry.id = taken.id ∧ s'.store = some { dir := some dir, entries := [entry] })
      (fun _ _ => True) := by
  unfold untilDrop
  -- The clock is that of the state in which the snapshot is taken.
  generalize hasked : ((byCrew (r.crew.confirm e.path e.plans)).run.run s).2 = s₁ at hclock
  have hconfirm := h.after_byCrew (hspares.confirm e.path e.plans) (E := fun _ _ => True)
  refine after_bind ?_
  unfold After at hconfirm ⊢
  rcases hrun : (byCrew (r.crew.confirm e.path e.plans)).run.run s with ⟨cause | answer, s₂⟩
  · trivial
  · rw [hrun] at hconfirm hasked
    obtain rfl : s₂ = s₁ := hasked
    obtain ⟨hclear, hcwd⟩ := hconfirm
    cases answer with
    | false => exact ⟨hcwd, fun _ => ⟨hclear.store, hclear.listed⟩, by simp⟩
    | true =>
        refine after_bind ((after_edit hclear.store hclock (hclear.notOwned e.path he)
          e.plans).imp ?_ fun _ _ h => h)
        rintro ⟨shot, outcome⟩ s₃ ⟨taken, entry, hshot, hid, hname, hstore, hcwd₃, -⟩
        obtain rfl : shot = some taken := hshot
        have hdone : ∀ s' : RunState σ, s'.store = s₃.store → s'.disk.cwd = s₃.disk.cwd →
            s'.disk.cwd = s.disk.cwd ∧ (some taken = none →
              s'.store = some { dir := some dir } ∧ (reopened dir s'.disk).entries = []) ∧
            ∀ taken', some taken = some taken' → (∃ n, taken'.id = freshName n) ∧
              ∃ entry, entry.id = taken'.id ∧
                s'.store = some { dir := some dir, entries := [entry] } := by
          intro s' hsame hcwd'
          refine ⟨hcwd'.trans (hcwd₃.trans hcwd), by simp, ?_⟩
          rintro _ ⟨⟩
          exact ⟨hname, entry, hid.symm, hsame.trans hstore⟩
        match outcome with
        | .ok true =>
            refine after_bind ((after_judge hspares.tests baseline _ s₃).imp ?_ fun _ _ h => h)
            exact fun _ s₄ hs₄ => hdone s₄ hs₄.1 hs₄.2
        | .ok false => exact hdone s₃ rfl rfl
        | .error cause => exact hdone s₃ rfl rfl

/-- **Between its transactions a run leaves nothing pending.** -/
theorem maintained_clear (hspares : r.crew.Spares dir) (baseline : Option Nat) :
    Maintained r files baseline
      (fun t => (r.asked t).disk.now.IsTellable ∧ r.SavesOnDrop t) (Clear r dir files)
      (fun _ _ => True) where
  bookkeeping _ _ _ _ h := ⟨h.store, h.listed, h.notOwned⟩
  format s h := (h.after_byCrew (hspares.format files)).imp (fun _ _ h => h.1) fun _ _ h => h
  transact t ht hlisted _ h := by
    obtain ⟨hclock, hsaves⟩ := ht
    have hQ : ∀ (s : RunState σ) (summary : RunSummary), Clear r dir files s →
        Clear r dir files { s with summary } := fun _ _ h => ⟨h.store, h.listed, h.notOwned⟩
    refine (after_transact_of_untilDrop r t.pass t.evaluation t.baseline hQ ?_).imp
      (fun _ s' h' => hQ s' _ h') fun _ _ h => h
    have hdrop := h.after_untilDrop hspares hlisted t.baseline hclock
    unfold After at hdrop ⊢
    rcases hrun : (r.untilDrop t.evaluation t.baseline).run.run t.before with ⟨cause | shot, s₁⟩
    · trivial
    · rw [hrun] at hdrop
      unfold SavesOnDrop at hsaves
      rw [hrun] at hsaves
      obtain ⟨hcwd, hnone, hsome⟩ := hdrop
      intro summary
      cases shot with
      | none =>
          obtain ⟨hstore, hempty⟩ := hnone rfl
          exact h.of_cwd hstore hempty hcwd
      | some taken =>
          obtain ⟨⟨n, hn⟩, entry, hid, hstore⟩ := hsome taken rfl
          have hgone : [entry].filter (·.id != taken.id) = [] := by simp [hid]
          have hsaved := hsaves _ hstore dir rfl
          refine after_get ?_
          dsimp only
          rw [hstore]
          refine after_bind (after_onDisk ((after_discard_saved rfl hn hsaved).imp ?_))
          rintro _ d ⟨rfl, hcwd', hmanifest⟩
          refine after_modify ?_
          dsimp only at hmanifest
          rw [hgone] at hmanifest
          refine h.of_cwd ?_ (reopened_of_holds_nil hmanifest) (hcwd'.trans hcwd)
          dsimp only
          rw [hgone]

theorem Clear.after_runTests (h : Clear r dir files s)
    (htests : ∀ work, r.crew.tests = some work → Spares dir work)
    {E : BackupError → RunState σ → Prop} :
    After r.runTests s
      (fun tested s' => Clear r dir files s' ∧ tested.getD none = r.baselineAt s) E := by
  unfold runTests baselineAt
  cases hwork : r.crew.tests with
  | none => exact ⟨h, rfl⟩
  | some work =>
      have hspares := htests work hwork
      refine after_bind (RunM.after_byCrew (after_pure ⟨?_, rfl⟩))
      exact h.of_cwd h.store (hspares.pending _ _ h.listed) (hspares.cwd _ _)

end Remediation

end Plumbline
