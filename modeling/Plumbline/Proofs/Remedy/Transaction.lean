/-
What a transaction leaves behind.

A transaction asks, takes a snapshot, applies plans to one file and runs the tests.  It has six ways
to end: it is declined, the snapshot cannot be taken, the plans cannot be applied, they change
nothing, the tests are worse and the snapshot is put back, or the edit stays.  `after_transact` says
for all of them at once which files can be different afterwards: the store's own files, the file of
the transaction if the answer is that it was modified, and its draft if the disk does not fail cleanly.
An edit stays only if it is not validated, or if the tests were run on the files as they are now and
were not worse.

`RunM.After` is for steps of a run what `DiskM.After` is for a disk, with a second condition for
runs that give up.
-/
import Plumbline.Proofs.Files.Draft
import Plumbline.Proofs.Remedy.Store
import Plumbline.Remedy.Run

namespace Plumbline

open Disk

variable {σ : Type}

/-! ### Steps of a run -/

/-- After `work` is done in the state `s`, `Q` holds of the answer and the state, or the run gave up
and `E` holds of the reason and the state. -/
def RunM.After {α : Type} (work : RunM σ α) (s : RunState σ) (Q : α → RunState σ → Prop)
    (E : BackupError → RunState σ → Prop) : Prop :=
  match work.run.run s with
  | (.ok a, s') => Q a s'
  | (.error e, s') => E e s'

namespace RunM

variable {α β : Type} {s : RunState σ} {E : BackupError → RunState σ → Prop}

theorem after_pure {a : α} {Q : α → RunState σ → Prop} (h : Q a s) : After (pure a) s Q E := h

theorem after_bind_iff {work : RunM σ α} {next : α → RunM σ β} {Q : β → RunState σ → Prop} :
    After (work >>= next) s Q E ↔ After work s (fun a s' => After (next a) s' Q E) E := by
  unfold After
  rw [ExceptT.run_bind, StateT.run_bind]
  rcases work.run.run s with ⟨e | a, s'⟩
  · exact Iff.rfl
  · exact Iff.rfl

theorem after_bind {work : RunM σ α} {next : α → RunM σ β} {Q : β → RunState σ → Prop}
    (h : After work s (fun a s' => After (next a) s' Q E) E) : After (work >>= next) s Q E :=
  after_bind_iff.mpr h

theorem After.imp {work : RunM σ α} {P Q : α → RunState σ → Prop}
    {F : BackupError → RunState σ → Prop} (h : After work s P F)
    (hQ : ∀ a s', P a s' → Q a s') (hE : ∀ e s', F e s' → E e s') : After work s Q E := by
  unfold After at h ⊢
  rcases hwork : work.run.run s with ⟨e | a, s'⟩
  · rw [hwork] at h
    exact hE e s' h
  · rw [hwork] at h
    exact hQ a s' h

theorem after_get {next : RunState σ → RunM σ β} {Q : β → RunState σ → Prop}
    (h : After (next s) s Q E) : After (get >>= next) s Q E := after_bind h

theorem after_modify {f : RunState σ → RunState σ} {Q : Unit → RunState σ → Prop}
    (h : Q () (f s)) : After (modify f) s Q E := h

theorem after_onDisk {work : DiskM α} {Q : α → RunState σ → Prop}
    (h : DiskM.After work s.disk fun a d => Q a { s with disk := d }) :
    After (onDisk work) s Q E := h

theorem after_report {f : RunSummary → RunSummary} {Q : Unit → RunState σ → Prop}
    (h : Q () { s with summary := f s.summary }) : After (report f) s Q E := h

theorem after_clearCache {Q : Unit → RunState σ → Prop}
    (h : Q () { s with cache := {} }) : After clearCache s Q E := h

theorem after_byCrew {work : StateT σ DiskM α} {Q : α → RunState σ → Prop}
    (h : Q ((work.run s.crew).run s.disk).1.1
      { s with
        disk := ((work.run s.crew).run s.disk).2
        crew := ((work.run s.crew).run s.disk).1.2 }) :
    After (byCrew work) s Q E := h

end RunM

/-! ### What stays the same -/

/-- From `s` to `s'` only files at places in `A` have changed, and the run has the same store and
has recorded no file as modified. -/
structure RunState.ChangesOnly (A : Place → Prop) (s s' : RunState σ) : Prop where
  disk : Disk.ChangesOnly A s.disk s'.disk
  store : s'.store.map (·.dir) = s.store.map (·.dir)
  modified : s'.summary.modified = s.summary.modified

/-- The places of the files of a run's store. -/
def RunState.Owns (s : RunState σ) : Place → Prop :=
  BackupStore.Owns (s.store.bind (·.dir)) s.disk.cwd

/-- The places that a transaction on the file at `path` may leave different without a word. -/
def RunState.Behind (s : RunState σ) (path : Path) (q : Place) : Prop :=
  s.Owns q ∨ s.disk.Leaves path q

theorem RunState.not_owns_draft {s : RunState σ} {path : Path} (h : ¬ s.Owns (s.disk.place path)) :
    ¬ s.Owns (s.disk.place (draftPath path)) := BackupStore.not_owns_draft h

namespace RunState.ChangesOnly

variable {A B : Place → Prop} {s s' s'' : RunState σ}

theorem refl (A : Place → Prop) (s : RunState σ) : ChangesOnly A s s :=
  ⟨Disk.ChangesOnly.refl A s.disk, rfl, rfl⟩

theorem trans (h : ChangesOnly A s s') (h' : ChangesOnly A s' s'') : ChangesOnly A s s'' :=
  ⟨h.disk.trans h'.disk, h'.store.trans h.store, h'.modified.trans h.modified⟩

theorem mono (h : ChangesOnly A s s') (hAB : ∀ q, A q → B q) : ChangesOnly B s s' :=
  ⟨h.disk.mono hAB, h.store, h.modified⟩

/-- What a run writes down and remembers is not on the disk. -/
theorem bookkeeping {summary : RunSummary} {cache : Cache}
    (h : summary.modified = s.summary.modified) : ChangesOnly A s { s with summary, cache } :=
  ⟨Disk.ChangesOnly.refl A s.disk, rfl, h⟩

theorem owns (h : ChangesOnly A s s') : s'.Owns = s.Owns := by
  have hbind : ∀ store : Option BackupStore,
      store.bind (·.dir) = (store.map (·.dir)).bind id := by
    intro store
    cases store <;> rfl
  unfold RunState.Owns
  rw [hbind, hbind, h.store, h.disk.cwd]

theorem behind (h : ChangesOnly A s s') (path : Path) : s'.Behind path = s.Behind path := by
  unfold RunState.Behind
  rw [h.owns, h.disk.leaves]

theorem isSome_store (h : ChangesOnly A s s') : s'.store.isSome = s.store.isSome := by
  have := congrArg Option.isSome h.store
  simpa using this

end RunState.ChangesOnly

/-- Someone who works for a run writes no files. -/
def Quiet {α : Type} (work : StateT σ DiskM α) : Prop :=
  ∀ c d, Disk.ChangesOnly (fun _ => False) d ((work.run c).run d).2

/-- Nobody of the crew writes files. -/
structure Crew.Quiet (crew : Crew σ) : Prop where
  tests : ∀ work, crew.tests = some work → Plumbline.Quiet work
  confirm : ∀ path plans, Plumbline.Quiet (crew.confirm path plans)
  format : ∀ files, Plumbline.Quiet (crew.format files)

theorem Quiet.changesOnly {α : Type} {work : StateT σ DiskM α} (h : Quiet work) (s : RunState σ)
    (A : Place → Prop) (c : σ) :
    RunState.ChangesOnly A s { s with disk := ((work.run s.crew).run s.disk).2, crew := c } :=
  ⟨(h s.crew s.disk).mono fun _ => False.elim, rfl, rfl⟩

theorem Quiet.after_byCrew {α : Type} {work : StateT σ DiskM α} (h : Quiet work) (s : RunState σ)
    (E : BackupError → RunState σ → Prop) :
    RunM.After (RunM.byCrew work) s (fun _ s' => RunState.ChangesOnly (fun _ => False) s s') E :=
  RunM.after_byCrew (h.changesOnly s _ _)

/-! ### Applying plans -/

/-- **Plans are applied as a whole or not at all.**  The file changes only if the answer says so, and
no other file does, but for a draft on a disk that does not fail cleanly.  A file that is not there
stays so. -/
theorem Plan.after_applyToFile (path : Path) (plans : List Plan) {d : Disk}
    (hdraft : d.FailsCleanly → d.tree.file? (d.place (draftPath path)) = none) :
    DiskM.After (Plan.applyToFile path plans) d fun r d' =>
      Disk.ChangesOnly (fun q => d.Leaves path q ∨ r = .ok true ∧ q = d.place path) d d' ∧
        (r = .ok true → (d.tree.file? (d.place path)).isSome) := by
  refine DiskM.after_bind ((after_readText path d).imp ?_)
  rintro (e | source) d₁ ⟨rfl, hread⟩
  · exact ⟨⟨rfl, rfl, fun _ _ => rfl⟩, by simp⟩
  · obtain ⟨content, hheld, -⟩ := hread source rfl
    have hfile : (d.tree.file? (d.place path)).isSome := by simp [hheld.file?]
    cases hplans : Plan.applyAll path source plans with
    | error e =>
        simp only [hplans]
        exact ⟨⟨rfl, rfl, fun _ _ => rfl⟩, fun _ => hfile⟩
    | ok updated =>
        simp only [hplans]
        by_cases hsame : updated = source
        · rw [if_pos hsame]
          exact ⟨⟨rfl, rfl, fun _ _ => rfl⟩, fun _ => hfile⟩
        · rw [if_neg hsame]
          refine DiskM.after_bind ((after_replace path updated.toUTF8 _).imp ?_)
          rintro r d₂ ⟨hcwd, hfaults, ⟨rfl, hfiles⟩ | ⟨e, rfl, hfiles, hclean⟩⟩
          · refine ⟨⟨hcwd, hfaults, fun q hq => ?_⟩, fun _ => hfile⟩
            have hne : q ≠ d.place path := fun h => hq (Or.inr ⟨rfl, h⟩)
            have hnow : d₂.tree.file? q = if q = d.place path then some updated.toUTF8
                else if q = d.place (draftPath path) then none else d.tree.file? q := hfiles q
            show d₂.tree.file? q = d.tree.file? q
            rw [hnow, if_neg hne]
            split
            · rename_i heq
              have hclean : d.FailsCleanly :=
                Classical.byContradiction fun hunclean => hq (Or.inl ⟨hunclean, heq, hne⟩)
              rw [heq, hdraft hclean]
            · rfl
          · refine ⟨⟨hcwd, hfaults, fun q hq => ?_⟩, fun _ => hfile⟩
            by_cases heq : q = d.place (draftPath path)
            · have hne : q ≠ d.place path := by
                rw [heq]
                exact hheld.place_draftPath_ne
              have hcleanly : d.FailsCleanly :=
                Classical.byContradiction fun hunclean => hq (Or.inl ⟨hunclean, heq, hne⟩)
              have hnone := hclean hcleanly ⟨content, hheld.located, hheld.read⟩ (hdraft hcleanly)
              rw [heq, hdraft hcleanly]
              exact hnone
            · exact hfiles q heq

namespace Remediation

open RunM

/-! ### Snapshots of a run -/

/-- What a step that gives up leaves: a snapshot could not be put back, or nothing but the store has
changed. -/
def Abandons (s : RunState σ) (e : BackupError) (s' : RunState σ) : Prop :=
  (∃ path cause, e = .restoreFailed path cause) ∨ RunState.ChangesOnly s.Owns s s'

theorem after_snapshot (path : Path) (s : RunState σ) :
    After (snapshot path) s
      (fun shot s' => RunState.ChangesOnly s.Owns s s' ∧
        (s.store.isSome → ∃ taken, shot = some taken) ∧
        ∀ taken, shot = some taken → BackupStore.TakenOf taken path s.disk)
      (Abandons s) := by
  refine after_get ?_
  cases hstore : s.store with
  | none => exact ⟨RunState.ChangesOnly.refl _ s, by simp, by simp⟩
  | some store =>
      refine after_bind (after_onDisk ((store.after_snapshot path s.disk).imp ?_))
      rintro ⟨r, store'⟩ d ⟨hdisk, hdir, hresult⟩
      have hchanges : RunState.ChangesOnly s.Owns s
          { s with disk := d, store := some store' } := by
        refine ⟨?_, by simpa [hstore] using hdir, rfl⟩
        unfold RunState.Owns
        rw [hstore]
        exact hdisk
      refine after_bind (after_modify ?_)
      rcases hresult with ⟨shot, hr, htaken⟩ | ⟨cause, hr⟩
      · obtain rfl : r = .ok shot := hr
        refine ⟨hchanges, fun _ => ⟨shot, rfl⟩, fun taken heq => ?_⟩
        obtain rfl := Option.some.inj heq
        exact htaken
      · obtain rfl : r = .error (.backupFailed path cause) := hr
        exact Or.inr hchanges

theorem after_discard {shot : Option Snapshot} (s : RunState σ)
    {E : BackupError → RunState σ → Prop}
    (hid : ∀ taken, shot = some taken → ∃ n, taken.id = freshName n) :
    After (discard shot) s (fun _ s' => RunState.ChangesOnly s.Owns s s') E := by
  cases shot with
  | none => exact RunState.ChangesOnly.refl _ s
  | some taken =>
      obtain ⟨n, hn⟩ := hid taken rfl
      refine after_get ?_
      cases hstore : s.store with
      | none => exact RunState.ChangesOnly.refl _ s
      | some store =>
          refine after_bind (after_onDisk ((store.after_discard hn s.disk).imp ?_))
          rintro store' d ⟨hdisk, hdir⟩
          refine after_modify ⟨?_, by simpa [hstore] using hdir, rfl⟩
          unfold RunState.Owns
          rw [hstore]
          exact hdisk

/-- Putting back a snapshot undoes whatever was done to its file since `s₀`, where it was taken. -/
theorem after_rollBack {taken : Snapshot} {path : Path} {s₀ s : RunState σ}
    (htaken : BackupStore.TakenOf taken path s₀.disk)
    (hdraft : s₀.disk.FailsCleanly → s₀.disk.tree.file? (s₀.disk.place (draftPath path)) = none)
    (hs : RunState.ChangesOnly (fun q => s₀.Behind path q ∨ q = s₀.disk.place path) s₀ s) :
    After (rollBack (some taken)) s (fun _ s' => RunState.ChangesOnly (s₀.Behind path) s₀ s')
      (Abandons s₀) := by
  obtain ⟨n, hn⟩ := htaken.id
  refine after_bind (after_onDisk ((BackupStore.after_restore taken s.disk).imp ?_))
  rintro _ d (⟨cause, rfl⟩ | ⟨rfl, hcwd, hfaults, hfiles⟩)
  · exact Or.inl ⟨_, _, rfl⟩
  · have hput : RunState.ChangesOnly (s₀.Behind path) s₀ { s with disk := d } := by
      refine ⟨⟨hcwd.trans hs.disk.cwd, hfaults.trans hs.disk.faults, fun q hq => ?_⟩,
        hs.store, hs.modified⟩
      have hfile : d.tree.file? q = if q = s₀.disk.place path then some taken.content
          else if q = s₀.disk.place (draftPath path) then none else s.disk.tree.file? q := by
        have := hfiles q
        rwa [htaken.samePath, hs.disk.place, hs.disk.place] at this
      show d.tree.file? q = s₀.disk.tree.file? q
      rw [hfile]
      by_cases hpath : q = s₀.disk.place path
      · rw [if_pos hpath, hpath, htaken.content.file?]
      · rw [if_neg hpath]
        by_cases hbeside : q = s₀.disk.place (draftPath path)
        · have hclean : s₀.disk.FailsCleanly :=
            Classical.byContradiction fun hunclean => hq (Or.inr ⟨hunclean, hbeside, hpath⟩)
          rw [if_pos hbeside, hbeside, hdraft hclean]
        · rw [if_neg hbeside]
          exact hs.disk.files q fun h => h.elim hq hpath
    refine (after_discard (E := Abandons s₀) { s with disk := d } ?_).imp ?_ fun _ _ h => h
    · intro other heq
      obtain rfl := Option.some.inj heq
      exact ⟨n, hn⟩
    · intro _ s' hdrop
      rw [hput.owns] at hdrop
      exact hput.trans (hdrop.mono fun _ => Or.inl)

/-! ### Transactions -/

/-- What a transaction on the file at `path` has done when it ends with `result`. -/
structure Transacted (r : Remediation σ) (baseline : Option Nat) (path : Path)
    (s : RunState σ) (result : FileResult) (s' : RunState σ) : Prop where
  /-- Nothing that counts has changed but a file that was modified. -/
  changes : RunState.ChangesOnly
    (fun q => s.Behind path q ∨ result = .modified ∧ q = s.disk.place path) s s'
  /-- Files do not come into being. -/
  existed : result = .modified → (s.disk.tree.file? (s.disk.place path)).isSome
  /-- Tests were run on the files as they are now, and were not worse. -/
  vetted : result = .modified → ∀ tests, r.crew.tests = some tests →
    ∃ c d, Disk.ChangesOnly s.Owns d s'.disk ∧
      isWorse baseline (observed r.config.pipeline.oraclePolicy ((tests.run c).run d).1.1) = false

theorem after_validate (r : Remediation σ) (hquiet : r.crew.Quiet) (pass : Pass) (file path : Path)
    (baseline : Option Nat) {shot : Option Snapshot} {s₀ s : RunState σ}
    (hshot : r.crew.tests.isSome → ∃ taken, shot = some taken)
    (htaken : ∀ taken, shot = some taken → BackupStore.TakenOf taken path s₀.disk)
    (hdraft : s₀.disk.FailsCleanly → s₀.disk.tree.file? (s₀.disk.place (draftPath path)) = none)
    (hfile : (s₀.disk.tree.file? (s₀.disk.place path)).isSome)
    (hs : RunState.ChangesOnly (fun q => s₀.Behind path q ∨ q = s₀.disk.place path) s₀ s) :
    After (r.validate pass file baseline shot) s (Transacted r baseline path s₀)
      (Abandons s₀) := by
  have hid : ∀ taken, shot = some taken → ∃ n, taken.id = freshName n :=
    fun taken h => (htaken taken h).id
  -- An edit that stays: the snapshot is dropped, and the files are those that were tested.
  have hkeep : ∀ s₁,
      RunState.ChangesOnly (fun q => s₀.Behind path q ∨ q = s₀.disk.place path) s₀ s₁ →
      (∀ tests, r.crew.tests = some tests → ∃ c d, Disk.ChangesOnly s₀.Owns d s₁.disk ∧
        isWorse baseline (observed r.config.pipeline.oraclePolicy ((tests.run c).run d).1.1) =
          false) →
      After (do discard shot; pure .modified) s₁ (Transacted r baseline path s₀)
        (Abandons s₀) := by
    intro s₁ hs₁ htested
    refine after_bind ((after_discard s₁ hid).imp ?_ fun _ _ h => h)
    intro _ s₂ hdrop
    rw [hs₁.owns] at hdrop
    refine after_pure ⟨?_, fun _ => hfile, fun _ tests htests => ?_⟩
    · refine (hs₁.trans (hdrop.mono fun q hq => Or.inl (Or.inl hq))).mono ?_
      exact fun q hq => hq.imp_right fun h => ⟨rfl, h⟩
    · obtain ⟨c, d, hsame, hworse⟩ := htested tests htests
      exact ⟨c, d, hsame.trans hdrop.disk, hworse⟩
  unfold validate runTests
  refine after_bind ?_
  cases htests : r.crew.tests with
  | none => exact hkeep s hs fun tests h => absurd (htests.symm.trans h) (by simp)
  | some tests =>
      refine after_bind (after_byCrew (after_pure ?_))
      have hran := (hquiet.tests tests htests).changesOnly s
        (fun q => s₀.Behind path q ∨ q = s₀.disk.place path) ((tests.run s.crew).run s.disk).1.2
      have hs₁ := hs.trans hran
      by_cases hworse : isWorse baseline (observed r.config.pipeline.oraclePolicy
          ((tests.run s.crew).run s.disk).1.1) = true
      · obtain ⟨taken, hsome⟩ := hshot (by simp [htests])
        subst hsome
        simp only [hworse, if_true]
        refine after_bind ((after_rollBack (htaken taken rfl) hdraft hs₁).imp ?_ fun _ _ h => h)
        intro _ s₂ hback
        refine after_bind (after_report (after_pure ⟨?_, by simp, by simp⟩))
        exact ⟨hback.disk.mono fun q hq => Or.inl hq, hback.store, hback.modified⟩
      · simp only [hworse]
        refine hkeep _ hs₁ fun tests' htests' => ?_
        obtain rfl : tests = tests' := Option.some.inj (htests.symm.trans htests')
        refine ⟨s.crew, s.disk, ?_, by simpa using hworse⟩
        exact (hquiet.tests tests htests s.crew s.disk).mono fun _ => False.elim

/-- What can be promised about a transaction that began at `s₁` holds from any state `s` with the
same files. -/
theorem Transacted.from {r : Remediation σ} {baseline : Option Nat} {path : Path}
    {s s₁ s' : RunState σ} {result : FileResult}
    (h : Transacted r baseline path s₁ result s')
    (hs : RunState.ChangesOnly (fun _ => False) s s₁) :
    Transacted r baseline path s result s' where
  changes := by
    have hchanges := h.changes
    rw [hs.behind, hs.disk.place] at hchanges
    exact (hs.mono fun _ => False.elim).trans hchanges
  existed hmod := by
    have hfile := h.existed hmod
    rwa [hs.disk.place, hs.disk.files _ id] at hfile
  vetted := hs.owns ▸ h.vetted

theorem Abandons.from {s s₁ s' : RunState σ} {e : BackupError} (h : Abandons s₁ e s')
    (hs : RunState.ChangesOnly (fun _ => False) s s₁) : Abandons s e s' := by
  refine h.imp_right fun hchanges => ?_
  rw [hs.owns] at hchanges
  exact (hs.mono fun _ => False.elim).trans hchanges

/-- **What a transaction does**, however it ends: only the store's own files, a file that is reported
as modified, and its draft if the disk does not fail cleanly can be different, and an edit that stays
was found not to be worse. -/
theorem after_transact (r : Remediation σ) (hquiet : r.crew.Quiet) (pass : Pass)
    (e : FileEvaluation) (baseline : Option Nat) {s : RunState σ}
    (hstore : r.crew.tests.isSome → s.store.isSome)
    (hdraft : s.disk.FailsCleanly →
      s.disk.tree.file? (s.disk.place (draftPath (r.root.join e.path))) = none)
    (hown : ¬ s.Owns (s.disk.place (r.root.join e.path))) :
    After (r.transact pass e baseline) s (Transacted r baseline (r.root.join e.path) s)
      (Abandons s) := by
  refine after_bind (((hquiet.confirm e.path e.plans).after_byCrew s (Abandons s)).imp ?_
    fun _ _ h => h)
  intro answer s₁ hasked
  -- From here on the transaction is relative to `s₁`, whose files are those of `s`.
  rw [← hasked.disk.place, ← hasked.disk.files _ id, ← hasked.disk.failsCleanly] at hdraft
  rw [← hasked.disk.place, ← hasked.owns] at hown
  rw [← hasked.isSome_store] at hstore
  generalize r.root.join e.path = path at hdraft hown ⊢
  refine After.imp (P := Transacted r baseline path s₁)
    (F := Abandons s₁) ?_ (fun _ _ h => h.from hasked) fun _ _ h => h.from hasked
  have hunchanged : ∀ s', RunState.ChangesOnly (s₁.Behind path) s₁ s' →
      Transacted r baseline path s₁ .unchanged s' := by
    intro s' h
    exact ⟨h.mono fun _ => Or.inl, by simp, by simp⟩
  cases answer with
  | false => exact after_pure (hunchanged s₁ (RunState.ChangesOnly.refl _ s₁))
  | true =>
      refine after_bind ((after_snapshot path s₁).imp ?_ fun _ _ h => h)
      rintro shot s₂ ⟨hsnap, hshot, htaken⟩
      have hdrop : ∀ s₃, RunState.ChangesOnly (s₁.Behind path) s₁ s₃ →
          After (do discard shot; pure .unchanged) s₃ (Transacted r baseline path s₁)
            (Abandons s₁) := by
        intro s₃ hs₃
        refine after_bind ((after_discard s₃ fun taken h => (htaken taken h).id).imp ?_
          fun _ _ h => h)
        intro _ s₄ hs₄
        rw [hs₃.owns] at hs₄
        exact hunchanged s₄ (hs₃.trans (hs₄.mono fun _ => Or.inl))
      have hdraft₂ : s₂.disk.FailsCleanly →
          s₂.disk.tree.file? (s₂.disk.place (draftPath path)) = none := by
        rw [hsnap.disk.place, hsnap.disk.files _ (RunState.not_owns_draft hown),
          hsnap.disk.failsCleanly]
        exact hdraft
      have hsnap' := hsnap.mono (B := s₁.Behind path) fun _ => Or.inl
      refine after_bind (after_onDisk ((Plan.after_applyToFile path e.plans hdraft₂).imp ?_))
      rintro outcome d ⟨happly, hfile⟩
      rw [hsnap.disk.place, hsnap.disk.files _ hown] at hfile
      rw [hsnap.disk.place, hsnap.disk.leaves] at happly
      have hs₃ : RunState.ChangesOnly
          (fun q => s₁.Behind path q ∨ outcome = .ok true ∧ q = s₁.disk.place path) s₂
          { s₂ with disk := d } := ⟨happly.mono fun q hq => hq.imp_left Or.inr, rfl, rfl⟩
      have hsame : outcome ≠ .ok true →
          RunState.ChangesOnly (s₁.Behind path) s₁ { s₂ with disk := d } := by
        refine fun hne => hsnap'.trans (hs₃.mono fun q hq => hq.resolve_right ?_)
        exact fun h => hne h.1
      match outcome with
      | .ok true =>
          refine r.after_validate hquiet pass e.path path baseline ?_ htaken hdraft (hfile rfl) ?_
          · exact fun h => hshot (hstore h)
          · exact (hsnap'.mono fun _ => Or.inl).trans (hs₃.mono fun q hq => hq.imp_right And.right)
      | .ok false => exact hdrop _ (hsame (by simp))
      | .error cause =>
          have hsame := hsame (by simp)
          exact after_bind (after_report (hdrop _ ⟨hsame.disk, hsame.store, hsame.modified⟩))

end Remediation

end Plumbline
