/-
What a run can do to a project.

Two promises are kept through all passes.  A file that a run leaves different is one that it reports
as modified (`run_accounts_for_changes`), and if the run is validated, its edits as a whole make no
test fail that did not fail before (`run_keeps_tests`).  Both hold for every registry and every list
of files, also when the run is abandoned because a snapshot could not be taken.

They need what a transaction needs: that no draft lies beside a file of the run, that none of the
files is the store's own, and that nobody of the crew writes files.  The disk may fail in any way, but
where a write fails halfway, or a draft can be neither renamed nor removed, the draft stays, and then
the drafts of the run do not count as files of the project (`RunState.Aside`).
-/
import Plumbline.Proofs.Remedy.Run

namespace Plumbline

open Disk

variable {σ : Type}

namespace Remediation

open RunM

/-! ### Runs as they are set up -/

/-- A run is validated only if its settings say so, and has a store if its settings ask for one. -/
structure IsSetUp (r : Remediation σ) (s : RunState σ) : Prop where
  tests : r.crew.tests.isSome → r.config.pipeline.validate
  store : (∃ home, (backupDir? r.config.pipeline r.root home).isSome) → s.store.isSome

/-- What is validated can be put back. -/
theorem IsSetUp.stored {r : Remediation σ} {s : RunState σ} (h : r.IsSetUp s)
    (htests : r.crew.tests.isSome) : s.store.isSome := by
  refine h.store ⟨"", ?_⟩
  unfold backupDir?
  rw [h.tests htests]
  cases r.config.pipeline.backupDir <;> simp

/-- The places in the directory of a run's store. -/
def InStore (s : RunState σ) (q : Place) : Prop :=
  ∃ dir, s.store.bind (·.dir) = some dir ∧ dir.placeFrom s.disk.cwd <+: q

/-- The places that do not count as files of the project: those in the directory of the store, and
drafts that may stay where a file of the run could not be replaced. -/
def Aside (s : RunState σ) (targets : List Path) (q : Place) : Prop :=
  InStore s q ∨ ∃ path ∈ targets, s.disk.Leaves path q

/-- Where the files of a run lie. -/
def targets (r : Remediation σ) (files : List Path) : List Path :=
  files.map fun f => r.root.join (r.relative f)

theorem inStore_of_owns {s : RunState σ} {q : Place} (h : s.Owns q) : InStore s q := by
  obtain ⟨dir, hdir, hbelow⟩ := BackupStore.Owns.below h
  exact ⟨dir, hdir, hbelow⟩

/-! ### States from which transactions are safe -/

/-- Transactions on `files` can be begun. -/
structure Safe (r : Remediation σ) (files : List Path) (s : RunState σ) : Prop where
  stored : r.crew.tests.isSome → s.store.isSome
  noDraft : s.disk.FailsCleanly →
    ∀ f ∈ files, s.disk.tree.file? (s.disk.place (draftPath (r.root.join f))) = none
  notOwned : ∀ f ∈ files, ¬ s.Owns (s.disk.place (r.root.join f))

namespace Safe

variable {r : Remediation σ} {files : List Path} {s s' : RunState σ}

/-- As long as no files come into being, transactions can be begun. -/
theorem of_changesOnly {A : Place → Prop} (h : Safe r files s) (hs : RunState.ChangesOnly A s s')
    (hA : ∀ q, A q → (∃ path, s.Behind path q) ∨ (s.disk.tree.file? q).isSome) :
    Safe r files s' where
  stored htests := by
    rw [hs.isSome_store]
    exact h.stored htests
  noDraft hclean f hf := by
    rw [hs.disk.failsCleanly] at hclean
    rw [hs.disk.place, hs.disk.files, h.noDraft hclean f hf]
    intro hq
    rcases hA _ hq with ⟨path, hown | ⟨hunclean, -⟩⟩ | hfile
    · exact RunState.not_owns_draft (h.notOwned f hf) hown
    · exact hunclean hclean
    · rw [h.noDraft hclean f hf] at hfile
      exact absurd hfile (by simp)
  notOwned f hf := by
    rw [hs.disk.place, hs.owns]
    exact h.notOwned f hf

theorem after_transact (h : Safe r files s) (hquiet : r.crew.Quiet) (pass : Pass)
    {e : FileEvaluation} (he : e.path ∈ files) (baseline : Option Nat) :
    After (r.transact pass e baseline) s
      (fun result s' => Transacted r baseline (r.root.join e.path) s result s' ∧ Safe r files s')
      (Abandons s) := by
  refine (r.after_transact hquiet pass e baseline h.stored (fun hclean => h.noDraft hclean e.path he)
    (h.notOwned e.path he)).imp ?_ fun _ _ h => h
  intro result s' hdone
  refine ⟨hdone, h.of_changesOnly hdone.changes ?_⟩
  rintro q (hbehind | ⟨hmodified, rfl⟩)
  · exact Or.inl ⟨_, hbehind⟩
  · exact Or.inr (hdone.existed hmodified)

end Safe

/-! ### What is reported stays reported -/

/-- Since `s₀`, a run over `files` has changed only files that it has reported, its store's own files,
and drafts. -/
structure Accounted (r : Remediation σ) (files : List Path) (s₀ s : RunState σ) : Prop where
  safe : Safe r files s
  cwd : s.disk.cwd = s₀.disk.cwd
  owns : s.Owns = s₀.Owns
  leaves : s.disk.Leaves = s₀.disk.Leaves
  reported : ∀ q, ¬ s₀.Owns q → (∀ f ∈ files, ¬ s₀.disk.Leaves (r.root.join f) q) →
    s.disk.tree.file? q ≠ s₀.disk.tree.file? q →
    ∃ f ∈ files, s.summary.modified.any (Path.same f) = true ∧ q = s₀.disk.place (r.root.join f)

theorem Accounted.start {r : Remediation σ} {files : List Path} {s : RunState σ}
    (h : Safe r files s) : Accounted r files s s :=
  ⟨h, rfl, rfl, rfl, fun _ _ _ hne => absurd rfl hne⟩

theorem sustained_accounted (r : Remediation σ) (hquiet : r.crew.Quiet) (files : List Path)
    (baseline : Option Nat) (s₀ : RunState σ) :
    Sustained r files baseline (Accounted r files s₀) fun _ _ => True where
  quiet s s' hs hsame := by
    refine ⟨hs.safe.of_changesOnly hsame fun _ => False.elim, hsame.disk.cwd.trans hs.cwd,
      hsame.owns.trans hs.owns, (funext hsame.disk.leaves).trans hs.leaves,
      fun q hq hstay hne => ?_⟩
    rw [hsame.disk.files q id] at hne
    rw [hsame.modified]
    exact hs.reported q hq hstay hne
  transact s pass e hs he := by
    refine (hs.safe.after_transact hquiet pass he baseline).imp ?_ fun _ _ _ => trivial
    rintro result s' ⟨hdone, hsafe⟩
    have hplace : s.disk.place (r.root.join e.path) = s₀.disk.place (r.root.join e.path) := by
      unfold place
      rw [hs.cwd]
    refine ⟨⟨hsafe.stored, hsafe.noDraft, hsafe.notOwned⟩, hdone.changes.disk.cwd.trans hs.cwd,
      hdone.changes.owns.trans hs.owns, (funext hdone.changes.disk.leaves).trans hs.leaves,
      fun q hq hstay hne => ?_⟩
    by_cases htarget : result = .modified ∧ q = s.disk.place (r.root.join e.path)
    · obtain ⟨rfl, rfl⟩ := htarget
      refine ⟨e.path, he, ?_, hplace⟩
      show (Path.insert e.path _).any _ = true
      rw [Path.any_same_insert, Path.same_self, Bool.true_or]
    · -- The transaction left this file alone, so it was reported before.
      have hsame : s'.disk.tree.file? q = s.disk.tree.file? q := by
        apply hdone.changes.disk.files
        rintro ((h | h) | h)
        · rw [hs.owns] at h
          exact hq h
        · rw [hs.leaves] at h
          exact hstay e.path he h
        · exact htarget h
      have hne' : s.disk.tree.file? q ≠ s₀.disk.tree.file? q := by
        rw [← hsame]
        exact hne
      obtain ⟨f, hf, hlisted, heq⟩ := hs.reported q hq hstay hne'
      rw [← hdone.changes.modified] at hlisted
      refine ⟨f, hf, ?_, heq⟩
      cases result with
      | unchanged => exact hlisted
      | modified =>
          show (Path.insert e.path _).any _ = true
          rw [Path.any_same_insert, hlisted, Bool.or_true]
      | rolledBack => exact hlisted

/-! ### A small run -/

/-- A rule that makes the same plan for every module. -/
def fixedRule (plan : Plan) : Rule Query where
  code := "FIX001"
  name := "fixed-plan"
  description := "Every module gets the same plan."
  fixType := .code
  interests := [.module]
  watch := .checks fun ctx node => pure (.ok
    [{ code := "FIX001", message := "", location := ctx.location node.span, fixable := true }])
  fixer := some { fix := fun _ _ => pure (.ok [plan]), instructions := fun _ => "" }

/-- A run with that rule alone, in the directory `/p`, with tests that never fail. -/
def fixedRun (plan : Plan) : Remediation Unit where
  root := "/p"
  config := {}
  registry := ⟨[fixedRule plan]⟩
  crew :=
    { tests := some (pure (.completed 0))
      confirm := fun _ _ => pure true
      format := fun _ => pure (some 0) }

/-- A project with one empty file, whose store lies in `dir`. -/
def oneFile (name : String) (dir : Path) : RunState Unit where
  disk := { tree := { files := [(["p", name], ByteArray.empty)], dirs := [["p"]] } }
  crew := ()
  store := some { dir := some dir }

/-- The run came to its end, and `P` holds of its answer and its last state. -/
def EndsIn {α : Type} (P : α → RunState σ → Prop) (x : Except BackupError α × RunState σ) : Prop :=
  ∃ a s, x = (.ok a, s) ∧ P a s

instance {α : Type} (P : α → RunState σ → Prop) [∀ a s, Decidable (P a s)]
    (x : Except BackupError α × RunState σ) : Decidable (EndsIn P x) :=
  match x with
  | (.ok a, s) =>
    if h : P a s then isTrue ⟨a, s, rfl, h⟩
    else isFalse fun ⟨_, _, heq, h'⟩ => by
      cases heq
      exact h h'
  | (.error _, _) => isFalse fun ⟨_, _, heq, _⟩ => by cases heq

theorem quiet_pure {α : Type} (a : α) : Quiet (pure a : StateT σ DiskM α) :=
  fun _ d => Disk.ChangesOnly.refl _ d

theorem quiet_fixedRun (plan : Plan) : (fixedRun plan).crew.Quiet where
  tests work h := by
    obtain rfl : pure (.completed 0) = work := Option.some.inj h
    exact quiet_pure _
  confirm _ _ := quiet_pure _
  format _ := quiet_pure _

theorem isSetUp_fixedRun (plan : Plan) (name : String) (dir : Path) :
    (fixedRun plan).IsSetUp (oneFile name dir) := ⟨fun _ => rfl, fun _ => rfl⟩

theorem failsCleanly_oneFile (name : String) (dir : Path) : (oneFile name dir).disk.FailsCleanly :=
  fun _ _ h => nomatch h

/-- The run below knows `a.py` under this name, finds it at this place, and keeps its snapshots
elsewhere. -/
theorem place_target (plan : Plan) (dir : Path) : (oneFile "a.py" dir).disk.place
    ((fixedRun plan).root.join ((fixedRun plan).relative "a.py")) = ["p", "a.py"] := by
  show Path.placeFrom [] (Path.join "/p" ((Path.relativeTo? "a.py" "/p").getD "a.py")) = _
  decide +kernel

theorem not_inStore {s : RunState σ} {dir : Path} {q : Place}
    (hstore : s.store = some { dir := some dir }) (hq : ¬ dir.placeFrom s.disk.cwd <+: q) :
    ¬ InStore s q := by
  rintro ⟨dir', hdir, hbelow⟩
  rw [hstore] at hdir
  obtain rfl : dir = dir' := Option.some.inj hdir
  exact hq hbelow

theorem not_inStore_target (plan : Plan) : ∀ f ∈ ["a.py"], ¬ InStore (oneFile "a.py" "/b")
    ((oneFile "a.py" "/b").disk.place ((fixedRun plan).root.join ((fixedRun plan).relative f))) := by
  intro f hf
  obtain rfl := List.mem_singleton.mp hf
  rw [place_target]
  have hplace : ¬ Path.placeFrom [] "/b" <+: ["p", "a.py"] := by decide +kernel
  exact not_inStore rfl hplace

theorem file?_draft_target (plan : Plan) : ∀ f ∈ ["a.py"],
    (oneFile "a.py" "/b").disk.tree.file? ((oneFile "a.py" "/b").disk.place
      (draftPath ((fixedRun plan).root.join ((fixedRun plan).relative f)))) = none := by
  intro f hf
  obtain rfl := List.mem_singleton.mp hf
  show (oneFile "a.py" "/b").disk.tree.file? (Path.placeFrom [] (draftPath
    (Path.join "/p" ((Path.relativeTo? "a.py" "/p").getD "a.py")))) = none
  decide +kernel

/-- A run that adds an import to the only file of a project. -/
theorem endsIn_addImport : EndsIn (fun summary s' =>
    s'.disk.tree.file? ["p", "a.py"] = some "from os import path\n".toUTF8 ∧
      summary.modified = ["a.py"])
    (((fixedRun (.addImport "os" "path")).run ["a.py"]).run.run (oneFile "a.py" "/b")) := by
  decide +kernel

/-! ### Every change is reported -/

/-- **A run reports every file that it changes.**  A transaction that is declined, cannot be
applied, changes nothing or is put back leaves all files as they were, one that stays changes its own
file only, and when the run is over, every file that is different is a file of the run that stands in
the summary.  The store's own files are left aside, and so are drafts on a disk that does not fail
cleanly. -/
theorem run_accounts_for_changes (r : Remediation σ) (files : List Path) (s : RunState σ)
    (hsetup : r.IsSetUp s) (hquiet : r.crew.Quiet)
    (hdraft : ∀ f ∈ files,
      s.disk.tree.file? (s.disk.place (draftPath (r.root.join (r.relative f)))) = none)
    (hown : ∀ f ∈ files, ¬ s.Owns (s.disk.place (r.root.join (r.relative f)))) :
    (∀ t ∈ r.transactions files s, ∀ outcome s',
      (r.transact t.pass t.evaluation t.baseline).run.run t.before = (outcome, s') →
      (∀ path cause, outcome ≠ .error (.restoreFailed path cause)) →
      ∀ q, ¬ s.Owns q → ¬ s.disk.Leaves (r.root.join t.evaluation.path) q →
        (outcome = .ok .modified → q ≠ s.disk.place (r.root.join t.evaluation.path)) →
        s'.disk.tree.file? q = t.before.disk.tree.file? q) ∧
    ∀ summary s', (r.run files).run.run s = (.ok summary, s') →
      ∀ q, ¬ s.Owns q → (∀ path ∈ r.targets files, ¬ s.disk.Leaves path q) →
        s'.disk.tree.file? q ≠ s.disk.tree.file? q →
        ∃ f ∈ files, summary.modified.any (Path.same (r.relative f)) = true ∧
          q = s.disk.place (r.root.join (r.relative f)) := by
  have hsafe : Safe r (files.map r.relative) s :=
    ⟨hsetup.stored, fun _ => List.forall_mem_map.mpr hdraft, List.forall_mem_map.mpr hown⟩
  have hsustained :=
    sustained_accounted r hquiet (files.map r.relative) (r.baselineAt s) s
  constructor
  · intro t ht outcome s' hrun hrestored q hq hstay hother
    obtain ⟨hlisted, -, hbefore⟩ :=
      begins_of_mem_transactions hquiet hsustained (.start hsafe) ht
    have hdone := hbefore.safe.after_transact hquiet t.pass hlisted t.baseline
    unfold After at hdone
    rw [hrun] at hdone
    match outcome with
    | .ok result =>
        obtain ⟨hdone, -⟩ := hdone
        apply hdone.changes.disk.files
        rintro ((howned | hleft) | ⟨rfl, hplace⟩)
        · rw [hbefore.owns] at howned
          exact hq howned
        · rw [hbefore.leaves] at hleft
          exact hstay hleft
        · refine hother rfl ?_
          rw [hplace, place, hbefore.cwd, place]
    | .error e =>
        rcases hdone with ⟨path, cause, rfl⟩ | hchanges
        · exact absurd rfl (hrestored path cause)
        · apply hchanges.disk.files
          rw [hbefore.owns]
          exact hq
  · intro summary s' hrun q hq hstay hne
    have hend := after_run hquiet files hsustained (.start hsafe)
    unfold After at hend
    rw [hrun] at hend
    obtain ⟨haccounted, rfl⟩ := hend
    have hstay' : ∀ f ∈ files.map r.relative, ¬ s.disk.Leaves (r.root.join f) q :=
      List.forall_mem_map.mpr fun f hf => hstay _ (List.mem_map.mpr ⟨f, hf, rfl⟩)
    obtain ⟨f', hf', hreported, hplace⟩ := haccounted.reported q hq hstay' hne
    obtain ⟨f, hf, rfl⟩ := List.mem_map.mp hf'
    exact ⟨f, hf, hreported, hplace⟩

/-- A run that adds an import to the only file of a project reports it, and nothing else outside
its store has changed. -/
theorem run_accounts_for_added_import :
    ∃ summary s', ((fixedRun (.addImport "os" "path")).run ["a.py"]).run.run
        (oneFile "a.py" "/b") = (.ok summary, s') ∧
      s'.disk.tree.file? ["p", "a.py"] = some "from os import path\n".toUTF8 ∧
      summary.modified = ["a.py"] ∧
      ∀ q, ¬ (oneFile "a.py" "/b").Owns q →
        s'.disk.tree.file? q ≠ (oneFile "a.py" "/b").disk.tree.file? q → q = ["p", "a.py"] := by
  obtain ⟨summary, s', hrun, hfile, hmodified⟩ := endsIn_addImport
  refine ⟨summary, s', hrun, hfile, hmodified, fun q hq hne => ?_⟩
  obtain ⟨-, hreported⟩ := run_accounts_for_changes (fixedRun (.addImport "os" "path")) ["a.py"]
    (oneFile "a.py" "/b") (isSetUp_fixedRun _ _ _) (quiet_fixedRun _)
    (file?_draft_target _) fun f hf hown => not_inStore_target _ f hf (inStore_of_owns hown)
  obtain ⟨f, hf, -, heq⟩ := hreported summary s' hrun q hq
    (fun _ _ hleft => hleft.1 (failsCleanly_oneFile _ _)) hne
  obtain rfl := List.mem_singleton.mp hf
  rw [heq, place_target]

/-- The project with one file, on a disk on which the first write of a draft fails when three bytes
are there. -/
def tornFile : RunState Unit :=
  let s := oneFile "a.py" "/b"
  let faults n := if n = 6 then some { error := .denied, written := some 3 } else none
  { s with disk := { s.disk with faults } }

/-- Says no to all plans, and writes a file. -/
def writingConfirm : Path → List Plan → StateT Unit DiskM Bool := fun _ _ => do
  let _ ← StateT.lift (Disk.write "/p/b.py" "x".toUTF8)
  pure false

/-- The run that adds an import, if it were confirmed. -/
def declinedRun : Remediation Unit :=
  let r := fixedRun (.addImport "os" "path")
  { r with crew := { r.crew with confirm := writingConfirm } }

/-- Three changes that no run can answer for.  A file that is the manifest of the run's own store is
not safe: a transaction that cannot apply its plan, and so should leave the file alone, has written the
manifest over it.  A write that fails halfway leaves a draft.  And whoever confirms plans may write
files.  All three runs end without reporting any file. -/
theorem changes_unreported :
    ((fixedRun (.freezeRecord "C")).IsSetUp (oneFile "manifest.json" "/p") ∧
      (fixedRun (.freezeRecord "C")).crew.Quiet ∧
      (oneFile "manifest.json" "/p").disk.FailsCleanly ∧
      (oneFile "manifest.json" "/p").disk.tree.file?
        ((oneFile "manifest.json" "/p").disk.place (draftPath "/p/manifest.json")) = none ∧
      (∃ t ∈ (fixedRun (.freezeRecord "C")).transactions ["manifest.json"]
          (oneFile "manifest.json" "/p"),
        ∃ result s', ((fixedRun (.freezeRecord "C")).transact t.pass t.evaluation
            t.baseline).run.run t.before = (.ok result, s') ∧ result = .unchanged ∧
          s'.disk.tree.file? ["p", "manifest.json"] ≠
            t.before.disk.tree.file? ["p", "manifest.json"]) ∧
      ∃ summary s', ((fixedRun (.freezeRecord "C")).run ["manifest.json"]).run.run
          (oneFile "manifest.json" "/p") = (.ok summary, s') ∧ summary.modified = [] ∧
        s'.disk.tree.file? ["p", "manifest.json"] = some (BackupStore.manifestText []).toUTF8) ∧
    (∃ summary s', ((fixedRun (.addImport "os" "path")).run ["a.py"]).run.run tornFile =
        (.ok summary, s') ∧ summary.modified = [] ∧
      tornFile.disk.tree.file? ["p", ".a.py.archfix-tmp"] = none ∧
      s'.disk.tree.file? ["p", ".a.py.archfix-tmp"] = some "fro".toUTF8) ∧
    ∃ summary s', (declinedRun.run ["a.py"]).run.run (oneFile "a.py" "/b") = (.ok summary, s') ∧
      summary.modified = [] ∧ (oneFile "a.py" "/b").disk.tree.file? ["p", "b.py"] = none ∧
      s'.disk.tree.file? ["p", "b.py"] = some "x".toUTF8 := by
  have hfirst : ((fixedRun (.freezeRecord "C")).transactions ["manifest.json"]
      (oneFile "manifest.json" "/p")).head?.any (fun t =>
        EndsIn (fun result s' => result = .unchanged ∧
            s'.disk.tree.file? ["p", "manifest.json"] ≠
              t.before.disk.tree.file? ["p", "manifest.json"])
          (((fixedRun (.freezeRecord "C")).transact t.pass t.evaluation t.baseline).run.run
            t.before)) = true := by decide +kernel
  have hend : EndsIn (fun summary s' => summary.modified = [] ∧
      s'.disk.tree.file? ["p", "manifest.json"] = some (BackupStore.manifestText []).toUTF8)
      (((fixedRun (.freezeRecord "C")).run ["manifest.json"]).run.run
        (oneFile "manifest.json" "/p")) := by decide +kernel
  have htorn : EndsIn (fun summary s' => summary.modified = [] ∧
      tornFile.disk.tree.file? ["p", ".a.py.archfix-tmp"] = none ∧
      s'.disk.tree.file? ["p", ".a.py.archfix-tmp"] = some "fro".toUTF8)
      (((fixedRun (.addImport "os" "path")).run ["a.py"]).run.run tornFile) := by decide +kernel
  have hdeclined : EndsIn (fun summary s' => summary.modified = [] ∧
      (oneFile "a.py" "/b").disk.tree.file? ["p", "b.py"] = none ∧
      s'.disk.tree.file? ["p", "b.py"] = some "x".toUTF8)
      ((declinedRun.run ["a.py"]).run.run (oneFile "a.py" "/b")) := by decide +kernel
  refine ⟨⟨isSetUp_fixedRun _ _ _, quiet_fixedRun _, failsCleanly_oneFile _ _, by decide +kernel, ?_,
    hend⟩, htorn, hdeclined⟩
  obtain ⟨t, ht, hdone⟩ := (Option.any_eq_true _ _).mp hfirst
  have hends := of_decide_eq_true hdone
  exact ⟨t, List.mem_of_head? ht, hends⟩

/-! ### Tests do not get worse -/

/-- What the tests say depends on the files outside `A` only. -/
def Repeatable (tests : StateT σ DiskM TestOutcome) (A : Place → Prop) : Prop :=
  ∀ c c' d d', Disk.ChangesOnly A d d' →
    ((tests.run c').run d').1.1 = ((tests.run c).run d).1.1

/-- The files outside `A` are those of `s₀`, or the tests complete on them with no more failures. -/
def Unharmed (tests : StateT σ DiskM TestOutcome) (A : Place → Prop) (s₀ s : RunState σ) : Prop :=
  (∀ q, ¬ A q → s.disk.tree.file? q = s₀.disk.tree.file? q) ∨
    ∃ before after, ((tests.run s₀.crew).run s₀.disk).1.1 = .completed before ∧
      (∀ c, ((tests.run c).run s.disk).1.1 = .completed after) ∧ after ≤ before

/-- The numbers that are compared are those of tests that completed. -/
theorem completed_of_observed {policy : OraclePolicy} {outcome : TestOutcome} {n : Nat}
    (h : observed policy outcome = some n)
    (hpolicy : policy = .strict ∨ ∃ m, outcome = .completed m) : outcome = .completed n := by
  rcases hpolicy with rfl | ⟨m, rfl⟩
  · cases outcome with
    | completed failures => exact congrArg TestOutcome.completed (Option.some.inj h)
    | timedOut => exact absurd h (by simp [observed])
    | unavailable reason => exact absurd h (by simp [observed])
  · exact congrArg TestOutcome.completed (Option.some.inj h)

theorem le_of_not_isWorse {baseline after : Option Nat} (h : isWorse baseline after = false) :
    ∃ b a, baseline = some b ∧ after = some a ∧ a ≤ b := by
  match baseline, after with
  | some b, some a => exact ⟨b, a, rfl, rfl, by simpa [isWorse] using h⟩
  | some b, none => exact absurd h (by simp [isWorse])
  | none, _ => exact absurd h (by simp [isWorse])

/-- A validated run that keeps its promise so far. -/
structure Vetted (r : Remediation σ) (tests : StateT σ DiskM TestOutcome) (files : List Path)
    (A : Place → Prop) (s₀ s : RunState σ) : Prop where
  safe : Safe r files s
  owns : s.Owns = s₀.Owns
  leaves : s.disk.Leaves = s₀.disk.Leaves
  unharmed : Unharmed tests A s₀ s

variable {r : Remediation σ} {tests : StateT σ DiskM TestOutcome} {files : List Path}
  {A : Place → Prop} {s₀ s s' : RunState σ}

/-- What happens at places in `A` does not matter to the tests. -/
theorem Unharmed.of_changesOnly (hrepeat : Repeatable tests A)
    (h : Unharmed tests A s₀ s) (hs : Disk.ChangesOnly A s.disk s'.disk) :
    Unharmed tests A s₀ s' := by
  rcases h with hsame | ⟨before, after, hbefore, hafter, hle⟩
  · exact Or.inl fun q hq => (hs.files q hq).trans (hsame q hq)
  · refine Or.inr ⟨before, after, hbefore, fun c => ?_, hle⟩
    rw [hrepeat c c s.disk s'.disk hs, hafter c]

theorem sustained_vetted (hquiet : r.crew.Quiet) (htests : r.crew.tests = some tests)
    (hrepeat : Repeatable tests A) (hown : ∀ q, s₀.Owns q → A q)
    (hleft : ∀ f ∈ files, ∀ q, s₀.disk.Leaves (r.root.join f) q → A q)
    (hpolicy : r.config.pipeline.oraclePolicy = .strict ∨
      ∀ c d, ∃ n, ((tests.run c).run d).1.1 = .completed n) :
    Sustained r files (r.baselineAt s₀) (Vetted r tests files A s₀) fun e s =>
      (∃ path cause, e = .restoreFailed path cause) ∨ Unharmed tests A s₀ s where
  quiet s s' hs hsame :=
    ⟨hs.safe.of_changesOnly hsame fun _ => False.elim, hsame.owns.trans hs.owns,
      (funext hsame.disk.leaves).trans hs.leaves,
      hs.unharmed.of_changesOnly hrepeat (hsame.disk.mono fun _ => False.elim)⟩
  transact s pass e hs he := by
    have hown' : ∀ q, s.Owns q → A q := by
      rw [hs.owns]
      exact hown
    have hbehind : ∀ q, s.Behind (r.root.join e.path) q → A q := by
      rintro q (h | h)
      · exact hown' q h
      · rw [hs.leaves] at h
        exact hleft e.path he q h
    refine (hs.safe.after_transact hquiet pass he (r.baselineAt s₀)).imp ?_ ?_
    · rintro result s' ⟨hdone, hsafe⟩
      refine ⟨⟨hsafe.stored, hsafe.noDraft, hsafe.notOwned⟩, hdone.changes.owns.trans hs.owns,
        (funext hdone.changes.disk.leaves).trans hs.leaves, ?_⟩
      by_cases hmodified : result = .modified
      · obtain ⟨c, d, htested, hworse⟩ := hdone.vetted hmodified tests htests
        obtain ⟨b, a, hb, ha, hle⟩ := le_of_not_isWorse hworse
        have hbase : observed r.config.pipeline.oraclePolicy
            ((tests.run s₀.crew).run s₀.disk).1.1 = some b := by
          simpa [baselineAt, htests] using hb
        refine Or.inr
          ⟨b, a, completed_of_observed hbase (hpolicy.imp_right fun h => h _ _), ?_, hle⟩
        intro c'
        show ((tests.run c').run s'.disk).1.1 = _
        rw [hrepeat c c' d s'.disk (htested.mono hown')]
        exact completed_of_observed ha (hpolicy.imp_right fun h => h _ _)
      · refine hs.unharmed.of_changesOnly hrepeat (hdone.changes.disk.mono ?_)
        rintro q (h | ⟨hmod, -⟩)
        · exact hbehind q h
        · exact absurd hmod hmodified
    · rintro e s' (hrestore | hchanges)
      · exact Or.inl hrestore
      · exact Or.inr (hs.unharmed.of_changesOnly hrepeat (hchanges.disk.mono hown'))

/-- **A validated run makes no test fail.**  However a run ends, unless a snapshot could not be put
back, the files that count are those it began with, or the tests complete on them with at most as many
failures as before.  Files in the directory of the store do not count, nor do drafts on a disk that
does not fail cleanly. -/
theorem run_keeps_tests (r : Remediation σ) (files : List Path) (s : RunState σ)
    (tests : StateT σ DiskM TestOutcome) (htests : r.crew.tests = some tests)
    (hsetup : r.IsSetUp s) (hquiet : r.crew.Quiet)
    (hrepeat : Repeatable tests (Aside s (r.targets files)))
    (hpolicy : r.config.pipeline.oraclePolicy = .strict ∨
      ∀ c d, ∃ n, ((tests.run c).run d).1.1 = .completed n)
    (hdraft : ∀ f ∈ files,
      s.disk.tree.file? (s.disk.place (draftPath (r.root.join (r.relative f)))) = none)
    (hinside : ∀ f ∈ files, ¬ InStore s (s.disk.place (r.root.join (r.relative f))))
    (outcome : Except BackupError RunSummary) (s' : RunState σ)
    (hrun : (r.run files).run.run s = (outcome, s'))
    (hrestored : ∀ path cause, outcome ≠ .error (.restoreFailed path cause)) :
    (∀ q, ¬ Aside s (r.targets files) q → s'.disk.tree.file? q = s.disk.tree.file? q) ∨
      ∃ before after, ((tests.run s.crew).run s.disk).1.1 = .completed before ∧
        (∀ c, ((tests.run c).run s'.disk).1.1 = .completed after) ∧ after ≤ before := by
  have hsafe : Safe r (files.map r.relative) s := by
    refine ⟨hsetup.stored, fun _ => List.forall_mem_map.mpr hdraft, List.forall_mem_map.mpr ?_⟩
    exact fun f hf hown => hinside f hf (inStore_of_owns hown)
  have hleft : ∀ f ∈ files.map r.relative, ∀ q, s.disk.Leaves (r.root.join f) q →
      Aside s (r.targets files) q :=
    List.forall_mem_map.mpr fun f hf q hq => Or.inr ⟨_, List.mem_map.mpr ⟨f, hf, rfl⟩, hq⟩
  have hend := after_run hquiet files (sustained_vetted hquiet htests hrepeat
    (fun q hq => Or.inl (inStore_of_owns hq)) hleft hpolicy)
    ⟨hsafe, rfl, rfl, Or.inl fun _ _ => rfl⟩
  unfold After at hend
  rw [hrun] at hend
  match outcome with
  | .ok summary => exact hend.1.unharmed
  | .error e =>
      rcases hend with ⟨path, cause, rfl⟩ | hunharmed
      · exact absurd rfl (hrestored path cause)
      · exact hunharmed

/-- The run that adds an import is validated, and the tests complete on what it leaves. -/
theorem run_keeps_tests_for_added_import :
    ∃ summary s', ((fixedRun (.addImport "os" "path")).run ["a.py"]).run.run
        (oneFile "a.py" "/b") = (.ok summary, s') ∧
      Unharmed (pure (.completed 0)) (InStore (oneFile "a.py" "/b")) (oneFile "a.py" "/b") s' := by
  obtain ⟨summary, s', hrun, -⟩ := endsIn_addImport
  refine ⟨summary, s', hrun, ?_⟩
  have hkept := run_keeps_tests (fixedRun (.addImport "os" "path")) ["a.py"]
    (oneFile "a.py" "/b") (pure (.completed 0)) rfl (isSetUp_fixedRun _ _ _) (quiet_fixedRun _)
    (fun _ _ _ _ _ => rfl) (Or.inr fun _ _ => ⟨0, rfl⟩)
    (file?_draft_target _) (not_inStore_target _) (.ok summary) s' hrun (by simp)
  refine hkept.imp_left fun hsame q hq => hsame q ?_
  rintro (hin | ⟨path, -, hunclean, -⟩)
  · exact hq hin
  · exact hunclean (failsCleanly_oneFile _ _)

/-- Tests of which one fails if there is a file at `q`. -/
def failsOver (q : Place) : StateT Unit DiskM TestOutcome := do
  let d ← StateT.lift get
  pure (.completed (if d.tree.isFile q then 1 else 0))

/-- The run that adds an import, with the given tests and answers, where unknown outcomes count as
failures. -/
def testedRun (tests : StateT Unit DiskM TestOutcome)
    (confirm : Path → List Plan → StateT Unit DiskM Bool) : Remediation Unit where
  root := "/p"
  config := { pipeline := { oraclePolicy := .strict } }
  registry := ⟨[fixedRule (.addImport "os" "path")]⟩
  crew := { tests := some tests, confirm, format := fun _ => pure (some 0) }

/-- A run on `a.py` that keeps to all else that is asked of it, and then files outside `A` are
different while the tests do not complete or more of them fail. -/
structure Spoils (tests : StateT Unit DiskM TestOutcome)
    (confirm : Path → List Plan → StateT Unit DiskM Bool) (A : Place → Prop) (s : RunState Unit) :
    Prop where
  setUp : (testedRun tests confirm).IsSetUp s
  quiet : Quiet tests
  repeatable : Repeatable tests (InStore s)
  draft : s.disk.tree.file? (s.disk.place (draftPath ((testedRun tests confirm).root.join
    ((testedRun tests confirm).relative "a.py")))) = none
  outside : ¬ InStore s (s.disk.place ((testedRun tests confirm).root.join
    ((testedRun tests confirm).relative "a.py")))
  ends : ∃ summary s', ((testedRun tests confirm).run ["a.py"]).run.run s = (.ok summary, s') ∧
    ¬ Unharmed tests A s s'

theorem quiet_failsOver (q : Place) : Quiet (failsOver q) := fun _ d => Disk.ChangesOnly.refl _ d

theorem repeatable_failsOver {q : Place} {A : Place → Prop} (hq : ¬ A q) :
    Repeatable (failsOver q) A := by
  intro c c' d d' h
  show TestOutcome.completed (if (d'.tree.file? q).isSome then 1 else 0) =
    .completed (if (d.tree.file? q).isSome then 1 else 0)
  rw [h.files q hq]

/-- Where a file has come into being that makes a test fail, the run has done harm. -/
theorem not_unharmed_failsOver {q : Place} {A : Place → Prop} {s s' : RunState Unit} (hq : ¬ A q)
    (hbefore : s.disk.tree.file? q = none) (hafter : (s'.disk.tree.file? q).isSome = true) :
    ¬ Unharmed (failsOver q) A s s' := by
  have hcount (d : Disk) : ((((failsOver q).run ()).run d).1.1 : TestOutcome) =
      .completed (if (d.tree.file? q).isSome then 1 else 0) := rfl
  rintro (hsame | ⟨before, after, hb, ha, hle⟩)
  · rw [hsame q hq, hbefore] at hafter
    exact Bool.noConfusion hafter
  · have hb := (hcount s.disk).symm.trans hb
    have ha := (hcount s'.disk).symm.trans (ha ())
    rw [hbefore] at hb
    rw [hafter] at ha
    obtain rfl := TestOutcome.completed.inj hb
    obtain rfl := TestOutcome.completed.inj ha
    exact absurd hle (by decide)

theorem place_testedRun (tests : StateT Unit DiskM TestOutcome)
    (confirm : Path → List Plan → StateT Unit DiskM Bool) {s : RunState Unit}
    (hcwd : s.disk.cwd = []) : s.disk.place ((testedRun tests confirm).root.join
      ((testedRun tests confirm).relative "a.py")) = ["p", "a.py"] := by
  unfold place
  rw [hcwd]
  exact place_target (.addImport "os" "path") "/b"

/-- A run spoils the tests if it ends with a file at a place where there was none and which counts. -/
theorem spoils_failsOver {q : Place} {confirm : Path → List Plan → StateT Unit DiskM Bool}
    {s : RunState Unit} (hstore : s.store = some { dir := some "/b" }) (hcwd : s.disk.cwd = [])
    (hq : ¬ ["b"] <+: q) (hbefore : s.disk.tree.file? q = none)
    (hdraft : s.disk.tree.file? (s.disk.place (draftPath ((testedRun (failsOver q) confirm).root.join
      ((testedRun (failsOver q) confirm).relative "a.py")))) = none)
    (hends : EndsIn (fun _ s' => (s'.disk.tree.file? q).isSome = true)
      (((testedRun (failsOver q) confirm).run ["a.py"]).run.run s)) :
    Spoils (failsOver q) confirm (InStore s) s := by
  have hcounts : ∀ p : Place, ¬ ["b"] <+: p → ¬ InStore s p := by
    intro p hp
    refine not_inStore hstore ?_
    have hplace : Path.placeFrom [] "/b" = ["b"] := by decide +kernel
    rwa [hcwd, hplace]
  obtain ⟨summary, s', hrun, hfile⟩ := hends
  refine ⟨⟨fun _ => rfl, fun _ => by rw [hstore]; rfl⟩, quiet_failsOver q,
    repeatable_failsOver (hcounts q hq), hdraft, ?_, summary, s', hrun,
    not_unharmed_failsOver (hcounts q hq) hbefore hfile⟩
  rw [place_testedRun _ _ hcwd]
  exact hcounts _ (by decide)

/-- What a run cannot promise.  If its store lies inside the project and the tests never complete, the
files of the store are new files of the project.  If a write fails halfway the draft stays, and a test
may fail over it.  And whoever confirms plans may write a file over which a test fails. -/
theorem tests_spoiled :
    Spoils (pure .timedOut) (fun _ _ => pure true) (fun _ => False) (oneFile "a.py" "/p/b") ∧
    Spoils (failsOver ["p", ".a.py.archfix-tmp"]) (fun _ _ => pure true) (InStore tornFile)
      tornFile ∧
    Spoils (failsOver ["p", "b.py"]) writingConfirm (InStore (oneFile "a.py" "/b"))
      (oneFile "a.py" "/b") := by
  refine ⟨⟨⟨fun _ => rfl, fun _ => rfl⟩, quiet_pure _, fun _ _ _ _ _ => rfl, by decide +kernel,
    ?_, ?_⟩, ?_, ?_⟩
  · rw [place_testedRun _ _ rfl]
    have hplace : ¬ Path.placeFrom [] "/p/b" <+: ["p", "a.py"] := by decide +kernel
    exact not_inStore rfl hplace
  · obtain ⟨summary, s', hrun, hfile⟩ : EndsIn (fun _ s' =>
        (s'.disk.tree.file? ["p", "b", "manifest.json"]).isSome = true)
        (((testedRun (pure .timedOut) fun _ _ => pure true).run ["a.py"]).run.run
          (oneFile "a.py" "/p/b")) := by decide +kernel
    refine ⟨summary, s', hrun, ?_⟩
    rintro (hsame | ⟨before, -, hbefore, -⟩)
    · rw [hsame _ id] at hfile
      exact absurd hfile (by decide)
    · exact absurd hbefore (by simp)
  · exact spoils_failsOver rfl rfl (by decide) (by decide) (by decide +kernel) (by decide +kernel)
  · exact spoils_failsOver rfl rfl (by decide) (by decide) (by decide +kernel) (by decide +kernel)

end Remediation

end Plumbline
