/-
The books of a run balance.

A run writes the same events down in several places: an edit that is put back is counted by its pass,
listed as a regression and adds its file to those that were rolled back, and every edit that is
validated costs one run of the tests.  The counters, lists and sets are kept by different steps, so
that each lemma is about all of them at once: `Entered` says what one transaction adds, `Tallied` how
far the books of a pass have come, and `Balanced` what holds between passes.

Nobody of the crew is trusted, and neither is whoever applies plans.  How often tests were run is
read off a crew that counts (`Crew.Counts`).
-/
import Mathlib.Algebra.GroupWithZero.Nat
import Plumbline.Proofs.Remedy.Counting
import Plumbline.Proofs.Remedy.Safety

namespace Plumbline

open RunM

variable {σ : Type} {apply : Applier σ}

/-! ### What is written down -/

/-- `ticks` tells how often the crew has run its tests. -/
structure Crew.Counts (crew : Crew σ) (apply : Applier σ) (ticks : σ → Nat) : Prop where
  tests : ∀ work, crew.tests = some work → ∀ c d, ticks ((work.run c).run d).1.2 = ticks c + 1
  confirm : ∀ path plans c d, ticks (((crew.confirm path plans).run c).run d).1.2 = ticks c
  apply : ∀ path plans c d, ticks (((apply path plans).run c).run d).1.2 = ticks c
  format : ∀ files c d, ticks (((crew.format files).run c).run d).1.2 = ticks c

theorem Crew.counts_counting (crew : Crew σ) : crew.counting.Counts apply.counting Prod.snd where
  tests work h := by
    obtain ⟨tests, -, rfl⟩ := Option.map_eq_some_iff.mp h
    exact fun _ _ => rfl
  confirm _ _ _ _ := rfl
  apply _ _ _ _ := rfl
  format _ _ _ := rfl

/-- Two regressions are of different files. -/
def Regression.Apart (g h : Regression) : Prop := Path.same g.file h.file = false

namespace RunSummary

/-- The files that were rolled back are those of the regressions. -/
def ListsRegressions (summary : RunSummary) : Prop :=
  ∀ file, summary.rolledBack.any (Path.same file) =
    summary.regressions.any fun g => Path.same file g.file

/-- How many edits the passes with transactions have made, for good or not. -/
def edits (summary : RunSummary) : Nat :=
  ((summary.passes.filter (·.1.isTransactional)).map fun x => x.2.modified + x.2.rolledBack).sum

theorem edits_recordPass (summary : RunSummary) (pass : Pass) (p : PassSummary) :
    (summary.recordPass pass p).edits =
      summary.edits + if pass.isTransactional then p.modified + p.rolledBack else 0 := by
  unfold edits recordPass
  rw [List.filter_append, List.map_append, List.sum_append_nat]
  cases hpass : pass.isTransactional with
  | true => simp [hpass]
  | false => simp [hpass]

end RunSummary

/-- What a transaction adds to the edits of its pass. -/
theorem PassSummary.edits_add (p : PassSummary) (result : FileResult) :
    (p.add result).modified + (p.add result).rolledBack =
      p.modified + p.rolledBack + if result != .unchanged then 1 else 0 := by
  cases result with
  | unchanged => rfl
  | modified => exact Nat.add_right_comm _ _ _
  | rolledBack => rfl

namespace Remediation

variable {r : Remediation σ apply} {ticks : σ → Nat} {s s' : RunState σ} {pass : Pass}
  {baseline : Option Nat} {file : Path}

/-! ### One transaction -/

/-- From `s` to `s'` nothing that has to balance was written down, and no tests were run. -/
structure Untold (ticks : σ → Nat) (s s' : RunState σ) : Prop where
  passes : s'.summary.passes = s.summary.passes
  rolledBack : s'.summary.rolledBack = s.summary.rolledBack
  regressions : s'.summary.regressions = s.summary.regressions
  ticks : ticks s'.crew = ticks s.crew

theorem Untold.refl (ticks : σ → Nat) (s : RunState σ) : Untold ticks s s := ⟨rfl, rfl, rfl, rfl⟩

theorem Untold.trans {s₁ s₂ s₃ : RunState σ} (h : Untold ticks s₁ s₂) (h' : Untold ticks s₂ s₃) :
    Untold ticks s₁ s₃ :=
  ⟨h'.passes.trans h.passes, h'.rolledBack.trans h.rolledBack, h'.regressions.trans h.regressions,
    h'.ticks.trans h.ticks⟩

theorem after_byCrew_untold {α : Type} {work : StateT σ DiskM α}
    (h : ∀ c d, ticks ((work.run c).run d).1.2 = ticks c) (s : RunState σ) :
    After (byCrew work) s (fun _ s' => Untold ticks s s') fun _ _ => True :=
  after_byCrew ⟨rfl, rfl, rfl, h s.crew s.disk⟩

theorem after_snapshot_untold (ticks : σ → Nat) (path : Path) (s : RunState σ) :
    After (snapshot path) s (fun _ s' => Untold ticks s s') fun _ _ => True := by
  refine after_get ?_
  cases s.store with
  | none => exact after_pure (.refl ticks s)
  | some store =>
      refine after_bind (after_onDisk ?_)
      unfold DiskM.After
      rcases (store.snapshot path).run s.disk with ⟨⟨e | shot, _⟩, d⟩
      · exact trivial
      · exact after_bind (after_modify (after_pure ⟨rfl, rfl, rfl, rfl⟩))

theorem after_discard_untold (ticks : σ → Nat) (shot : Option Snapshot) (s : RunState σ) :
    After (discard shot) s (fun _ s' => Untold ticks s s') fun _ _ => True := by
  cases shot with
  | none => exact after_pure (.refl ticks s)
  | some shot =>
      refine after_get ?_
      cases s.store with
      | none => exact after_pure (.refl ticks s)
      | some store =>
          refine after_bind (after_onDisk ?_)
          unfold DiskM.After
          exact after_modify ⟨rfl, rfl, rfl, rfl⟩

theorem after_rollBack_untold (ticks : σ → Nat) (shot : Option Snapshot) (s : RunState σ) :
    After (rollBack shot) s (fun _ s' => Untold ticks s s') fun _ _ => True := by
  cases shot with
  | none => exact after_pure (.refl ticks s)
  | some shot =>
      refine after_bind (after_onDisk ?_)
      unfold DiskM.After
      rcases (BackupStore.restore shot).run s.disk with ⟨e | _, d⟩
      · exact trivial
      · refine (after_discard_untold ticks (some shot) { s with disk := d }).imp ?_ fun _ _ h => h
        exact fun _ s' h => ⟨h.passes, h.rolledBack, h.regressions, h.ticks⟩

/-- The regressions that a transaction with a result lists. -/
def Regressed (file : Path) (pass : Pass) (result : FileResult) (own : List Regression) : Prop :=
  match result with
  | .rolledBack => ∃ baseline after, own = [⟨file, pass, baseline, after⟩]
  | .unchanged | .modified => own = []

/-- What a transaction that ends with `result` has written down when it leaves `s'`: neither a pass
nor a file, a regression if it was rolled back, and a run of the tests if there was anything to
test. -/
structure Entered (r : Remediation σ apply) (ticks : σ → Nat) (file : Path) (pass : Pass)
    (s : RunState σ) (result : FileResult) (s' : RunState σ) : Prop where
  passes : s'.summary.passes = s.summary.passes
  rolledBack : s'.summary.rolledBack = s.summary.rolledBack
  regressions : ∃ own, s'.summary.regressions = s.summary.regressions ++ own ∧
    Regressed file pass result own
  ticks : ticks s'.crew =
    ticks s.crew + if r.crew.tests.isSome && result != .unchanged then 1 else 0

theorem Untold.unchanged (h : Untold ticks s s') :
    Entered r ticks file pass s .unchanged s' :=
  ⟨h.passes, h.rolledBack, ⟨[], by simpa using h.regressions, rfl⟩, by simpa using h.ticks⟩

theorem Untold.entered {s₀ : RunState σ} {result : FileResult} (h : Untold ticks s₀ s)
    (h' : Entered r ticks file pass s result s') : Entered r ticks file pass s₀ result s' := by
  obtain ⟨hpasses, hrolledBack, hregressions, hticks⟩ := h'
  rw [h.regressions] at hregressions
  exact ⟨hpasses.trans h.passes, hrolledBack.trans h.rolledBack, hregressions, by
    rw [hticks, h.ticks]⟩

section Transactions

variable (hcounts : r.crew.Counts apply ticks)
include hcounts

theorem after_runTests_counted (s : RunState σ) :
    After r.runTests s (fun _ s' => s'.summary = s.summary ∧
      ticks s'.crew = ticks s.crew + if r.crew.tests.isSome then 1 else 0) fun _ _ => True := by
  unfold runTests
  cases htests : r.crew.tests with
  | none => exact after_pure ⟨rfl, rfl⟩
  | some tests => exact after_bind (after_byCrew (after_pure ⟨rfl, hcounts.tests tests htests _ _⟩))

theorem after_validate_entered (pass : Pass) (file : Path) (baseline : Option Nat)
    (shot : Option Snapshot) (s : RunState σ) :
    After (r.validate pass file baseline shot) s (Entered r ticks file pass s) fun _ _ => True := by
  refine after_bind ((after_runTests_counted hcounts s).imp ?_ fun _ _ _ => trivial)
  rintro tested s₁ ⟨hsummary, hticks⟩
  have hkept : After (do discard shot; pure .modified) s₁ (Entered r ticks file pass s)
      fun _ _ => True := by
    refine after_bind ((after_discard_untold ticks shot s₁).imp ?_ fun _ _ _ => trivial)
    rintro _ s₂ ⟨hpasses, hrolledBack, hregressions, hticks₂⟩
    rw [hsummary] at hpasses hrolledBack hregressions
    refine after_pure ⟨hpasses, hrolledBack, ⟨[], ?_, rfl⟩, ?_⟩
    · rw [hregressions, List.append_nil]
    · simpa [hticks] using hticks₂
  cases tested with
  | none => exact hkept
  | some after =>
      dsimp only
      split
      · refine after_bind ((after_rollBack_untold ticks shot s₁).imp ?_ fun _ _ _ => trivial)
        rintro _ s₂ ⟨hpasses, hrolledBack, hregressions, hticks₂⟩
        rw [hsummary] at hpasses hrolledBack hregressions
        refine after_bind (after_report (after_pure ⟨hpasses, hrolledBack, ⟨_, ?_,
          ⟨baseline, after, rfl⟩⟩, ?_⟩))
        · rw [hregressions]
        · simpa [hticks] using hticks₂
      · exact hkept

/-- **A transaction that is rolled back lists one regression of its file, and one that is kept or
rolled back has run the tests once.** -/
theorem after_transact_entered (pass : Pass) (e : FileEvaluation) (baseline : Option Nat)
    (s : RunState σ) :
    After (r.transact pass e baseline) s (Entered r ticks e.path pass s) fun _ _ => True := by
  have hdiscard : ∀ shot s₁, Untold ticks s s₁ →
      After (do discard shot; pure .unchanged) s₁ (Entered r ticks e.path pass s)
        fun _ _ => True := by
    intro shot s₁ h₁
    refine after_bind ((after_discard_untold ticks shot s₁).imp ?_ fun _ _ _ => trivial)
    exact fun _ s₂ h₂ => after_pure (h₁.trans h₂).unchanged
  refine after_bind ((after_byCrew_untold (hcounts.confirm _ _) s).imp ?_ fun _ _ _ => trivial)
  intro confirmed s₁ hasked
  split
  · refine after_bind ((after_snapshot_untold ticks (r.root.join e.path) s₁).imp ?_
      fun _ _ _ => trivial)
    intro shot s₂ hkept
    refine after_bind ((after_byCrew_untold (hcounts.apply _ _) s₂).imp ?_ fun _ _ _ => trivial)
    intro applied s₃ happlied
    have hbefore : Untold ticks s s₃ := (hasked.trans hkept).trans happlied
    split
    · refine (after_validate_entered hcounts pass e.path baseline shot s₃).imp ?_ fun _ _ h => h
      exact fun result s' h => hbefore.entered h
    · exact hdiscard shot s₃ hbefore
    · exact after_bind (after_report (hdiscard shot _ (hbefore.trans ⟨rfl, rfl, rfl, rfl⟩)))
  · exact after_pure hasked.unchanged

end Transactions

/-! ### One pass -/

/-- How far the books of a pass have come when it has counted `p`, put back the files in `reverted`
and left `s`: as many regressions as it has counted, each of another of these files, and a run of the
tests for every edit. -/
structure Tallied (r : Remediation σ apply) (ticks : σ → Nat) (pass : Pass) (s₀ : RunState σ)
    (p : PassSummary) (reverted : List Path) (s : RunState σ) : Prop where
  passes : s.summary.passes = s₀.summary.passes
  regressions : ∃ own, s.summary.regressions = s₀.summary.regressions ++ own ∧
    own.length = p.rolledBack ∧ own.Pairwise Regression.Apart ∧
    ∀ g ∈ own, g.pass = pass ∧ g.file ∈ reverted
  listed : s.summary.ListsRegressions
  ticks : ticks s.crew = ticks s₀.crew +
    if r.crew.tests.isSome && pass.isTransactional then p.modified + p.rolledBack else 0

variable {s₀ : RunState σ} {p : PassSummary} {reverted : List Path}

theorem Tallied.start (hlisted : s.summary.ListsRegressions) (hmodified : p.modified = 0)
    (hrolledBack : p.rolledBack = 0) : Tallied r ticks pass s p reverted s := by
  refine ⟨rfl, ⟨[], ?_, hrolledBack.symm, .nil, by simp⟩, hlisted, ?_⟩
  · rw [List.append_nil]
  · rw [hmodified, hrolledBack, ite_self, Nat.add_zero]

theorem Tallied.untold (h : Tallied r ticks pass s₀ p reverted s) (h' : Untold ticks s s') :
    Tallied r ticks pass s₀ p reverted s' where
  passes := h'.passes.trans h.passes
  regressions := by
    rw [h'.regressions]
    exact h.regressions
  listed := by
    unfold RunSummary.ListsRegressions
    rw [h'.rolledBack, h'.regressions]
    exact h.listed
  ticks := h'.ticks.trans h.ticks

/-- What counts files and violations does not matter. -/
theorem Tallied.recount {q : PassSummary} (h : Tallied r ticks pass s₀ p reverted s)
    (hmodified : q.modified = p.modified) (hrolledBack : q.rolledBack = p.rolledBack) :
    Tallied r ticks pass s₀ q reverted s := by
  obtain ⟨hpasses, hregressions, hlisted, hticks⟩ := h
  rw [← hrolledBack] at hregressions
  rw [← hmodified, ← hrolledBack] at hticks
  exact ⟨hpasses, hregressions, hlisted, hticks⟩

/-- The books of a pass after one more transaction, of a file that it has not put back yet. -/
theorem Tallied.entered {result : FileResult} (htransactional : pass.isTransactional = true)
    (h : Tallied r ticks pass s₀ p reverted s)
    (hnew : reverted.any (Path.same file) = false)
    (h' : Entered r ticks file pass s result s') :
    Tallied r ticks pass s₀ (p.add result)
      (if result = .rolledBack then reverted ++ [file] else reverted)
      { s' with summary := s'.summary.recordFile file result } := by
  obtain ⟨own, hown, hcount, hapart, hfiles⟩ := h.regressions
  obtain ⟨more, hmore, hresult⟩ := h'.regressions
  have hpasses := h'.passes.trans h.passes
  have hticks : ticks s'.crew = ticks s₀.crew +
      if r.crew.tests.isSome && pass.isTransactional then
        (p.add result).modified + (p.add result).rolledBack else 0 := by
    rw [h'.ticks, h.ticks, p.edits_add, htransactional]
    cases r.crew.tests.isSome with
    | false => rfl
    | true => simp [Nat.add_assoc]
  have hkept : more = [] → s'.summary.regressions = s.summary.regressions := by
    rintro rfl
    rw [hmore, List.append_nil]
  -- Only a transaction that was rolled back has anything to list.
  cases result with
  | unchanged =>
      refine ⟨hpasses, ⟨own, (hkept hresult).trans hown, hcount, hapart, hfiles⟩, fun other => ?_,
        hticks⟩
      show s'.summary.rolledBack.any _ = s'.summary.regressions.any _
      rw [h'.rolledBack, hkept hresult]
      exact h.listed other
  | modified =>
      refine ⟨hpasses, ⟨own, (hkept hresult).trans hown, hcount, hapart, hfiles⟩, fun other => ?_,
        hticks⟩
      show s'.summary.rolledBack.any _ = s'.summary.regressions.any _
      rw [h'.rolledBack, hkept hresult]
      exact h.listed other
  | rolledBack =>
      obtain ⟨baseline, after, rfl⟩ := hresult
      refine ⟨hpasses, ⟨own ++ [⟨file, pass, baseline, after⟩], ?_, ?_, ?_, ?_⟩, fun other => ?_,
        hticks⟩
      · show s'.summary.regressions = _
        rw [hmore, hown, List.append_assoc]
      · rw [List.length_append, hcount]
        rfl
      · refine List.pairwise_append.mpr ⟨hapart, List.pairwise_singleton _ _, ?_⟩
        intro g hg other hother
        obtain rfl := List.mem_singleton.mp hother
        have hne := List.any_eq_false.mp hnew g.file (hfiles g hg).2
        unfold Path.same at hne
        unfold Regression.Apart Path.same
        rw [BEq.comm]
        exact eq_false_of_ne_true hne
      · intro g hg
        rw [if_pos rfl]
        rcases List.mem_append.mp hg with hg | hg
        · exact ⟨(hfiles g hg).1, List.mem_append_left _ (hfiles g hg).2⟩
        · obtain rfl := List.mem_singleton.mp hg
          exact ⟨rfl, List.mem_append_right _ (List.mem_singleton.mpr rfl)⟩
      · show (Path.insert file s'.summary.rolledBack).any _ = s'.summary.regressions.any _
        rw [Path.any_same_insert, h'.rolledBack, h.listed other, hmore, List.any_append,
          List.any_cons, List.any_nil, Bool.or_false, Bool.or_comm]

variable {files : List Path}

/-- An editing pass in progress, whose books have come this far. -/
def Editing (r : Remediation σ apply) (ticks : σ → Nat) (pass : Pass) (s₀ : RunState σ)
    (state : PassState) (s : RunState σ) : Prop :=
  state.pass = pass ∧ Tallied r ticks pass s₀ state.summary state.reverted s

section Passes

variable (hcounts : r.crew.Counts apply ticks)
include hcounts

theorem after_editFile_tallied (htransactional : pass.isTransactional = true) (first : Bool)
    (e : FileEvaluation) {state : PassState} (h : Editing r ticks pass s₀ state s) :
    After (r.editFile first state e) s (Editing r ticks pass s₀) fun _ _ => True := by
  obtain ⟨rfl, h⟩ := h
  have hreported : Tallied r ticks state.pass s₀
      (if first then
        { state.summary with
          filesEvaluated := state.summary.filesEvaluated + 1
          violations := state.summary.violations + e.violations.length }
      else state.summary) state.reverted
      { s with summary := s.summary.recordFailures e.failures } := by
    have hsame : Untold ticks s { s with summary := s.summary.recordFailures e.failures } :=
      ⟨rfl, rfl, rfl, rfl⟩
    refine (h.untold hsame).recount ?_ ?_
    · split <;> rfl
    · split <;> rfl
  refine after_bind (after_report ?_)
  dsimp only
  split
  · exact after_pure ⟨rfl, hreported⟩
  · rename_i hdo
    have hnew : state.reverted.any (Path.same e.path) = false := by
      rw [Bool.or_eq_true, not_or] at hdo
      exact eq_false_of_ne_true hdo.2
    refine after_bind ((after_transact_entered hcounts state.pass e _ _).imp ?_ fun _ _ h => h)
    intro result s' hentered
    exact after_bind (after_report
      (after_pure ⟨rfl, hreported.entered htransactional hnew hentered⟩))

theorem after_editFiles_tallied (htransactional : pass.isTransactional = true) (sel : Selection)
    (files : List Path) (first : Bool) {state : PassState}
    (h : Editing r ticks pass s₀ state s) :
    After (r.editFiles sel files first state) s (Editing r ticks pass s₀) fun _ _ => True := by
  have hclear : ∀ (state' : PassState) s', Editing r ticks pass s₀ state' s' →
      After (do clearCache; pure state') s' (Editing r ticks pass s₀) fun _ _ => True :=
    fun state' s' h' =>
      after_bind (after_clearCache (after_pure ⟨h'.1, h'.2.untold ⟨rfl, rfl, rfl, rfl⟩⟩))
  unfold editFiles
  split
  · refine after_bind ((after_evaluate (E := fun _ _ => True) r sel files s).imp ?_
      fun _ _ h => h)
    rintro evaluations s₁ ⟨⟨cache, rfl⟩, -⟩
    have hstart : Editing r ticks pass s₀ { state with changed := 0 } { s with cache } :=
      ⟨h.1, h.2.untold ⟨rfl, rfl, rfl, rfl⟩⟩
    have hend : After (evaluations.foldlM (r.editFile first) { state with changed := 0 })
        { s with cache } (Editing r ticks pass s₀) fun _ _ => True :=
      after_foldlM (fun e _ _ _ hbetween =>
        after_editFile_tallied hcounts htransactional first e hbetween) hstart
    exact after_bind (hend.imp hclear fun _ _ h => h)
  · exact hclear _ s ⟨h.1, h.2⟩

theorem after_editRounds_tallied (htransactional : pass.isTransactional = true) (sel : Selection)
    (files : List Path) (left : Nat) (first : Bool) {state : PassState}
    (h : Editing r ticks pass s₀ state s) :
    After (r.editRounds sel files left first state) s (Editing r ticks pass s₀)
      fun _ _ => True := by
  induction left generalizing first state s with
  | zero => exact after_pure h
  | succ left ih =>
      refine after_bind ((after_editFiles_tallied hcounts htransactional sel files first h).imp ?_
        fun _ _ h => h)
      intro state' s' h'
      split
      · exact after_pure h'
      · exact ih false h'

theorem after_formatFiles_tallied (hformats : pass.isTransactional = false) (files : List Path)
    (hlisted : s.summary.ListsRegressions) :
    After (r.formatFiles files) s (fun p s' => Tallied r ticks pass s p [] s')
      fun _ _ => True := by
  refine after_bind ((after_byCrew_untold (hcounts.format files) s).imp ?_ fun _ _ h => h)
  intro changed s' hformatted
  have hstart : Tallied r ticks pass s {} [] s := .start hlisted rfl rfl
  have h := hstart.untold hformatted
  refine after_bind (after_clearCache (after_pure
    ⟨h.passes, h.regressions, h.listed, h.ticks.trans ?_⟩))
  rw [hformats, Bool.and_false]
  rfl

/-- **A pass that ends has recorded itself, with books that balance.** -/
theorem after_runPass_tallied (files : List Path) (baseline : Option Nat) (pass : Pass)
    (hlisted : s.summary.ListsRegressions) :
    After (r.runPass files baseline pass) s
      (fun _ s' => ∃ p reverted s₁, Tallied r ticks pass s p reverted s₁ ∧
        s' = { s₁ with summary := s₁.summary.recordPass pass p }) fun _ _ => True := by
  have hstart : Editing r ticks pass s { pass, baseline } s := ⟨rfl, .start hlisted rfl rfl⟩
  have hformat : pass.isTransactional = false → After
      (do report (·.recordPass pass (← r.formatFiles files))) s
      (fun _ s' => ∃ p reverted s₁, Tallied r ticks pass s p reverted s₁ ∧
        s' = { s₁ with summary := s₁.summary.recordPass pass p }) fun _ _ => True := by
    intro hformats
    refine after_bind ((after_formatFiles_tallied hcounts hformats files hlisted).imp ?_
      fun _ _ h => h)
    exact fun p s₁ h => after_report ⟨p, [], s₁, h, rfl⟩
  have hedit : ∀ work : RunM σ PassState,
      After work s (Editing r ticks pass s) (fun _ _ => True) → After
      (do report (·.recordPass pass (← pure (← work).summary))) s
      (fun _ s' => ∃ p reverted s₁, Tallied r ticks pass s p reverted s₁ ∧
        s' = { s₁ with summary := s₁.summary.recordPass pass p }) fun _ _ => True := by
    intro work hwork
    refine after_bind (hwork.imp ?_ fun _ _ h => h)
    exact fun state s₁ h => after_bind (after_pure (after_report ⟨_, state.reverted, s₁, h.2, rfl⟩))
  cases pass with
  | mechanicalNormalization => exact hformat rfl
  | finalCleanup => exact hformat rfl
  | typeHints => exact hedit _ (after_editRounds_tallied hcounts rfl .typeHints files _ true hstart)
  | architectureFixes =>
      exact hedit _ (after_editFiles_tallied hcounts rfl .architecture files true hstart)
  | governanceNotes =>
      exact hedit _ (after_editFiles_tallied hcounts rfl .governance files true hstart)

end Passes

/-! ### A run -/

/-- The books between passes.  Each pass has counted its regressions, those of one pass are of
different files, and there was a run of the tests for every edit after the first `n` runs. -/
structure Balanced (r : Remediation σ apply) (ticks : σ → Nat) (n : Nat) (s : RunState σ) :
    Prop where
  rolledBack : ∀ x ∈ s.summary.passes,
    x.2.rolledBack = s.summary.regressions.countP (·.pass = x.1)
  recorded : ∀ g ∈ s.summary.regressions, g.pass ∈ s.summary.passes.map Prod.fst
  apart : s.summary.regressions.Pairwise fun g h => g.pass = h.pass → g.Apart h
  listed : s.summary.ListsRegressions
  ticks : ticks s.crew = n + if r.crew.tests.isSome then s.summary.edits else 0

variable {n : Nat}

theorem Balanced.untold (h : Balanced r ticks n s) (h' : Untold ticks s s') :
    Balanced r ticks n s' := by
  obtain ⟨hrolledBack, hrecorded, hapart, hlisted, hticks⟩ := h
  refine ⟨?_, ?_, ?_, fun file => ?_, ?_⟩
  · rwa [h'.passes, h'.regressions]
  · rwa [h'.passes, h'.regressions]
  · rwa [h'.regressions]
  · rw [h'.rolledBack, h'.regressions]
    exact hlisted file
  · unfold RunSummary.edits at hticks ⊢
    rw [h'.passes, h'.ticks, hticks]

/-- The books balance after one more pass, which is not one of those before. -/
theorem Balanced.recordPass (h : Balanced r ticks n s)
    (hnew : pass ∉ s.summary.passes.map Prod.fst)
    (h' : Tallied r ticks pass s p reverted s') :
    Balanced r ticks n { s' with summary := s'.summary.recordPass pass p } := by
  obtain ⟨own, hown, hcount, hapart, hfiles⟩ := h'.regressions
  have hpasses : (s'.summary.recordPass pass p).passes = s.summary.passes ++ [(pass, p)] := by
    rw [← h'.passes]
    rfl
  have hearlier : ∀ g ∈ s.summary.regressions, g.pass ≠ pass := by
    rintro g hg rfl
    exact hnew (h.recorded g hg)
  refine ⟨fun x hx => ?_, fun g hg => ?_, ?_, h'.listed, ?_⟩
  · show x.2.rolledBack = s'.summary.regressions.countP _
    rw [hown, List.countP_append]
    rw [hpasses] at hx
    rcases List.mem_append.mp hx with hx | hx
    · -- This pass has added nothing to the regressions of an earlier one.
      have hnone : own.countP (·.pass = x.1) = 0 := by
        refine List.countP_eq_zero.mpr fun g hg heq => hnew ?_
        rw [← (hfiles g hg).1, of_decide_eq_true heq]
        exact List.mem_map_of_mem hx
      rw [hnone, h.rolledBack x hx, Nat.add_zero]
    · obtain rfl := List.mem_singleton.mp hx
      have hnone : s.summary.regressions.countP (·.pass = pass) = 0 :=
        List.countP_eq_zero.mpr fun g hg heq => hearlier g hg (of_decide_eq_true heq)
      have hall : own.countP (·.pass = pass) = own.length :=
        List.countP_eq_length.mpr fun g hg => decide_eq_true (hfiles g hg).1
      rw [hnone, hall, hcount, Nat.zero_add]
  · rw [hpasses, List.map_append]
    change g ∈ s'.summary.regressions at hg
    rw [hown] at hg
    rcases List.mem_append.mp hg with hg | hg
    · exact List.mem_append_left _ (h.recorded g hg)
    · rw [(hfiles g hg).1]
      exact List.mem_append_right _ (List.mem_singleton.mpr rfl)
  · show s'.summary.regressions.Pairwise _
    rw [hown]
    refine List.pairwise_append.mpr ⟨h.apart, hapart.imp ?_, fun g hg other hother heq => ?_⟩
    · exact fun hne _ => hne
    · exact absurd (heq.trans (hfiles other hother).1) (hearlier g hg)
  · have hticks := h'.ticks
    have hedits : s'.summary.edits = s.summary.edits := by
      unfold RunSummary.edits
      rw [h'.passes]
    show ticks s'.crew = _
    rw [hticks, h.ticks, RunSummary.edits_recordPass, hedits, Nat.add_assoc]
    cases r.crew.tests.isSome with
    | false => rfl
    | true => rfl

theorem after_conclude_untold (r : Remediation σ apply) (ticks : σ → Nat) (files : List Path)
    (s : RunState σ) :
    After (r.conclude files) s (fun _ s' => Untold ticks s s') fun _ _ => True := by
  refine after_bind ((after_evaluate (E := fun _ _ => True) r .all files s).imp ?_ fun _ _ h => h)
  rintro evaluations _ ⟨⟨cache, rfl⟩, -⟩
  rw [forIn_eq_foldlM]
  have hstart : Untold ticks s { s with cache } := ⟨rfl, rfl, rfl, rfl⟩
  refine after_bind ((after_foldlM (P := fun _ s' => Untold ticks s s') ?_ hstart).imp ?_
    fun _ _ h => h)
  · exact fun e _ _ s' h => after_report (h.trans ⟨rfl, rfl, rfl, rfl⟩)
  · exact fun _ s' h => after_pure h

section Run

variable (hcounts : r.crew.Counts apply ticks)
include hcounts

/-- Passes that differ from each other and from those before leave books that balance. -/
theorem after_passes_balanced (files : List Path) (baseline : Option Nat) (passes : List Pass)
    (hnodup : (s.summary.passes.map Prod.fst ++ passes).Nodup) (h : Balanced r ticks n s) :
    After (passes.foldlM (fun _ pass => r.runPass files baseline pass) ()) s
      (fun _ s' => Balanced r ticks n s' ∧
        s'.summary.passes.map Prod.fst = s.summary.passes.map Prod.fst ++ passes)
      fun _ _ => True := by
  induction passes generalizing s with
  | nil => exact after_pure ⟨h, (List.append_nil _).symm⟩
  | cons pass rest ih =>
      rw [List.foldlM_cons]
      refine after_bind ((after_runPass_tallied hcounts files baseline pass h.listed).imp ?_
        fun _ _ h => h)
      rintro _ _ ⟨p, reverted, s₁, htallied, rfl⟩
      have hpasses : (s₁.summary.recordPass pass p).passes.map Prod.fst =
          s.summary.passes.map Prod.fst ++ [pass] := by
        show (s₁.summary.passes ++ [(pass, p)]).map Prod.fst = _
        rw [htallied.passes, List.map_append]
        rfl
      have hnew : pass ∉ s.summary.passes.map Prod.fst := fun hmem =>
        (List.nodup_append.mp hnodup).2.2 pass hmem pass List.mem_cons_self rfl
      refine (ih ?_ (h.recordPass hnew htallied)).imp ?_ fun _ _ h => h
      · show ((s₁.summary.recordPass pass p).passes.map Prod.fst ++ rest).Nodup
        rw [hpasses, List.append_assoc]
        exact hnodup
      · rintro _ s' ⟨hbalanced, hend⟩
        refine ⟨hbalanced, hend.trans ?_⟩
        show (s₁.summary.recordPass pass p).passes.map Prod.fst ++ rest = _
        rw [hpasses, List.append_assoc]
        rfl

/-- The books of a run that ends: they balance, and every pass is in them once. -/
theorem after_run_balanced (files : List Path) (hfresh : s.summary = {}) :
    After (r.run files) s (fun summary s' => summary = s'.summary ∧
      Balanced r ticks (ticks s.crew + if r.crew.tests.isSome then 1 else 0) s' ∧
      s'.summary.passes.map Prod.fst = Pass.all) fun _ _ => True := by
  refine after_bind ((after_runTests_counted hcounts s).imp ?_ fun _ _ h => h)
  rintro tested s₁ ⟨hsummary, hticks⟩
  rw [hfresh] at hsummary
  refine after_bind (after_report ?_)
  have hstart : Balanced r ticks (ticks s.crew + if r.crew.tests.isSome then 1 else 0)
      { s₁ with summary := { s₁.summary with baseline := tested.getD none } } := by
    rw [hsummary]
    refine ⟨by simp, by simp, .nil, fun _ => rfl, ?_⟩
    rw [hticks]
    simp [RunSummary.edits]
  rw [forIn_eq_foldlM]
  refine after_bind ((after_passes_balanced hcounts _ _ Pass.all ?_ hstart).imp ?_ fun _ _ h => h)
  · rw [hsummary]
    show Pass.all.Nodup
    decide
  · rintro _ s₂ ⟨hbalanced, hpasses⟩
    refine after_bind ((after_conclude_untold r ticks _ s₂).imp ?_ fun _ _ h => h)
    intro _ s₃ hsame
    refine after_get (after_pure ⟨rfl, hbalanced.untold hsame, ?_⟩)
    rw [hsame.passes, hpasses, hsummary]
    rfl

end Run

/-- **The books of a run balance.**  A run that ends has listed the five passes once each, in order.
No two regressions are of the same file and pass, each pass has counted the regressions that it
lists, and the files that were rolled back are those of the regressions.  If edits are validated,
tests were run once before the first pass and once for every edit that a pass has made, for good or
not: the run that counts its tests is the same run, and ends with this number. -/
theorem run_adds_up (r : Remediation σ apply) (files : List Path) (s s' : RunState σ)
    (summary : RunSummary) (hfresh : s.summary = {})
    (hrun : (r.run files).run.run s = (.ok summary, s')) :
    summary.passes.map Prod.fst = Pass.all ∧
    (summary.regressions.Pairwise fun g h => ¬ (g.pass = h.pass ∧ Path.same g.file h.file = true)) ∧
    (∀ x ∈ summary.passes, x.2.rolledBack = summary.regressions.countP (·.pass = x.1)) ∧
    (∀ file, summary.rolledBack.any (Path.same file) =
      summary.regressions.any fun g => Path.same file g.file) ∧
    (r.counting.run files).run.run (s.counting 0) = (.ok summary, s'.counting
      (if r.crew.tests.isSome then
        1 + ((summary.passes.filter (·.1.isTransactional)).map fun x =>
          x.2.modified + x.2.rolledBack).sum
      else 0)) := by
  have hmirror := r.shadows_counting.mirrors_run files (s.counting 0)
  have hend := after_run_balanced (r := r.counting) (s := s.counting 0) r.crew.counts_counting files
    hfresh
  unfold After at hend
  rcases hcounting : (r.counting.run files).run.run (s.counting 0) with ⟨outcome, s''⟩
  rw [hcounting] at hmirror hend
  obtain ⟨rfl, rfl⟩ : Except.ok summary = outcome ∧ s' = s''.alone :=
    Prod.mk.inj (hrun.symm.trans hmirror)
  obtain ⟨rfl, hbalanced, hpasses⟩ := hend
  have htests : r.counting.crew.tests.isSome = r.crew.tests.isSome := Option.isSome_map
  have hticks : s''.crew.2 = if r.crew.tests.isSome then 1 + s''.summary.edits else 0 := by
    rw [hbalanced.ticks, htests]
    cases r.crew.tests.isSome with
    | false => rfl
    | true =>
        show 0 + 1 + _ = _
        rw [Nat.zero_add]
        rfl
  refine ⟨hpasses, hbalanced.apart.imp ?_, hbalanced.rolledBack, hbalanced.listed, ?_⟩
  · rintro g h hapart ⟨hpass, hsame⟩
    rw [hapart hpass] at hsame
    cases hsame
  · rw [← RunSummary.edits, ← hticks]
    rfl

/-- A run whose tests fail once more every time. -/
def worseningRun (plan : Plan) : Remediation Nat where
  root := "/p"
  config := {}
  registry := ⟨[fixedRule plan]⟩
  crew :=
    { tests := some fun n => pure (.completed n, n + 1)
      confirm := fun _ _ => pure true
      format := fun _ => pure (some 0) }

/-- The project with one empty file, before a run whose crew has run no tests. -/
def untestedFile : RunState Nat where
  disk := (oneFile "a.py" "/b").disk
  crew := 0
  store := (oneFile "a.py" "/b").store

/-- An edit after which more tests fail is put back, counted and listed, and two runs of the tests
were all. -/
theorem run_adds_up_after_regression :
    ∃ summary s', ((worseningRun (.addImport "os" "path")).run ["a.py"]).run.run untestedFile =
        (.ok summary, s') ∧
      summary.regressions = [⟨"a.py", .architectureFixes, some 0, some 1⟩] ∧
      summary.rolledBack.any (Path.same "a.py") = true ∧
      ((worseningRun (.addImport "os" "path")).counting.run ["a.py"]).run.run
        (untestedFile.counting 0) = (.ok summary, s'.counting 2) := by
  have hends : EndsIn (fun summary _ =>
      summary.regressions = [⟨"a.py", .architectureFixes, some 0, some 1⟩] ∧
        ((summary.passes.filter (·.1.isTransactional)).map fun x =>
          x.2.modified + x.2.rolledBack).sum = 1)
      (((worseningRun (.addImport "os" "path")).run ["a.py"]).run.run untestedFile) := by
    decide +kernel
  obtain ⟨summary, s', hrun, hregressions, hedits⟩ := hends
  obtain ⟨-, -, -, hlisted, hcounting⟩ := run_adds_up _ _ _ s' summary rfl hrun
  refine ⟨summary, s', hrun, hregressions, ?_, ?_⟩
  · rw [hlisted, hregressions]
    decide
  · rw [hcounting, hedits]
    rfl

end Remediation

end Plumbline
