/-
When a run looks at files, and what it then knows.

A run looks at all its files before each round of an editing pass, and once more at its end.  Between
two looks anybody may write files: the tests, the formatter, whoever is asked, and whoever applies
plans.  Still no look goes by what was found out before, because everything is forgotten at the
end of every round and after every call of the formatter, and the first pass is one for the formatter
(`surveys_clear`).  Whatever a transaction applies was planned in one of these looks, and the order of
the passes is the order in which plans of each kind are applied.

`surveys` follows the run function by function, as `transactions` does.  What is really handed to
whoever applies plans is told by one who keeps a log of it (`Remediation.recording`).
-/
import Plumbline.Proofs.Remedy.Handed
import Plumbline.Proofs.Rule.Plans

namespace Plumbline

variable {σ : Type} {apply : Applier σ}

namespace Remediation

open RunM

/-! ### The looks of a run -/

/-- A look at all files, with the state in which it begins. -/
structure Survey (σ : Type) where
  selection : Selection
  before : RunState σ

/-- The files as they are when the look begins. -/
def Survey.project (r : Remediation σ apply) (x : Survey σ) : Project where
  root := r.root
  tree := x.before.disk.tree
  cwd := x.before.disk.cwd

/-- What is found out about the files by someone who remembers nothing. -/
def Survey.afresh (r : Remediation σ apply) (files : List Path) (x : Survey σ) :
    List FileEvaluation :=
  (((r.registry.evaluate r.config x.selection files).run (x.project r)).run {}).1

/-- A round looks at the files if there are rules for it. -/
def roundSurveys (r : Remediation σ apply) (sel : Selection) (s : RunState σ) : List (Survey σ) :=
  if r.registry.hasRules sel then [⟨sel, s⟩] else []

/-- The looks of all rounds of a pass. -/
def roundsSurveys (r : Remediation σ apply) (sel : Selection) (files : List Path) :
    (left : Nat) → (first : Bool) → PassState → RunState σ → List (Survey σ)
  | 0, _, _, _ => []
  | left + 1, first, state, s =>
    r.roundSurveys sel s ++
      match (r.editFiles sel files first state).run.run s with
      | (.ok state', s') =>
        if state'.changed = 0 then [] else roundsSurveys r sel files left false state' s'
      | (.error _, _) => []

def passSurveys (r : Remediation σ apply) (files : List Path) (baseline : Option Nat) (pass : Pass)
    (s : RunState σ) : List (Survey σ) :=
  match pass with
  | .mechanicalNormalization | .finalCleanup => []
  | .typeHints =>
    r.roundsSurveys .typeHints files (max 1 r.config.pipeline.maxHintRounds) true
      { pass, baseline } s
  | .architectureFixes => r.roundSurveys .architecture s
  | .governanceNotes => r.roundSurveys .governance s

/-- All looks of a run, in order.  The last one is for what is left for a person. -/
def surveys (r : Remediation σ apply) (files : List Path) (s : RunState σ) : List (Survey σ) :=
  match r.runTests.run.run s with
  | (.ok tested, s') =>
    let baseline := tested.getD none
    let started := { s' with summary := { s'.summary with baseline } }
    let pass := fun (_ : Unit) pass => r.runPass (files.map r.relative) baseline pass
    (steps pass Pass.all () started).flatMap
        (fun x => r.passSurveys (files.map r.relative) baseline x.1 x.2.2) ++
      match (Pass.all.foldlM pass ()).run.run started with
      | (.ok _, s'') => [⟨.all, s''⟩]
      | (.error _, _) => []
  | (.error _, _) => []

/-! ### Nothing is remembered when a look begins -/

/-- Nothing is remembered. -/
def IsClear (s : RunState σ) : Prop := s.cache = {}

theorem after_anything {α : Type} (work : RunM σ α) (s : RunState σ) :
    After work s (fun _ _ => True) (fun _ _ => True) := by
  unfold After
  split
  · trivial
  · trivial

variable {r : Remediation σ apply} {files : List Path} {baseline : Option Nat} {s : RunState σ}
  {sel : Selection} {first : Bool} {state : PassState}

theorem after_editFiles_clear (r : Remediation σ apply) (sel : Selection) (files : List Path)
    (first : Bool) (state : PassState) (s : RunState σ) :
    After (r.editFiles sel files first state) s (fun _ s' => IsClear s') (fun _ _ => True) := by
  have hclear : ∀ (state' : PassState) (s' : RunState σ),
      After (do clearCache; pure state') s' (fun _ s' => IsClear s') (fun _ _ => True) := by
    intro state' s'
    exact after_bind (after_clearCache (after_pure rfl))
  unfold editFiles
  split
  · refine after_bind ((after_anything _ s).imp ?_ fun _ _ h => h)
    intro evaluations s' _
    exact after_bind ((after_anything _ s').imp (fun state' s' _ => hclear state' s') fun _ _ h => h)
  · exact hclear _ s

theorem after_formatFiles_clear (r : Remediation σ apply) (files : List Path) (s : RunState σ) :
    After (r.formatFiles files) s (fun _ s' => IsClear s') (fun _ _ => True) := by
  refine after_bind ((after_anything _ s).imp ?_ fun _ _ h => h)
  intro changed s' _
  exact after_bind (after_clearCache (after_pure rfl))

theorem roundSurveys_clear (r : Remediation σ apply) (sel : Selection) (hs : IsClear s) :
    ∀ x ∈ r.roundSurveys sel s, IsClear x.before := by
  unfold roundSurveys
  split
  · simpa using hs
  · simp

/-- All rounds of a pass begin and end with nothing remembered. -/
theorem after_editRounds_clear (r : Remediation σ apply) (sel : Selection) (files : List Path)
    (left : Nat) (first : Bool) (state : PassState) (hs : IsClear s) :
    After (r.editRounds sel files left first state) s (fun _ s' => IsClear s') (fun _ _ => True) ∧
      ∀ x ∈ r.roundsSurveys sel files left first state s, IsClear x.before := by
  induction left generalizing first state s with
  | zero => exact ⟨after_pure hs, by simp [roundsSurveys]⟩
  | succ left ih =>
      unfold roundsSurveys
      have hround := after_editFiles_clear r sel files first state s
      have hstart := roundSurveys_clear r sel hs
      unfold After at hround
      rcases hrun : (r.editFiles sel files first state).run.run s with ⟨e | state', s'⟩
      · exact ⟨after_bind_error hrun trivial, by simpa using hstart⟩
      · rw [hrun] at hround
        by_cases hdone : state'.changed = 0
        · refine ⟨after_bind_ok hrun ?_, by simpa [hdone] using hstart⟩
          rw [if_pos hdone]
          exact after_pure hround
        · obtain ⟨hend, hlater⟩ := ih false state' hround
          simp only [hdone, if_false]
          refine ⟨after_bind_ok hrun ?_,
            fun x hx => (List.mem_append.mp hx).elim (hstart x) (hlater x)⟩
          rw [if_neg hdone]
          exact hend

theorem after_runPass_clear (r : Remediation σ apply) (files : List Path) (baseline : Option Nat)
    (pass : Pass) (hs : pass = .mechanicalNormalization ∨ IsClear s) :
    After (r.runPass files baseline pass) s (fun _ s' => IsClear s') (fun _ _ => True) ∧
      ∀ x ∈ r.passSurveys files baseline pass s, IsClear x.before := by
  have hrecord : ∀ (summary : PassSummary) (s' : RunState σ), IsClear s' →
      After (report (·.recordPass pass summary)) s' (fun _ s' => IsClear s') (fun _ _ => True) := by
    intro summary s' hs'
    exact after_report hs'
  cases pass with
  | mechanicalNormalization =>
      exact ⟨after_bind ((after_formatFiles_clear r files s).imp hrecord fun _ _ h => h),
        by simp [passSurveys]⟩
  | finalCleanup =>
      exact ⟨after_bind ((after_formatFiles_clear r files s).imp hrecord fun _ _ h => h),
        by simp [passSurveys]⟩
  | typeHints =>
      obtain ⟨hend, hlooks⟩ := after_editRounds_clear r .typeHints files
        (max 1 r.config.pipeline.maxHintRounds) true { pass := .typeHints, baseline }
        (hs.resolve_left (by simp))
      refine ⟨after_bind (hend.imp ?_ fun _ _ h => h), hlooks⟩
      exact fun state' s' hs' => after_bind (after_pure (hrecord _ s' hs'))
  | architectureFixes =>
      refine ⟨after_bind ((after_editFiles_clear r _ files _ _ s).imp ?_ fun _ _ h => h),
        roundSurveys_clear r _ (hs.resolve_left (by simp))⟩
      exact fun state' s' hs' => after_bind (after_pure (hrecord _ s' hs'))
  | governanceNotes =>
      refine ⟨after_bind ((after_editFiles_clear r _ files _ _ s).imp ?_ fun _ _ h => h),
        roundSurveys_clear r _ (hs.resolve_left (by simp))⟩
      exact fun state' s' hs' => after_bind (after_pure (hrecord _ s' hs'))

/-- The passes of a run begin with nothing remembered, and so does what comes after them. -/
theorem after_passes_clear (r : Remediation σ apply) (files : List Path) (baseline : Option Nat)
    (s : RunState σ) :
    After (Pass.all.foldlM (fun (_ : Unit) pass => r.runPass files baseline pass) ()) s
        (fun _ s' => IsClear s') (fun _ _ => True) ∧
      ∀ x ∈ steps (fun (_ : Unit) pass => r.runPass files baseline pass) Pass.all () s,
        x.1 = .mechanicalNormalization ∨ IsClear x.2.2 := by
  have hfirst := (after_runPass_clear r files baseline (s := s) .mechanicalNormalization
    (Or.inl rfl)).1
  unfold Pass.all steps
  unfold After at hfirst
  rcases hrun : (r.runPass files baseline .mechanicalNormalization).run.run s with ⟨e | ⟨⟩, s'⟩
  · refine ⟨?_, by simp⟩
    rw [List.foldlM_cons]
    exact after_bind_error hrun trivial
  · rw [hrun] at hfirst
    obtain ⟨hend, hsteps⟩ := after_foldlM_steps
      (f := fun (_ : Unit) pass => r.runPass files baseline pass)
      (P := fun _ s' => IsClear s') (E := fun _ _ => True)
      (fun x _ hx => (after_runPass_clear r files baseline x.1 (Or.inr hx)).1) hfirst
    refine ⟨?_, ?_⟩
    · rw [List.foldlM_cons]
      exact after_bind_ok hrun hend
    · intro x hx
      rcases List.mem_cons.mp hx with rfl | hx
      · exact Or.inl rfl
      · exact Or.inr (hsteps x hx)

/-- **Nothing is remembered when a look of a run begins.** -/
theorem surveys_clear (r : Remediation σ apply) (files : List Path) (s : RunState σ) :
    ∀ x ∈ r.surveys files s, IsClear x.before := by
  unfold surveys
  rcases r.runTests.run.run s with ⟨e | tested, s₁⟩
  · simp
  · obtain ⟨hend, hsteps⟩ := after_passes_clear r (files.map r.relative) (tested.getD none)
      { s₁ with summary := { s₁.summary with baseline := tested.getD none } }
    intro x hx
    rcases List.mem_append.mp hx with hx | hx
    · obtain ⟨pass, hpass, hx⟩ := List.mem_flatMap.mp hx
      exact (after_runPass_clear r _ _ pass.1 (hsteps pass hpass)).2 x hx
    · unfold After at hend
      split at hx
      · rename_i s₂ hrun
        rw [hrun] at hend
        obtain rfl := List.mem_singleton.mp hx
        exact hend
      · exact absurd hx List.not_mem_nil

/-! ### What is found out on a look -/

theorem evaluate_eq_afresh {x : Survey σ} (h : IsClear x.before) (files : List Path) :
    ((r.evaluate x.selection files).run.run x.before).1 = .ok (x.afresh r files) := by
  have hevaluate : ((r.evaluate x.selection files).run.run x.before).1 =
      .ok (((r.registry.evaluate r.config x.selection files).run (x.project r)).run
        x.before.cache).1 := rfl
  have hcache : x.before.cache = {} := h
  rw [hevaluate, hcache]
  rfl

/-- Whatever is planned in a round was planned on its look. -/
theorem mem_afresh_of_mem_roundTransactions (hs : IsClear s) {t : Transaction σ}
    (ht : t ∈ r.roundTransactions sel files first state s) :
    ∃ x ∈ r.roundSurveys sel s, x.selection = sel ∧ t.evaluation ∈ x.afresh r files := by
  have hlook := evaluate_eq_afresh (r := r) (x := ⟨sel, s⟩) hs files
  unfold roundTransactions at ht
  by_cases hrules : r.registry.hasRules sel = true
  · rw [if_pos hrules] at ht
    refine ⟨⟨sel, s⟩, by simp [roundSurveys, hrules], rfl, ?_⟩
    rcases hrun : (r.evaluate sel files).run.run s with ⟨e | evaluations, s₁⟩
    · simp [hrun] at ht
    · have heq : evaluations = Survey.afresh r files ⟨sel, s⟩ := by
        have hfirst := (congrArg Prod.fst hrun).symm.trans hlook
        exact Except.ok.inj hfirst
      simp only [hrun] at ht
      obtain ⟨y, hy, ht⟩ := List.mem_flatMap.mp ht
      have hmem : y.1 ∈ evaluations := fst_mem_of_mem_steps hy
      have hevaluation : t.evaluation = y.1 := by
        unfold fileTransactions at ht
        split at ht
        · exact absurd ht List.not_mem_nil
        · exact congrArg Transaction.evaluation (List.mem_singleton.mp ht)
      rw [hevaluation, ← heq]
      exact hmem
  · rw [if_neg hrules] at ht
    exact absurd ht List.not_mem_nil

theorem mem_afresh_of_mem_roundsTransactions (hs : IsClear s) {left : Nat} {t : Transaction σ}
    (ht : t ∈ r.roundsTransactions sel files left first state s) :
    ∃ x ∈ r.roundsSurveys sel files left first state s,
      x.selection = sel ∧ t.evaluation ∈ x.afresh r files := by
  induction left generalizing first state s with
  | zero => exact absurd ht List.not_mem_nil
  | succ left ih =>
      have hround := after_editFiles_clear r sel files first state s
      unfold After at hround
      unfold roundsTransactions at ht
      unfold roundsSurveys
      rcases List.mem_append.mp ht with ht | ht
      · obtain ⟨x, hx, hplanned⟩ := mem_afresh_of_mem_roundTransactions hs ht
        exact ⟨x, List.mem_append_left _ hx, hplanned⟩
      · rcases hrun : (r.editFiles sel files first state).run.run s with ⟨e | state', s'⟩
        · simp [hrun] at ht
        · rw [hrun] at hround
          simp only [hrun] at ht ⊢
          by_cases hdone : state'.changed = 0
          · simp [hdone] at ht
          · simp only [hdone, if_false] at ht ⊢
            obtain ⟨x, hx, hplanned⟩ := ih hround ht
            exact ⟨x, List.mem_append_right _ hx, hplanned⟩

/-- The rules that an editing pass goes by. -/
def passSelection : Pass → Selection
  | .typeHints => .typeHints
  | .architectureFixes => .architecture
  | .governanceNotes => .governance
  | .mechanicalNormalization | .finalCleanup => .all

theorem mem_afresh_of_mem_passTransactions {pass : Pass}
    (hs : pass = .mechanicalNormalization ∨ IsClear s) {t : Transaction σ}
    (ht : t ∈ r.passTransactions files baseline pass s) :
    ∃ x ∈ r.passSurveys files baseline pass s,
      x.selection = passSelection pass ∧ t.evaluation ∈ x.afresh r files := by
  cases pass with
  | mechanicalNormalization => exact absurd ht List.not_mem_nil
  | finalCleanup => exact absurd ht List.not_mem_nil
  | typeHints => exact mem_afresh_of_mem_roundsTransactions (hs.resolve_left (by simp)) ht
  | architectureFixes => exact mem_afresh_of_mem_roundTransactions (hs.resolve_left (by simp)) ht
  | governanceNotes => exact mem_afresh_of_mem_roundTransactions (hs.resolve_left (by simp)) ht

/-- What is left for a person after an evaluation. -/
def leftOver (evaluations : List FileEvaluation) : List Violation :=
  evaluations.flatMap fun e => e.violations.filter (!·.fixable)

theorem after_conclude_unresolved (hs : IsClear s) :
    After (r.conclude files) s (fun _ s' => s'.summary.unresolved =
      s.summary.unresolved ++ leftOver (Survey.afresh r files ⟨.all, s⟩)) (fun _ _ => True) := by
  have hreported : ∀ (evaluations : List FileEvaluation) (s : RunState σ),
      After (evaluations.foldlM (fun (_ : Unit) e => report fun summary =>
          { summary.recordFailures e.failures with
            unresolved := summary.unresolved ++ e.violations.filter (!·.fixable) }) ()) s
        (fun _ s' => s'.summary.unresolved = s.summary.unresolved ++ leftOver evaluations)
        (fun _ _ => True) := by
    intro evaluations
    induction evaluations with
    | nil => exact fun s => after_pure (by simp [leftOver])
    | cons e rest ih =>
        intro s
        rw [List.foldlM_cons]
        refine after_bind (after_report ((ih _).imp ?_ fun _ _ h => h))
        intro _ s' hs'
        rw [hs']
        simp [leftOver]
  have hlook := evaluate_eq_afresh (r := r) (x := ⟨.all, s⟩) hs files
  rcases hrun : (r.evaluate .all files).run.run s with ⟨e | evaluations, s₁⟩
  · exact after_bind_error hrun trivial
  · have heq : evaluations = Survey.afresh r files ⟨.all, s⟩ :=
      Except.ok.inj ((congrArg Prod.fst hrun).symm.trans hlook)
    have hsummary : s₁.summary = s.summary := congrArg (·.2.summary) hrun.symm
    refine after_bind_ok hrun ?_
    rw [forIn_eq_foldlM, heq, ← hsummary]
    refine after_bind ((hreported _ s₁).imp ?_ fun _ _ h => h)
    exact fun _ s' hs' => after_pure hs'

/-! ### Whole runs -/

/-- Whatever a run plans was planned on one of its looks. -/
theorem mem_afresh_of_mem_transactions {t : Transaction σ} (ht : t ∈ r.transactions files s) :
    ∃ x ∈ r.surveys files s, t.evaluation ∈ x.afresh r (files.map r.relative) := by
  unfold transactions at ht
  unfold surveys
  rcases htests : r.runTests.run.run s with ⟨e | tested, s₁⟩
  · simp [htests] at ht
  · simp only [htests] at ht
    obtain ⟨-, hsteps⟩ := after_passes_clear r (files.map r.relative) (tested.getD none)
      { s₁ with summary := { s₁.summary with baseline := tested.getD none } }
    obtain ⟨pass, hpass, ht⟩ := List.mem_flatMap.mp ht
    obtain ⟨x, hx, -, hplanned⟩ := mem_afresh_of_mem_passTransactions (hsteps pass hpass) ht
    exact ⟨x, List.mem_append_left _ (List.mem_flatMap.mpr ⟨pass, hpass, hx⟩), hplanned⟩

/-- What a run leaves for a person was found on its last look. -/
theorem unresolved_of_run {summary : RunSummary} {s' : RunState σ}
    (hrun : (r.run files).run.run s = (.ok summary, s')) :
    ∃ x ∈ r.surveys files s, x.selection = .all ∧ summary.unresolved =
      x.before.summary.unresolved ++ leftOver (x.afresh r (files.map r.relative)) := by
  have hafter : After (r.run files) s (fun summary _ => ∃ x ∈ r.surveys files s,
      x.selection = .all ∧ summary.unresolved =
        x.before.summary.unresolved ++ leftOver (x.afresh r (files.map r.relative)))
      (fun _ _ => True) := by
    unfold run surveys
    rcases htests : r.runTests.run.run s with ⟨e | tested, s₁⟩
    · exact after_bind_error htests trivial
    · obtain ⟨hend, -⟩ := after_passes_clear r (files.map r.relative) (tested.getD none)
        { s₁ with summary := { s₁.summary with baseline := tested.getD none } }
      refine after_bind_ok htests (after_bind (after_report ?_))
      rw [forIn_eq_foldlM]
      dsimp only
      unfold After at hend
      rcases hpasses : (Pass.all.foldlM (fun (_ : Unit) pass =>
          r.runPass (files.map r.relative) (tested.getD none) pass) ()).run.run
          { s₁ with summary := { s₁.summary with baseline := tested.getD none } }
        with ⟨e | ⟨⟩, s₂⟩
      · exact after_bind_error hpasses trivial
      · rw [hpasses] at hend
        refine after_bind_ok hpasses (after_bind ((after_conclude_unresolved hend).imp ?_
          fun _ _ h => h))
        intro _ s₃ hs₃
        refine after_get (after_pure ⟨⟨.all, s₂⟩, ?_, rfl, hs₃⟩)
        exact List.mem_append_right _ List.mem_cons_self
  unfold After at hafter
  rw [hrun] at hafter
  exact hafter

/-- The steps of the passes, in three parts. -/
theorem steps_passes (f : Unit → Pass → RunM σ Unit) (s : RunState σ) :
    ∃ hints architecture notes, steps f Pass.all () s = hints ++ architecture ++ notes ∧
      (∀ x ∈ hints, x.1 = .mechanicalNormalization ∨ x.1 = .typeHints) ∧
      (∀ x ∈ architecture, x.1 = .architectureFixes) ∧
      ∀ x ∈ notes, x.1 = .governanceNotes ∨ x.1 = .finalCleanup := by
  obtain ⟨hints, later, hsplit, hhints, hlater⟩ := steps_append f
    [.mechanicalNormalization, .typeHints] [.architectureFixes, .governanceNotes, .finalCleanup] () s
  replace hsplit : steps f Pass.all () s = hints ++ later := hsplit
  rcases hlater with rfl | ⟨⟨⟩, s', rfl⟩
  · exact ⟨hints, [], [], by simpa using hsplit, by simpa using hhints, by simp, by simp⟩
  · obtain ⟨architecture, notes, hsplit', harchitecture, hnotes⟩ := steps_append f
      [.architectureFixes] [.governanceNotes, .finalCleanup] () s'
    have hall : steps f Pass.all () s = hints ++ architecture ++ notes := by
      have hlater : steps f [.architectureFixes, .governanceNotes, .finalCleanup] () s' =
          architecture ++ notes := hsplit'
      rw [List.append_assoc, ← hlater]
      exact hsplit
    refine ⟨hints, architecture, notes, hall, by simpa using hhints, by simpa using harchitecture, ?_⟩
    rcases hnotes with rfl | ⟨⟨⟩, s'', rfl⟩
    · simp
    · intro x hx
      simpa using fst_mem_of_mem_steps hx

/-- The plans of a run, pass by pass. -/
theorem transactions_in_order {rules : ProjectConfig} (hrules : r.registry = .ofConfig rules)
    (files : List Path) (s : RunState σ) :
    ∃ hints architecture notes, r.transactions files s = hints ++ architecture ++ notes ∧
      (∀ t ∈ hints, ∀ p ∈ t.evaluation.plans, p.isHint = true) ∧
      (∀ t ∈ architecture, ∀ p ∈ t.evaluation.plans, p.isFreeze = true) ∧
      ∀ t ∈ notes, ∀ p ∈ t.evaluation.plans, p.isCommentOnly = true := by
  unfold transactions
  rcases r.runTests.run.run s with ⟨e | tested, s₁⟩
  · exact ⟨[], [], [], rfl, by simp, by simp, by simp⟩
  · dsimp only
    obtain ⟨-, hsteps⟩ := after_passes_clear r (files.map r.relative) (tested.getD none)
      { s₁ with summary := { s₁.summary with baseline := tested.getD none } }
    obtain ⟨hints, architecture, notes, hsplit, hhints, harchitecture, hnotes⟩ := steps_passes
      (fun (_ : Unit) pass => r.runPass (files.map r.relative) (tested.getD none) pass)
      { s₁ with summary := { s₁.summary with baseline := tested.getD none } }
    rw [hsplit] at hsteps ⊢
    -- A pass plans what its selection permits.
    have hpermitted : ∀ x ∈ hints ++ architecture ++ notes,
        ∀ t ∈ r.passTransactions (files.map r.relative) (tested.getD none) x.1 x.2.2,
          ∀ p ∈ t.evaluation.plans, (passSelection x.1).permits p = true := by
      intro x hx t ht
      obtain ⟨look, -, hselection, hplanned⟩ :=
        mem_afresh_of_mem_passTransactions (hsteps x hx) ht
      unfold Survey.afresh at hplanned
      rw [hrules, hselection] at hplanned
      exact (Registry.yields_permitted rules _ _ _ _ _ trivial).1 t.evaluation hplanned
    refine ⟨_, _, _, by rw [List.flatMap_append, List.flatMap_append], ?_, ?_, ?_⟩
    · intro t ht
      obtain ⟨⟨pass, _, s'⟩, hx, ht⟩ := List.mem_flatMap.mp ht
      have hplans := hpermitted _ (by simp [hx]) t ht
      rcases hhints _ hx with rfl | rfl
      · exact absurd ht List.not_mem_nil
      · exact hplans
    · intro t ht
      obtain ⟨⟨pass, _, s'⟩, hx, ht⟩ := List.mem_flatMap.mp ht
      have hplans := hpermitted _ (by simp [hx]) t ht
      obtain rfl := harchitecture _ hx
      exact hplans
    · intro t ht
      obtain ⟨⟨pass, _, s'⟩, hx, ht⟩ := List.mem_flatMap.mp ht
      have hplans := hpermitted _ (by simp [hx]) t ht
      rcases hnotes _ hx with rfl | rfl
      · exact hplans
      · exact absurd ht List.not_mem_nil

/-! ### Plans that are handed on -/

variable (r : Remediation σ apply) {rules : ProjectConfig} (files : List Path) (s : RunState σ)

/-- Whoever applies plans is handed plans of the transactions of the run, in their order. -/
theorem run_recording :
    ∃ outcome s' log, (r.run files).run.run s = (outcome, s') ∧
      (r.recording.run files).run.run (s.beside []) = (outcome, s'.beside log) ∧
      log.Sublist ((r.transactions files s).map Transaction.plans) := by
  obtain ⟨log, hlog, hsub⟩ := r.adds_run files (s.beside [])
  have hmirror := r.shadows_recording.mirrors_run files (s.beside [])
  have hplanned : (r.transactions files s).map Transaction.plans =
      (r.recording.transactions files (s.beside [])).map Transaction.plans := by
    have halone := r.shadows_recording.transactions_alone files (s.beside [])
    replace halone : r.transactions files s = _ := halone
    rw [halone, List.map_map]
    rfl
  refine ⟨_, _, log, hmirror, ?_, hplanned ▸ hsub⟩
  replace hlog : ((r.recording.run files).run.run (s.beside [])).2.crew.2 = log := hlog
  rw [← hlog]
  rfl

/-- What is handed on is handed on in the order of the passes. -/
theorem handed_in_order (hrules : r.registry = .ofConfig rules) {log : List (List Plan)}
    (hlog : log.Sublist ((r.transactions files s).map Transaction.plans)) :
    ∃ hints architecture notes, log = hints ++ architecture ++ notes ∧
      (∀ plans ∈ hints, ∀ p ∈ plans, p.isHint = true) ∧
      (∀ plans ∈ architecture, ∀ p ∈ plans, p.isFreeze = true) ∧
      ∀ plans ∈ notes, ∀ p ∈ plans, p.isCommentOnly = true := by
  obtain ⟨hints, architecture, notes, hsplit, hhints, harchitecture, hnotes⟩ :=
    transactions_in_order hrules files s
  rw [hsplit, List.map_append, List.map_append, List.sublist_append_iff] at hlog
  obtain ⟨early, late, rfl, hearly, hlate⟩ := hlog
  obtain ⟨first, second, rfl, hfirst, hsecond⟩ := List.sublist_append_iff.mp hearly
  have hpart : ∀ {ts : List (Transaction σ)} {part : List (List Plan)} {kind : Plan → Bool},
      (∀ t ∈ ts, ∀ p ∈ t.evaluation.plans, kind p = true) →
        part.Sublist (ts.map Transaction.plans) → ∀ plans ∈ part, ∀ p ∈ plans, kind p = true := by
    intro ts part kind hkind hsub plans hplans
    obtain ⟨t, ht, rfl⟩ := List.mem_map.mp (hsub.subset hplans)
    exact hkind t ht
  exact ⟨first, second, late, rfl, hpart hhints hfirst, hpart harchitecture hsecond,
    hpart hnotes hlate⟩

/-- **A run goes by what the files hold, and edits annotations, other code and comments in this
order.**  Every look of a run gives what someone who remembers nothing would find on the disk at
that moment; whatever is planned, and whatever is left for a person, was found on such a look.  The
same run, in which whoever applies plans keeps a log of them, hands on nothing but what was planned,
and in this order. -/
theorem run_looks_afresh (hrules : r.registry = .ofConfig rules) :
    (∀ x ∈ r.surveys files s,
      ((r.evaluate x.selection (files.map r.relative)).run.run x.before).1 =
        .ok (x.afresh r (files.map r.relative))) ∧
    (∀ t ∈ r.transactions files s, ∃ x ∈ r.surveys files s,
      t.evaluation ∈ x.afresh r (files.map r.relative)) ∧
    (∀ summary s', (r.run files).run.run s = (.ok summary, s') →
      ∃ x ∈ r.surveys files s, x.selection = .all ∧ summary.unresolved =
        x.before.summary.unresolved ++ leftOver (x.afresh r (files.map r.relative))) ∧
    (∃ hints architecture notes, r.transactions files s = hints ++ architecture ++ notes ∧
      (∀ t ∈ hints, ∀ p ∈ t.evaluation.plans, p.isHint = true) ∧
      (∀ t ∈ architecture, ∀ p ∈ t.evaluation.plans, p.isFreeze = true) ∧
      ∀ t ∈ notes, ∀ p ∈ t.evaluation.plans, p.isCommentOnly = true) ∧
    ∃ outcome s' log, (r.run files).run.run s = (outcome, s') ∧
      (r.recording.run files).run.run (s.beside []) = (outcome, s'.beside log) ∧
      log.Sublist ((r.transactions files s).map Transaction.plans) ∧
      ∃ hints architecture notes, log = hints ++ architecture ++ notes ∧
        (∀ plans ∈ hints, ∀ p ∈ plans, p.isHint = true) ∧
        (∀ plans ∈ architecture, ∀ p ∈ plans, p.isFreeze = true) ∧
        ∀ plans ∈ notes, ∀ p ∈ plans, p.isCommentOnly = true := by
  obtain ⟨outcome, s', log, hrun, hlogged, hlog⟩ := run_recording r files s
  exact ⟨fun x hx => evaluate_eq_afresh (surveys_clear r files s x hx) _,
    fun _ => mem_afresh_of_mem_transactions, fun _ _ => unresolved_of_run,
    transactions_in_order hrules files s, outcome, s', log, hrun, hlogged, hlog,
    handed_in_order r files s hrules hlog⟩

/-- A run with the rules of this library, whose tests always pass. -/
def defaultRun : Remediation Unit where
  root := "/p"
  config := {}
  registry := .ofConfig {}
  crew :=
    { tests := some (pure (.completed 0))
      confirm := fun _ _ => pure true
      format := fun _ => pure (some 0) }

/-- A project with one file, in which an annotation is missing. -/
def bareFunction : RunState Unit where
  disk :=
    { tree :=
        { files := [(["p", "a.py"], "def f():\n    return 1\n".toUTF8)]
          dirs := [["p"]] } }
  crew := ()

/-- The missing annotation is planned on a look of the run, among the hints. -/
theorem run_looks_afresh_at_bare_function :
    ∃ t ∈ defaultRun.transactions ["a.py"] bareFunction,
      t.evaluation.plans = [.addReturnType "f" ⟨{ name := "int" }⟩] ∧
      ∃ x ∈ defaultRun.surveys ["a.py"] bareFunction,
        t.evaluation ∈ x.afresh defaultRun (["a.py"].map defaultRun.relative) := by
  have hplanned : ∃ t ∈ defaultRun.transactions ["a.py"] bareFunction,
      t.evaluation.plans = [.addReturnType "f" ⟨{ name := "int" }⟩] := by decide +kernel
  have hrules : defaultRun.registry = .ofConfig {} := rfl
  obtain ⟨-, hfound, -⟩ := run_looks_afresh defaultRun ["a.py"] bareFunction hrules
  obtain ⟨t, ht, hplans⟩ := hplanned
  exact ⟨t, ht, hplans, hfound t ht⟩

end Remediation

end Plumbline
