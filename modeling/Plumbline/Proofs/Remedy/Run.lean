/-
Invariants of a run.

What holds at the start of a run and is kept by the crew and by each transaction holds whenever a
transaction begins and when the run ends, through all files, rounds and passes.  `Maintained` says
what an invariant needs, `Maintained.after_run` and `Maintained.begins` what follows from it.  If
nobody of the crew writes files, an invariant only has to survive transactions (`Sustained`).

`transactions` lists the transactions of a run with the states in which they begin.  It follows the
run function by function, so that each of its lemmas follows the one about the same part of the run.
What is known of all of these transactions may be used to show that an invariant is maintained.
-/
import Plumbline.Proofs.Remedy.Transaction
import Plumbline.Proofs.Rule.Evaluate

namespace Plumbline

open Disk

variable {σ : Type} {apply : Applier σ}

/-! ### Loops -/

namespace RunM

variable {α β : Type} {E : BackupError → RunState σ → Prop}

theorem after_bind_ok {work : RunM σ α} {next : α → RunM σ β} {a : α} {s s' : RunState σ}
    {Q : β → RunState σ → Prop} (hrun : work.run.run s = (.ok a, s')) (h : After (next a) s' Q E) :
    After (work >>= next) s Q E := by
  refine after_bind ?_
  unfold After
  rw [hrun]
  exact h

theorem after_bind_error {work : RunM σ α} {next : α → RunM σ β} {e : BackupError}
    {s s' : RunState σ} {Q : β → RunState σ → Prop} (hrun : work.run.run s = (.error e, s'))
    (h : E e s') : After (work >>= next) s Q E := by
  refine after_bind ?_
  unfold After
  rw [hrun]
  exact h

/-- A loop that does a step for each item is a fold. -/
theorem forIn_eq_foldlM (f : α → RunM σ Unit) (items : List α) :
    (forIn items PUnit.unit fun a _ => do f a; pure (ForInStep.yield PUnit.unit)) =
      items.foldlM (fun _ a => f a) PUnit.unit := by
  induction items with
  | nil => rfl
  | cons a rest ih =>
      rw [List.forIn_cons, List.foldlM_cons, bind_assoc]
      congr 1
      funext _
      rw [pure_bind]
      exact ih

/-- The steps of a fold, with what was known and the state before each; a step that gives up is the
last. -/
def steps (f : β → α → RunM σ β) : List α → β → RunState σ → List (α × β × RunState σ)
  | [], _, _ => []
  | a :: rest, b, s =>
    (a, b, s) ::
      match (f b a).run.run s with
      | (.ok b', s') => steps f rest b' s'
      | (.error _, _) => []

variable {f : β → α → RunM σ β} {P : β → RunState σ → Prop} {items : List α} {b : β}
  {s : RunState σ}

theorem fst_mem_of_mem_steps {x : α × β × RunState σ} (hx : x ∈ steps f items b s) :
    x.1 ∈ items := by
  induction items generalizing b s with
  | nil => exact absurd hx (by simp [steps])
  | cons a rest ih =>
      rcases List.mem_cons.mp hx with rfl | hmem
      · exact List.mem_cons_self
      · rcases hrun : (f b a).run.run s with ⟨e | b', s'⟩
        · simp [hrun] at hmem
        · simp only [hrun] at hmem
          exact List.mem_cons_of_mem a (ih hmem)

/-- The steps of a fold over two lists are those over the first and then, unless one of these was
the last, those over the second. -/
theorem steps_append (f : β → α → RunM σ β) (front back : List α) (b : β) (s : RunState σ) :
    ∃ first later, steps f (front ++ back) b s = first ++ later ∧ (∀ x ∈ first, x.1 ∈ front) ∧
      (later = [] ∨ ∃ b' s', later = steps f back b' s') := by
  induction front generalizing b s with
  | nil => exact ⟨[], _, rfl, by simp, Or.inr ⟨b, s, rfl⟩⟩
  | cons a rest ih =>
      rw [List.cons_append, steps]
      rcases hrun : (f b a).run.run s with ⟨e | b', s'⟩
      · exact ⟨[(a, b, s)], [], rfl, by simp, Or.inl rfl⟩
      · obtain ⟨first, later, hsplit, hfirst, hlater⟩ := ih b' s'
        refine ⟨(a, b, s) :: first, later, by simp [hsplit], ?_, hlater⟩
        intro x hx
        rcases List.mem_cons.mp hx with rfl | hmem
        · exact List.mem_cons_self
        · exact List.mem_cons_of_mem a (hfirst x hmem)

/-- What every step keeps holds before every step and after the last. -/
theorem after_foldlM_steps
    (hstep : ∀ x ∈ steps f items b s, P x.2.1 x.2.2 → After (f x.2.1 x.1) x.2.2 P E) (h : P b s) :
    After (items.foldlM f b) s P E ∧ ∀ x ∈ steps f items b s, P x.2.1 x.2.2 := by
  induction items generalizing b s with
  | nil => exact ⟨after_pure h, fun x hx => absurd hx (by simp [steps])⟩
  | cons a rest ih =>
      have hfirst := hstep (a, b, s) List.mem_cons_self h
      have hlater : ∀ b' s', (f b a).run.run s = (.ok b', s') → P b' s' →
          After (rest.foldlM f b') s' P E ∧ ∀ x ∈ steps f rest b' s', P x.2.1 x.2.2 := by
        intro b' s' hrun h'
        refine ih (fun x hx => hstep x (List.mem_cons_of_mem _ ?_)) h'
        simpa only [hrun] using hx
      constructor
      · rw [List.foldlM_cons]
        refine after_bind ?_
        unfold After at hfirst ⊢
        rcases hrun : (f b a).run.run s with ⟨e | b', s'⟩
        · rw [hrun] at hfirst
          exact hfirst
        · rw [hrun] at hfirst
          exact (hlater b' s' hrun hfirst).1
      · intro x hx
        rcases List.mem_cons.mp hx with rfl | hmem
        · exact h
        · unfold After at hfirst
          rcases hrun : (f b a).run.run s with ⟨e | b', s'⟩
          · simp [hrun] at hmem
          · simp only [hrun] at hfirst hmem
            exact (hlater b' s' hrun hfirst).2 x hmem

theorem after_foldlM (hstep : ∀ a ∈ items, ∀ b s, P b s → After (f b a) s P E) (h : P b s) :
    After (items.foldlM f b) s P E :=
  (after_foldlM_steps (fun x hx => hstep x.1 (fst_mem_of_mem_steps hx) x.2.1 x.2.2) h).1

end RunM

namespace Remediation

open RunM

/-! ### Transactions of a run -/

/-- A transaction, with the state in which it begins. -/
structure Transaction (σ : Type) where
  pass : Pass
  evaluation : FileEvaluation
  baseline : Option Nat
  before : RunState σ

/-- The transaction on a file, if there is anything to do. -/
def fileTransactions (state : PassState) (e : FileEvaluation) (s : RunState σ) :
    List (Transaction σ) :=
  if e.plans.isEmpty || state.reverted.any (Path.same e.path) then []
  else [⟨state.pass, e, state.baseline, { s with summary := s.summary.recordFailures e.failures }⟩]

/-- The transactions of one round. -/
def roundTransactions (r : Remediation σ apply) (sel : Selection) (files : List Path)
    (first : Bool) (state : PassState) (s : RunState σ) : List (Transaction σ) :=
  if r.registry.hasRules sel then
    match (r.evaluate sel files).run.run s with
    | (.ok evaluations, s') =>
      (steps (r.editFile first) evaluations { state with changed := 0 } s').flatMap
        fun x => fileTransactions x.2.1 x.1 x.2.2
    | (.error _, _) => []
  else []

/-- The transactions of all rounds of a pass. -/
def roundsTransactions (r : Remediation σ apply) (sel : Selection) (files : List Path) :
    (left : Nat) → (first : Bool) → PassState → RunState σ → List (Transaction σ)
  | 0, _, _, _ => []
  | left + 1, first, state, s =>
    r.roundTransactions sel files first state s ++
      match (r.editFiles sel files first state).run.run s with
      | (.ok state', s') =>
        if state'.changed = 0 then [] else roundsTransactions r sel files left false state' s'
      | (.error _, _) => []

def passTransactions (r : Remediation σ apply) (files : List Path) (baseline : Option Nat)
    (pass : Pass) (s : RunState σ) : List (Transaction σ) :=
  match pass with
  | .mechanicalNormalization | .finalCleanup => []
  | .typeHints =>
    r.roundsTransactions .typeHints files (max 1 r.config.pipeline.maxHintRounds) true
      { pass, baseline } s
  | .architectureFixes => r.roundTransactions .architecture files true { pass, baseline } s
  | .governanceNotes => r.roundTransactions .governance files true { pass, baseline } s

/-- The path under which a run knows a file. -/
def relative (r : Remediation σ apply) (file : Path) : Path := (file.relativeTo? r.root).getD file

/-- All transactions of a run, in order. -/
def transactions (r : Remediation σ apply) (files : List Path) (s : RunState σ) :
    List (Transaction σ) :=
  match r.runTests.run.run s with
  | (.ok tested, s') =>
    let baseline := tested.getD none
    (steps (fun _ pass => r.runPass (files.map r.relative) baseline pass) Pass.all ()
      { s' with summary := { s'.summary with baseline } }).flatMap
        fun x => r.passTransactions (files.map r.relative) baseline x.1 x.2.2
  | (.error _, _) => []

/-! ### Invariants -/

/-- An invariant `Inv` of a run whose transactions are all as `T` says: it survives what the run
writes down, what the formatter does, and transactions; where one gives up, `E` holds. -/
structure Maintained (r : Remediation σ apply) (files : List Path) (baseline : Option Nat)
    (T : Transaction σ → Prop) (Inv : RunState σ → Prop) (E : BackupError → RunState σ → Prop) :
    Prop where
  bookkeeping : ∀ s summary cache, summary.modified = s.summary.modified → Inv s →
    Inv { s with summary, cache }
  format : ∀ s, Inv s → After (byCrew (r.crew.format files)) s (fun _ s' => Inv s') E
  transact : ∀ t, T t → t.evaluation.path ∈ files → t.baseline = baseline → Inv t.before →
    After (r.transact t.pass t.evaluation t.baseline) t.before
      (fun result s' =>
        Inv { s' with summary := s'.summary.recordFile t.evaluation.path result }) E

/-- A transaction of a run over `files` that begins where the invariant holds. -/
structure Begins (files : List Path) (baseline : Option Nat) (Inv : RunState σ → Prop)
    (t : Transaction σ) : Prop where
  listed : t.evaluation.path ∈ files
  compared : t.baseline = baseline
  inv : Inv t.before

variable {r : Remediation σ apply} {files : List Path} {baseline : Option Nat}
  {T : Transaction σ → Prop} {Inv : RunState σ → Prop} {E : BackupError → RunState σ → Prop}

theorem after_evaluate (r : Remediation σ apply) (sel : Selection)
    (files : List Path) (s : RunState σ) : After (r.evaluate sel files) s (fun evaluations s' =>
      (∃ cache, s' = { s with cache }) ∧ ∀ e ∈ evaluations, e.path ∈ files) E :=
  ⟨⟨_, rfl⟩, (r.registry.yields_evaluate r.config sel files _ _ trivial).1⟩

/-- An invariant, and the baseline of the pass, between two files. -/
def Between (Inv : RunState σ → Prop) (baseline : Option Nat) (state : PassState)
    (s : RunState σ) : Prop := Inv s ∧ state.baseline = baseline

namespace Maintained

variable (h : Maintained r files baseline T Inv E) {s : RunState σ} {state : PassState}
include h

theorem begins_file {e : FileEvaluation} (he : e.path ∈ files) (hs : Between Inv baseline state s)
    {t : Transaction σ} (ht : t ∈ fileTransactions state e s) : Begins files baseline Inv t := by
  unfold fileTransactions at ht
  split at ht
  · exact absurd ht List.not_mem_nil
  · obtain rfl := List.mem_singleton.mp ht
    exact ⟨he, hs.2, h.bookkeeping s _ _ rfl hs.1⟩

theorem after_editFile (first : Bool) {e : FileEvaluation} (he : e.path ∈ files)
    (hs : Between Inv baseline state s) (hT : ∀ t ∈ fileTransactions state e s, T t) :
    After (r.editFile first state e) s (Between Inv baseline) E := by
  obtain ⟨hinv, hbaseline⟩ := hs
  have hreported : Inv { s with summary := s.summary.recordFailures e.failures } :=
    h.bookkeeping s _ _ rfl hinv
  unfold editFile
  refine after_bind (after_report ?_)
  dsimp only
  unfold fileTransactions at hT
  split
  · exact after_pure ⟨hreported, hbaseline⟩
  · rename_i hdo
    rw [if_neg hdo] at hT
    have hdone := h.transact _ (hT _ (List.mem_singleton.mpr rfl)) he hbaseline hreported
    refine after_bind (hdone.imp ?_ fun _ _ h => h)
    exact fun result s' hs' => after_bind (after_report (after_pure ⟨hs', hbaseline⟩))

/-- What a round does, and where its transactions begin. -/
theorem after_round (sel : Selection) (first : Bool) (hs : Between Inv baseline state s)
    (hT : ∀ t ∈ r.roundTransactions sel files first state s, T t) :
    After (r.editFiles sel files first state) s (Between Inv baseline) E ∧
      ∀ t ∈ r.roundTransactions sel files first state s, Begins files baseline Inv t := by
  have hclear : ∀ (state' : PassState) s', Between Inv baseline state' s' →
      After (do clearCache; pure state') s' (Between Inv baseline) E := by
    intro state' s' hs'
    exact after_bind (after_clearCache (after_pure ⟨h.bookkeeping s' _ _ rfl hs'.1, hs'.2⟩))
  unfold editFiles roundTransactions at *
  split
  · rename_i hrules
    rw [if_pos hrules] at hT
    have hevaluated := after_evaluate (E := E) r sel files s
    unfold After at hevaluated
    rcases hrun : (r.evaluate sel files).run.run s with ⟨e | evaluations, s₁⟩
    · rw [hrun] at hevaluated
      exact ⟨after_bind_error hrun hevaluated, by simp⟩
    · rw [hrun] at hevaluated
      simp only [hrun] at hT
      obtain ⟨⟨cache, rfl⟩, hpaths⟩ := hevaluated
      have hstart : Between Inv baseline { state with changed := 0 } { s with cache } :=
        ⟨h.bookkeeping s s.summary cache rfl hs.1, hs.2⟩
      obtain ⟨hend, hsteps⟩ := after_foldlM_steps (f := r.editFile first) (E := E)
        (fun x hx hbetween => h.after_editFile first (hpaths _ (fst_mem_of_mem_steps hx)) hbetween
          fun t ht => hT t (List.mem_flatMap.mpr ⟨x, hx, ht⟩)) hstart
      constructor
      · exact after_bind_ok hrun (after_bind (hend.imp hclear fun _ _ h => h))
      · intro t ht
        obtain ⟨x, hx, ht⟩ := List.mem_flatMap.mp ht
        exact h.begins_file (hpaths _ (fst_mem_of_mem_steps hx)) (hsteps x hx) ht
  · exact ⟨hclear _ s ⟨hs.1, hs.2⟩, by simp⟩

theorem after_rounds (sel : Selection) {left : Nat} {first : Bool}
    (hs : Between Inv baseline state s)
    (hT : ∀ t ∈ r.roundsTransactions sel files left first state s, T t) :
    After (r.editRounds sel files left first state) s (Between Inv baseline) E ∧
      ∀ t ∈ r.roundsTransactions sel files left first state s, Begins files baseline Inv t := by
  induction left generalizing first state s with
  | zero => exact ⟨after_pure hs, by simp [roundsTransactions]⟩
  | succ left ih =>
      unfold roundsTransactions at hT ⊢
      obtain ⟨hround, hbegins⟩ := h.after_round sel first hs fun t ht =>
        hT t (List.mem_append_left _ ht)
      unfold After at hround
      rcases hrun : (r.editFiles sel files first state).run.run s with ⟨e | state', s'⟩
      · rw [hrun] at hround
        exact ⟨after_bind_error hrun hround, by simpa using hbegins⟩
      · rw [hrun] at hround
        replace hround : Between Inv baseline state' s' := hround
        simp only [hrun] at hT
        by_cases hdone : state'.changed = 0
        · refine ⟨after_bind_ok hrun ?_, by simpa [hdone] using hbegins⟩
          rw [if_pos hdone]
          exact after_pure hround
        · simp only [hdone, if_false] at hT ⊢
          obtain ⟨hend, hlater⟩ := ih hround fun t ht => hT t (List.mem_append_right _ ht)
          refine ⟨after_bind_ok hrun ?_,
            fun t ht => (List.mem_append.mp ht).elim (hbegins t) (hlater t)⟩
          rw [if_neg hdone]
          exact hend

theorem after_pass (pass : Pass) (hs : Inv s)
    (hT : ∀ t ∈ r.passTransactions files baseline pass s, T t) :
    After (r.runPass files baseline pass) s (fun _ s' => Inv s') E ∧
      ∀ t ∈ r.passTransactions files baseline pass s, Begins files baseline Inv t := by
  have hrecord : ∀ (summary : PassSummary) s', Inv s' →
      After (report (·.recordPass pass summary)) s' (fun _ s' => Inv s') E := by
    intro summary s' hs'
    exact after_report (h.bookkeeping s' _ _ rfl hs')
  have hformat : After (r.formatFiles files) s (fun _ s' => Inv s') E := by
    refine after_bind ((h.format s hs).imp ?_ fun _ _ h => h)
    intro changed s' hs'
    exact after_bind (after_clearCache (after_pure (h.bookkeeping s' _ _ rfl hs')))
  cases pass with
  | mechanicalNormalization =>
      exact ⟨after_bind (hformat.imp hrecord fun _ _ h => h), by simp [passTransactions]⟩
  | finalCleanup =>
      exact ⟨after_bind (hformat.imp hrecord fun _ _ h => h), by simp [passTransactions]⟩
  | typeHints =>
      obtain ⟨hend, hbegins⟩ := h.after_rounds .typeHints ⟨hs, rfl⟩ hT
      refine ⟨after_bind (hend.imp ?_ fun _ _ h => h), hbegins⟩
      exact fun state s' hs' => after_bind (after_pure (hrecord _ s' hs'.1))
  | architectureFixes =>
      obtain ⟨hend, hbegins⟩ := h.after_round .architecture true ⟨hs, rfl⟩ hT
      refine ⟨after_bind (hend.imp ?_ fun _ _ h => h), hbegins⟩
      exact fun state s' hs' => after_bind (after_pure (hrecord _ s' hs'.1))
  | governanceNotes =>
      obtain ⟨hend, hbegins⟩ := h.after_round .governance true ⟨hs, rfl⟩ hT
      refine ⟨after_bind (hend.imp ?_ fun _ _ h => h), hbegins⟩
      exact fun state s' hs' => after_bind (after_pure (hrecord _ s' hs'.1))

theorem after_conclude (hs : Inv s) : After (r.conclude files) s (fun _ s' => Inv s') E := by
  unfold conclude
  refine after_bind ((after_evaluate r .all files s).imp ?_ fun _ _ h => h)
  rintro evaluations _ ⟨⟨cache, rfl⟩, -⟩
  rw [forIn_eq_foldlM]
  refine after_bind ((after_foldlM (P := fun _ s' => Inv s') ?_
    (h.bookkeeping s s.summary cache rfl hs)).imp ?_ fun _ _ h => h)
  · exact fun e _ _ s' hs' => after_report (h.bookkeeping s' _ _ rfl hs')
  · exact fun _ s' hs' => after_pure hs'

omit h

/-- **An invariant holds whenever a transaction of a run begins, and when the run ends.** -/
theorem after_run {files : List Path}
    (h : Maintained r (files.map r.relative) baseline T Inv E)
    (htests : After r.runTests s (fun tested s' => Inv s' ∧ tested.getD none = baseline) E)
    (hT : ∀ t ∈ r.transactions files s, T t) :
    After (r.run files) s (fun summary s' => Inv s' ∧ summary = s'.summary) E ∧
      ∀ t ∈ r.transactions files s, Begins (files.map r.relative) baseline Inv t := by
  unfold run transactions at *
  unfold After at htests
  rcases hrun : r.runTests.run.run s with ⟨e | tested, s₁⟩
  · rw [hrun] at htests
    exact ⟨after_bind_error hrun htests, by simp⟩
  · rw [hrun] at htests
    obtain ⟨hs₁, hbaseline⟩ := htests
    simp only [hrun, hbaseline] at hT ⊢
    have hstart := h.bookkeeping s₁ { s₁.summary with baseline } s₁.cache rfl hs₁
    have hstep : ∀ x ∈ steps (fun _ pass => r.runPass (files.map r.relative) baseline pass) Pass.all
        () { s₁ with summary := { s₁.summary with baseline } }, Inv x.2.2 →
        After (r.runPass (files.map r.relative) baseline x.1) x.2.2 (fun _ s' => Inv s') E :=
      fun x hx hinv => (h.after_pass x.1 hinv fun t ht =>
        hT t (List.mem_flatMap.mpr ⟨x, hx, ht⟩)).1
    obtain ⟨hend, hsteps⟩ := after_foldlM_steps (P := fun _ s' => Inv s') hstep hstart
    constructor
    · refine after_bind_ok hrun (after_bind (after_report ?_))
      rw [hbaseline, forIn_eq_foldlM]
      refine after_bind (hend.imp ?_ fun _ _ h => h)
      intro _ s₂ hs₂
      refine after_bind ((h.after_conclude hs₂).imp ?_ fun _ _ h => h)
      exact fun _ s₃ hs₃ => after_get (after_pure ⟨hs₃, rfl⟩)
    · intro t ht
      obtain ⟨x, hx, ht⟩ := List.mem_flatMap.mp ht
      refine (h.after_pass x.1 (hsteps x hx) fun t ht => ?_).2 t ht
      exact hT t (List.mem_flatMap.mpr ⟨x, hx, ht⟩)

end Maintained

/-! ### Invariants when nobody of the crew writes files -/

/-- An invariant `Inv` of a run: it survives whatever changes no files, and transactions; where one
gives up, `E` holds. -/
structure Sustained (r : Remediation σ apply) (files : List Path) (baseline : Option Nat)
    (Inv : RunState σ → Prop) (E : BackupError → RunState σ → Prop) : Prop where
  quiet : ∀ s s', Inv s → RunState.ChangesOnly (fun _ => False) s s' → Inv s'
  transact : ∀ s pass (e : FileEvaluation), Inv s → e.path ∈ files →
    After (r.transact pass e baseline) s
      (fun result s' => Inv { s' with summary := s'.summary.recordFile e.path result }) E

theorem Sustained.maintained (h : Sustained r files baseline Inv E) (hquiet : r.crew.Quiet) :
    Maintained r files baseline (fun _ => True) Inv E where
  bookkeeping s _ _ hmodified hs := h.quiet s _ hs (.bookkeeping hmodified)
  format s hs := ((hquiet.format files).after_byCrew s E).imp (fun _ s' h' => h.quiet s s' hs h')
    fun _ _ h => h
  transact t _ hlisted hcompared hs := by
    rw [hcompared]
    exact h.transact t.before t.pass t.evaluation hs hlisted

/-- The number of failures that the edits of a run are compared with. -/
def baselineAt (r : Remediation σ apply) (s : RunState σ) : Option Nat :=
  r.crew.tests.bind fun tests =>
    observed r.config.pipeline.oraclePolicy ((tests.run s.crew).run s.disk).1.1

theorem after_runTests (r : Remediation σ apply) (hquiet : r.crew.Quiet) (s : RunState σ) :
    After r.runTests s (fun tested s' => RunState.ChangesOnly (fun _ => False) s s' ∧
      tested.getD none = r.baselineAt s) E := by
  unfold runTests baselineAt
  cases htests : r.crew.tests with
  | none => exact ⟨RunState.ChangesOnly.refl _ s, rfl⟩
  | some tests =>
      refine after_bind (after_byCrew (after_pure ⟨?_, rfl⟩))
      exact (hquiet.tests tests htests).changesOnly s _ _

theorem Sustained.after_tests (hquiet : r.crew.Quiet) {s : RunState σ}
    (h : Sustained r files baseline Inv E) (hs : Inv s) :
    After r.runTests s (fun tested s' => Inv s' ∧ tested.getD none = r.baselineAt s) E :=
  (after_runTests r hquiet s).imp (fun _ s' h' => ⟨h.quiet s s' hs h'.1, h'.2⟩) fun _ _ h => h

variable {files : List Path} {s : RunState σ}

/-- **An invariant holds when a run ends.** -/
theorem after_run (hquiet : r.crew.Quiet) (files : List Path)
    (h : Sustained r (files.map r.relative) (r.baselineAt s) Inv E) (hs : Inv s) :
    After (r.run files) s (fun summary s' => Inv s' ∧ summary = s'.summary) E :=
  ((h.maintained hquiet).after_run (h.after_tests hquiet hs) fun _ _ => trivial).1

/-- **An invariant holds whenever a transaction of a run begins.** -/
theorem begins_of_mem_transactions (hquiet : r.crew.Quiet)
    (h : Sustained r (files.map r.relative) (r.baselineAt s) Inv E) (hs : Inv s)
    {t : Transaction σ} (ht : t ∈ r.transactions files s) :
    Begins (files.map r.relative) (r.baselineAt s) Inv t :=
  ((h.maintained hquiet).after_run (h.after_tests hquiet hs) fun _ _ => trivial).2 t ht

end Remediation

end Plumbline
