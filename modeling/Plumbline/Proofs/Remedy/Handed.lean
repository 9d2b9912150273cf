/-
The plans that a run hands on.

Whoever applies plans may keep a log of them (`Applier.recording`), and the run is the same
(`shadows_recording`).  Nobody else can write into that log, and so, step by step, what is added to it
is among the plans of the transactions, in their order (`adds_run`).  A transaction that nobody wants,
or for which no snapshot can be taken, adds nothing.
-/
import Mathlib.Data.List.Basic
import Plumbline.Proofs.Remedy.Mirror

namespace Plumbline

variable {σ : Type} {apply : Applier σ}

/-- The same applier, with a log of the plans that it is given. -/
def Applier.recording (apply : Applier σ) : Applier (σ × List (List Plan)) := fun path plans =>
  noted (fun _ _ _ log => log ++ [plans]) (apply path plans)

/-- The same run, in which the plans that are to be applied are written down. -/
def Remediation.recording (r : Remediation σ apply) :
    Remediation (σ × List (List Plan)) apply.recording where
  root := r.root
  config := r.config
  registry := r.registry
  crew :=
    { tests := r.crew.tests.map (noted fun _ _ _ log => log)
      confirm := fun path plans => noted (fun _ _ _ log => log) (r.crew.confirm path plans)
      format := fun files => noted (fun _ _ _ log => log) (r.crew.format files) }

theorem Remediation.shadows_recording (r : Remediation σ apply) : r.recording.Shadows r where
  root := rfl
  config := rfl
  registry := rfl
  untested h := by
    show r.crew.tests.map (noted fun _ _ _ log => log) = none
    rw [h]
    rfl
  tests work h := by
    refine ⟨noted (fun _ _ _ log => log) work, ?_, RunM.mirrors_noted (fun _ _ _ log => log) work⟩
    show r.crew.tests.map (noted fun _ _ _ log => log) = some (noted (fun _ _ _ log => log) work)
    rw [h]
    rfl
  confirm path plans := RunM.mirrors_noted (fun _ _ _ log => log) (r.crew.confirm path plans)
  format files := RunM.mirrors_noted (fun _ _ _ log => log) (r.crew.format files)
  apply path plans := RunM.mirrors_noted (fun _ _ _ log => log ++ [plans]) (apply path plans)

/-! ### What work adds to the log -/

namespace RunM

variable {α β ν : Type}

/-- What the work adds to the log is among `L s`, in this order, when it begins at `s`. -/
def Adds (work : RunM (σ × List ν) α) (L : RunState (σ × List ν) → List ν) : Prop :=
  ∀ s, ∃ added, (work.run.run s).2.crew.2 = s.crew.2 ++ added ∧ added.Sublist (L s)

variable {work : RunM (σ × List ν) α} {next : α → RunM (σ × List ν) β}
  {L L' : RunState (σ × List ν) → List ν}

theorem adds_nothing (h : ∀ s, (work.run.run s).2.crew.2 = s.crew.2) : Adds work fun _ => [] :=
  fun s => ⟨[], by rw [h, List.append_nil], List.nil_sublist _⟩

theorem Silent.adds (h : Silent work) : Adds work fun _ => [] :=
  adds_nothing fun s => congrArg Prod.snd (h s)

theorem Adds.mono (h : Adds work L) (hL : ∀ s, (L s).Sublist (L' s)) : Adds work L' := by
  intro s
  obtain ⟨added, hlog, hsub⟩ := h s
  exact ⟨added, hlog, hsub.trans (hL s)⟩

/-- One piece of work after another: `L` bounds both, if it bounds the first and what follows an
answer. -/
theorem adds_bind {first : RunState (σ × List ν) → List ν}
    {later : α → RunState (σ × List ν) → List ν} (h : Adds work first)
    (hnext : ∀ a, Adds (next a) (later a))
    (herror : ∀ s e s', work.run.run s = (.error e, s') → (first s).Sublist (L s))
    (hok : ∀ s a s', work.run.run s = (.ok a, s') → (first s ++ later a s').Sublist (L s)) :
    Adds (work >>= next) L := by
  intro s
  obtain ⟨added, hlog, hsub⟩ := h s
  rw [ExceptT.run_bind, StateT.run_bind]
  rcases hrun : work.run.run s with ⟨e | a, s'⟩
  · rw [hrun] at hlog
    exact ⟨added, hlog, hsub.trans (herror s e s' hrun)⟩
  · rw [hrun] at hlog
    obtain ⟨more, hmore, hsub'⟩ := hnext a s'
    refine ⟨added ++ more, ?_, (hsub.append hsub').trans (hok s a s' hrun)⟩
    rw [← List.append_assoc, ← hlog]
    exact hmore

/-- Work of which only the second part adds anything. -/
theorem adds_bind_later {l : List ν} (h : Adds work fun _ => [])
    (hnext : ∀ a, Adds (next a) fun _ => l) : Adds (work >>= next) fun _ => l :=
  adds_bind h hnext (fun _ _ _ _ => List.nil_sublist l) fun _ _ _ _ => List.Sublist.refl l

/-- Work of which only the first part adds anything. -/
theorem adds_bind_first (h : Adds work L) (hnext : ∀ a, Adds (next a) fun _ => []) :
    Adds (work >>= next) L := by
  refine adds_bind h hnext (fun _ _ _ _ => List.Sublist.refl _) fun s _ _ _ => ?_
  rw [List.append_nil]

theorem adds_foldlM {items : List α} {f : β → α → RunM (σ × List ν) β}
    {L : β → α → RunState (σ × List ν) → List ν} (h : ∀ b a, Adds (f b a) (L b a)) (b : β) :
    Adds (items.foldlM f b) fun s => (steps f items b s).flatMap fun x => L x.2.1 x.1 x.2.2 := by
  induction items generalizing b with
  | nil => exact (silent_pure b).adds
  | cons a rest ih =>
      rw [List.foldlM_cons]
      refine adds_bind (h b a) ih (fun s e s' hrun => ?_) fun s b' s' hrun => ?_
      · simp only [steps, hrun, List.flatMap_cons, List.flatMap_nil, List.append_nil]
        exact List.Sublist.refl _
      · simp only [steps, hrun, List.flatMap_cons]
        exact List.Sublist.refl _

end RunM

/-! ### Runs -/

namespace Remediation

open RunM

/-- The plans of a transaction. -/
def Transaction.plans (t : Transaction σ) : List Plan := t.evaluation.plans

variable (r : Remediation σ apply)

theorem adds_runTests : Adds r.recording.runTests fun _ => [] := by
  have htests : r.recording.crew.tests = r.crew.tests.map (noted fun _ _ _ log => log) := rfl
  unfold runTests
  rw [htests]
  cases r.crew.tests with
  | none => exact adds_nothing fun _ => rfl
  | some work => exact adds_nothing fun _ => rfl

theorem adds_validate (pass : Pass) (file : Path) (baseline : Option Nat) (shot : Option Snapshot) :
    Adds (r.recording.validate pass file baseline shot) fun _ => [] := by
  refine adds_bind_later r.adds_runTests fun tested => Silent.adds ?_
  cases tested with
  | none => exact silent_bind (silent_discard shot) fun _ => silent_pure _
  | some after =>
      dsimp only
      split
      · exact silent_bind (silent_rollBack shot) fun _ =>
          silent_bind (silent_report _) fun _ => silent_pure _
      · exact silent_bind (silent_discard shot) fun _ => silent_pure _

/-- **A transaction hands on its own plans, once.** -/
theorem adds_transact (pass : Pass) (e : FileEvaluation) (baseline : Option Nat) :
    Adds (r.recording.transact pass e baseline) fun _ => [e.plans] := by
  refine adds_bind_later (adds_nothing fun _ => rfl) fun confirmed => ?_
  cases confirmed with
  | false => exact (silent_pure _).adds.mono fun _ => List.nil_sublist _
  | true =>
      refine adds_bind_later (silent_snapshot _).adds fun shot => ?_
      have happly : Adds (byCrew (apply.recording (r.recording.root.join e.path) e.plans))
          fun _ => [e.plans] := fun s => ⟨[e.plans], rfl, List.Sublist.refl _⟩
      refine adds_bind_first happly fun applied => ?_
      match applied with
      | .ok true => exact r.adds_validate pass e.path baseline shot
      | .ok false => exact (silent_bind (silent_discard shot) fun _ => silent_pure _).adds
      | .error cause =>
          exact (silent_bind (silent_report _) fun _ =>
            silent_bind (silent_discard shot) fun _ => silent_pure _).adds

theorem adds_editFile (first : Bool) (state : PassState) (e : FileEvaluation) :
    Adds (r.recording.editFile first state e) fun s =>
      (fileTransactions state e s).map Transaction.plans := by
  have hreport : Adds (report (·.recordFailures e.failures) : RunM (σ × List (List Plan)) Unit)
      fun _ => [] := (silent_report _).adds
  unfold editFile fileTransactions
  dsimp only
  split
  · exact adds_bind_later hreport fun _ => (silent_pure _).adds
  · refine adds_bind_later hreport fun _ => adds_bind_first (r.adds_transact _ e _) fun _ => ?_
    exact (silent_bind (silent_report _) fun _ => silent_pure _).adds

theorem silent_evaluate (sel : Selection) (files : List Path) : Silent (r.evaluate sel files) :=
  fun _ => rfl

theorem adds_editFiles (sel : Selection) (files : List Path) (first : Bool) (state : PassState) :
    Adds (r.recording.editFiles sel files first state) fun s =>
      (r.recording.roundTransactions sel files first state s).map Transaction.plans := by
  have hclear : ∀ state' : PassState, Adds (do
      clearCache
      pure state' : RunM (σ × List (List Plan)) PassState) fun _ => [] :=
    fun state' => (silent_bind (fun _ => rfl) fun _ => silent_pure _).adds
  unfold editFiles
  split
  · rename_i hrules
    refine adds_bind (r.recording.silent_evaluate sel files).adds (fun evaluations =>
      adds_bind_first (adds_foldlM (r.adds_editFile first) _) hclear)
      (fun _ _ _ _ => List.nil_sublist _) fun s evaluations s' hrun => ?_
    rw [roundTransactions, if_pos hrules, hrun, List.nil_append, List.map_flatMap]
  · exact (hclear _).mono fun _ => List.nil_sublist _

theorem adds_editRounds (sel : Selection) (files : List Path) (left : Nat) (first : Bool)
    (state : PassState) :
    Adds (r.recording.editRounds sel files left first state) fun s =>
      (r.recording.roundsTransactions sel files left first state s).map Transaction.plans := by
  induction left generalizing first state with
  | zero => exact (silent_pure state).adds
  | succ left ih =>
      have hlater : ∀ state' : PassState, Adds (if state'.changed = 0 then pure state'
          else r.recording.editRounds sel files left false state') fun s =>
            if state'.changed = 0 then []
            else (r.recording.roundsTransactions sel files left false state' s).map
              Transaction.plans := by
        intro state'
        split
        · exact (silent_pure state').adds
        · exact ih false state'
      refine adds_bind (r.adds_editFiles sel files first state) hlater ?_ ?_
      · intro s e s' hrun
        rw [roundsTransactions, List.map_append]
        exact List.sublist_append_left _ _
      · intro s state' s' hrun
        rw [roundsTransactions, hrun, List.map_append]
        dsimp only
        rw [apply_ite (List.map Transaction.plans), List.map_nil]

theorem adds_runPass (files : List Path) (baseline : Option Nat) (pass : Pass) :
    Adds (r.recording.runPass files baseline pass) fun s =>
      (r.recording.passTransactions files baseline pass s).map Transaction.plans := by
  have hformat : Adds (r.recording.formatFiles files) fun _ => [] := adds_nothing fun _ => rfl
  have hrecord : ∀ summary : PassSummary, Adds (report (·.recordPass pass summary) :
      RunM (σ × List (List Plan)) Unit) fun _ => [] := fun _ => (silent_report _).adds
  have hreport : ∀ state : PassState, Adds (do
      let summary ← pure state.summary
      report (·.recordPass pass summary) : RunM (σ × List (List Plan)) Unit) fun _ => [] :=
    fun state => hrecord state.summary
  cases pass with
  | mechanicalNormalization => exact adds_bind_later hformat hrecord
  | finalCleanup => exact adds_bind_later hformat hrecord
  | typeHints =>
      exact adds_bind_first (r.adds_editRounds .typeHints files _ true _) hreport
  | architectureFixes =>
      exact adds_bind_first (r.adds_editFiles .architecture files true _) hreport
  | governanceNotes =>
      exact adds_bind_first (r.adds_editFiles .governance files true _) hreport

theorem silent_conclude (files : List Path) : Silent (r.conclude files) := by
  refine silent_bind (r.silent_evaluate .all files) fun evaluations => ?_
  rw [forIn_eq_foldlM]
  refine silent_bind ?_ fun _ => silent_pure _
  induction evaluations with
  | nil => exact silent_pure _
  | cons e rest ih => exact silent_bind (silent_report _) fun _ => ih

/-- **What a run hands on are plans of its transactions, in their order.** -/
theorem adds_run (files : List Path) :
    Adds (r.recording.run files) fun s =>
      (r.recording.transactions files s).map Transaction.plans := by
  have hpasses : ∀ baseline : Option Nat, Adds (do
      report fun s => { s with baseline }
      for pass in Pass.all do
        r.recording.runPass (files.map r.relative) baseline pass
      r.recording.conclude (files.map r.relative)
      pure (← get).summary : RunM (σ × List (List Plan)) RunSummary) fun s =>
        (steps (fun (_ : Unit) pass => r.recording.runPass (files.map r.relative) baseline pass)
          Pass.all () { s with summary := { s.summary with baseline } }).flatMap fun x =>
            (r.recording.passTransactions (files.map r.relative) baseline x.1 x.2.2).map
              Transaction.plans := by
    intro baseline
    have hend := silent_bind (r.recording.silent_conclude (files.map r.relative)) fun _ =>
      silent_get fun s => silent_pure s.summary
    rw [forIn_eq_foldlM]
    refine adds_bind (silent_report _).adds (fun _ => adds_bind_first (adds_foldlM
      (fun _ => r.adds_runPass (files.map r.relative) baseline) ()) fun _ => hend.adds)
      (fun _ _ _ _ => List.nil_sublist _) ?_
    intro s _ s' hrun
    obtain ⟨-, rfl⟩ := Prod.mk.inj hrun
    exact List.Sublist.refl _
  refine adds_bind r.adds_runTests (fun tested => hpasses (tested.getD none))
    (fun _ _ _ _ => List.nil_sublist _) fun s tested s' hrun => ?_
  rw [transactions, hrun, List.nil_append, List.map_flatMap]
  exact List.Sublist.refl _

end Remediation

end Plumbline
