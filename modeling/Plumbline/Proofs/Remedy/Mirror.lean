/-
Runs with a log.

What a crew keeps in its state is up to the crew, so that nothing can be read off it.  A log beside
that state tells what happens, and nobody of the crew can see it: `noted` is the same work, which also
makes an entry.  A run whose crew works beside a log in this way (`Remediation.Shadows`) is step by
step the run without the log (`RunM.Mirrors`), and has the same transactions.
-/
import Plumbline.Proofs.Remedy.Run

namespace Plumbline

variable {σ ν : Type} {apply : Applier σ} {apply' : Applier (σ × ν)}

/-! ### A log beside a state -/

/-- The same work beside a log.  The entry may depend on the disk before, the answer, and the disk
after. -/
def noted {α : Type} (note : Disk → α → Disk → ν → ν) (work : StateT σ DiskM α) :
    StateT (σ × ν) DiskM α := fun x => do
  let before ← get
  let (a, c) ← work.run x.1
  pure (a, (c, note before a (← get) x.2))

namespace RunState

/-- The state with a log beside that of the crew. -/
def beside (s : RunState σ) (log : ν) : RunState (σ × ν) where
  disk := s.disk
  crew := (s.crew, log)
  store := s.store
  cache := s.cache
  summary := s.summary

/-- The state without the log. -/
def alone (s : RunState (σ × ν)) : RunState σ where
  disk := s.disk
  crew := s.crew.1
  store := s.store
  cache := s.cache
  summary := s.summary

theorem store_alone (s : RunState (σ × ν)) : s.alone.store = s.store := rfl

end RunState

/-! ### Steps -/

namespace RunM

variable {α β : Type}

/-- Apart from the log, `logging` does what `work` does. -/
def Mirrors (logging : RunM (σ × ν) α) (work : RunM σ α) : Prop :=
  ∀ s, work.run.run s.alone = ((logging.run.run s).1, (logging.run.run s).2.alone)

theorem mirrors_pure (a : α) : Mirrors (σ := σ) (ν := ν) (pure a) (pure a) := fun _ => rfl

theorem mirrors_throw (e : BackupError) :
    Mirrors (throw e : RunM (σ × ν) α) (throw e) := fun _ => rfl

theorem mirrors_bind {work' : RunM (σ × ν) α} {work : RunM σ α} {next' : α → RunM (σ × ν) β}
    {next : α → RunM σ β} (h : Mirrors work' work) (hnext : ∀ a, Mirrors (next' a) (next a)) :
    Mirrors (work' >>= next') (work >>= next) := by
  intro s
  rw [ExceptT.run_bind, ExceptT.run_bind, StateT.run_bind, StateT.run_bind, h s]
  rcases work'.run.run s with ⟨e | a, s'⟩
  · rfl
  · exact hnext a s'

theorem mirrors_get {next' : RunState (σ × ν) → RunM (σ × ν) β}
    {next : RunState σ → RunM σ β} (h : ∀ s, Mirrors (next' s) (next s.alone)) :
    Mirrors (get >>= next') (get >>= next) := fun s => h s s

theorem mirrors_set {s' : RunState (σ × ν)} {s : RunState σ} (h : s = s'.alone) :
    Mirrors (set s' : RunM (σ × ν) PUnit) (set s) := by
  intro _
  rw [h]
  rfl

theorem mirrors_modify {f' : RunState (σ × ν) → RunState (σ × ν)} {f : RunState σ → RunState σ}
    (h : ∀ s, f s.alone = (f' s).alone) : Mirrors (modify f') (modify f) := by
  intro s
  show (Except.ok (), f s.alone) = (Except.ok (), (f' s).alone)
  rw [h s]

theorem mirrors_report (f : RunSummary → RunSummary) :
    Mirrors (report f : RunM (σ × ν) Unit) (report f) := mirrors_modify fun _ => rfl

theorem mirrors_clearCache : Mirrors (clearCache : RunM (σ × ν) Unit) clearCache :=
  mirrors_modify fun _ => rfl

theorem mirrors_onDisk (work : DiskM α) : Mirrors (onDisk work : RunM (σ × ν) α) (onDisk work) :=
  fun _ => rfl

theorem mirrors_noted (note : Disk → α → Disk → ν → ν) (work : StateT σ DiskM α) :
    Mirrors (byCrew (noted note work)) (byCrew work) := fun _ => rfl

theorem mirrors_foldlM {f' : β → α → RunM (σ × ν) β} {f : β → α → RunM σ β}
    (h : ∀ b a, Mirrors (f' b a) (f b a)) (items : List α) (b : β) :
    Mirrors (items.foldlM f' b) (items.foldlM f b) := by
  induction items generalizing b with
  | nil => exact mirrors_pure b
  | cons a rest ih =>
      rw [List.foldlM_cons, List.foldlM_cons]
      exact mirrors_bind (h b a) ih

theorem mirrors_forIn {f' : α → RunM (σ × ν) Unit} {f : α → RunM σ Unit}
    (h : ∀ a, Mirrors (f' a) (f a)) (items : List α) :
    Mirrors (forIn items PUnit.unit fun a _ => do f' a; pure (ForInStep.yield PUnit.unit))
      (forIn items PUnit.unit fun a _ => do f a; pure (ForInStep.yield PUnit.unit)) := by
  rw [forIn_eq_foldlM, forIn_eq_foldlM]
  exact mirrors_foldlM (fun _ => h) items _

/-- The steps of a fold begin in the same states. -/
theorem steps_alone {f' : β → α → RunM (σ × ν) β} {f : β → α → RunM σ β}
    (h : ∀ b a, Mirrors (f' b a) (f b a)) (items : List α) (b : β) (s : RunState (σ × ν)) :
    steps f items b s.alone = (steps f' items b s).map fun x => (x.1, x.2.1, x.2.2.alone) := by
  induction items generalizing b s with
  | nil => rfl
  | cons a rest ih =>
      rw [steps, steps, List.map_cons, h b a s]
      rcases (f' b a).run.run s with ⟨e | b', s'⟩
      · rfl
      · exact congrArg _ (ih b' s')

end RunM

/-! ### Work that nobody of the crew does -/

namespace RunM

variable {α β : Type}

/-- The crew has no part in the work. -/
def Silent (work : RunM σ α) : Prop := ∀ s, (work.run.run s).2.crew = s.crew

theorem silent_pure (a : α) : Silent (pure a : RunM σ α) := fun _ => rfl

theorem silent_throw (e : BackupError) : Silent (throw e : RunM σ α) := fun _ => rfl

theorem silent_bind {work : RunM σ α} {next : α → RunM σ β} (h : Silent work)
    (hnext : ∀ a, Silent (next a)) : Silent (work >>= next) := by
  intro s
  have hfirst := h s
  rw [ExceptT.run_bind, StateT.run_bind]
  rcases hrun : work.run.run s with ⟨e | a, s'⟩
  · rw [hrun] at hfirst
    exact hfirst
  · rw [hrun] at hfirst
    exact (hnext a s').trans hfirst

theorem silent_get {next : RunState σ → RunM σ β} (h : ∀ s, Silent (next s)) :
    Silent (get >>= next) := fun s => h s s

theorem silent_modify {f : RunState σ → RunState σ} (h : ∀ s, (f s).crew = s.crew) :
    Silent (modify f) := h

theorem silent_onDisk (work : DiskM α) : Silent (onDisk work : RunM σ α) := fun _ => rfl

theorem silent_report (f : RunSummary → RunSummary) : Silent (report f : RunM σ Unit) := fun _ => rfl

/-- What is said of the state of the crew holds on. -/
theorem Silent.after {work : RunM σ α} (h : Silent work) {s : RunState σ} {P : σ → Prop}
    (hP : P s.crew) : After work s (fun _ s' => P s'.crew) (fun _ s' => P s'.crew) := by
  rw [← h s] at hP
  unfold After
  rcases hrun : work.run.run s with ⟨e | a, s'⟩
  · rwa [hrun] at hP
  · rwa [hrun] at hP

end RunM

namespace Remediation

open RunM

theorem silent_snapshot (path : Path) : Silent (snapshot path : RunM σ (Option Snapshot)) := by
  refine silent_get fun s => ?_
  cases s.store with
  | none => exact silent_pure none
  | some store =>
      refine silent_bind (silent_onDisk _) fun x => silent_bind (silent_modify fun _ => rfl) ?_
      intro _
      cases x.1 with
      | ok shot => exact silent_pure _
      | error e => exact silent_throw e

theorem silent_discard (shot : Option Snapshot) : Silent (discard shot : RunM σ Unit) := by
  cases shot with
  | none => exact silent_pure ()
  | some shot =>
      refine silent_get fun s => ?_
      cases s.store with
      | none => exact silent_pure ()
      | some store => exact silent_bind (silent_onDisk _) fun _ => silent_modify fun _ => rfl

theorem silent_rollBack (shot : Option Snapshot) : Silent (rollBack shot : RunM σ Unit) := by
  cases shot with
  | none => exact silent_pure ()
  | some shot =>
      refine silent_bind (silent_onDisk _) fun restored => ?_
      cases restored with
      | error e => exact silent_throw e
      | ok _ => exact silent_discard (some shot)

end Remediation

/-! ### Runs -/

namespace Remediation

open RunM

/-- The same run, with a crew that works beside a log. -/
structure Shadows (r' : Remediation (σ × ν) apply') (r : Remediation σ apply) : Prop where
  root : r'.root = r.root
  config : r'.config = r.config
  registry : r'.registry = r.registry
  untested : r.crew.tests = none → r'.crew.tests = none
  tests : ∀ work, r.crew.tests = some work →
    ∃ work', r'.crew.tests = some work' ∧ Mirrors (byCrew work') (byCrew work)
  confirm : ∀ path plans,
    Mirrors (byCrew (r'.crew.confirm path plans)) (byCrew (r.crew.confirm path plans))
  format : ∀ files, Mirrors (byCrew (r'.crew.format files)) (byCrew (r.crew.format files))
  apply : ∀ path plans, Mirrors (byCrew (apply' path plans)) (byCrew (apply path plans))

theorem mirrors_snapshot (path : Path) :
    Mirrors (snapshot path : RunM (σ × ν) (Option Snapshot)) (snapshot path) := by
  refine mirrors_get fun s => ?_
  rw [RunState.store_alone]
  cases s.store with
  | none => exact mirrors_pure none
  | some store =>
      refine mirrors_bind (mirrors_onDisk _) fun x => mirrors_bind (mirrors_modify fun _ => rfl) ?_
      intro _
      cases x.1 with
      | ok shot => exact mirrors_pure _
      | error e => exact mirrors_throw e

theorem mirrors_discard (shot : Option Snapshot) :
    Mirrors (discard shot : RunM (σ × ν) Unit) (discard shot) := by
  cases shot with
  | none => exact mirrors_pure ()
  | some shot =>
      refine mirrors_get fun s => ?_
      rw [RunState.store_alone]
      cases s.store with
      | none => exact mirrors_pure ()
      | some store => exact mirrors_bind (mirrors_onDisk _) fun _ => mirrors_modify fun _ => rfl

theorem mirrors_rollBack (shot : Option Snapshot) :
    Mirrors (rollBack shot : RunM (σ × ν) Unit) (rollBack shot) := by
  cases shot with
  | none => exact mirrors_pure ()
  | some shot =>
      refine mirrors_bind (mirrors_onDisk _) fun restored => ?_
      cases restored with
      | error e => exact mirrors_throw e
      | ok _ => exact mirrors_discard (some shot)

namespace Shadows

variable {r' : Remediation (σ × ν) apply'} {r : Remediation σ apply} (h : r'.Shadows r)
include h

theorem mirrors_runTests : Mirrors r'.runTests r.runTests := by
  unfold runTests
  cases htests : r.crew.tests with
  | none =>
      rw [h.untested htests]
      exact mirrors_pure none
  | some work =>
      obtain ⟨work', htests', hwork⟩ := h.tests work htests
      rw [htests', h.config]
      exact mirrors_bind hwork fun _ => mirrors_pure _

theorem mirrors_validate (pass : Pass) (file : Path) (baseline : Option Nat)
    (shot : Option Snapshot) :
    Mirrors (r'.validate pass file baseline shot) (r.validate pass file baseline shot) := by
  refine mirrors_bind h.mirrors_runTests fun tested => ?_
  cases tested with
  | none => exact mirrors_bind (mirrors_discard shot) fun _ => mirrors_pure _
  | some after =>
      dsimp only
      split
      · exact mirrors_bind (mirrors_rollBack shot) fun _ =>
          mirrors_bind (mirrors_report _) fun _ => mirrors_pure _
      · exact mirrors_bind (mirrors_discard shot) fun _ => mirrors_pure _

theorem mirrors_transact (pass : Pass) (e : FileEvaluation) (baseline : Option Nat) :
    Mirrors (r'.transact pass e baseline) (r.transact pass e baseline) := by
  unfold transact
  rw [h.root]
  refine mirrors_bind (h.confirm _ _) fun confirmed => ?_
  cases confirmed with
  | false => exact mirrors_pure _
  | true =>
      refine mirrors_bind (mirrors_snapshot _) fun shot => mirrors_bind (h.apply _ _) ?_
      intro applied
      match applied with
      | .ok true => exact h.mirrors_validate pass e.path baseline shot
      | .ok false => exact mirrors_bind (mirrors_discard shot) fun _ => mirrors_pure _
      | .error cause =>
          exact mirrors_bind (mirrors_report _) fun _ =>
            mirrors_bind (mirrors_discard shot) fun _ => mirrors_pure _

theorem mirrors_editFile (first : Bool) (state : PassState) (e : FileEvaluation) :
    Mirrors (r'.editFile first state e) (r.editFile first state e) := by
  refine mirrors_bind (mirrors_report _) fun _ => ?_
  dsimp only
  split
  · exact mirrors_pure _
  · exact mirrors_bind (h.mirrors_transact _ e _) fun _ =>
      mirrors_bind (mirrors_report _) fun _ => mirrors_pure _

theorem mirrors_evaluate (sel : Selection) (files : List Path) :
    Mirrors (r'.evaluate sel files) (r.evaluate sel files) := by
  unfold evaluate
  rw [h.root, h.config, h.registry]
  exact mirrors_get fun _ => mirrors_bind (mirrors_set rfl) fun _ => mirrors_pure _

theorem mirrors_editFiles (sel : Selection) (files : List Path) (first : Bool)
    (state : PassState) :
    Mirrors (r'.editFiles sel files first state) (r.editFiles sel files first state) := by
  unfold editFiles
  rw [h.registry]
  split
  · refine mirrors_bind (h.mirrors_evaluate sel files) fun evaluations => ?_
    exact mirrors_bind (mirrors_foldlM (h.mirrors_editFile first) _ _) fun _ =>
      mirrors_bind mirrors_clearCache fun _ => mirrors_pure _
  · exact mirrors_bind mirrors_clearCache fun _ => mirrors_pure _

theorem mirrors_editRounds (sel : Selection) (files : List Path) (left : Nat) (first : Bool)
    (state : PassState) :
    Mirrors (r'.editRounds sel files left first state)
      (r.editRounds sel files left first state) := by
  induction left generalizing first state with
  | zero => exact mirrors_pure state
  | succ left ih =>
      refine mirrors_bind (h.mirrors_editFiles sel files first state) fun state => ?_
      split
      · exact mirrors_pure state
      · exact ih false state

theorem mirrors_runPass (files : List Path) (baseline : Option Nat) (pass : Pass) :
    Mirrors (r'.runPass files baseline pass) (r.runPass files baseline pass) := by
  have hformat : Mirrors (r'.formatFiles files) (r.formatFiles files) :=
    mirrors_bind (h.format _) fun _ => mirrors_bind mirrors_clearCache fun _ => mirrors_pure _
  unfold runPass
  rw [h.config]
  cases pass with
  | mechanicalNormalization => exact mirrors_bind hformat fun _ => mirrors_report _
  | finalCleanup => exact mirrors_bind hformat fun _ => mirrors_report _
  | typeHints =>
      exact mirrors_bind (h.mirrors_editRounds .typeHints files _ true _) fun _ =>
        mirrors_bind (mirrors_pure _) fun _ => mirrors_report _
  | architectureFixes =>
      exact mirrors_bind (h.mirrors_editFiles .architecture files true _) fun _ =>
        mirrors_bind (mirrors_pure _) fun _ => mirrors_report _
  | governanceNotes =>
      exact mirrors_bind (h.mirrors_editFiles .governance files true _) fun _ =>
        mirrors_bind (mirrors_pure _) fun _ => mirrors_report _

theorem mirrors_conclude (files : List Path) : Mirrors (r'.conclude files) (r.conclude files) :=
  mirrors_bind (h.mirrors_evaluate .all files) fun evaluations =>
    mirrors_bind (mirrors_forIn (fun _ => mirrors_report _) evaluations) fun _ => mirrors_pure _

/-- **A run with a log is the run without it.** -/
theorem mirrors_run (files : List Path) : Mirrors (r'.run files) (r.run files) := by
  unfold run
  rw [h.root]
  refine mirrors_bind h.mirrors_runTests fun tested => mirrors_bind (mirrors_report _) fun _ => ?_
  refine mirrors_bind (mirrors_forIn (h.mirrors_runPass _ _) Pass.all) fun _ => ?_
  exact mirrors_bind (h.mirrors_conclude _) fun _ => mirrors_get fun _ => mirrors_pure _

end Shadows

/-! ### Transactions -/

/-- The transaction without the log. -/
def Transaction.alone (t : Transaction (σ × ν)) : Transaction σ where
  pass := t.pass
  evaluation := t.evaluation
  baseline := t.baseline
  before := t.before.alone

theorem fileTransactions_alone (state : PassState) (e : FileEvaluation) (s : RunState (σ × ν)) :
    fileTransactions state e s.alone = (fileTransactions state e s).map Transaction.alone := by
  unfold fileTransactions
  split <;> rfl

namespace Shadows

variable {r' : Remediation (σ × ν) apply'} {r : Remediation σ apply} (h : r'.Shadows r)
include h

theorem roundTransactions_alone (sel : Selection) (files : List Path) (first : Bool)
    (state : PassState) (s : RunState (σ × ν)) :
    r.roundTransactions sel files first state s.alone =
      (r'.roundTransactions sel files first state s).map Transaction.alone := by
  unfold roundTransactions
  rw [h.registry]
  split
  · rw [h.mirrors_evaluate sel files s]
    rcases (r'.evaluate sel files).run.run s with ⟨e | evaluations, s'⟩
    · rfl
    · dsimp only
      rw [steps_alone (h.mirrors_editFile first), List.flatMap_map, List.map_flatMap]
      simp only [fileTransactions_alone]
  · rfl

theorem roundsTransactions_alone (sel : Selection) (files : List Path) (left : Nat) (first : Bool)
    (state : PassState) (s : RunState (σ × ν)) :
    r.roundsTransactions sel files left first state s.alone =
      (r'.roundsTransactions sel files left first state s).map Transaction.alone := by
  induction left generalizing first state s with
  | zero => rfl
  | succ left ih =>
      rw [roundsTransactions, roundsTransactions, List.map_append, h.roundTransactions_alone,
        h.mirrors_editFiles sel files first state s]
      rcases (r'.editFiles sel files first state).run.run s with ⟨e | state', s'⟩
      · rfl
      · dsimp only
        split
        · rfl
        · rw [ih]

theorem passTransactions_alone (files : List Path) (baseline : Option Nat) (pass : Pass)
    (s : RunState (σ × ν)) :
    r.passTransactions files baseline pass s.alone =
      (r'.passTransactions files baseline pass s).map Transaction.alone := by
  unfold passTransactions
  rw [h.config]
  cases pass with
  | mechanicalNormalization => rfl
  | finalCleanup => rfl
  | typeHints => exact h.roundsTransactions_alone ..
  | architectureFixes => exact h.roundTransactions_alone ..
  | governanceNotes => exact h.roundTransactions_alone ..

/-- **A run with a log has the transactions of the run without it.** -/
theorem transactions_alone (files : List Path) (s : RunState (σ × ν)) :
    r.transactions files s.alone = (r'.transactions files s).map Transaction.alone := by
  have hrelative : r'.relative = r.relative := by
    funext file
    unfold relative
    rw [h.root]
  unfold transactions
  rw [h.mirrors_runTests s, hrelative]
  rcases r'.runTests.run.run s with ⟨e | tested, s'⟩
  · rfl
  · dsimp only
    have hsteps := steps_alone (fun (_ : Unit) pass =>
      h.mirrors_runPass (files.map r.relative) (tested.getD none) pass) Pass.all ()
        { s' with summary := { s'.summary with baseline := tested.getD none } }
    refine (congrArg _ hsteps).trans ?_
    rw [List.flatMap_map, List.map_flatMap]
    simp only [h.passTransactions_alone]

end Shadows

end Remediation

end Plumbline
