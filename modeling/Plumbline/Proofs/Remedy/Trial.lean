/-
Edits on trial, as the tests see them.

A crew that keeps a log (`Crew.watched`) writes down each answer to the question whether a file may be
edited, with the disk at that moment, and the disk on which each run of the tests begins.  The log of a
validated run (`Trials`) starts with the tests before all edits.  Each later run of the tests comes right
after a yes, and on its disk the store lists one snapshot, that of the file asked about: whoever recovers
there gets the files back as they were at the yes, with all edits that were made before (`TakesBack`).
-/
import Plumbline.Proofs.Remedy.Mirror
import Plumbline.Proofs.Remedy.Pending

namespace Plumbline

open Disk

variable {σ ν : Type}

/-! ### A crew that is watched -/

/-- What happens in a run apart from the run's own work. -/
inductive Event where
  /-- Whoever confirms plans has answered whether a file may be edited. -/
  | answered (file : Path) (answer : Bool) (disk : Disk)
  /-- The tests are run. -/
  | tested (disk : Disk)

namespace Event

def ofTests (before : Disk) (_ : TestOutcome) (_ : Disk) (log : List Event) : List Event :=
  log ++ [tested before]

def ofAnswer (file : Path) (_ : Disk) (answer : Bool) (after : Disk) (log : List Event) :
    List Event := log ++ [answered file answer after]

end Event

/-- The same crew, with a log of answers and of runs of the tests. -/
def Crew.watched (crew : Crew σ) : Crew (σ × List Event) where
  tests := crew.tests.map (noted Event.ofTests)
  confirm file plans := noted (Event.ofAnswer file) (crew.confirm file plans)
  format files := noted (fun _ _ _ log => log) (crew.format files)

/-- The same run, with a crew that is watched. -/
def Remediation.watched (r : Remediation σ) : Remediation (σ × List Event) where
  root := r.root
  config := r.config
  registry := r.registry
  crew := r.crew.watched

theorem Remediation.shadows_watched (r : Remediation σ) : r.watched.Shadows r where
  root := rfl
  config := rfl
  registry := rfl
  untested h := by
    show r.crew.tests.map (noted Event.ofTests) = none
    rw [h]
    rfl
  tests work h := by
    refine ⟨noted Event.ofTests work, ?_, RunM.mirrors_noted Event.ofTests work⟩
    show r.crew.tests.map (noted Event.ofTests) = some (noted Event.ofTests work)
    rw [h]
    rfl
  confirm file plans := RunM.mirrors_noted (Event.ofAnswer file) (r.crew.confirm file plans)
  format files := RunM.mirrors_noted (fun _ _ _ log => log) (r.crew.format files)
  apply path plans := RunM.mirrors_onDisk (Plan.applyToFile path plans)

theorem Spares.noted {α : Type} {dir : Path} {work : StateT σ DiskM α} (h : Spares dir work)
    (note : Disk → α → Disk → ν → ν) : Spares dir (noted note work) :=
  ⟨fun c d => h.cwd c.1 d, fun c d => h.pending c.1 d⟩

theorem Crew.Spares.watched {crew : Crew σ} {dir : Path} (h : crew.Spares dir) :
    crew.watched.Spares dir where
  tests work hwork := by
    obtain ⟨work', hwork', rfl⟩ := Option.map_eq_some_iff.mp hwork
    exact (h.tests work' hwork').noted _
  confirm file plans :=
    (h.confirm file plans).noted (Event.ofAnswer file)
  format files := (h.format files).noted fun _ _ _ log => log

/-! ### The log of a run -/

open BackupStore in
/-- A store that is reopened from `d` lists one snapshot, with what the file at `path` held on `asked`.
Recovery puts it back and changes no other file, so that the files are as they were then. -/
def TakesBack (dir path : Path) (asked d : Disk) : Prop :=
  ∃ e content store d', (reopened dir d).entries = [e] ∧ e.path = path ∧
    d.Holds (dir.join e.id) content ∧ asked.Holds path content ∧
    (recover (reopened dir d)).run d.repaired = ((.ok [path], store), d') ∧
    ∀ q, ¬ Owns (some dir) d.cwd q →
      (d'.tree.file? q = if q = d.place path then some content else d.tree.file? q) ∧
      (q ≠ d.place (draftPath path) → d'.tree.file? q = asked.tree.file? q)

/-- A log that begins with `first`: later on, tests are run only right after a yes, when the edit of
the file asked about can be taken back. -/
inductive Trials (dir root : Path) (first : List Event) : List Event → Prop
  | begins : Trials dir root first first
  | answered {log : List Event} (h : Trials dir root first log) (file : Path) (answer : Bool)
      (asked : Disk) : Trials dir root first (log ++ [.answered file answer asked])
  | tested {log : List Event} {file : Path} {asked d : Disk}
      (h : Trials dir root first (log ++ [.answered file true asked]))
      (hback : TakesBack dir (root.join file) asked d) :
      Trials dir root first (log ++ [.answered file true asked] ++ [.tested d])

namespace Trials

variable {dir root : Path} {first log : List Event}

theorem isPrefix (h : Trials dir root first log) : first <+: log := by
  induction h with
  | begins => exact List.prefix_rfl
  | answered _ _ _ _ ih => exact ih.trans (List.prefix_append _ _)
  | tested _ _ ih => exact ih.trans (List.prefix_append _ _)

/-- Wherever tests are run later on, an edit is on trial. -/
theorem takesBack (h : Trials dir root first log) {before after : List Event} {d : Disk}
    (hlog : log = before ++ .tested d :: after) (hlater : first.length ≤ before.length) :
    ∃ front file asked, before = front ++ [.answered file true asked] ∧
      TakesBack dir (root.join file) asked d := by
  induction h generalizing after with
  | begins =>
      have hlength := congrArg List.length hlog
      simp only [List.length_append, List.length_cons] at hlength
      omega
  | answered h file answer asked ih =>
      rcases List.eq_nil_or_concat after with rfl | ⟨after', last, rfl⟩
      · exact nomatch (List.append_inj' hlog rfl).2
      · rw [List.concat_eq_append, ← List.cons_append, ← List.append_assoc] at hlog
        exact ih (List.append_inj' hlog rfl).1
  | tested h hback ih =>
      rcases List.eq_nil_or_concat after with rfl | ⟨after', last, rfl⟩
      · obtain ⟨rfl, hlast⟩ := List.append_inj' hlog rfl
        obtain rfl := Event.tested.inj (List.singleton_inj.mp hlast)
        exact ⟨_, _, _, rfl, hback⟩
      · rw [List.concat_eq_append, ← List.cons_append, ← List.append_assoc] at hlog
        exact ih (List.append_inj' hlog rfl).1

end Trials

open BackupStore in
/-- An edit that can be undone is taken back as a whole: what is left are the files before it. -/
theorem BackupStore.Undoable.takesBack {dir path : Path} {content : ByteArray} {e : ManifestEntry}
    {asked d : Disk} (h : Undoable dir path content e d) (hheld : asked.Holds path content)
    (hcwd : d.cwd = asked.cwd)
    (hfiles : ∀ q, ¬ Owns (some dir) asked.cwd q → q ≠ asked.place path →
      d.tree.file? q = if q = asked.place (draftPath path) then none else asked.tree.file? q) :
    TakesBack dir path asked d := by
  have hplace (p : Path) : asked.place p = d.place p := by rw [place, place, hcwd]
  rw [hplace, hplace, ← hcwd] at hfiles
  obtain ⟨hok, -, hback⟩ := h.repaired.after_recover d.sound_repaired
  rw [← h.reopened] at hok hback
  refine ⟨e, content, _, _, by rw [h.reopened], h.path, h.stored, hheld,
    Prod.ext (Prod.ext hok rfl) rfl, fun q hq => ?_⟩
  have hafter := hback q hq
  by_cases hedited : q = d.place path
  · have hnow := hafter.trans (if_pos hedited)
    refine ⟨hnow.trans (if_pos hedited).symm, fun _ => hnow.trans ?_⟩
    rw [hedited, ← hplace]
    exact hheld.file?.symm
  · have hnow := hafter.trans (if_neg hedited)
    rw [if_neg hedited, hfiles q hq hedited]
    by_cases hdraft : q = d.place (draftPath path)
    · rw [if_pos hdraft]
      exact ⟨hnow.trans (if_pos hdraft), fun h => absurd hdraft h⟩
    · rw [if_neg hdraft]
      have hsame := (hnow.trans (if_neg hdraft)).trans (hfiles q hq hedited)
      rw [if_neg hdraft] at hsame
      exact ⟨hsame, fun _ => hsame⟩

namespace RunM

variable {α : Type}

theorem After.of_ok {work : RunM σ α} {s s' : RunState σ} {a : α} {Q : α → RunState σ → Prop}
    {E : BackupError → RunState σ → Prop} (h : After work s Q E)
    (hrun : work.run.run s = (.ok a, s')) : Q a s' := by
  unfold After at h
  rwa [hrun] at h

theorem After.and {work : RunM σ α} {s : RunState σ} {P Q : α → RunState σ → Prop}
    {E F : BackupError → RunState σ → Prop} (h : After work s P E) (h' : After work s Q F) :
    After work s (fun a s' => P a s' ∧ Q a s') (fun e s' => E e s' ∧ F e s') := by
  unfold After at h h' ⊢
  rcases hrun : work.run.run s with ⟨e | a, s'⟩
  · rw [hrun] at h h'
    exact ⟨h, h'⟩
  · rw [hrun] at h h'
    exact ⟨h, h'⟩

end RunM

namespace Remediation

open RunM BackupStore

/-! ### What the log of a run says -/

variable {r : Remediation σ} {dir : Path} {files : List Path} {s : RunState (σ × List Event)}
  {first : List Event}

/-- The log so far is that of a run that keeps what it has to. -/
abbrev Logs (r : Remediation σ) (dir : Path) (first : List Event) (s : RunState (σ × List Event)) :
    Prop := Trials dir r.root first s.crew.2

theorem after_validate_logs (pass : Pass) (file : Path) (baseline : Option Nat)
    (shot : Option Snapshot) (hlog : Logs r dir first s)
    (htested : Trials dir r.root first (s.crew.2 ++ [.tested s.disk])) :
    After (r.watched.validate pass file baseline shot) s (fun _ s' => Logs r dir first s')
      (fun _ s' => Logs r dir first s') := by
  have htests : r.watched.crew.tests =
      r.crew.tests.map (noted Event.ofTests) := rfl
  have hrun : After r.watched.runTests s (fun _ s' => Logs r dir first s')
      (fun _ s' => Logs r dir first s') := by
    unfold runTests
    rw [htests]
    cases r.crew.tests with
    | none => exact hlog
    | some work => exact htested
  refine after_bind (hrun.imp ?_ fun _ _ h => h)
  intro tested s' hs'
  refine Silent.after (P := fun c : σ × List Event => Trials dir r.root first c.2) ?_ hs'
  cases tested with
  | none => exact silent_bind (silent_discard shot) fun _ => silent_pure _
  | some after =>
      dsimp only
      split
      · exact silent_bind (silent_rollBack shot) fun _ =>
          silent_bind (silent_report _) fun _ => silent_pure _
      · exact silent_bind (silent_discard shot) fun _ => silent_pure _

/-- **Tests are run on edits that can be taken back.** -/
theorem Clear.after_transact_logs (h : Clear r.watched dir files s)
    (hspares : r.crew.Spares dir) (hlog : Logs r dir first s) (pass : Pass) {e : FileEvaluation}
    (he : e.path ∈ files) (baseline : Option Nat)
    (hclock : ((byCrew (r.watched.crew.confirm e.path e.plans)).run.run s).2.disk.now.IsTellable) :
    After (r.watched.transact pass e baseline) s (fun _ s' => Logs r dir first s')
      (fun _ s' => Logs r dir first s') := by
  obtain ⟨answer, s₁, hrun⟩ : ∃ answer s₁,
      (byCrew (r.watched.crew.confirm e.path e.plans)).run.run s = (.ok answer, s₁) := ⟨_, _, rfl⟩
  have hlogged : After (byCrew (r.watched.crew.confirm e.path e.plans)) s
      (fun answer s' => s'.crew.2 = s.crew.2 ++ [.answered e.path answer s'.disk])
      (fun _ _ => True) := RunM.after_byCrew rfl
  obtain ⟨⟨hclear, -⟩, hcrew⟩ := ((h.after_byCrew (hspares.watched.confirm e.path e.plans)
    (E := fun _ _ => True)).and hlogged).of_ok hrun
  rw [hrun] at hclock
  have hasked : ∀ c : σ × List Event, c = s₁.crew → Trials dir r.root first c.2 := by
    rintro _ rfl
    rw [hcrew]
    exact hlog.answered _ _ _
  refine after_bind_ok hrun ?_
  cases answer with
  | false => exact hasked _ rfl
  | true =>
      have hedit := after_bind_iff.mp (after_edit hclear.store hclock
        (hclear.notOwned e.path he) e.plans)
      have hkept := (silent_snapshot (r.root.join e.path)).after (P := (· = s₁.crew)) rfl
      refine after_bind ((hedit.and hkept).imp ?_ fun _ _ h => hasked _ h.2)
      rintro shot s₂ ⟨hedit, hkept⟩
      have hedit := (after_bind_iff.mp hedit).and ((silent_onDisk _).after (P := (· = s₁.crew)) hkept)
      refine after_bind (hedit.imp ?_ fun _ _ h => hasked _ h.2)
      rintro outcome s₃ ⟨⟨taken, entry, -, -, -, -, hcwd, hheld, hdone⟩, hcrew₃⟩
      have hlog₃ := hasked _ hcrew₃
      have hsilent : ∀ work : RunM (σ × List Event) FileResult, Silent work →
          After work s₃ (fun _ s' => Logs r dir first s') (fun _ s' => Logs r dir first s') :=
        fun work h => h.after (P := fun c : σ × List Event => Trials dir r.root first c.2) hlog₃
      match outcome with
      | .ok true =>
          obtain ⟨hundoable, hfiles⟩ := hdone rfl
          refine after_validate_logs pass e.path baseline shot hlog₃ ?_
          rw [hcrew₃, hcrew] at hlog₃ ⊢
          exact hlog₃.tested (hundoable.takesBack hheld hcwd hfiles)
      | .ok false => exact hsilent _ (silent_bind (silent_discard shot) fun _ => silent_pure _)
      | .error cause =>
          exact hsilent _ (silent_bind (silent_report _) fun _ =>
            silent_bind (silent_discard shot) fun _ => silent_pure _)

/-- **Between its transactions a run that is watched leaves nothing pending, and its log is kept.** -/
theorem maintained_logs (hspares : r.crew.Spares dir) (baseline : Option Nat) :
    Maintained r.watched files baseline
      (fun t => (r.watched.asked t).disk.now.IsTellable ∧ r.watched.SavesOnDrop t)
      (fun s => Clear r.watched dir files s ∧ Logs r dir first s)
      (fun _ s => Logs r dir first s) where
  bookkeeping _ _ _ _ h := ⟨⟨h.1.store, h.1.listed, h.1.notOwned⟩, h.2⟩
  format s h := by
    have hcrew : After (byCrew (r.watched.crew.format files)) s (fun _ s' => Logs r dir first s')
        (fun _ s' => Logs r dir first s') := RunM.after_byCrew h.2
    have hclear := h.1.after_byCrew (hspares.watched.format files) (E := fun _ _ => True)
    exact (hclear.and hcrew).imp (fun _ _ h => ⟨h.1.1, h.2⟩) fun _ _ h => h.2
  transact t ht hlisted hcompared h := by
    have hclear := (maintained_clear hspares.watched baseline).transact t ht hlisted hcompared h.1
    have hlogs := h.1.after_transact_logs hspares h.2 t.pass hlisted t.baseline ht.1
    exact (hclear.and hlogs).imp (fun _ _ h => h) fun _ _ h => h.2

/-! ### From the run without the log -/

variable {r' : Remediation (σ × ν)}

theorem mirrors_edit (path : Path) (plans : List Plan) :
    Mirrors (edit path plans : RunM (σ × ν) _) (edit path plans) :=
  mirrors_bind (mirrors_snapshot path) fun _ => mirrors_bind (mirrors_onDisk _) fun _ =>
    mirrors_pure _

theorem Shadows.mirrors_judge (h : r'.Shadows r) (baseline : Option Nat) (shot : Option Snapshot) :
    Mirrors (r'.judge baseline shot) (r.judge baseline shot) := by
  refine mirrors_bind h.mirrors_runTests fun tested => ?_
  cases tested with
  | none => exact mirrors_pure ()
  | some after =>
      dsimp only
      split
      · cases shot with
        | none => exact mirrors_pure ()
        | some taken =>
            refine mirrors_bind (mirrors_onDisk _) fun restored => ?_
            cases restored with
            | error e => exact mirrors_throw e
            | ok _ => exact mirrors_pure ()
      · exact mirrors_pure ()

theorem Shadows.mirrors_untilDrop (h : r'.Shadows r) (e : FileEvaluation) (baseline : Option Nat) :
    Mirrors (r'.untilDrop e baseline) (r.untilDrop e baseline) := by
  unfold untilDrop
  rw [h.root]
  refine mirrors_bind (h.confirm _ _) fun confirmed => ?_
  cases confirmed with
  | false => exact mirrors_pure none
  | true =>
      refine mirrors_bind (mirrors_edit _ _) fun edited => ?_
      obtain ⟨shot, outcome⟩ := edited
      match outcome with
      | .ok true => exact mirrors_bind (h.mirrors_judge baseline shot) fun _ => mirrors_pure _
      | .ok false => exact mirrors_bind (mirrors_pure ()) fun _ => mirrors_pure _
      | .error cause => exact mirrors_bind (mirrors_pure ()) fun _ => mirrors_pure _

theorem Shadows.asked_alone (h : r'.Shadows r) (t : Transaction (σ × ν)) :
    r.asked t.alone = (r'.asked t).alone :=
  congrArg Prod.snd (h.confirm t.evaluation.path t.evaluation.plans t.before)

theorem Shadows.savesOnDrop (h : r'.Shadows r) {t : Transaction (σ × ν)}
    (hsaves : r.SavesOnDrop t.alone) : r'.SavesOnDrop t := by
  have hmirror := h.mirrors_untilDrop t.evaluation t.baseline t.before
  unfold SavesOnDrop at hsaves ⊢
  rcases hrun' : (r'.untilDrop t.evaluation t.baseline).run.run t.before with ⟨e | _ | shot, s⟩
  · trivial
  · trivial
  · have hrun : (r.untilDrop t.alone.evaluation t.alone.baseline).run.run t.alone.before =
        (.ok (some shot), s.alone) := by
      rw [hrun'] at hmirror
      exact hmirror
    rw [hrun] at hsaves
    exact hsaves

/-- The log with which a run begins its first pass. -/
def firstTests (r : Remediation σ) (d : Disk) : List Event :=
  if r.crew.tests.isSome then [.tested d] else []

/-- The watched run has the transactions of the run itself. -/
theorem alone_mem_transactions (r : Remediation σ) {files : List Path} {s : RunState σ}
    {t : Transaction (σ × List Event)} (ht : t ∈ r.watched.transactions files (s.beside [])) :
    t.alone ∈ r.transactions files s := by
  have halone := r.shadows_watched.transactions_alone files (s.beside [])
  rw [show (s.beside ([] : List Event)).alone = s from rfl] at halone
  rw [halone]
  exact List.mem_map_of_mem ht

/-- The log begins with the first run of the tests, if there is one. -/
theorem Clear.after_runTests_logs {r : Remediation σ} {dir : Path} {files : List Path} {s : RunState σ}
    (hclear : Clear r.watched dir files (s.beside [])) (hspares : r.crew.Spares dir) :
    After r.watched.runTests (s.beside []) (fun tested s' =>
      (Clear r.watched dir files s' ∧ Logs r dir (r.firstTests s.disk) s') ∧
        tested.getD none = r.watched.baselineAt (s.beside []))
      (fun _ s' => Logs r dir (r.firstTests s.disk) s') := by
  have hlog : After r.watched.runTests (s.beside [])
      (fun _ s' => s'.crew.2 = r.firstTests s.disk) (fun _ _ => False) := by
    have htests : r.watched.crew.tests = r.crew.tests.map (noted Event.ofTests) := rfl
    unfold runTests firstTests
    rw [htests]
    cases r.crew.tests with
    | none => rfl
    | some work => exact after_bind (RunM.after_byCrew rfl)
  refine ((hclear.after_runTests hspares.watched.tests (E := fun _ _ => True)).and hlog).imp ?_
    fun _ _ h => absurd h.2 id
  rintro tested s' ⟨⟨hclear', hbaseline⟩, hcrew⟩
  refine ⟨⟨hclear', ?_⟩, hbaseline⟩
  show Trials dir r.root (r.firstTests s.disk) s'.crew.2
  rw [hcrew]
  exact .begins

/-- **What a run keeps on the disk.**  The store of the run was opened where the run starts and lists
nothing, its manifest is saved whenever a snapshot is dropped, no file of the run is one of the
store's own, and nobody of the crew lists anything in the manifest.  Then a store reopened from the
disk lists nothing when the tests are run first.  The same run, with a crew that is watched, has a log
in which every later run of the tests comes right after a yes, when the store lists one snapshot, that
of the file asked about, with what it held then, and recovery puts this file back and changes no other
(`TakesBack`).  When the run has come to its end, the store lists nothing. -/
theorem run_pending (r : Remediation σ) (files : List Path) (s : RunState σ) (dir : Path)
    (hopened : s.store = some (reopened dir s.disk))
    (hnone : ∀ store, s.store = some store → store.pending = []) (hspares : r.crew.Spares dir)
    (hown : ∀ f ∈ files, ¬ s.Owns (s.disk.place (r.root.join (r.relative f))))
    (hclock : ∀ t ∈ r.transactions files s, (r.asked t).disk.now.IsTellable)
    (hsaves : ∀ t ∈ r.transactions files s, r.SavesOnDrop t) :
    (reopened dir s.disk).pending = [] ∧
    ∃ outcome s' log, (r.run files).run.run s = (outcome, s') ∧
      (r.watched.run files).run.run (s.beside []) = (outcome, s'.beside log) ∧
      r.firstTests s.disk <+: log ∧
      (∀ before d after, log = before ++ .tested d :: after → before = [] ∨
        ∃ front file asked, before = front ++ [.answered file true asked] ∧
          TakesBack dir (r.root.join file) asked d) ∧
      ∀ summary, outcome = .ok summary → (reopened dir s'.disk).pending = [] := by
  have hempty := hnone _ hopened
  have hstore := reopened_eq (List.map_eq_nil_iff.mp hempty)
  have hclear : Clear r.watched dir (files.map r.watched.relative) (s.beside []) := by
    refine ⟨by rw [← hstore, ← hopened]; rfl, by rw [RunState.beside, hstore], ?_⟩
    refine List.forall_mem_map.mpr fun f hf => ?_
    have hnot := hown f hf
    unfold RunState.Owns at hnot
    rw [hopened, hstore] at hnot
    exact hnot
  have htransactions : ∀ t ∈ r.watched.transactions files (s.beside []),
      (r.watched.asked t).disk.now.IsTellable ∧ r.watched.SavesOnDrop t := by
    intro t ht
    have hmem := r.alone_mem_transactions ht
    have hasked := hclock _ hmem
    rw [r.shadows_watched.asked_alone] at hasked
    exact ⟨hasked, r.shadows_watched.savesOnDrop (hsaves _ hmem)⟩
  obtain ⟨hend, -⟩ :=
    (maintained_logs hspares _).after_run (hclear.after_runTests_logs hspares) htransactions
  have hmirror := r.shadows_watched.mirrors_run files (s.beside [])
  rcases hrun : (r.watched.run files).run.run (s.beside []) with ⟨outcome, s'⟩
  rw [hrun] at hmirror
  have hlog : Trials dir r.root (r.firstTests s.disk) s'.crew.2 := by
    unfold After at hend
    rw [hrun] at hend
    cases outcome with
    | ok summary => exact hend.1.2
    | error e => exact hend
  refine ⟨hempty, outcome, s'.alone, s'.crew.2, hmirror, rfl, hlog.isPrefix, ?_, ?_⟩
  · intro before d after hsplit
    cases before with
    | nil => exact Or.inl rfl
    | cons event before =>
        refine Or.inr (hlog.takesBack hsplit ?_)
        unfold firstTests
        split
        · simp
        · simp
  · rintro summary rfl
    exact List.map_eq_nil_iff.mpr (hend.of_ok hrun).1.1.listed

theorem spares_pure {α : Type} (dir : Path) (a : α) : Spares dir (pure a : StateT σ DiskM α) :=
  ⟨fun _ _ => rfl, fun _ _ h => h⟩

theorem spares_fixedRun (plan : Plan) (dir : Path) : (fixedRun plan).crew.Spares dir where
  tests work h := by
    obtain rfl : pure (.completed 0) = work := Option.some.inj h
    exact spares_pure dir _
  confirm _ _ := spares_pure dir _
  format _ := spares_pure dir _

theorem reopened_oneFile : (reopened "/b" (oneFile "a.py" "/b").disk).entries = [] := by
  decide +kernel

theorem opened_oneFile :
    (oneFile "a.py" "/b").store = some (reopened "/b" (oneFile "a.py" "/b").disk) := by
  rw [reopened_eq reopened_oneFile]
  rfl

/-- Are these one run of the tests, a yes for `file`, and another run of the tests? -/
def isOneTrial (file : Path) : List Event → Bool
  | [.tested _, .answered asked true _, .tested _] => asked == file
  | _ => false

/-- While the run that adds an import has its tests run for the second time, the store lists the empty
file, which recovery puts back; when the run is over the store lists nothing. -/
theorem run_pending_for_added_import :
    ∃ (summary : RunSummary) (s' : RunState Unit) (first asked d : Disk),
      ((fixedRun (.addImport "os" "path")).watched.run ["a.py"]).run.run
        ((oneFile "a.py" "/b").beside []) =
          (.ok summary, s'.beside [.tested first, .answered "a.py" true asked, .tested d]) ∧
      (reopened "/b" first).entries = [] ∧ TakesBack "/b" (Path.join "/p" "a.py") asked d ∧
      (reopened "/b" s'.disk).pending = [] := by
  have hall : ∀ t ∈ (fixedRun (.addImport "os" "path")).transactions ["a.py"] (oneFile "a.py" "/b"),
      ((fixedRun (.addImport "os" "path")).asked t).disk.now = ⟨0, 0⟩ ∧
        (fixedRun (.addImport "os" "path")).SavesOnDrop t := by decide +kernel
  obtain ⟨-, outcome, s', log, hrun, hwatched, hfirst, htrials, hafter⟩ :=
    run_pending (fixedRun (.addImport "os" "path")) ["a.py"] (oneFile "a.py" "/b") "/b"
      opened_oneFile (fun store h => by obtain rfl := Option.some.inj h; rfl) (spares_fixedRun _ _)
      (fun f hf hown => not_inStore_target _ f hf (inStore_of_owns hown))
      (fun t ht => by rw [(hall t ht).1]; exact ⟨by decide +kernel, by decide⟩)
      (fun t ht => (hall t ht).2)
  obtain ⟨summary, s'', hends, hshape⟩ : EndsIn (fun _ s' => isOneTrial "a.py" s'.crew.2 = true)
      (((fixedRun (.addImport "os" "path")).watched.run ["a.py"]).run.run
        ((oneFile "a.py" "/b").beside [])) := by decide +kernel
  obtain ⟨rfl, rfl⟩ := Prod.mk.inj (hends.symm.trans hwatched)
  replace hshape : isOneTrial "a.py" log = true := hshape
  unfold isOneTrial at hshape
  split at hshape
  · rename_i first file asked d
    obtain rfl := beq_iff_eq.mp hshape
    obtain ⟨front, file', asked', hsplit, hback⟩ :=
      (htrials [.tested first, .answered "a.py" true asked] d [] rfl).resolve_left (by simp)
    obtain ⟨-, hlast⟩ := List.append_inj' (show [Event.tested first] ++ _ = _ from hsplit) rfl
    obtain ⟨rfl, -, rfl⟩ := Event.answered.inj (List.singleton_inj.mp hlast)
    obtain ⟨rest, hrest⟩ := hfirst
    obtain ⟨hbegin, -⟩ := List.cons.inj hrest
    obtain rfl := Event.tested.inj hbegin
    exact ⟨summary, s', _, asked, d, hwatched, reopened_oneFile, hback, hafter summary rfl⟩
  · exact absurd hshape (by simp)

/-- The run that adds an import, with a formatter that writes a manifest of its own. -/
def meddlingRun : Remediation Unit :=
  let listed : ManifestEntry := { id := "kept", path := "/p/a.py", createdAt := ⟨0, 0⟩ }
  let format : StateT Unit DiskM (Option Nat) := do
    let _ ← StateT.lift (Disk.write "/b/manifest.json" (manifestText [listed]).toUTF8)
    pure (some 0)
  { fixedRun (.addImport "os" "path") with
    crew := { (fixedRun (.addImport "os" "path")).crew with format := fun _ => format } }

/-- The store cannot answer for what others write: all its own operations succeed, but the formatter
lists a snapshot in its manifest after the last edit, and so one is pending when the run is over. -/
theorem formatter_leaves_pending :
    (oneFile "a.py" "/b").store = some (reopened "/b" (oneFile "a.py" "/b").disk) ∧
    (reopened "/b" (oneFile "a.py" "/b").disk).pending = [] ∧
    (∀ t ∈ meddlingRun.transactions ["a.py"] (oneFile "a.py" "/b"), meddlingRun.SavesOnDrop t) ∧
    ∃ summary s', (meddlingRun.run ["a.py"]).run.run (oneFile "a.py" "/b") = (.ok summary, s') ∧
      (reopened "/b" s'.disk).pending = ["/p/a.py"] := by
  obtain ⟨hend, hsaves⟩ :
      EndsIn (fun _ s' => (reopened "/b" s'.disk).pending = ["/p/a.py"])
        ((meddlingRun.run ["a.py"]).run.run (oneFile "a.py" "/b")) ∧
      ∀ t ∈ meddlingRun.transactions ["a.py"] (oneFile "a.py" "/b"),
        meddlingRun.SavesOnDrop t := by decide +kernel
  have hnone : (reopened "/b" (oneFile "a.py" "/b").disk).pending = [] :=
    List.map_eq_nil_iff.mpr reopened_oneFile
  exact ⟨opened_oneFile, hnone, hsaves, hend⟩

end Remediation

end Plumbline
