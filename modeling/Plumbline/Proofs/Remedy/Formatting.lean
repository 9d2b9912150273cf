/-
Formatting comes to rest.

A round runs all commands over all files.  It sees nothing of the disk but the files and the working
directory and changes nothing but files (`run_runOnce`), so rounds are a function on trees of files that is
applied again and again.  What is proved of them is about the contents of the listed files only: `F` is
what a round makes of these.  Formatting stops after the allowed number of rounds, or when a round has left
the digest of the contents as it was, or when no command of a round came to its end.  In the last two cases
the contents are a fixed point of `F` (`Ended.rest`): digests tell the contents apart, and a call that is
not carried out leaves the files alone.  From a fixed point no further round leads away, so formatting
again finds nothing to change.

The rounds of a run are counted by a twin of the loop that differs in its answer only (`run_normalize`).
-/
import Mathlib.Logic.Function.Iterate
import Plumbline.Proofs.Files.Disk
import Plumbline.Remedy.Formatter

namespace Plumbline

/-! ### Work that depends on files only -/

namespace DiskM

variable {α β : Type}

/-- The work depends on the files and the working directory, and changes nothing but files. -/
def OnTree (work : DiskM α) : Prop :=
  ∀ d : Disk, work.run d = ((work.run { tree := d.tree, cwd := d.cwd }).1,
    { d with tree := (work.run { tree := d.tree, cwd := d.cwd }).2.tree })

theorem run_bind (work : DiskM α) (next : α → DiskM β) (d : Disk) :
    (work >>= next).run d = (next (work.run d).1).run (work.run d).2 := rfl

theorem run_bind_of_run {work : DiskM α} {next : α → DiskM β} {d d' : Disk} {a : α}
    (h : work.run d = (a, d')) : (work >>= next).run d = (next a).run d' := by
  rw [run_bind, h]

theorem onTree_pure (a : α) : OnTree (pure a : DiskM α) := fun _ => rfl

theorem OnTree.bind {work : DiskM α} {next : α → DiskM β} (h : OnTree work)
    (h' : ∀ a, OnTree (next a)) : OnTree (work >>= next) := by
  intro d
  rw [run_bind, run_bind, h d, h { tree := d.tree, cwd := d.cwd }]
  rw [h' _ { d with tree := _ }, h' _ { tree := _, cwd := d.cwd }]

theorem OnTree.foldlM {step : β → α → DiskM β} (h : ∀ b a, OnTree (step b a)) (items : List α)
    (b : β) : OnTree (items.foldlM step b) := by
  induction items generalizing b with
  | nil => exact onTree_pure b
  | cons a rest ih => exact (h b a).bind fun b' => ih b'

/-- If each step that answers `false` was given `false` and leaves the files as they are, so does the whole
run of them. -/
theorem foldlM_idle {step : Bool → α → DiskM Bool} {items : List α}
    (h : ∀ a ∈ items, ∀ b d, ((step b a).run d).1 = false →
      b = false ∧ ((step b a).run d).2.tree = d.tree)
    {b : Bool} {d : Disk} (hrun : ((items.foldlM step b).run d).1 = false) :
    b = false ∧ ((items.foldlM step b).run d).2.tree = d.tree := by
  induction items generalizing b d with
  | nil => exact ⟨hrun, rfl⟩
  | cons a rest ih =>
      rw [List.foldlM_cons, run_bind] at hrun ⊢
      obtain ⟨hanswer, hrest⟩ := ih (fun c hc => h c (List.mem_cons_of_mem a hc)) hrun
      obtain ⟨hb, hstep⟩ := h a List.mem_cons_self b d hanswer
      exact ⟨hb, hrest.trans hstep⟩

/-- One look for each item: the answers, and as many operations. -/
theorem run_mapM_of_run {work : α → DiskM β} {answer : α → β} {d : Disk}
    (h : ∀ a n, (work a).run { d with steps := n } = (answer a, { d with steps := n + 1 }))
    (items : List α) (n : Nat) : (items.mapM work).run { d with steps := n } =
      (items.map answer, { d with steps := n + items.length }) := by
  induction items generalizing n with
  | nil => rfl
  | cons a rest ih =>
      rw [List.mapM_cons, run_bind_of_run (h a n), run_bind_of_run (ih (n + 1))]
      show (answer a :: rest.map answer, { d with steps := n + 1 + rest.length }) = _
      rw [Nat.add_assoc, Nat.add_comm 1]
      rfl

end DiskM

open DiskM

theorem ToolRun.onTree_start (programs : Programs) (command : List String) (tool : String)
    (seconds : Nat) (dir : Path) : OnTree (ToolRun.start programs command tool seconds dir) := by
  intro d
  cases command with
  | nil => rfl
  | cons program args =>
      have hplace : Disk.place { tree := d.tree, cwd := d.cwd } dir = d.place dir := rfl
      simp only [ToolRun.start, StateT.run, hplace]
      cases programs.launch (d.place dir) program args d.tree with
      | missing => rfl
      | refused cause => rfl
      | ended millis code out err tree =>
          dsimp only
          split
          · rfl
          · rfl

namespace Formatter

variable {f : Formatter} {programs : Programs} {root : Path} {files : List Path}

/-! ### Rounds as a function on trees -/

theorem onTree_runBatches (tool : String) (command : List String) (batches : List (List Path)) :
    OnTree (f.runBatches programs root tool command batches) := by
  induction batches with
  | nil => exact onTree_pure false
  | cons batch rest ih =>
      refine (ToolRun.onTree_start programs (command ++ batch) tool f.timeout root).bind ?_
      intro call
      cases call with
      | notRun reason => exact onTree_pure false
      | timedOut tool seconds => exact ih
      | ended code out err => exact ih.bind fun _ => onTree_pure true

theorem onTree_runOnce (f : Formatter) (programs : Programs) (root : Path) (files : List Path) :
    OnTree (f.runOnce programs root files) := by
  refine OnTree.foldlM (fun ran command => ?_) f.commands false
  cases command with
  | nil => exact onTree_pure ran
  | cons tool rest => exact (onTree_runBatches _ _ _).bind fun ended => onTree_pure (ran || ended)

/-- What a round makes of the files. -/
def round (f : Formatter) (programs : Programs) (root : Path) (files : List Path) (cwd : Place)
    (t : FileTree) : FileTree :=
  ((f.runOnce programs root files).run { tree := t, cwd }).2.tree

/-- Did a command of the round come to its end? -/
def hasEnded (f : Formatter) (programs : Programs) (root : Path) (files : List Path) (cwd : Place)
    (t : FileTree) : Bool :=
  ((f.runOnce programs root files).run { tree := t, cwd }).1

theorem run_runOnce (d : Disk) :
    (f.runOnce programs root files).run d = (f.hasEnded programs root files d.cwd d.tree,
      { d with tree := f.round programs root files d.cwd d.tree }) :=
  onTree_runOnce f programs root files d

/-- Calls that are not carried out, because there is no such program or because they are given up, leave
the files as they are. -/
def IdleUnlessEnded (f : Formatter) (programs : Programs) (root : Path) (files : List Path) : Prop :=
  ∀ command ∈ f.commands, ∀ tool, command.head? = some tool → ∀ batch ∈ batches f.budget files,
    ∀ d : Disk,
      ((ToolRun.start programs (command ++ batch) tool f.timeout root).run d).1.code? = none →
      ((ToolRun.start programs (command ++ batch) tool f.timeout root).run d).2.tree = d.tree

theorem runBatches_idle {tool : String} {command : List String} {todo : List (List Path)}
    (hidle : ∀ batch ∈ todo, ∀ d : Disk,
      ((ToolRun.start programs (command ++ batch) tool f.timeout root).run d).1.code? = none →
      ((ToolRun.start programs (command ++ batch) tool f.timeout root).run d).2.tree = d.tree)
    (d : Disk) (h : ((f.runBatches programs root tool command todo).run d).1 = false) :
    ((f.runBatches programs root tool command todo).run d).2.tree = d.tree := by
  induction todo generalizing d with
  | nil => rfl
  | cons batch rest ih =>
      have hbatch := hidle batch List.mem_cons_self d
      have hrest := ih fun b hb => hidle b (List.mem_cons_of_mem batch hb)
      rw [runBatches, run_bind] at h ⊢
      generalize (ToolRun.start programs (command ++ batch) tool f.timeout root).run d = call
        at h hbatch ⊢
      obtain ⟨call, d'⟩ := call
      cases call with
      | notRun reason => exact hbatch rfl
      | timedOut tool seconds => exact (hrest d' h).trans (hbatch rfl)
      | ended code out err => cases h

/-- **A round in which no command comes to its end changes nothing.** -/
theorem round_of_not_hasEnded (hidle : f.IdleUnlessEnded programs root files) {cwd : Place}
    {t : FileTree} (h : f.hasEnded programs root files cwd t = false) :
    f.round programs root files cwd t = t := by
  refine (foldlM_idle (fun command hcommand ran d hran => ?_) h).2
  cases command with
  | nil => exact ⟨hran, rfl⟩
  | cons tool rest =>
      obtain ⟨hbefore, hended⟩ := Bool.or_eq_false_iff.mp hran
      exact ⟨hbefore, runBatches_idle (hidle (tool :: rest) hcommand tool rfl) d hended⟩

/-! ### What the listed files hold -/

/-- What a file holds; nothing if it cannot be read. -/
def held (root : Path) (cwd : Place) (t : FileTree) (p : Path) : List UInt8 :=
  match t.locate cwd (root.join p) >>= t.read with
  | .ok bytes => bytes.data.toList
  | .error _ => []

/-- What the listed files hold, each once. -/
def contents (root : Path) (files : List Path) (cwd : Place) (t : FileTree) : List (List UInt8) :=
  (distinct files).map (held root cwd t)

/-- The digests of what the listed files hold. -/
def digestsIn (root : Path) (files : List Path) (cwd : Place) (t : FileTree) :
    List (Path × List UInt8) :=
  (distinct files).map fun p => (p, Digest.sha256 (held root cwd t p))

theorem run_read {d : Disk} (h : d.Sound) (path : Path) :
    (Disk.read path).run d =
      (d.tree.locate d.cwd path >>= d.tree.read, { d with steps := d.steps + 1 }) := by
  show (Disk.look fun t => t.locate d.cwd path >>= t.read).run d = _
  simp only [Disk.look, Disk.perform, StateT.run, h d.steps]
  cases d.tree.locate d.cwd path >>= d.tree.read with
  | ok bytes => rfl
  | error e => rfl

theorem run_digests {d : Disk} (h : d.Sound) : (digests root files).run d =
    (digestsIn root files d.cwd d.tree, { d with steps := d.steps + (distinct files).length }) := by
  refine run_mapM_of_run (fun p n => ?_) (distinct files) d.steps
  have hread := run_read (d := { d with steps := n }) h (root.join p)
  refine (run_bind_of_run hread).trans ?_
  unfold held
  cases d.tree.locate d.cwd (root.join p) >>= d.tree.read with
  | ok bytes => rfl
  | error e => rfl

theorem distinct_subset (files : List Path) : distinct files ⊆ files := by
  fun_induction distinct files with
  | case1 => exact List.nil_subset []
  | case2 p rest hlater ih => exact fun q hq => List.mem_cons_of_mem p (ih hq)
  | case3 p rest hlater ih => exact List.cons_subset_cons p ih

/-- **Each listed path is represented once.** -/
theorem countP_same_distinct {p : Path} (hp : files.any (Path.same p) = true) :
    (distinct files).countP (Path.same p) = 1 := by
  induction files with
  | nil => cases hp
  | cons q rest ih =>
      rw [List.any_cons, Bool.or_eq_true] at hp
      -- Paths that are the same are the same as the same paths.
      have hsame : Path.same p q = true → Path.same q = Path.same p := by
        intro h
        funext r
        rw [Path.same, Path.same, ← beq_iff_eq.mp h]
      rw [distinct]
      split
      · next hlater =>
          refine ih (hp.elim (fun h => ?_) id)
          rwa [hsame h] at hlater
      · next hlater =>
          by_cases hq : Path.same p q = true
          · rw [hsame hq] at hlater
            rw [List.countP_cons_of_pos hq, List.countP_eq_zero.mpr]
            intro r hr
            exact fun h => hlater (List.any_eq_true.mpr ⟨r, distinct_subset rest hr, h⟩)
          · rw [List.countP_cons_of_neg hq]
            exact ih (hp.resolve_left hq)

/-! ### The run of formatting, with its rounds counted -/

/-- How many rounds were made, and did they end because nothing was left to do? -/
structure Pace where
  passes : Nat
  atRest : Bool
deriving Repr, DecidableEq

/-- `rounds` with the rounds counted. -/
def pacedRounds (f : Formatter) (programs : Programs) (root : Path) (files : List Path) :
    (left : Nat) → (previous : List UInt8) → DiskM Pace
  | 0, _ => pure { passes := 0, atRest := false }
  | left + 1, previous => do
    if ← f.runOnce programs root files then
      let current := treeDigest (← digests root files)
      if current = previous then pure { passes := 1, atRest := true }
      else
        let pace ← pacedRounds f programs root files left current
        pure { pace with passes := pace.passes + 1 }
    else pure { passes := 1, atRest := true }

/-- `normalize` with the rounds counted. -/
def pacedNormalize (f : Formatter) (programs : Programs) (root : Path) (files : List Path) :
    DiskM (Pace × Nat) := do
  if files.isEmpty || f.commands.isEmpty then pure ({ passes := 0, atRest := true }, 0)
  else
    let before ← digests root files
    let pace ← f.pacedRounds programs root files (max 1 f.maxRounds) (treeDigest before)
    let after ← digests root files
    pure (pace, (before.zip after).countP fun (a, b) => a.2 != b.2)

theorem run_rounds (left : Nat) (previous : List UInt8) (d : Disk) :
    (f.rounds programs root files left previous).run d =
      ((), ((f.pacedRounds programs root files left previous).run d).2) := by
  induction left generalizing previous d with
  | zero => rfl
  | succ left ih =>
      rw [rounds, pacedRounds, run_bind, run_bind, run_runOnce]
      cases f.hasEnded programs root files d.cwd d.tree with
      | false => rfl
      | true =>
          dsimp only
          rw [if_pos rfl, if_pos rfl, run_bind, run_bind]
          split
          · rfl
          · rw [ih, run_bind]
            rfl

/-- Counting the rounds changes nothing. -/
theorem run_normalize (d : Disk) : (f.normalize programs root files).run d =
    (((f.pacedNormalize programs root files).run d).1.2,
      ((f.pacedNormalize programs root files).run d).2) := by
  unfold normalize pacedNormalize
  split
  · rfl
  · rw [run_bind, run_bind, run_bind, run_bind, run_rounds]
    rfl

/-! ### Rounds as a function on contents -/

/-- `F` is what a round makes of the contents of the listed files, and digests tell contents apart.  Both
are asked of some trees only, among which a round stays. -/
structure ActsAs (f : Formatter) (programs : Programs) (root : Path) (files : List Path) (cwd : Place)
    (F : List (List UInt8) → List (List UInt8)) (Met : FileTree → Prop) : Prop where
  stays : ∀ t, Met t → Met (f.round programs root files cwd t)
  acts : ∀ t, Met t →
    contents root files cwd (f.round programs root files cwd t) = F (contents root files cwd t)
  filesApart : ∀ t t', Met t → Met t' → ∀ p ∈ distinct files,
    Digest.sha256 (held root cwd t p) = Digest.sha256 (held root cwd t' p) →
      held root cwd t p = held root cwd t' p
  treesApart : ∀ t t', Met t → Met t' →
    treeDigest (digestsIn root files cwd t) = treeDigest (digestsIn root files cwd t') →
    digestsIn root files cwd t = digestsIn root files cwd t'

variable {cwd : Place} {F : List (List UInt8) → List (List UInt8)} {Met : FileTree → Prop} {t t' : FileTree}

theorem contents_eq_iff : contents root files cwd t = contents root files cwd t' ↔
    ∀ p ∈ distinct files, held root cwd t p = held root cwd t' p := List.map_inj_left

theorem ActsAs.contents_eq (hF : f.ActsAs programs root files cwd F Met) (ht : Met t) (ht' : Met t')
    (h : treeDigest (digestsIn root files cwd t) = treeDigest (digestsIn root files cwd t')) :
    contents root files cwd t = contents root files cwd t' := by
  have hdigests := List.map_inj_left.mp (hF.treesApart t t' ht ht' h)
  refine contents_eq_iff.mpr fun p hp => ?_
  exact hF.filesApart t t' ht ht' p hp (Prod.ext_iff.mp (hdigests p hp)).2

/-- What is known once rounds that began on `d` have ended on `d'`. -/
structure Ended (root : Path) (files : List Path) (F : List (List UInt8) → List (List UInt8))
    (Met : FileTree → Prop) (bound : Nat) (d : Disk) (pace : Pace) (d' : Disk) : Prop where
  cwd : d'.cwd = d.cwd
  sound : d'.Sound
  met : Met d'.tree
  passes_le : pace.passes ≤ bound
  early : pace.passes < bound → pace.atRest = true
  contents : contents root files d'.cwd d'.tree = F^[pace.passes] (contents root files d.cwd d.tree)
  rest : pace.atRest = true →
    F (Formatter.contents root files d'.cwd d'.tree) = Formatter.contents root files d'.cwd d'.tree

/-- **Rounds end in a fixed point, if they end before they have to.** -/
theorem ended_pacedRounds (hidle : f.IdleUnlessEnded programs root files) {left : Nat} {d : Disk}
    (hF : f.ActsAs programs root files d.cwd F Met) (hd : d.Sound) (hmet : Met d.tree) :
    After (f.pacedRounds programs root files left (treeDigest (digestsIn root files d.cwd d.tree))) d
      (Ended root files F Met left d) := by
  induction left generalizing d with
  | zero => exact ⟨rfl, hd, hmet, Nat.le_refl 0, fun h => absurd h (Nat.lt_irrefl 0), rfl, nofun⟩
  | succ left ih =>
      have hacts := hF.acts d.tree hmet
      have hmet' := hF.stays d.tree hmet
      refine after_bind_of_run (run_runOnce d) ?_
      cases hended : f.hasEnded programs root files d.cwd d.tree with
      | false =>
          rw [round_of_not_hasEnded hidle hended] at hacts ⊢
          exact ⟨rfl, hd, hmet, Nat.le_add_left 1 left, fun _ => rfl, hacts, fun _ => hacts.symm⟩
      | true =>
          let e : Disk := { d with tree := f.round programs root files d.cwd d.tree }
          have he : e.Sound := hd
          refine after_bind_of_run (run_digests he) ?_
          dsimp only
          split
          · next hsame =>
              have hrest := hF.contents_eq hmet' hmet hsame
              exact ⟨rfl, hd, hmet', Nat.le_add_left 1 left, fun _ => rfl, hacts,
                fun _ => (congrArg F hrest).trans hacts.symm⟩
          · refine after_bind ((ih (d := { e with steps := _ }) hF hd hmet').imp ?_)
            intro pace d' h
            have hcontents := h.contents
            rw [show contents root files _ _ = _ from hacts] at hcontents
            exact ⟨h.cwd, h.sound, h.met, Nat.succ_le_succ h.passes_le,
              fun hlt => h.early (Nat.lt_of_succ_lt_succ hlt), hcontents, h.rest⟩

/-- How many of the listed files do not hold the same? -/
def changedFiles (root : Path) (files : List Path) (cwd : Place) (t t' : FileTree) : Nat :=
  (distinct files).countP fun p => decide (held root cwd t p ≠ held root cwd t' p)

theorem changedFiles_eq_zero_iff : changedFiles root files cwd t t' = 0 ↔
    contents root files cwd t = contents root files cwd t' := by
  simp [changedFiles, contents_eq_iff]

theorem ActsAs.countP_digests (hF : f.ActsAs programs root files cwd F Met) (ht : Met t)
    (ht' : Met t') :
    ((digestsIn root files cwd t).zip (digestsIn root files cwd t')).countP (fun (a, b) => a.2 != b.2) =
      changedFiles root files cwd t t' := by
  rw [digestsIn, digestsIn, List.zip_map', List.countP_map]
  refine List.countP_congr fun p hp => ?_
  have happart := hF.filesApart t t' ht ht' p hp
  simp only [Function.comp_apply, bne_iff_ne, decide_eq_true_eq]
  exact not_congr ⟨happart, congrArg Digest.sha256⟩

theorem ended_pacedNormalize (hidle : f.IdleUnlessEnded programs root files) {d : Disk}
    (hF : f.ActsAs programs root files d.cwd F Met) (hd : d.Sound) (hmet : Met d.tree) :
    After (f.pacedNormalize programs root files) d fun paced d' =>
      Ended root files F Met (max 1 f.maxRounds) d paced.1 d' ∧
      paced.2 = changedFiles root files d.cwd d.tree d'.tree := by
  unfold pacedNormalize
  split
  · next hempty =>
      have hacts := hF.acts d.tree hmet
      have hsame : contents root files d.cwd (f.round programs root files d.cwd d.tree) =
          contents root files d.cwd d.tree := by
        rw [Bool.or_eq_true, List.isEmpty_iff, List.isEmpty_iff] at hempty
        rcases hempty with rfl | hcommands
        · rfl
        · rw [round, runOnce, hcommands]
          rfl
      refine ⟨⟨rfl, hd, hmet, Nat.zero_le _, fun _ => rfl, rfl, fun _ => hacts.symm.trans hsame⟩, ?_⟩
      exact (changedFiles_eq_zero_iff.mpr rfl).symm
  · refine after_bind_of_run (run_digests hd) ?_
    let e : Disk := { d with steps := d.steps + (distinct files).length }
    have he : e.Sound := hd
    refine after_bind ((ended_pacedRounds (d := e) hidle hF he hmet).imp ?_)
    intro pace d' h
    refine after_bind_of_run (run_digests h.sound) ?_
    refine ⟨⟨h.cwd, h.sound, h.met, h.passes_le, h.early, h.contents, h.rest⟩, ?_⟩
    have hcwd : d'.cwd = d.cwd := h.cwd
    show List.countP _ _ = _
    rw [hcwd]
    exact hF.countP_digests hmet h.met

/-- **Formatting comes to rest.**  Calls that are not carried out leave the files alone, `F` is what a round
makes of the contents of the listed files, and digests tell contents apart.  Then the contents after `n`
rounds are `F^[n]` of those before, with `n` within the bound.  If fewer rounds were made, or the last one
found nothing to do, the contents are a fixed point, and formatting again changes no file.  The answer is
the number of files that do not hold what they held before. -/
theorem normalize_comes_to_rest (hidle : f.IdleUnlessEnded programs root files) (d : Disk)
    (hF : f.ActsAs programs root files d.cwd F Met) (hd : d.Sound) (hmet : Met d.tree) :
    ∃ pace : Pace, ∃ d' : Disk,
      (f.pacedNormalize programs root files).run d =
        ((pace, changedFiles root files d.cwd d.tree d'.tree), d') ∧
      (f.normalize programs root files).run d =
        (changedFiles root files d.cwd d.tree d'.tree, d') ∧
      pace.passes ≤ max 1 f.maxRounds ∧
      contents root files d.cwd d'.tree = F^[pace.passes] (contents root files d.cwd d.tree) ∧
      (pace.passes < max 1 f.maxRounds → pace.atRest = true) ∧
      (pace.atRest = true →
        F (contents root files d.cwd d'.tree) = contents root files d.cwd d'.tree ∧
        ∃ d'' : Disk, (f.normalize programs root files).run d' = (0, d'') ∧
          contents root files d.cwd d''.tree = contents root files d.cwd d'.tree) := by
  obtain ⟨h, hchanged⟩ := ended_pacedNormalize hidle hF hd hmet
  generalize hrun : (f.pacedNormalize programs root files).run d = run at h hchanged
  obtain ⟨⟨pace, changed⟩, d'⟩ := run
  obtain rfl : changed = changedFiles root files d.cwd d.tree d'.tree := hchanged
  have hcwd : d'.cwd = d.cwd := h.cwd
  have hcontents := h.contents
  have hrest := h.rest
  rw [hcwd] at hcontents hrest
  refine ⟨pace, d', rfl, ?_, h.passes_le, hcontents, h.early, fun hpace => ⟨hrest hpace, ?_⟩⟩
  · rw [run_normalize, hrun]
  · rw [← hcwd] at hF
    obtain ⟨h', hchanged'⟩ := ended_pacedNormalize hidle hF h.sound h.met
    have hsame := h'.contents
    rw [h'.cwd, hcwd, Function.iterate_fixed (hrest hpace)] at hsame
    refine ⟨((f.pacedNormalize programs root files).run d').2, ?_, hsame⟩
    rw [run_normalize, hchanged', hcwd, changedFiles_eq_zero_iff.mpr hsame.symm]

/-- A tree with one file. -/
def lone (text : String) : FileTree := { files := [(["a.py"], text.toUTF8)] }

/-- The program `tidy` takes away the space at the end of the line. -/
def tidying : Programs where
  launch _ program _ _ := if program = "tidy" then .ended 0 0 [] [] (lone "x = 1\n") else .missing

theorem untidy_comes_to_rest :
    let f : Formatter := { commands := [["tidy"]], maxRounds := 3 }
    let d : Disk := { tree := lone "x = 1   \n" }
    let F := fun _ : List (List UInt8) => ["x = 1\n".toUTF8.data.toList]
    let Met := fun t => t = lone "x = 1   \n" ∨ t = lone "x = 1\n"
    f.IdleUnlessEnded tidying "." ["a.py"] ∧ f.ActsAs tidying "." ["a.py"] d.cwd F Met ∧ d.Sound ∧
    Met d.tree ∧
    ∃ d' d'', (f.normalize tidying "." ["a.py"]).run d = (1, d') ∧
      (f.normalize tidying "." ["a.py"]).run d' = (0, d'') := by
  intro f d F Met
  have hround : ∀ t, f.round tidying "." ["a.py"] [] t = lone "x = 1\n" := fun _ => rfl
  have hidle : f.IdleUnlessEnded tidying "." ["a.py"] := by
    intro command hcommand tool _ batch _ d h
    obtain rfl : command = ["tidy"] := by simpa [f] using hcommand
    cases h
  -- The digests of the one file and of all files differ before and after.
  have hfiles : ∀ p ∈ distinct ["a.py"],
      Digest.sha256 (held "." d.cwd (lone "x = 1   \n") p) ≠
        Digest.sha256 (held "." d.cwd (lone "x = 1\n") p) := by
    decide +kernel
  have htrees : treeDigest (digestsIn "." ["a.py"] d.cwd (lone "x = 1   \n")) ≠
      treeDigest (digestsIn "." ["a.py"] d.cwd (lone "x = 1\n")) := by
    decide +kernel
  have hF : f.ActsAs tidying "." ["a.py"] d.cwd F Met := by
    refine ⟨fun t _ => .inr (hround t), fun t _ => ?_, ?_, ?_⟩
    · rw [hround]
      decide +kernel
    · rintro t t' (rfl | rfl) (rfl | rfl) p hp h
      · rfl
      · exact absurd h (hfiles p hp)
      · exact absurd h.symm (hfiles p hp)
      · rfl
    · rintro t t' (rfl | rfl) (rfl | rfl) h
      · rfl
      · exact absurd h htrees
      · exact absurd h.symm htrees
      · rfl
  have hd : d.Sound := fun _ => rfl
  have hmet : Met d.tree := .inl rfl
  refine ⟨hidle, hF, hd, hmet, ?_⟩
  obtain ⟨pace, d', hpaced, hrun, -, -, -, hrest⟩ := normalize_comes_to_rest hidle d hF hd hmet
  have hends : ((f.pacedNormalize tidying "." ["a.py"]).run d).1 = (⟨2, true⟩, 1) := by decide +kernel
  rw [hpaced] at hends
  obtain ⟨rfl, hchanged⟩ := Prod.ext_iff.mp hends
  obtain ⟨-, d'', hagain, -⟩ := hrest rfl
  rw [hrun]
  exact ⟨d', d'', by rw [show changedFiles _ _ _ _ _ = 1 from hchanged], hagain⟩

end Formatter

end Plumbline
