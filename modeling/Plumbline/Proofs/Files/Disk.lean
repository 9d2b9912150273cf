/-
What operations on a disk change.

`DiskM.After work d Q` says that `Q` holds of the answer and the disk when `work` is done on `d`.
It goes through a computation step by step, so what is proved of an operation once can be used
wherever the operation is part of something larger.

`ChangesOnly A d d'` is what most of it is about: from `d` to `d'` only files at places in `A` have
changed.  A file is replaced in two operations, a write beside it and a renaming, and when the
renaming fails a third has to take the draft away again.  So a draft stays when the write fails halfway
or when the removal fails as well.  `FailsCleanly` rules both out, and then a replacement that fails
leaves no trace (`after_replace`).
-/
import Mathlib.Tactic.MkIffOfInductiveProp
import Plumbline.Proofs.Files.Paths

namespace Plumbline

/-- `Q` holds of the answer and the disk after `work` is done on `d`. -/
def DiskM.After {α : Type} (work : DiskM α) (d : Disk) (Q : α → Disk → Prop) : Prop :=
  Q (work.run d).1 (work.run d).2

namespace DiskM

variable {α β : Type} {d : Disk}

theorem after_bind {work : DiskM α} {next : α → DiskM β} {Q : β → Disk → Prop}
    (h : After work d fun a d' => After (next a) d' Q) : After (work >>= next) d Q := h

theorem After.of_run {work : DiskM α} {Q : α → Disk → Prop} {a : α} {d' : Disk}
    (h : After work d Q) (hrun : work.run d = (a, d')) : Q a d' := by
  unfold After at h
  rwa [hrun] at h

theorem after_bind_of_run {work : DiskM α} {next : α → DiskM β} {Q : β → Disk → Prop} {a : α}
    {d' : Disk} (hrun : work.run d = (a, d')) (h : After (next a) d' Q) :
    After (work >>= next) d Q := by
  refine after_bind ?_
  unfold After
  rw [hrun]
  exact h

theorem after_get {next : Disk → DiskM β} {Q : β → Disk → Prop} (h : After (next d) d Q) :
    After (get >>= next) d Q := h

theorem After.and {work : DiskM α} {P Q : α → Disk → Prop} (h : After work d P)
    (h' : After work d Q) : After work d fun a d' => P a d' ∧ Q a d' := ⟨h, h'⟩

theorem After.imp {work : DiskM α} {P Q : α → Disk → Prop} (h : After work d P)
    (hPQ : ∀ a d', P a d' → Q a d') : After work d Q := hPQ _ _ h

end DiskM

/-! ### Files of a tree -/

namespace FileTree

theorem lookup_cons_ne {q r : Place} (h : q ≠ r) (bytes : ByteArray)
    (rest : List (Place × ByteArray)) : ((r, bytes) :: rest).lookup q = rest.lookup q := by
  rw [List.lookup_cons, beq_false_of_ne h]

/-- Setting the files at one place is seen at that place only. -/
theorem lookup_map_set (files : List (Place × ByteArray)) (p q : Place) (bytes : ByteArray) :
    (files.map fun f => if f.1 = p then (p, bytes) else f).lookup q =
      if q = p then (files.lookup p).map fun _ => bytes else files.lookup q := by
  induction files with
  | nil => simp
  | cons f rest ih =>
      obtain ⟨r, old⟩ := f
      rw [List.map_cons]
      by_cases hr : r = p
      · subst hr
        rw [if_pos rfl]
        by_cases hq : q = r
        · subst hq
          simp
        · rw [lookup_cons_ne hq, ih, if_neg hq, if_neg hq, lookup_cons_ne hq]
      · rw [if_neg hr]
        by_cases hq : q = r
        · subst hq
          simp [hr]
        · rw [lookup_cons_ne hq, ih, lookup_cons_ne hq, lookup_cons_ne (Ne.symm hr)]

/-- **A file that is set holds what it was set to, and no other file changes.** -/
theorem file?_setFile (t : FileTree) (p q : Place) (bytes : ByteArray) :
    (t.setFile p bytes).file? q = if q = p then some bytes else t.file? q := by
  unfold setFile
  by_cases hfile : t.isFile p = true
  · rw [if_pos hfile]
    obtain ⟨old, hold⟩ := Option.isSome_iff_exists.mp hfile
    show (t.files.map _).lookup q = _
    rw [lookup_map_set, show t.files.lookup p = some old from hold]
    rfl
  · rw [if_neg hfile]
    have hnone : t.files.lookup p = none := Option.not_isSome_iff_eq_none.mp hfile
    show (t.files ++ [(p, bytes)]).lookup q = if q = p then some bytes else t.files.lookup q
    rw [List.lookup_append]
    by_cases hq : q = p
    · subst hq
      simp [hnone]
    · rw [lookup_cons_ne hq, if_neg hq]
      simp

/-- **An erased file is gone, and no other file changes.** -/
theorem file?_eraseFile (t : FileTree) (p q : Place) :
    (t.eraseFile p).file? q = if q = p then none else t.file? q := by
  show (t.files.filter (·.1 != p)).lookup q = if q = p then none else t.files.lookup q
  induction t.files with
  | nil => simp
  | cons f rest ih =>
      obtain ⟨r, old⟩ := f
      by_cases hr : r = p
      · subst hr
        rw [List.filter_cons_of_neg (by simp), ih]
        by_cases hq : q = r
        · rw [if_pos hq, if_pos hq]
        · rw [if_neg hq, if_neg hq, lookup_cons_ne hq]
      · rw [List.filter_cons_of_pos (by simpa using hr)]
        by_cases hq : q = r
        · subst hq
          simp [hr]
        · rw [lookup_cons_ne hq, ih, lookup_cons_ne hq]

@[simp] theorem isDir_setFile (t : FileTree) (p q : Place) (bytes : ByteArray) :
    (t.setFile p bytes).isDir q = t.isDir q := by
  unfold setFile
  split <;> rfl

theorem isFile_setFile (t : FileTree) (p q : Place) (bytes : ByteArray) :
    (t.setFile p bytes).isFile q = (q == p || t.isFile q) := by
  unfold isFile
  rw [file?_setFile]
  by_cases hq : q = p <;> simp [hq]

/-! ### Ways through a tree

Files stand in the way of nothing that could be reached before, as long as none is put where a
directory is, because whatever a way leads through is a directory.
-/

/-- What is above a place without obstacles is a directory and no file. -/
theorem obstacle?_eq_none {t : FileTree} {p : Place} :
    t.obstacle? p = none ↔ ∀ dir ∈ above p, t.isFile dir = false ∧ t.isDir dir = true := by
  unfold obstacle?
  rw [List.findSome?_eq_none_iff]
  refine forall_congr' fun dir => forall_congr' fun _ => ?_
  cases t.isFile dir <;> cases t.isDir dir <;> simp

theorem notDir?_eq_none {t : FileTree} {p : Place} :
    t.notDir? p = none ↔ t.obstacle? p = none ∧ t.isFile p = false ∧ t.isDir p = true := by
  unfold notDir?
  rw [Option.or_eq_none_iff]
  refine and_congr_right fun _ => ?_
  cases t.isFile p <;> cases t.isDir p <;> simp

/-- From `t` to `t'` every directory has stayed one, and no file has come to lie where one is. -/
structure Grows (t t' : FileTree) : Prop where
  dirs : ∀ q, t.isDir q = true → t'.isDir q = true
  files : ∀ q, t.isDir q = true → t.isFile q = false → t'.isFile q = false

/-- From `t` to `t'` the directories are the same, and no file has come to lie where one is. -/
structure KeepsWays (t t' : FileTree) : Prop where
  dirs : ∀ q, t'.isDir q = t.isDir q
  files : ∀ q, t.isDir q = true → t.isFile q = false → t'.isFile q = false

variable {t t' t'' : FileTree} {p q : Place} {bytes : ByteArray}

theorem keepsWays_setFile (hdir : t.isDir p = false) : KeepsWays t (t.setFile p bytes) where
  dirs q := isDir_setFile t p q bytes
  files q hq hfile := by
    have hne : q ≠ p := by
      rintro rfl
      rw [hdir] at hq
      exact Bool.noConfusion hq
    rw [isFile_setFile]
    simp [hne, hfile]

theorem keepsWays_eraseFile (t : FileTree) (p : Place) : KeepsWays t (t.eraseFile p) where
  dirs _ := rfl
  files q _ hfile := by
    unfold isFile at hfile ⊢
    rw [file?_eraseFile]
    split
    · rfl
    · exact hfile

namespace KeepsWays

theorem refl (t : FileTree) : KeepsWays t t := ⟨fun _ => rfl, fun _ _ h => h⟩

theorem trans (h : KeepsWays t t') (h' : KeepsWays t' t'') : KeepsWays t t'' where
  dirs q := (h'.dirs q).trans (h.dirs q)
  files q hq hfile := h'.files q ((h.dirs q).trans hq) (h.files q hq hfile)

theorem grows (h : KeepsWays t t') : Grows t t' := ⟨fun q hq => (h.dirs q).trans hq, h.files⟩

end KeepsWays

namespace Grows

theorem obstacle? (h : Grows t t') (hq : t.obstacle? q = none) : t'.obstacle? q = none := by
  rw [obstacle?_eq_none] at hq ⊢
  intro dir hmem
  obtain ⟨hfile, hdir⟩ := hq dir hmem
  exact ⟨h.files dir hdir hfile, h.dirs dir hdir⟩

theorem notDir? (h : Grows t t') (hq : t.notDir? q = none) : t'.notDir? q = none := by
  obtain ⟨hway, hfile, hdir⟩ := notDir?_eq_none.mp hq
  exact notDir?_eq_none.mpr ⟨h.obstacle? hway, h.files q hdir hfile, h.dirs q hdir⟩

theorem step {here there : Place} {s : String} (h : Grows t t')
    (hstep : t.step here s = .ok there) : t'.step here s = .ok there := by
  unfold FileTree.step at hstep ⊢
  split
  · simp_all
  · split
    · simp_all
    · split
      · rename_i hs hdot hup
        rw [if_neg hs, if_neg hdot, if_pos hup] at hstep
        split at hstep
        · exact absurd hstep (by simp)
        · rename_i hway
          rw [h.notDir? hway]
          exact hstep
      · simp_all

theorem foldlM_step {parts : List String} {here there : Place} (h : Grows t t')
    (hfold : parts.foldlM t.step here = .ok there) : parts.foldlM t'.step here = .ok there := by
  induction parts generalizing here with
  | nil => exact hfold
  | cons s parts ih =>
      rw [List.foldlM_cons] at hfold ⊢
      cases hstep : t.step here s with
      | error e =>
          rw [hstep] at hfold
          exact absurd hfold (by simp [bind, Except.bind])
      | ok next =>
          rw [hstep] at hfold
          rw [h.step hstep]
          exact ih hfold

end Grows

/-- A step that succeeds goes where the name leads. -/
theorem step_eq_ok {here there : Place} {s : String} (h : t.step here s = .ok there) :
    there = (if s == "/" then [] else if s == "." then here
      else if s == ".." then here.dropLast else here ++ [s]) := by
  unfold step at h
  split
  · rename_i hs
    rw [if_pos hs] at h
    exact (Except.ok.inj h).symm
  · rename_i hs
    rw [if_neg hs] at h
    split
    · rename_i hdot
      rw [if_pos hdot] at h
      exact (Except.ok.inj h).symm
    · rename_i hdot
      rw [if_neg hdot] at h
      split
      · rename_i hup
        rw [if_pos hup] at h
        split at h
        · exact absurd h (by simp)
        · exact (Except.ok.inj h).symm
      · rename_i hup
        rw [if_neg hup] at h
        exact (Except.ok.inj h).symm

theorem foldlM_step_eq_ok {parts : List String} {here there : Place}
    (h : parts.foldlM t.step here = .ok there) :
    there = parts.foldl
      (fun here s => if s == "/" then [] else if s == "." then here
        else if s == ".." then here.dropLast else here ++ [s]) here := by
  induction parts generalizing here with
  | nil => exact (Except.ok.inj h).symm
  | cons s parts ih =>
      rw [List.foldlM_cons] at h
      cases hstep : t.step here s with
      | error e =>
          rw [hstep] at h
          exact absurd h (by simp [bind, Except.bind])
      | ok next =>
          rw [hstep] at h
          rw [List.foldl_cons, ← step_eq_ok hstep]
          exact ih h

variable {cwd : Place} {path : Path}

theorem locate_eq_ok : t.locate cwd path = .ok q ↔
    path.components.foldlM t.step cwd = .ok q ∧
      (t.isFile q && path.segments.getLast?.any Path.isVoid) = false := by
  unfold locate
  cases hfold : path.components.foldlM t.step cwd with
  | error e => simp
  | ok r =>
      by_cases hslash : (t.isFile r && path.segments.getLast?.any Path.isVoid) = true
      · simp only [hslash, if_true]
        constructor
        · intro h
          exact absurd h (by simp)
        · rintro ⟨h, hfalse⟩
          rw [← Except.ok.inj h, hslash] at hfalse
          exact Bool.noConfusion hfalse
      · simp only [hslash]
        constructor
        · intro h
          rw [← Except.ok.inj h]
          exact ⟨rfl, by simpa using hslash⟩
        · exact fun h => h.1

/-- **A path that can be followed leads to its place.** -/
theorem eq_placeFrom_of_locate (h : t.locate cwd path = .ok q) : q = path.placeFrom cwd :=
  foldlM_step_eq_ok (locate_eq_ok.mp h).1

/-- A path that could be followed still can, if it does not end in a slash where there is a file. -/
theorem Grows.locate (h : Grows t t') (hloc : t.locate cwd path = .ok q)
    (hslash : (t'.isFile q && path.segments.getLast?.any Path.isVoid) = false) :
    t'.locate cwd path = .ok q :=
  locate_eq_ok.mpr ⟨h.foldlM_step (locate_eq_ok.mp hloc).1, hslash⟩

/-- A path that leads to a file does not end in a slash. -/
theorem getLast?_of_locate (hloc : t.locate cwd path = .ok q) (hfile : t.isFile q = true) :
    path.segments.getLast?.any Path.isVoid = false := by
  simpa [hfile] using (locate_eq_ok.mp hloc).2

/-! ### Reading and writing -/

theorem read_eq_ok {content : ByteArray} : t.read q = .ok content ↔
    t.obstacle? q = none ∧ t.isDir q = false ∧ t.file? q = some content := by
  unfold read
  cases hway : t.obstacle? q with
  | some e => simp
  | none =>
      by_cases hdir : t.isDir q = true
      · simp [hdir]
      · cases hfile : t.file? q <;> simp [hdir]

theorem readText_eq_ok {text : String} : t.readText q = .ok text ↔
    ∃ content, t.read q = .ok content ∧ String.fromUTF8? content = some text := by
  unfold readText
  cases t.read q with
  | error e => simp
  | ok content => cases hutf : String.fromUTF8? content <;> simp [hutf]

theorem write_eq_ok {t' : FileTree} : t.write q bytes = .ok t' ↔
    t.obstacle? q = none ∧ t.isDir q = false ∧ t' = t.setFile q bytes := by
  unfold write
  cases hway : t.obstacle? q with
  | some e => simp
  | none =>
      by_cases hdir : t.isDir q = true
      · simp [hdir]
      · simp [hdir, eq_comm]

theorem rename_eq_ok {t' : FileTree} : t.rename p q = .ok t' ↔
    ∃ content, t.read p = .ok content ∧ t.obstacle? q = none ∧ t.isDir q = false ∧
      t' = if p = q then t else (t.eraseFile p).setFile q content := by
  unfold rename
  cases hread : t.read p with
  | error e => simp
  | ok content =>
      cases hway : t.obstacle? q with
      | some e => simp
      | none =>
          by_cases hdir : t.isDir q = true
          · simp [hdir]
          · by_cases hsame : p = q <;> simp [hdir, hsame, eq_comm]

theorem remove_eq_ok {t' : FileTree} : t.remove q = .ok t' ↔
    (∃ content, t.read q = .ok content) ∧ t' = t.eraseFile q := by
  unfold remove
  cases hread : t.read q with
  | error e => simp
  | ok content => simp [eq_comm]

end FileTree

/-! ### Operations -/

namespace Disk

open DiskM FileTree

/-- Only files at places in `A` have changed from `d` to `d'`. -/
structure ChangesOnly (A : Place → Prop) (d d' : Disk) : Prop where
  cwd : d'.cwd = d.cwd
  faults : d'.faults = d.faults
  files : ∀ q, ¬ A q → d'.tree.file? q = d.tree.file? q

namespace ChangesOnly

variable {A B : Place → Prop} {d d' d'' : Disk}

theorem refl (A : Place → Prop) (d : Disk) : ChangesOnly A d d := ⟨rfl, rfl, fun _ _ => rfl⟩

theorem trans (h : ChangesOnly A d d') (h' : ChangesOnly A d' d'') : ChangesOnly A d d'' :=
  ⟨h'.cwd.trans h.cwd, h'.faults.trans h.faults,
    fun q hq => (h'.files q hq).trans (h.files q hq)⟩

theorem mono (h : ChangesOnly A d d') (hAB : ∀ q, A q → B q) : ChangesOnly B d d' :=
  ⟨h.cwd, h.faults, fun q hq => h.files q fun ha => hq (hAB q ha)⟩

theorem place (h : ChangesOnly A d d') (path : Path) : d'.place path = d.place path := by
  unfold Disk.place
  rw [h.cwd]

end ChangesOnly

/-- Writes that fail put nothing into their files, and no two operations in a row fail. -/
def FailsCleanly (d : Disk) : Prop :=
  ∀ n fault, d.faults n = some fault → fault.written = none ∧ d.faults (n + 1) = none

/-- The place of a draft that may stay when the file at `path` could not be replaced. -/
def Leaves (d : Disk) (path : Path) (q : Place) : Prop :=
  ¬ d.FailsCleanly ∧ q = d.place (draftPath path) ∧ q ≠ d.place path

theorem ChangesOnly.failsCleanly {A : Place → Prop} {d d' : Disk} (h : ChangesOnly A d d') :
    d'.FailsCleanly = d.FailsCleanly := by
  unfold FailsCleanly
  rw [h.faults]

theorem ChangesOnly.leaves {A : Place → Prop} {d d' : Disk} (h : ChangesOnly A d d') (path : Path) :
    d'.Leaves path = d.Leaves path := by
  unfold Leaves
  rw [h.failsCleanly, h.place, h.place]

/-- An operation succeeds, or it fails and changes nothing; it fails if the disk has a fault for it,
or if it cannot be done. -/
theorem after_perform {α : Type} {f : FileTree → Except FileError (α × FileTree)} {d : Disk}
    {Q : Except FileError α → Disk → Prop}
    (hok : ∀ a t, f d.tree = .ok (a, t) → Q (.ok a) { d with steps := d.steps + 1, tree := t })
    (herror : ∀ e, (∃ fault, d.faults d.steps = some fault) ∨
      d.faults d.steps = none ∧ f d.tree = .error e →
      Q (.error e) { d with steps := d.steps + 1 }) :
    After (perform f) d Q := by
  show Q (perform f d).1 (perform f d).2
  unfold perform
  cases hfault : d.faults d.steps with
  | some fault => exact herror fault.error (Or.inl ⟨fault, hfault⟩)
  | none =>
      cases hf : f d.tree with
      | error e => exact herror e (Or.inr ⟨hfault, hf⟩)
      | ok r => exact hok r.1 r.2 hf

theorem after_look {α : Type} {f : FileTree → Except FileError α} {d : Disk}
    {Q : Except FileError α → Disk → Prop}
    (hok : ∀ a, f d.tree = .ok a → Q (.ok a) { d with steps := d.steps + 1 })
    (herror : ∀ e, Q (.error e) { d with steps := d.steps + 1 }) :
    After (look f) d Q := by
  refine after_perform ?_ fun e _ => herror e
  intro a t h
  cases hf : f d.tree with
  | error e => simp [hf, Except.map] at h
  | ok b =>
      obtain ⟨rfl, rfl⟩ : b = a ∧ d.tree = t := by simpa [hf, Except.map] using h
      exact hok b hf

theorem after_look_ok {α : Type} {f : FileTree → Except FileError α} {d : Disk} {a : α}
    (hfault : d.faults d.steps = none) (h : f d.tree = .ok a) : After (look f) d fun r d' =>
      r = .ok a ∧ d' = { d with steps := d.steps + 1 } := by
  refine after_perform ?_ ?_
  · intro b t hmap
    rw [h] at hmap
    obtain ⟨rfl, rfl⟩ : a = b ∧ d.tree = t := by simpa [Except.map] using hmap
    exact ⟨rfl, rfl⟩
  · rintro e (⟨fault, hsome⟩ | ⟨-, hmap⟩)
    · rw [hfault] at hsome
      exact absurd hsome (by simp)
    · rw [h] at hmap
      exact absurd hmap (by simp [Except.map])

theorem after_change {f : FileTree → Except FileError FileTree} {d : Disk}
    {Q : Except FileError Unit → Disk → Prop}
    (hok : ∀ t, f d.tree = .ok t → Q (.ok ()) { d with steps := d.steps + 1, tree := t })
    (herror : ∀ e, (∃ fault, d.faults d.steps = some fault) ∨
      d.faults d.steps = none ∧ f d.tree = .error e →
      Q (.error e) { d with steps := d.steps + 1 }) :
    After (change f) d Q := by
  refine after_perform ?_ ?_
  · intro _ t h
    cases hf : f d.tree with
    | error e => simp [hf, Except.map] at h
    | ok u =>
        obtain rfl : u = t := by simpa [hf, Except.map] using h
        exact hok u hf
  · intro e h
    refine herror e (h.imp_right fun ⟨hnone, hmap⟩ => ⟨hnone, ?_⟩)
    cases hf : f d.tree with
    | error e' => simpa [hf, Except.map] using hmap
    | ok u => simp [hf, Except.map] at hmap

/-- The file at `path` can be read and holds `content`. -/
structure Holds (d : Disk) (path : Path) (content : ByteArray) : Prop where
  located : d.tree.locate d.cwd path = .ok (d.place path)
  read : d.tree.read (d.place path) = .ok content

theorem Holds.file? {d : Disk} {path : Path} {content : ByteArray} (h : d.Holds path content) :
    d.tree.file? (d.place path) = some content := (read_eq_ok.mp h.read).2.2

/-- What was found by following a path and doing something there was done at its place. -/
theorem locate_bind_eq_ok {α : Type} {t : FileTree} {cwd : Place} {path : Path}
    {f : Place → Except FileError α} {a : α} (h : (t.locate cwd path >>= f) = .ok a) :
    t.locate cwd path = .ok (path.placeFrom cwd) ∧ f (path.placeFrom cwd) = .ok a := by
  cases hloc : t.locate cwd path with
  | error e => simp [hloc, bind, Except.bind] at h
  | ok p =>
      obtain rfl := eq_placeFrom_of_locate hloc
      exact ⟨rfl, by simpa [hloc, bind, Except.bind] using h⟩

theorem after_read (path : Path) (d : Disk) : After (read path) d fun r d' =>
    d' = { d with steps := d.steps + 1 } ∧ ∀ content, r = .ok content → d.Holds path content := by
  refine after_get (after_look ?_ fun e => ⟨rfl, by simp⟩)
  intro content h
  obtain ⟨hloc, hread⟩ := locate_bind_eq_ok h
  refine ⟨rfl, fun content' heq => ?_⟩
  rw [← Except.ok.inj heq]
  exact ⟨hloc, hread⟩

theorem after_readText (path : Path) (d : Disk) : After (readText path) d fun r d' =>
    d' = { d with steps := d.steps + 1 } ∧
      ∀ text, r = .ok text → ∃ content, d.Holds path content ∧
        String.fromUTF8? content = some text := by
  refine after_get (after_look ?_ fun e => ⟨rfl, by simp⟩)
  intro text h
  obtain ⟨hloc, hread⟩ := locate_bind_eq_ok h
  refine ⟨rfl, fun text' heq => ?_⟩
  rw [← Except.ok.inj heq]
  obtain ⟨content, hcontent, hutf⟩ := FileTree.readText_eq_ok.mp hread
  exact ⟨content, ⟨hloc, hcontent⟩, hutf⟩

/-- From `d` to `d'` the file at `path` was written. -/
structure Written (path : Path) (bytes : ByteArray) (d d' : Disk) : Prop where
  located : d.tree.locate d.cwd path = .ok (d.place path)
  way : d.tree.obstacle? (d.place path) = none
  noDir : d.tree.isDir (d.place path) = false
  disk : d' = { d with steps := d.steps + 1, tree := d.tree.setFile (d.place path) bytes }

theorem put_eq_ok {path : Path} {bytes : ByteArray} {d : Disk} {t : FileTree}
    (h : put d.cwd path bytes d.tree = .ok t) :
    Written path bytes d { d with steps := d.steps + 1, tree := t } := by
  obtain ⟨hloc, hwrite⟩ := locate_bind_eq_ok h
  obtain ⟨hway, hdir, rfl⟩ := write_eq_ok.mp hwrite
  exact ⟨hloc, hway, hdir, rfl⟩

/-- A write that fails changes nothing, or puts a part of the content into the file. -/
theorem torn_eq (path : Path) (bytes : ByteArray) (d : Disk) :
    d.torn path bytes = d.tree ∨ ¬ d.FailsCleanly ∧
      ∃ part, Written path part d { d with steps := d.steps + 1, tree := d.torn path bytes } := by
  unfold torn
  cases hfault : d.faults d.steps with
  | none => exact Or.inl rfl
  | some fault =>
      cases hpart : fault.written with
      | none =>
          left
          simp [hpart]
      | some n =>
          simp only [Option.bind_some, hpart]
          cases hput : put d.cwd path (bytes.extract 0 n) d.tree with
          | error e => exact Or.inl rfl
          | ok t =>
              refine Or.inr ⟨fun hclean => ?_, _, put_eq_ok hput⟩
              rw [(hclean _ _ hfault).1] at hpart
              exact absurd hpart (by simp)

theorem after_write (path : Path) (bytes : ByteArray) (d : Disk) :
    After (write path bytes) d fun r d' =>
      (∃ e, r = .error e ∧ d' = { d with steps := d.steps + 1 }) ∨
      (∃ e part, r = .error e ∧ ¬ d.FailsCleanly ∧ Written path part d d') ∨
      (r = .ok () ∧ Written path bytes d d') := by
  refine after_get (after_bind (after_change ?_ fun e _ => ?_))
  · exact fun t h => Or.inr (Or.inr ⟨rfl, put_eq_ok h⟩)
  · show (∃ e', Except.error e = .error e' ∧
        { d with steps := d.steps + 1, tree := d.torn path bytes } = _) ∨
      (∃ e' part, Except.error e = .error e' ∧ ¬ d.FailsCleanly ∧
        Written path part d { d with steps := d.steps + 1, tree := d.torn path bytes }) ∨ _
    rcases torn_eq path bytes d with hsame | ⟨hunclean, part, hpart⟩
    · exact Or.inl ⟨e, rfl, by rw [hsame]⟩
    · exact Or.inr (Or.inl ⟨e, part, rfl, hunclean, hpart⟩)

/-- Whether or not a file could be written, no other was touched. -/
theorem after_write_changesOnly (path : Path) (bytes : ByteArray) (d : Disk) :
    After (write path bytes) d fun _ d' => ChangesOnly (· = d.place path) d d' := by
  have hwritten : ∀ {part d'}, Written path part d d' → ChangesOnly (· = d.place path) d d' := by
    rintro part _ ⟨-, -, -, rfl⟩
    refine ⟨rfl, rfl, fun q hq => ?_⟩
    show (d.tree.setFile (d.place path) part).file? q = _
    rw [file?_setFile, if_neg hq]
  refine (after_write path bytes d).imp ?_
  rintro _ _ (⟨e, -, rfl⟩ | ⟨e, part, -, -, h⟩ | ⟨-, h⟩)
  · exact ⟨rfl, rfl, fun _ _ => rfl⟩
  · exact hwritten h
  · exact hwritten h

theorem after_remove (path : Path) (d : Disk) : After (remove path) d fun r d' =>
    (∃ e, r = .error e ∧ d' = { d with steps := d.steps + 1 } ∧
      (d.faults d.steps = none → ∀ content, ¬ d.Holds path content)) ∨
    (r = .ok () ∧
      d' = { d with steps := d.steps + 1, tree := d.tree.eraseFile (d.place path) }) := by
  refine after_get (after_change ?_ ?_)
  · intro t h
    obtain ⟨-, hremove⟩ := locate_bind_eq_ok h
    obtain ⟨-, rfl⟩ := remove_eq_ok.mp hremove
    exact Or.inr ⟨rfl, rfl⟩
  · intro e h
    refine Or.inl ⟨e, rfl, rfl, fun hnone content hholds => ?_⟩
    rcases h with hfault | ⟨-, herror⟩
    · obtain ⟨fault, hfault⟩ := hfault
      rw [hnone] at hfault
      exact absurd hfault (by simp)
    · have hok : d.tree.remove (d.place path) = .ok (d.tree.eraseFile (d.place path)) :=
        remove_eq_ok.mpr ⟨⟨content, hholds.read⟩, rfl⟩
      rw [hholds.located] at herror
      exact absurd (hok.symm.trans herror) (by simp)

theorem after_rename (source target : Path) (d : Disk) : After (rename source target) d fun r d' =>
    (∃ e, r = .error e ∧ d' = { d with steps := d.steps + 1 } ∧
      (d.faults d.steps = none → ∀ content, d.Holds source content →
        d.tree.locate d.cwd target = .ok (d.place target) →
        d.tree.obstacle? (d.place target) = none → d.tree.isDir (d.place target) = true)) ∨
    (r = .ok () ∧ ∃ content, d.Holds source content ∧
      d.tree.locate d.cwd target = .ok (d.place target) ∧
      d.tree.obstacle? (d.place target) = none ∧ d.tree.isDir (d.place target) = false ∧
      d' = { d with
        steps := d.steps + 1
        tree := if d.place source = d.place target then d.tree
          else (d.tree.eraseFile (d.place source)).setFile (d.place target) content }) := by
  refine after_get (after_change ?_ ?_)
  · intro t h
    obtain ⟨hsource, h⟩ := locate_bind_eq_ok h
    obtain ⟨htarget, hrename⟩ := locate_bind_eq_ok h
    obtain ⟨content, hread, hway, hdir, rfl⟩ := rename_eq_ok.mp hrename
    exact Or.inr ⟨rfl, content, ⟨hsource, hread⟩, htarget, hway, hdir, rfl⟩
  · intro e h
    refine Or.inl ⟨e, rfl, rfl, fun hnone content hholds htarget hway => ?_⟩
    rcases h with hfault | ⟨-, herror⟩
    · obtain ⟨fault, hfault⟩ := hfault
      rw [hnone] at hfault
      exact absurd hfault (by simp)
    · cases hdir : d.tree.isDir (d.place target) with
      | true => rfl
      | false =>
          have hok := rename_eq_ok.mpr ⟨content, hholds.read, hway, hdir, rfl⟩
          rw [hholds.located, htarget] at herror
          exact absurd (hok.symm.trans herror) (by simp)

/-! ### Replacing a file -/

theorem draftPath_getLast? (path : Path) :
    (draftPath path).segments.getLast?.any Path.isVoid = false := by
  obtain ⟨hname, dir, heq⟩ := draftPath_eq_join path
  obtain ⟨-, front, hsegs, -⟩ := Path.segments_join hname dir
  rw [heq, hsegs]
  simp [hname.notVoid]

/-- A draft that was written can be read. -/
theorem holds_draft {path : Path} (bytes : ByteArray) {d : Disk} (n : Nat)
    (hloc : d.tree.locate d.cwd (draftPath path) = .ok (d.place (draftPath path)))
    (hway : d.tree.obstacle? (d.place (draftPath path)) = none)
    (hdir : d.tree.isDir (d.place (draftPath path)) = false) :
    Holds { d with steps := n, tree := d.tree.setFile (d.place (draftPath path)) bytes }
      (draftPath path) bytes where
  located := (keepsWays_setFile hdir).grows.locate hloc (by rw [draftPath_getLast?, Bool.and_false])
  read := read_eq_ok.mpr
    ⟨(keepsWays_setFile hdir).grows.obstacle? hway, by rwa [isDir_setFile],
      by rw [file?_setFile]; exact if_pos rfl⟩

/-- A file whose draft was written can take the draft's content: only a fault keeps it from being
renamed. -/
theorem renaming_needs_fault {path : Path} {bytes content : ByteArray} {d : Disk}
    (hold : d.Holds path content)
    (hdir : d.tree.isDir (d.place (draftPath path)) = false)
    {t : FileTree} (ht : t = d.tree.setFile (d.place (draftPath path)) bytes) :
    t.locate d.cwd path = .ok (d.place path) ∧ t.obstacle? (d.place path) = none ∧
      t.isDir (d.place path) = false := by
  obtain ⟨hway, hnotDir, hfile⟩ := read_eq_ok.mp hold.read
  subst ht
  have hways : d.tree.KeepsWays (d.tree.setFile (d.place (draftPath path)) bytes) :=
    keepsWays_setFile hdir
  have hlast := getLast?_of_locate hold.located (by rw [isFile, hfile]; rfl)
  exact ⟨hways.grows.locate hold.located (by rw [hlast, Bool.and_false]), hways.grows.obstacle? hway,
    by rwa [isDir_setFile]⟩

/-- **Replacing a file.**  If it succeeds the file holds the new content, and there is no draft.  If
it fails nothing but the draft can have changed, and on a disk that fails cleanly a file that could be
read before and had no draft has none now. -/
theorem after_replace (path : Path) (bytes : ByteArray) (d : Disk) :
    After (replace path bytes) d fun r d' => d'.cwd = d.cwd ∧ d'.faults = d.faults ∧
      ((r = .ok () ∧ ∀ q, d'.tree.file? q =
          if q = d.place path then some bytes
          else if q = d.place (draftPath path) then none else d.tree.file? q) ∨
        ∃ e, r = .error e ∧
          (∀ q, q ≠ d.place (draftPath path) → d'.tree.file? q = d.tree.file? q) ∧
          (d.FailsCleanly → (∃ content, d.Holds path content) →
            d.tree.file? (d.place (draftPath path)) = none →
            d'.tree.file? (d.place (draftPath path)) = none)) := by
  refine after_bind ((after_write (draftPath path) bytes d).imp ?_)
  rintro _ _ (⟨e, rfl, rfl⟩ | ⟨e, part, rfl, hunclean, -, -, -, rfl⟩ |
    ⟨rfl, hloc, hway, hdir, rfl⟩)
  · exact ⟨rfl, rfl, Or.inr ⟨e, rfl, fun _ _ => rfl, fun _ _ h => h⟩⟩
  · refine ⟨rfl, rfl, Or.inr ⟨e, rfl, fun q hq => ?_, fun hclean => absurd hclean hunclean⟩⟩
    show (d.tree.setFile _ part).file? q = _
    rw [file?_setFile, if_neg hq]
  · have hdraft := holds_draft bytes (d.steps + 1) hloc hway hdir
    refine after_bind ((after_rename (draftPath path) path _).imp ?_)
    rintro _ _ (⟨e, rfl, rfl, hcause⟩ | ⟨rfl, content, hheld, -, -, -, rfl⟩)
    · refine after_bind ((after_remove (draftPath path) _).imp ?_)
      rintro _ _ (⟨e', rfl, rfl, hstuck⟩ | ⟨rfl, rfl⟩)
      · refine ⟨rfl, rfl, Or.inr ⟨e, rfl, fun q hq => ?_, fun hclean hread hnew => ?_⟩⟩
        · show (d.tree.setFile _ bytes).file? q = _
          rw [file?_setFile, if_neg hq]
        · -- The draft stays only if the renaming and the removal both had a fault.
          exfalso
          obtain ⟨old, hold⟩ := hread
          obtain ⟨hloc', hway', hdir'⟩ := renaming_needs_fault hold hdir rfl
          cases hf : d.faults (d.steps + 1) with
          | none =>
              have := hcause hf bytes hdraft hloc' hway'
              exact absurd (this.symm.trans hdir') (by simp)
          | some fault =>
              exact hstuck (hclean _ _ hf).2 bytes ⟨hdraft.located, hdraft.read⟩
      · refine ⟨rfl, rfl, Or.inr ⟨e, rfl, fun q hq => ?_, fun _ _ _ => ?_⟩⟩
        · show ((d.tree.setFile (d.place (draftPath path)) bytes).eraseFile
            (d.place (draftPath path))).file? q = _
          rw [file?_eraseFile, if_neg hq, file?_setFile, if_neg hq]
        · show ((d.tree.setFile _ bytes).eraseFile _).file? _ = none
          rw [file?_eraseFile]
          exact if_pos rfl
    · obtain rfl : content = bytes := Option.some.inj (hheld.file?.symm.trans hdraft.file?)
      refine ⟨rfl, rfl, Or.inl ⟨rfl, fun q => ?_⟩⟩
      show (if d.place (draftPath path) = d.place path then
          d.tree.setFile (d.place (draftPath path)) content
        else ((d.tree.setFile (d.place (draftPath path)) content).eraseFile
          (d.place (draftPath path))).setFile (d.place path) content).file? q = _
      by_cases hsame : d.place (draftPath path) = d.place path
      · rw [if_pos hsame, file?_setFile, hsame]
        by_cases hq : q = d.place path
        · rw [if_pos hq, if_pos hq]
        · rw [if_neg hq, if_neg hq, if_neg hq]
      · rw [if_neg hsame, file?_setFile, file?_eraseFile, file?_setFile]
        by_cases hq : q = d.place (draftPath path)
        · rw [if_pos hq, if_pos hq]
        · rw [if_neg hq, if_neg hq, if_neg hq]

/-- Replacing a file changes nothing but the file and its draft. -/
theorem after_replace_changesOnly (path : Path) (bytes : ByteArray) (d : Disk) :
    After (replace path bytes) d fun _ d' =>
      ChangesOnly (fun q => q = d.place path ∨ q = d.place (draftPath path)) d d' := by
  refine (after_replace path bytes d).imp ?_
  rintro r d' ⟨hcwd, hfaults, ⟨-, hfiles⟩ | ⟨e, -, hfiles, -⟩⟩
  · refine ⟨hcwd, hfaults, fun q hq => ?_⟩
    rw [hfiles, if_neg fun h => hq (Or.inl h), if_neg fun h => hq (Or.inr h)]
  · exact ⟨hcwd, hfaults, fun q hq => hfiles q fun h => hq (Or.inr h)⟩

/-! ### What a replacement needs -/

/-- A file can be put at `path`. -/
@[mk_iff]
structure Writable (d : Disk) (path : Path) : Prop where
  located : d.tree.locate d.cwd path = .ok (d.place path)
  way : d.tree.obstacle? (d.place path) = none
  noDir : d.tree.isDir (d.place path) = false
  noSlash : path.segments.getLast?.any Path.isVoid = false

/-- The file at `path` can be replaced, if no operation fails. -/
@[mk_iff]
structure Replaceable (d : Disk) (path : Path) : Prop where
  draft : d.Writable (draftPath path)
  file : d.Writable path

/-- A file can be read as before if no directory was put in its place. -/
theorem Holds.of_grows {d d' : Disk} {path : Path} {content : ByteArray} (hheld : d.Holds path content)
    (hcwd : d'.cwd = d.cwd) (hgrows : d.tree.Grows d'.tree)
    (hdir : d'.tree.isDir (d.place path) = false)
    (hfile : d'.tree.file? (d.place path) = d.tree.file? (d.place path)) :
    d'.Holds path content := by
  obtain ⟨hway, -, hcontent⟩ := read_eq_ok.mp hheld.read
  have hlast := getLast?_of_locate hheld.located (by rw [isFile, hcontent]; rfl)
  have hplace : d'.place path = d.place path := by rw [Disk.place, Disk.place, hcwd]
  refine ⟨?_, ?_⟩
  · rw [hplace, hcwd]
    exact hgrows.locate hheld.located (by rw [hlast, Bool.and_false])
  · rw [hplace]
    exact read_eq_ok.mpr ⟨hgrows.obstacle? hway, hdir, hfile.trans hcontent⟩

/-- From `d` to `d'` ways are kept, and relative paths start where they did. -/
structure KeepsWays (d d' : Disk) : Prop where
  cwd : d'.cwd = d.cwd
  tree : d.tree.KeepsWays d'.tree

namespace KeepsWays

variable {d d' d'' : Disk} {path : Path}

theorem refl (d : Disk) : KeepsWays d d := ⟨rfl, .refl _⟩

theorem trans (h : KeepsWays d d') (h' : KeepsWays d' d'') : KeepsWays d d'' :=
  ⟨h'.cwd.trans h.cwd, h.tree.trans h'.tree⟩

theorem place (h : KeepsWays d d') (path : Path) : d'.place path = d.place path := by
  unfold Disk.place
  rw [h.cwd]

theorem writable (h : KeepsWays d d') (hpath : d.Writable path) : d'.Writable path where
  located := by
    rw [h.place, h.cwd]
    exact h.tree.grows.locate hpath.located (by rw [hpath.noSlash, Bool.and_false])
  way := by
    rw [h.place]
    exact h.tree.grows.obstacle? hpath.way
  noDir := by rw [h.place, h.tree.dirs, hpath.noDir]
  noSlash := hpath.noSlash

theorem replaceable (h : KeepsWays d d') (hpath : d.Replaceable path) : d'.Replaceable path :=
  ⟨h.writable hpath.draft, h.writable hpath.file⟩

theorem holds (h : KeepsWays d d') {content : ByteArray} (hheld : d.Holds path content)
    (hfile : d'.tree.file? (d.place path) = d.tree.file? (d.place path)) :
    d'.Holds path content :=
  hheld.of_grows h.cwd h.tree.grows ((h.tree.dirs _).trans (read_eq_ok.mp hheld.read).2.1) hfile

end KeepsWays

/-- A file that can be read can be written. -/
theorem Holds.writable {d : Disk} {path : Path} {content : ByteArray} (h : d.Holds path content) :
    d.Writable path := by
  obtain ⟨hway, hdir, hfile⟩ := read_eq_ok.mp h.read
  exact ⟨h.located, hway, hdir, getLast?_of_locate h.located (by rw [isFile, hfile]; rfl)⟩

theorem Writable.holds {d d' : Disk} {path : Path} {content : ByteArray} (h : d.Writable path)
    (hways : KeepsWays d d') (hfile : d'.tree.file? (d.place path) = some content) :
    d'.Holds path content := by
  have h' := hways.writable h
  refine ⟨h'.located, read_eq_ok.mpr ⟨h'.way, h'.noDir, ?_⟩⟩
  rw [hways.place]
  exact hfile

theorem keepsWays_step (d : Disk) : KeepsWays d { d with steps := d.steps + 1 } :=
  ⟨rfl, .refl _⟩

theorem after_write_holds {path : Path} (hlast : path.segments.getLast?.any Path.isVoid = false)
    (bytes : ByteArray) (d : Disk) :
    After (write path bytes) d fun r d' => r = .ok () → d'.Holds path bytes := by
  refine (after_write path bytes d).imp ?_
  rintro _ _ (⟨e, rfl, -⟩ | ⟨e, part, rfl, -, -⟩ | ⟨-, hloc, hway, hdir, rfl⟩) hok
  · exact absurd hok (by simp)
  · exact absurd hok (by simp)
  · have hwritable : d.Writable path := ⟨hloc, hway, hdir, hlast⟩
    exact hwritable.holds ⟨rfl, keepsWays_setFile hdir⟩ (by rw [file?_setFile, if_pos rfl])

theorem after_write_keepsWays (path : Path) (bytes : ByteArray) (d : Disk) :
    After (write path bytes) d fun _ d' => KeepsWays d d' := by
  refine (after_write path bytes d).imp ?_
  rintro _ _ (⟨e, -, rfl⟩ | ⟨e, part, -, -, -, -, hdir, rfl⟩ | ⟨-, -, -, hdir, rfl⟩)
  · exact keepsWays_step d
  · exact ⟨rfl, keepsWays_setFile hdir⟩
  · exact ⟨rfl, keepsWays_setFile hdir⟩

theorem after_remove_keepsWays (path : Path) (d : Disk) :
    After (remove path) d fun _ d' => KeepsWays d d' := by
  refine (after_remove path d).imp ?_
  rintro _ _ (⟨e, rfl, rfl, -⟩ | ⟨rfl, rfl⟩)
  · exact keepsWays_step d
  · exact ⟨rfl, keepsWays_eraseFile _ _⟩

theorem after_rename_keepsWays (source target : Path) (d : Disk) :
    After (rename source target) d fun r d' => KeepsWays d d' ∧
      (r = .ok () → target.segments.getLast?.any Path.isVoid = false → d'.Writable target) := by
  refine (after_rename source target d).imp ?_
  rintro _ _ (⟨e, rfl, rfl, -⟩ | ⟨rfl, content, -, hloc, hway, hdir, rfl⟩)
  · exact ⟨keepsWays_step d, by simp⟩
  · have hways : KeepsWays d { d with
        steps := d.steps + 1
        tree := if d.place source = d.place target then d.tree
          else (d.tree.eraseFile (d.place source)).setFile (d.place target) content } := by
      refine ⟨rfl, ?_⟩
      show d.tree.KeepsWays (if d.place source = d.place target then d.tree else _)
      split
      · exact .refl _
      · exact (keepsWays_eraseFile _ _).trans (keepsWays_setFile hdir)
    exact ⟨hways, fun _ hlast => hways.writable ⟨hloc, hway, hdir, hlast⟩⟩

/-- A file that was replaced can be replaced again. -/
theorem after_replace_keepsWays (path : Path) (bytes : ByteArray) (d : Disk) :
    After (replace path bytes) d fun r d' => KeepsWays d d' ∧
      (r = .ok () → path.segments.getLast?.any Path.isVoid = false → d'.Replaceable path) := by
  refine after_bind ((after_write (draftPath path) bytes d).imp ?_)
  rintro _ _ (⟨e, rfl, rfl⟩ | ⟨e, part, rfl, -, -, -, hdir, rfl⟩ | ⟨rfl, hloc, hway, hdir, rfl⟩)
  · exact ⟨keepsWays_step d, by simp⟩
  · exact ⟨⟨rfl, keepsWays_setFile hdir⟩, by simp⟩
  · have hways : KeepsWays d { d with
        steps := d.steps + 1
        tree := d.tree.setFile (d.place (draftPath path)) bytes } := ⟨rfl, keepsWays_setFile hdir⟩
    refine after_bind ((after_rename_keepsWays (draftPath path) path _).imp ?_)
    rintro (e | ⟨⟩) d₂ ⟨hmoved, hwritable⟩
    · refine after_bind ((after_remove_keepsWays (draftPath path) d₂).imp ?_)
      exact fun _ d₃ hremoved => ⟨(hways.trans hmoved).trans hremoved, by simp⟩
    · refine ⟨hways.trans hmoved, fun _ hlast => ⟨(hways.trans hmoved).writable ?_, ?_⟩⟩
      · exact ⟨hloc, hway, hdir, draftPath_getLast? path⟩
      · exact hwritable rfl hlast

/-- A file that was replaced holds the new content. -/
theorem after_replace_holds {path : Path} (hlast : path.segments.getLast?.any Path.isVoid = false)
    (bytes : ByteArray) (d : Disk) : After (replace path bytes) d fun r d' =>
      r = .ok () → d'.Holds path bytes ∧ d'.Replaceable path := by
  refine ((after_replace path bytes d).and (after_replace_keepsWays path bytes d)).imp ?_
  rintro _ d' ⟨⟨-, -, hcase⟩, hways, hreplaceable⟩ rfl
  have hready := hreplaceable rfl hlast
  obtain ⟨-, hfiles⟩ := hcase.resolve_right (by simp)
  refine ⟨hready.file.holds (.refl d') ?_, hready⟩
  rw [hways.place, hfiles, if_pos rfl]

/-- No operation fails for reasons of the disk's own. -/
def Sound (d : Disk) : Prop := ∀ n, d.faults n = none

theorem Holds.after_read {d : Disk} {path : Path} {content : ByteArray} (h : d.Holds path content)
    (hfault : d.faults d.steps = none) : After (Disk.read path) d fun r d' =>
      r = .ok content ∧ d' = { d with steps := d.steps + 1 } := by
  refine after_get (after_look_ok hfault ?_)
  show (d.tree.locate d.cwd path >>= d.tree.read) = _
  rw [h.located]
  exact h.read

theorem Writable.after_write {d : Disk} {path : Path} (h : d.Writable path)
    (hfault : d.faults d.steps = none) (bytes : ByteArray) :
    After (write path bytes) d fun r d' => r = .ok () ∧
      d' = { d with steps := d.steps + 1, tree := d.tree.setFile (d.place path) bytes } := by
  have hok : put d.cwd path bytes d.tree = .ok (d.tree.setFile (d.place path) bytes) := by
    unfold put
    rw [h.located]
    exact write_eq_ok.mpr ⟨h.way, h.noDir, rfl⟩
  refine after_get (after_bind (after_change ?_ ?_))
  · intro t ht
    obtain rfl := Except.ok.inj (hok.symm.trans ht)
    exact ⟨rfl, rfl⟩
  · rintro e (⟨fault, hsome⟩ | ⟨-, herror⟩)
    · rw [hfault] at hsome
      exact absurd hsome (by simp)
    · exact absurd (hok.symm.trans herror) (by simp)

/-- **Where a file can be replaced, only a fault of the disk can keep it from being replaced.** -/
theorem Replaceable.after_replace {d : Disk} {path : Path} (h : d.Replaceable path)
    (hwrite : d.faults d.steps = none) (hrename : d.faults (d.steps + 1) = none)
    (bytes : ByteArray) : After (replace path bytes) d fun r d' =>
      r = .ok () ∧ d'.steps = d.steps + 2 := by
  refine after_bind ((h.draft.after_write hwrite bytes).imp ?_)
  rintro _ _ ⟨rfl, rfl⟩
  have hways : KeepsWays d { d with
      steps := d.steps + 1
      tree := d.tree.setFile (d.place (draftPath path)) bytes } :=
    ⟨rfl, keepsWays_setFile h.draft.noDir⟩
  have hfile := hways.writable h.file
  have hdraft := holds_draft bytes (d.steps + 1) h.draft.located h.draft.way h.draft.noDir
  refine after_bind ((after_rename (draftPath path) path _).imp ?_)
  rintro _ _ (⟨e, rfl, rfl, hcause⟩ | ⟨rfl, content, -, -, -, -, rfl⟩)
  · have := hcause hrename bytes hdraft hfile.located hfile.way
    exact absurd (this.symm.trans hfile.noDir) (by simp)
  · exact ⟨rfl, rfl⟩

/-- From `d` to `d'` the file at `path` was replaced, in two operations. -/
structure Replaced (path : Path) (bytes : ByteArray) (d d' : Disk) : Prop where
  ways : KeepsWays d d'
  faults : d'.faults = d.faults
  steps : d'.steps = d.steps + 2
  holds : d'.Holds path bytes
  files : ∀ q, d'.tree.file? q = if q = d.place path then some bytes
    else if q = d.place (draftPath path) then none else d.tree.file? q

theorem Replaceable.after_replaced {d : Disk} {path : Path} (h : d.Replaceable path)
    (hwrite : d.faults d.steps = none) (hrename : d.faults (d.steps + 1) = none)
    (bytes : ByteArray) : After (replace path bytes) d fun r d' =>
      r = .ok () ∧ Replaced path bytes d d' := by
  refine ((((Disk.after_replace path bytes d).and (after_replace_keepsWays path bytes d)).and
    (after_replace_holds h.file.noSlash bytes d)).and
    (h.after_replace hwrite hrename bytes)).imp ?_
  rintro _ d' ⟨⟨⟨⟨-, hfaults, hcase⟩, hways, -⟩, hheld⟩, rfl, hsteps⟩
  obtain ⟨-, hfiles⟩ := hcase.resolve_right (by simp)
  exact ⟨rfl, hways, hfaults, hsteps, (hheld rfl).1, hfiles⟩

/-- Whether or not a file could be removed, no other was touched. -/
theorem after_remove_elsewhere (path : Path) (d : Disk) : After (remove path) d fun _ d' =>
    KeepsWays d d' ∧ d'.faults = d.faults ∧ d'.steps = d.steps + 1 ∧
      ∀ q, q ≠ d.place path → d'.tree.file? q = d.tree.file? q := by
  refine ((after_remove path d).and (after_remove_keepsWays path d)).imp ?_
  rintro _ d' ⟨⟨e, rfl, rfl, -⟩ | ⟨rfl, rfl⟩, hways⟩
  · exact ⟨hways, rfl, rfl, fun _ _ => rfl⟩
  · refine ⟨hways, rfl, rfl, fun q hq => ?_⟩
    show (d.tree.eraseFile (d.place path)).file? q = d.tree.file? q
    rw [file?_eraseFile, if_neg hq]

end Disk

end Plumbline
