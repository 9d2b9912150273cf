/-
Where the draft of a file lies.

A file is replaced through a draft beside it.  A path to a place where a file can be put ends in a
name, because `.` and `..` lead to directories, and the name of the draft is a longer one: so the
draft lies in the same directory and not in the file's place.  In particular it is below a directory
only if the file is.
-/
import Plumbline.Proofs.Files.Disk

namespace Plumbline

namespace FileTree

variable {t : FileTree} {here there : Place}

/-- What can be reached lies in a directory. -/
theorem isDir_dropLast (hway : t.obstacle? here = none) : t.isDir here.dropLast = true := by
  by_cases hdeep : 2 ≤ here.length
  · have habove : here.dropLast ∈ above here := by
      refine List.mem_map.mpr ⟨here.length - 1, ?_, (List.dropLast_eq_take ..).symm⟩
      rw [List.mem_range'_1]
      omega
    exact (obstacle?_eq_none.mp hway _ habove).2
  · have hroot : here.dropLast = [] := by
      rw [← List.length_eq_zero_iff, List.length_dropLast]
      omega
    rw [hroot]
    rfl

/-- A path that ends in `..` leads to a directory. -/
theorem isDir_of_getLast? {cwd place : Place} {path : Path} (hloc : t.locate cwd path = .ok place)
    (hlast : path.components.getLast? = some "..") : t.isDir place = true := by
  obtain ⟨front, hparts⟩ := List.getLast?_eq_some_iff.mp hlast
  have hfold := (locate_eq_ok.mp hloc).1
  rw [hparts, List.foldlM_append] at hfold
  cases hfront : front.foldlM t.step cwd with
  | error e => simp [hfront, bind, Except.bind] at hfold
  | ok here =>
      have hstep : t.step here ".." = .ok place := by
        rw [hfront] at hfold
        cases hup : t.step here ".." with
        | error e => simp [hup, bind, Except.bind] at hfold
        | ok there => simpa [hup, bind, Except.bind, pure, Except.pure] using hfold
      obtain rfl := step_eq_ok hstep
      cases hdir : t.notDir? here with
      | none => exact isDir_dropLast (notDir?_eq_none.mp hdir).1
      | some e => simp [step, hdir] at hstep

end FileTree

namespace Disk

open DiskM FileTree

variable {d : Disk} {path : Path} {content : ByteArray}

/-- **A path to a place where a file can be put ends in a name.** -/
theorem Writable.exists_fileName? (h : d.Writable path) : ∃ name, path.fileName? = some name := by
  obtain ⟨last, hlast⟩ : ∃ last, path.segments.getLast? = some last :=
    ⟨_, List.getLast?_eq_some_getLast (Path.segments_ne_nil path)⟩
  have hnotVoid : Path.isVoid last = false := by
    have := h.noSlash
    rwa [hlast, Option.any_some] at this
  have hfilter : (path.segments.filter (!Path.isVoid ·)).getLast? = some last := by
    obtain ⟨front, hsegments⟩ := List.getLast?_eq_some_iff.mp hlast
    simp [hsegments, hnotVoid]
  have hparts : path.components.getLast? = some last := by
    rw [Path.components_eq, List.getLast?_append, hfilter, Option.some_or]
  have hslash : last ≠ "/" := by
    rintro rfl
    exact Path.noSlash_of_mem_segments (List.mem_of_getLast? hlast) (by decide)
  have hdot : last ≠ "." := by
    rintro rfl
    exact absurd hnotVoid (by decide)
  have hup : last ≠ ".." := by
    rintro rfl
    have hdir := isDir_of_getLast? h.located hparts
    rw [h.noDir] at hdir
    exact Bool.noConfusion hdir
  exact ⟨last, by simp [Path.fileName?, hparts, hslash, hdot, hup]⟩

theorem draftName_ne (name : String) : draftName name ≠ name := by
  intro h
  have hlength := congrArg String.length h
  simp only [draftName, String.length_append] at hlength
  have htag : ".archfix-tmp".length = 12 := by decide
  omega

/-- The draft of a file lies beside it, and not in its place. -/
theorem Writable.place_draftPath_ne (h : d.Writable path) :
    d.place (draftPath path) ≠ d.place path := by
  obtain ⟨name, hname⟩ := h.exists_fileName?
  obtain ⟨dir, hfile, hdraft⟩ := placeFrom_draftPath hname d.cwd
  unfold place
  rw [hfile, hdraft]
  intro hsame
  exact draftName_ne name (by simpa using hsame)

theorem Holds.place_draftPath_ne (h : d.Holds path content) :
    d.place (draftPath path) ≠ d.place path := h.writable.place_draftPath_ne

/-- The draft of a file that is not below a directory is not below it either. -/
theorem Replaceable.not_below_draft {top : Place} (h : d.Replaceable path)
    (hdir : d.tree.isDir top = true) (hpath : ¬ top <+: d.place path) :
    ¬ top <+: d.place (draftPath path) := by
  obtain ⟨name, hname⟩ := h.file.exists_fileName?
  obtain ⟨dir, hfile, hdraft⟩ := placeFrom_draftPath hname d.cwd
  intro hbelow
  have hbelow' : top <+: dir ++ [draftName name] := hdraft ▸ hbelow
  rcases List.prefix_concat_iff.mp hbelow' with heq | hprefix
  · -- The draft would be the directory itself.
    have hnoDir : d.tree.isDir (dir ++ [draftName name]) = false := hdraft ▸ h.draft.noDir
    rw [← heq, hdir] at hnoDir
    exact Bool.noConfusion hnoDir
  · refine hpath ?_
    show top <+: path.placeFrom d.cwd
    rw [hfile]
    exact hprefix.trans (List.prefix_append _ _)

end Disk

end Plumbline
