/-
A file is changed as a whole or not at all.

Plans are applied to the text of a file one after the other, and any of them can fail.  The file
itself is written once, after all of them, and not in place: the new text is written beside it and
then takes its name.  So whatever fails on the way, a file that was not reported as changed holds
the bytes it held, and one that was holds the text that the plans give, all of it
(`file_whole_or_untouched`).

For this the draft must lie beside the file and not in its place (`Holds.place_draftPath_ne`).
-/
import Plumbline.Proofs.Files.Draft
import Plumbline.Proofs.Fix.Composition

namespace Plumbline

namespace Plan

open Disk

/-- **All or nothing.**  Whatever the disk is, and whichever of its operations fail, applying plans
to a file touches the file and its draft only.  If the answer is an error or that nothing changed,
the file holds the bytes it held.  If the answer is that it changed, it holds the text that the plans
give for what it held, and this is another text and has no syntax errors; there is no draft then. -/
theorem file_whole_or_untouched (path : Path) (plans : List Plan) (d : Disk) :
    DiskM.After (applyToFile path plans) d fun r d' =>
      ChangesOnly (fun q => q = d.place path ∨ q = d.place (draftPath path)) d d' ∧
      (∀ q, d'.tree.isDir q = d.tree.isDir q) ∧
      (r ≠ .ok true → d'.tree.file? (d.place path) = d.tree.file? (d.place path)) ∧
      (r = .ok true → ∃ content source updated,
        d.Holds path content ∧ String.fromUTF8? content = some source ∧
        applyAll path source plans = .ok updated ∧ updated ≠ source ∧
        Syntax.isValid updated = true ∧ d'.Holds path updated.toUTF8 ∧
        d'.tree.file? (d.place (draftPath path)) = none) := by
  refine DiskM.after_bind ((after_readText path d).imp ?_)
  rintro (e | source) d₁ ⟨rfl, hread⟩
  · exact ⟨⟨rfl, rfl, fun _ _ => rfl⟩, fun _ => rfl, fun _ => rfl, by simp⟩
  · obtain ⟨content, hheld, htext⟩ := hread source rfl
    cases hplans : applyAll path source plans with
    | error e =>
        simp only [hplans]
        exact ⟨⟨rfl, rfl, fun _ _ => rfl⟩, fun _ => rfl, fun _ => rfl, by simp⟩
    | ok updated =>
        simp only [hplans]
        by_cases hsame : updated = source
        · rw [if_pos hsame]
          refine ⟨⟨rfl, rfl, fun _ _ => rfl⟩, fun _ => rfl, fun _ => rfl, fun h => ?_⟩
          exact absurd (Except.ok.inj h) (by decide)
        · rw [if_neg hsame]
          have hne : d.place path ≠ d.place (draftPath path) := hheld.place_draftPath_ne.symm
          refine DiskM.after_bind ((((after_replace path updated.toUTF8 _).and
            (after_replace_keepsWays path updated.toUTF8 _)).and
            ((after_replace_changesOnly path updated.toUTF8 _).and
            (after_replace_holds hheld.writable.noSlash updated.toUTF8 _))).imp ?_)
          rintro r d₂ ⟨⟨⟨-, -, hcase⟩, hways, -⟩, hchanges, hholds⟩
          have hchanges : ChangesOnly
              (fun q => q = d.place path ∨ q = d.place (draftPath path)) d d₂ :=
            ⟨hchanges.cwd, hchanges.faults, hchanges.files⟩
          rcases hcase with ⟨rfl, hfiles⟩ | ⟨e, rfl, hfiles, -⟩
          · refine ⟨hchanges, hways.tree.dirs, fun h => absurd rfl h, fun _ =>
              ⟨content, source, updated, hheld, htext, hplans, hsame, isValid_of_applyAll hplans,
                (hholds rfl).1, ?_⟩⟩
            exact (hfiles _).trans ((if_neg hne.symm).trans (if_pos rfl))
          · exact ⟨hchanges, hways.tree.dirs, fun _ => hfiles _ hne, fun h => nomatch h⟩

end Plan

end Plumbline
