/-
Evaluations: by which rules, and of which files.

A registry that is made from settings holds rules of this library only.  The plans for a file carry no
path: a run applies them to the file whose path stands in the evaluation.  So it matters that
evaluations keep the paths of the files they were made for.
-/
import Plumbline.Proofs.Analysis.Query
import Plumbline.Rule.Evaluate

namespace Plumbline

open Query

namespace FileEvaluation

theorem yields_planStep (registry : Registry) (ctx : RuleContext) (e : FileEvaluation)
    (v : Violation) : Yields Anything (planStep registry ctx e v) fun e' => e'.path = e.path := by
  refine yields_bind (yields_true _) ?_
  rintro (failure | plans) -
  · exact yields_pure rfl
  · exact yields_pure rfl

theorem yields_ofFile (registry : Registry) (config : ProjectConfig) (s : Selection) (path : Path) :
    Yields Anything (ofFile registry config s path) fun e => e.path = path := by
  refine yields_bind (yields_true _) ?_
  rintro (error | m) -
  · exact yields_pure rfl
  · refine yields_bind (yields_true _) fun outcome _ => yields_foldlM rfl ?_
    intro e v _ he
    exact (yields_planStep registry _ e v).imp fun e' h => h.trans he

end FileEvaluation

namespace Registry

theorem mem_of_mem_foldl_register {rules : List (Rule Query)} {r : Registry}
    {rule : Rule Query} (h : rule ∈ (rules.foldl register r).rules) :
    rule ∈ r.rules ∨ rule ∈ rules := by
  induction rules generalizing r with
  | nil => exact Or.inl h
  | cons first rest ih =>
      rw [List.foldl_cons] at h
      rcases ih h with hmem | hmem
      · unfold register at hmem
        split at hmem
        · exact Or.inl hmem
        · rcases List.mem_append.mp hmem with hmem | hmem
          · exact Or.inl hmem
          · exact Or.inr (List.mem_cons.mpr (Or.inl (List.mem_singleton.mp hmem)))
      · exact Or.inr (List.mem_cons_of_mem first hmem)

/-- The rules of a registry are rules of this library. -/
theorem mem_catalogue_of_mem {config : ProjectConfig} {rule : Rule Query}
    (h : rule ∈ (ofConfig config).rules) : rule ∈ catalogue config := by
  have hmem := (mem_of_mem_foldl_register h).resolve_left List.not_mem_nil
  exact (List.mem_filter.mp hmem).1

/-- Files are evaluated under their own paths. -/
theorem yields_evaluate (registry : Registry) (config : ProjectConfig) (s : Selection)
    (paths : List Path) :
    Yields Anything (registry.evaluate config s paths) fun evaluations =>
      ∀ e ∈ evaluations, e.path ∈ paths := by
  refine (yields_mapM fun path _ => FileEvaluation.yields_ofFile registry config s path).imp ?_
  intro evaluations h e he
  obtain ⟨path, hpath, heq⟩ := h e he
  rw [heq]
  exact hpath

end Registry

end Plumbline
