/-
What the plans of an evaluation do.

The selection of an evaluation says which rules look at the files, and a fix is planned by the rule
whose code a violation carries.  These are the same rules: a rule reports under its own code, and no
two rules of this library share one.  So what the plans of an evaluation do to a file can be told
from the selection: annotations for type hints, frozen records for the other code, and comments.
-/
import Mathlib.Data.List.Nodup
import Plumbline.Proofs.Rule.Anchors
import Plumbline.Proofs.Rule.Evaluate
import Plumbline.Proofs.Rule.Hooks

namespace Plumbline

open Query

/-! ### Kinds of plans -/

namespace Plan

/-- Does the plan write an annotation, or import what one needs? -/
def isHint : Plan → Bool
  | addImport _ _ | addReturnType _ _ | addParameterType _ _ _ => true
  | freezeRecord _ | injectComment _ _ => false

/-- Does the plan freeze a record? -/
def isFreeze : Plan → Bool
  | freezeRecord _ => true
  | _ => false

end Plan

/-- The plans that an evaluation may make. -/
def Selection.permits : Selection → Plan → Bool
  | all, _ => true
  | typeHints, p => p.isHint
  | architecture, p => p.isFreeze
  | governance, p => p.isCommentOnly

/-- All plans of the rule's fixes satisfy `P`. -/
def Rule.PlansOnly (rule : Rule Query) (P : Plan → Prop) : Prop :=
  ∀ fixer, rule.fixer = some fixer → ∀ v ctx,
    Yields Anything (fixer.fix v ctx) fun r => ∀ plans, r = .ok plans → ∀ p ∈ plans, P p

/-! ### Plans and reports of each rule -/

theorem yields_no_plans {P : Plan → Prop} :
    Yields Anything (pure (.ok []) : Query (Except Fault (List Plan)))
      fun r => ∀ plans, r = .ok plans → ∀ p ∈ plans, P p := by
  refine yields_pure ?_
  intro plans h
  simp [← Except.ok.inj h]

theorem yields_one_plan {P : Plan → Prop} {plan : Plan} (h : P plan) :
    Yields Anything (pure (.ok [plan]) : Query (Except Fault (List Plan)))
      fun r => ∀ plans, r = .ok plans → ∀ p ∈ plans, P p := by
  refine yields_pure ?_
  intro plans heq
  simpa [← Except.ok.inj heq] using h

namespace ReturnHint

/-- The import before a plan belongs to an annotation as well. -/
theorem yields_withImport (m : Module) (t : ApprovedType) {plan : Plan} (h : plan.isHint = true) :
    Yields Anything (withImport m t plan) fun plans => ∀ p ∈ plans, p.isHint = true := by
  have himport : Yields Anything (Gate.requiredImport m t) fun r =>
      ∀ p, r = some p → p.isHint = true := by
    unfold Gate.requiredImport
    split
    · exact yields_pure (by simp)
    · split
      · exact yields_pure (by simp)
      · refine yields_bind (yields_true _) fun reachable _ => ?_
        split
        · exact yields_pure (by simp)
        · exact yields_pure fun p hp => Option.some.inj hp ▸ rfl
  refine yields_bind himport fun r hr => yields_pure ?_
  intro p hp
  rcases List.mem_append.mp hp with hp | hp
  · exact hr p (Option.mem_toList.mp hp)
  · exact List.mem_singleton.mp hp ▸ h

theorem plansOnly : rule.PlansOnly fun p => p.isHint = true := by
  intro fixer hfixer v ctx
  obtain rfl := Option.some.inj hfixer
  show Yields Anything (fix v ctx) _
  unfold fix
  split
  · exact yields_no_plans
  · split
    · exact yields_no_plans
    · refine yields_bind (yields_true _) fun t _ => ?_
      split
      · exact yields_no_plans
      · refine yields_bind (yields_withImport ctx.module _ rfl) fun plans hplans => yields_pure ?_
        intro plans' heq
        exact Except.ok.inj heq ▸ hplans

end ReturnHint

namespace ParameterHint

theorem plansOnly : rule.PlansOnly fun p => p.isHint = true := by
  intro fixer hfixer v ctx
  obtain rfl := Option.some.inj hfixer
  show Yields Anything (fix v ctx) _
  unfold fix
  split
  · split
    · exact yields_no_plans
    · split
      · exact yields_no_plans
      · refine yields_bind (yields_true _) fun t _ => ?_
        split
        · exact yields_no_plans
        · refine yields_bind (ReturnHint.yields_withImport ctx.module _ rfl)
            fun plans hplans => yields_pure ?_
          intro plans' heq
          exact Except.ok.inj heq ▸ hplans
  · exact yields_no_plans

end ParameterHint

namespace MutableRecord

theorem plansOnly : rule.PlansOnly fun p => p.isFreeze = true := by
  intro fixer hfixer v ctx
  obtain rfl := Option.some.inj hfixer
  show Yields Anything (fix v ctx) _
  unfold fix
  split
  · exact yields_no_plans
  · split
    · exact yields_no_plans
    · exact yields_one_plan rfl

end MutableRecord

theorem LayerDependency.plansOnly : rule.PlansOnly fun p => p.isCommentOnly = true := by
  intro fixer hfixer v ctx
  obtain rfl := Option.some.inj hfixer
  show Yields Anything (fix v ctx) _
  unfold fix
  split
  · exact yields_no_plans
  · exact yields_one_plan rfl

theorem TestDoubles.plansOnly (max : Nat) : (rule max).PlansOnly fun p => p.isCommentOnly = true := by
  intro fixer hfixer v ctx
  obtain rfl := Option.some.inj hfixer
  show Yields Anything (fix v ctx) _
  unfold fix
  split
  · exact yields_no_plans
  · exact yields_one_plan rfl

/-! ### The rules of this library -/

namespace Registry

variable {config : ProjectConfig} {rule rule' : Rule Query}

/-- A rule reports under its own code. -/
theorem keeps_code (h : rule ∈ catalogue config) (ctx : RuleContext) :
    rule.Keeps Anything ctx (TestDoubles.IsRecord ctx) fun v => v.code = rule.code := by
  have hanswers : Answers (yielding Anything) (fun _ _ _ => True) ctx.module :=
    ⟨fun _ _ => yields_true _, fun _ => yields_true _, yields_true _, yields_true _⟩
  exact (obeys (fun _ _ _ _ _ _ => trivial) h hanswers).imp fun _ _ hreport => hreport.code

/-- No two rules share a code. -/
theorem eq_of_code_eq (h : rule ∈ catalogue config) (h' : rule' ∈ catalogue config)
    (hcode : rule.code = rule'.code) : rule = rule' := by
  have hcodes : (catalogue config).map (·.code) =
      ["TYP001", "TYP002", "ARC002", "ARC003", "ARC001", "TST001"] := rfl
  have hnodup : ((catalogue config).map (·.code)).Nodup := by
    rw [hcodes]
    decide
  exact List.inj_on_of_nodup_map hnodup h h' hcode

/-- A rule that is selected plans only what the selection permits. -/
theorem plansOnly_of_includes (h : rule ∈ catalogue config) {s : Selection}
    (hs : s.includes rule = true) : rule.PlansOnly fun p => s.permits p = true := by
  have hopaque : ∀ P, OpaqueIndirection.rule.PlansOnly P := by
    intro P fixer hfixer
    exact absurd hfixer (by simp [OpaqueIndirection.rule])
  simp only [catalogue, List.mem_cons, List.not_mem_nil, or_false] at h
  cases s with
  | all => exact fun _ _ _ _ _ _ _ => ⟨fun _ _ _ _ => rfl, trivial⟩
  | typeHints =>
      rcases h with rfl | rfl | rfl | rfl | rfl | rfl
      · exact ReturnHint.plansOnly
      · exact ParameterHint.plansOnly
      · exact hopaque _
      · exact absurd hs (by simp [Selection.includes, MutableRecord.rule])
      · exact absurd hs (by simp [Selection.includes, LayerDependency.rule])
      · exact absurd hs (by simp [Selection.includes, TestDoubles.rule])
  | architecture =>
      rcases h with rfl | rfl | rfl | rfl | rfl | rfl
      · exact absurd hs (by simp [Selection.includes, ReturnHint.rule])
      · exact absurd hs (by simp [Selection.includes, ParameterHint.rule])
      · exact hopaque _
      · exact MutableRecord.plansOnly
      · exact absurd hs (by simp [Selection.includes, LayerDependency.rule])
      · exact absurd hs (by simp [Selection.includes, TestDoubles.rule])
  | governance =>
      rcases h with rfl | rfl | rfl | rfl | rfl | rfl
      · exact absurd hs (by simp [Selection.includes, ReturnHint.rule])
      · exact absurd hs (by simp [Selection.includes, ParameterHint.rule])
      · exact hopaque _
      · exact absurd hs (by simp [Selection.includes, MutableRecord.rule])
      · exact LayerDependency.plansOnly
      · exact TestDoubles.plansOnly _

end Registry

/-! ### Evaluations -/

variable {rules config : ProjectConfig} {s : Selection}

/-- What is planned for a violation that carries the code of a selected rule is permitted. -/
theorem FileEvaluation.yields_planned_permitted {rule : Rule Query}
    (hrule : rule ∈ (Registry.ofConfig rules).selected s) {v : Violation} (hcode : v.code = rule.code)
    (ctx : RuleContext) :
    Yields Anything (planned (.ofConfig rules) ctx v) fun r =>
      ∀ plans, r = .ok plans → ∀ p ∈ plans, s.permits p = true := by
  obtain ⟨hmem, hselected⟩ := List.mem_filter.mp hrule
  have hlisted := Registry.mem_catalogue_of_mem hmem
  unfold planned
  split
  · split
    · exact yields_pure fun plans h => by simp [← Except.ok.inj h]
    · rename_i fixer hfixer
      obtain ⟨rule', hget, hfixer⟩ := Option.bind_eq_some_iff.mp hfixer
      have hlisted' := Registry.mem_catalogue_of_mem (List.mem_of_find?_eq_some hget)
      have hcode' : rule'.code = v.code := by simpa using List.find?_some hget
      obtain rfl := Registry.eq_of_code_eq hlisted' hlisted (hcode'.trans hcode)
      have hplans := Registry.plansOnly_of_includes hlisted hselected fixer hfixer v ctx
      refine yields_bind hplans fun r hr => ?_
      split
      · exact yields_pure fun plans h => hr plans (congrArg Except.ok (Except.ok.inj h))
      · exact yields_pure fun plans h => by simp at h
  · exact yields_pure fun plans h => by simp [← Except.ok.inj h]

/-- **The plans of an evaluation are those that its selection permits.** -/
theorem Registry.yields_permitted (rules config : ProjectConfig) (s : Selection)
    (paths : List Path) :
    Yields Anything ((ofConfig rules).evaluate config s paths) fun evaluations =>
      ∀ e ∈ evaluations, ∀ p ∈ e.plans, s.permits p = true := by
  have hfile : ∀ path ∈ paths, Yields Anything (FileEvaluation.ofFile (ofConfig rules) config s path)
      fun e => ∀ p ∈ e.plans, s.permits p = true := by
    intro path _
    refine yields_bind (yields_true _) ?_
    rintro (error | m) -
    · exact yields_pure (by simp)
    · have hkeeps : ∀ rule ∈ (ofConfig rules).selected s, ∀ ctx : RuleContext,
          rule.Keeps Anything ctx (TestDoubles.IsRecord ctx) fun v => v.code = rule.code :=
        fun rule hrule => keeps_code (mem_catalogue_of_mem (List.mem_filter.mp hrule).1)
      refine yields_bind (yields_walk fun rule hrule => hkeeps rule hrule _) ?_
      intro outcome houtcome
      refine yields_foldlM (by simp) ?_
      intro e v hv he
      obtain ⟨rule, hrule, hcode⟩ := houtcome v hv
      refine yields_bind (FileEvaluation.yields_planned_permitted hrule hcode _) ?_
      rintro (failure | plans) hplans
      · exact yields_pure he
      · refine yields_pure ?_
        intro p hp
        exact (List.mem_append.mp hp).elim (he p) (hplans plans rfl p)
  refine (yields_mapM hfile).imp ?_
  intro evaluations h e he
  obtain ⟨path, -, hplans⟩ := h e he
  exact hplans

end Plumbline
