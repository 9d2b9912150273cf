/-
What the hooks of the rules ask, and what they report.

The rules of this library ask four things about a module: what a function returns, what the type of an
expression is, what the ancestors of a class are, and whether a type can be named.  Whatever can be
said about the answers to these (`Answers`) can be said about every hook and every fix, so this is
where the rules are gone through once, for all ways to speak about questions.

A violation is reported at a definition, under its name, and it is fixable only if no other
definition shares the name and, for annotations, a type was inferred.  An annotation that is planned
has a type that was an answer (`Plan.IsTold`).
-/
import Plumbline.Proofs.Module.Definitions
import Plumbline.Proofs.Rule.Anchors
import Plumbline.Rule.Evaluate

namespace Plumbline

open Query

/-- What can be said about the answers to all that rules ask about a module.  `Told c work t` is said
of a type `t` when `c` is remembered. -/
structure Query.Answers (L : Logic) (Told : Cache → Query InferredType → InferredType → Prop)
    (m : Module) : Prop where
  inferReturn : ∀ {c f}, f ∈ m.functions → m.isAmbiguous f.qualname = false →
    L.Holds c (inferReturn m f) fun c' t => Told c' (inferReturn m f) t
  inferType : ∀ {c scope e}, scope.module = m →
    L.Holds c (inferType scope e) fun c' t => Told c' (inferType scope e) t
  ancestors : ∀ {c cls}, L.Holds c (ancestors m cls) fun _ _ => True
  isReachable : ∀ {c t}, L.Holds c (isReachable m t) fun _ _ => True

variable {L : Logic} {Told : Cache → Query InferredType → InferredType → Prop} {ctx : RuleContext}
  {c : Cache}

theorem Query.Answers.since {m : Module} (h : Answers L Told m) (c₀ : Cache) :
    Answers (L.since c₀) Told m where
  inferReturn hf halone _ := h.inferReturn hf halone
  inferType hscope _ := h.inferType hscope
  ancestors _ := h.ancestors
  isReachable _ := h.isReachable

/-- The type of the annotation that a plan writes. -/
def Plan.annotation? : Plan → Option TypeRef
  | addReturnType _ t | addParameterType _ _ t => some t.type
  | addImport _ _ | freezeRecord _ | injectComment _ _ => none

/-- A type that the plan writes was the answer to a question. -/
def Plan.IsTold (Told : Cache → Query InferredType → InferredType → Prop) (c : Cache)
    (plan : Plan) : Prop :=
  ∀ t, plan.annotation? = some t → ∃ work, Told c work (.known t)

theorem Plan.isTold_of_none {plan : Plan} (h : plan.annotation? = none) : plan.IsTold Told c := by
  intro t ht
  rw [h] at ht
  exact absurd ht (by simp)

theorem Plan.IsTold.later (hlasts : ∀ c c' work t, c ≤ c' → Told c work t → Told c' work t)
    {c c' : Cache} (hle : c ≤ c') {plan : Plan} (h : plan.IsTold Told c) : plan.IsTold Told c' := by
  intro t ht
  obtain ⟨work, hwork⟩ := h t ht
  exact ⟨work, hlasts _ _ _ _ hle hwork⟩

theorem no_plans_hold {P : Cache → Plan → Prop} :
    L.Holds c (pure (.ok []) : Query (Except Fault (List Plan)))
      fun c' r => ∀ plans, r = .ok plans → ∀ plan ∈ plans, P c' plan := by
  refine L.pure ?_
  intro plans h
  simp [← Except.ok.inj h]

theorem one_plan_holds {P : Cache → Plan → Prop} {plan : Plan} (h : P c plan) :
    L.Holds c (pure (.ok [plan]) : Query (Except Fault (List Plan)))
      fun c' r => ∀ plans, r = .ok plans → ∀ plan ∈ plans, P c' plan := by
  refine L.pure ?_
  intro plans heq
  simpa [← Except.ok.inj heq] using h

theorem no_violations_hold {P : Cache → Violation → Prop} :
    L.Holds c (pure (.ok []) : Query (Except Fault (List Violation)))
      fun c' r => ∀ found, r = .ok found → ∀ v ∈ found, P c' v := by
  refine L.pure ?_
  intro found h
  simp [← Except.ok.inj h]

theorem one_violation_holds {P : Cache → Violation → Prop} {v : Violation} (h : P c v) :
    L.Holds c (pure (.ok [v]) : Query (Except Fault (List Violation)))
      fun c' r => ∀ found, r = .ok found → ∀ v ∈ found, P c' v := by
  refine L.pure ?_
  intro found heq
  simpa [← Except.ok.inj heq] using h

/-! ### Return annotations -/

namespace ReturnHint

/-- The gate changes nothing of a violation but what can be done about it. -/
theorem gated_cases (v : Violation) (t : InferredType) :
    (∃ r, t = .known r ∧ gated v t = v.asFixable) ∨ ∃ reason, gated v t = v.asUnfixable reason := by
  cases t with
  | known r => exact Or.inl ⟨r, rfl, rfl⟩
  | dynamic => exact Or.inr ⟨_, rfl⟩
  | unknown => exact Or.inr ⟨_, rfl⟩

/-- A violation at a function of the module. -/
def IsReport (Told : Cache → Query InferredType → InferredType → Prop) (ctx : RuleContext) (c : Cache)
    (v : Violation) : Prop :=
  v.code = code ∧ ∃ f ∈ ctx.module.functions, v.location = ctx.location f.span ∧
    v.target = some { symbol := f.qualname } ∧
    (v.fixable = true → ctx.module.isAmbiguous f.qualname = false ∧
      ∃ t, Told c (inferReturn ctx.module f) (.known t))

theorem check_holds (h : Answers L Told ctx.module) {around : Around} {node : Node}
    (hnode : .enter around node ∈ ctx.module.visits) :
    L.Holds c (check { ctx with around } node) fun c' r => ∀ found, r = .ok found →
      ∀ v ∈ found, IsReport Told ctx c' v := by
  unfold check
  split
  · exact no_violations_hold
  · rename_i f hf
    have hmem : f ∈ ctx.module.functions := ctx.module.mem_functions_of_enter hnode hf
    split
    · exact no_violations_hold
    · split
      · exact one_violation_holds ⟨rfl, f, hmem, rfl, rfl, fun hfix => nomatch hfix⟩
      · rename_i hshared
        have halone : ctx.module.isAmbiguous f.qualname = false := by simpa using hshared
        refine L.bind (h.inferReturn hmem halone) fun c' t _ ht => one_violation_holds ?_
        rcases gated_cases (violation { ctx with around } f) t with ⟨r, rfl, heq⟩ | ⟨reason, heq⟩
        · rw [heq]
          exact ⟨rfl, f, hmem, rfl, rfl, fun _ => ⟨halone, r, ht⟩⟩
        · rw [heq]
          exact ⟨rfl, f, hmem, rfl, rfl, fun hfix => nomatch hfix⟩

/-- All that stands before the plan is an import. -/
theorem withImport_holds (h : Answers L Told ctx.module) (t : ApprovedType) (plan : Plan) :
    L.Holds c (withImport ctx.module t plan) fun _ plans =>
      ∀ p ∈ plans, p = plan ∨ p.annotation? = none := by
  have himport : L.Holds c (Gate.requiredImport ctx.module t) fun _ r =>
      ∀ p, r = some p → p.annotation? = none := by
    unfold Gate.requiredImport
    split
    · exact L.pure (by simp)
    · split
      · exact L.pure (by simp)
      · refine L.bind h.isReachable fun _ reachable _ _ => ?_
        split
        · exact L.pure (by simp)
        · exact L.pure fun p hp => Option.some.inj hp ▸ rfl
  refine L.bind himport fun _ r _ hr => L.pure fun p hp => ?_
  rcases List.mem_append.mp hp with hp | hp
  · exact Or.inr (hr p (Option.mem_toList.mp hp))
  · exact Or.inl (List.mem_singleton.mp hp)

/-- The annotation that is planned for an answer has its type. -/
theorem approved_holds (hlasts : ∀ c c' work t, c ≤ c' → Told c work t → Told c' work t)
    (h : Answers L Told ctx.module) {work : Query InferredType} {t : TypeRef}
    (ht : Told c work (.known t)) {plan : Plan} (hplan : plan.annotation? = some t) :
    L.Holds c (do pure (.ok (← withImport ctx.module ⟨t⟩ plan)) : Query (Except Fault (List Plan)))
      fun c' r => ∀ plans, r = .ok plans → ∀ plan ∈ plans, plan.IsTold Told c' := by
  refine L.bind (withImport_holds h ⟨t⟩ plan) fun c' made hle hmade => L.pure ?_
  intro plans heq p hp
  obtain rfl := Except.ok.inj heq
  rcases hmade p hp with rfl | hnone
  · intro u hu
    rw [hplan] at hu
    obtain rfl := Option.some.inj hu
    exact ⟨work, hlasts _ _ _ _ hle ht⟩
  · exact Plan.isTold_of_none hnone

theorem fix_holds (hlasts : ∀ c c' work t, c ≤ c' → Told c work t → Told c' work t)
    (h : Answers L Told ctx.module) (v : Violation) :
    L.Holds c (fix v ctx) fun c' r => ∀ plans, r = .ok plans →
      ∀ plan ∈ plans, plan.IsTold Told c' := by
  unfold fix
  split
  · exact no_plans_hold
  · rename_i f hf
    obtain ⟨target, -, hfound⟩ := Option.bind_eq_some_iff.mp hf
    rw [ctx.module.findFunction?_eq] at hfound
    have hmem : f ∈ ctx.module.functions := List.mem_of_find?_eq_some hfound
    split
    · exact no_plans_hold
    · rename_i hshared
      refine L.bind (h.inferReturn hmem (by simpa using hshared)) ?_
      rintro c' (t | _ | _) - ht
      · exact approved_holds hlasts h ht rfl
      · exact no_plans_hold
      · exact no_plans_hold

end ReturnHint

/-! ### Annotations of parameters -/

namespace ParameterHint

/-- A violation at a parameter of a function of the module. -/
def IsReport (Told : Cache → Query InferredType → InferredType → Prop) (ctx : RuleContext) (c : Cache)
    (v : Violation) : Prop :=
  v.code = code ∧ ∃ f ∈ ctx.module.functions, ∃ p ∈ f.params,
    v.location = ctx.location p.nameSpan ∧
    v.target = some { symbol := f.qualname, member := some p.name } ∧
    (v.fixable = true → ctx.module.isAmbiguous f.qualname = false ∧
      ∃ t, Told c (defaultType ctx.module p) (.known t))

theorem defaultType_holds (h : Answers L Told ctx.module) (p : Param) :
    L.Holds c (defaultType ctx.module p) fun c' t => ∀ r, t = .known r →
      Told c' (defaultType ctx.module p) (.known r) := by
  unfold defaultType
  split
  · exact L.pure fun r hr => nomatch hr
  · exact L.pure fun r hr => nomatch hr
  · exact L.imp (h.inferType rfl) fun c' t _ ht r hr => hr ▸ ht

theorem mem_params_of_mem_bareParams {f : FunctionDef} {p : Param} (h : p ∈ bareParams f) :
    p ∈ f.params := by
  obtain ⟨q, hq, heq⟩ := List.mem_filterMap.mp h
  obtain ⟨i, hi, rfl⟩ := List.mem_mapIdx.mp hq
  dsimp only [id] at heq
  split at heq
  · rw [← Option.some.inj heq]
    exact List.getElem_mem hi
  · exact absurd heq (by simp)

theorem check_holds
    (hlasts : ∀ c c' work t, c ≤ c' → Told c work t → Told c' work t)
    (h : Answers L Told ctx.module) {around : Around} {node : Node}
    (hnode : .enter around node ∈ ctx.module.visits) :
    L.Holds c (check { ctx with around } node) fun c' r => ∀ found, r = .ok found →
      ∀ v ∈ found, IsReport Told ctx c' v := by
  unfold check
  split
  · exact no_violations_hold
  · rename_i f hf
    have hmem : f ∈ ctx.module.functions := ctx.module.mem_functions_of_enter hnode hf
    have hjudged : ∀ c₁, ∀ p ∈ bareParams f, c ≤ c₁ →
        L.Holds c₁ (judged { ctx with around } f p) (IsReport Told ctx) := by
      intro c₁ p hp _
      have hparam : p ∈ f.params := mem_params_of_mem_bareParams hp
      unfold judged
      split
      · exact L.pure ⟨rfl, f, hmem, p, hparam, rfl, rfl, fun hfix => nomatch hfix⟩
      · rename_i hshared
        have halone : ctx.module.isAmbiguous f.qualname = false := by simpa using hshared
        refine L.bind (defaultType_holds h p) fun c' t _ ht => L.pure ?_
        rcases ReturnHint.gated_cases (violation { ctx with around } f p) t with
          ⟨r, rfl, heq⟩ | ⟨reason, heq⟩
        · rw [heq]
          exact ⟨rfl, f, hmem, p, hparam, rfl, rfl, fun _ => ⟨halone, r, ht r rfl⟩⟩
        · rw [heq]
          exact ⟨rfl, f, hmem, p, hparam, rfl, rfl, fun hfix => nomatch hfix⟩
    refine L.bind (L.mapM (R := fun _ => IsReport Told ctx) ?_ hjudged) ?_
    · rintro - v c₁ c₂ hle ⟨hcode, f, hf, p, hp, hlocation, htarget, hfix⟩
      refine ⟨hcode, f, hf, p, hp, hlocation, htarget, fun h => ?_⟩
      obtain ⟨halone, t, ht⟩ := hfix h
      exact ⟨halone, t, hlasts _ _ _ _ hle ht⟩
    · intro c' found _ hfound
      refine L.pure fun found' heq v hv => ?_
      obtain rfl := Except.ok.inj heq
      obtain ⟨p, -, hreport⟩ := hfound v hv
      exact hreport

theorem fix_holds (hlasts : ∀ c c' work t, c ≤ c' → Told c work t → Told c' work t)
    (h : Answers L Told ctx.module) (v : Violation) :
    L.Holds c (fix v ctx) fun c' r => ∀ plans, r = .ok plans →
      ∀ plan ∈ plans, plan.IsTold Told c' := by
  unfold fix
  split
  · split
    · exact no_plans_hold
    · split
      · exact no_plans_hold
      · refine L.bind (defaultType_holds h _) ?_
        rintro c' (t | _ | _) - ht
        · exact ReturnHint.approved_holds hlasts h (ht t rfl) rfl
        · exact no_plans_hold
        · exact no_plans_hold
  · exact no_plans_hold

end ParameterHint

/-! ### Wrappers -/

theorem OpaqueIndirection.check_holds (h : Answers L Told ctx.module) (around : Around)
    (node : Node) :
    L.Holds c (check { ctx with around } node) fun _ r => ∀ found, r = .ok found →
      ∀ v ∈ found, v.code = code := by
  unfold check
  split
  · exact no_violations_hold
  · split
    · exact no_violations_hold
    · refine L.bind (h.inferType rfl) fun c' t _ _ => ?_
      split
      · exact one_violation_holds rfl
      · exact no_violations_hold

/-! ### Records -/

namespace MutableRecord

/-- A violation at a class of the module. -/
def IsReport (ctx : RuleContext) (v : Violation) : Prop :=
  v.code = code ∧ ∃ cls ∈ ctx.module.classes, v.location = ctx.location cls.span ∧
    v.target = some { symbol := cls.qualname } ∧
    (v.fixable = true → ctx.module.isAmbiguous cls.qualname = false)

theorem isReport_violation {cls : ClassDef} (hmem : cls ∈ ctx.module.classes) (layer : Layer) :
    IsReport ctx (violation ctx cls layer) := by
  unfold violation
  dsimp only
  split
  · exact ⟨rfl, cls, hmem, rfl, rfl, fun hfix => nomatch hfix⟩
  · rename_i hshared
    exact ⟨rfl, cls, hmem, rfl, rfl, fun _ => by simpa using hshared⟩

theorem check_holds (h : Answers L Told ctx.module) {around : Around} {node : Node}
    (hnode : .enter around node ∈ ctx.module.visits) :
    L.Holds c (check { ctx with around } node) fun _ r => ∀ found, r = .ok found →
      ∀ v ∈ found, IsReport ctx v := by
  unfold check
  split
  · exact no_violations_hold
  · rename_i cls hcls
    have hmem : cls ∈ ctx.module.classes := ctx.module.mem_classes_of_enter hnode hcls
    split
    · refine L.bind h.ancestors fun c' chain _ _ => ?_
      split
      · split
        · exact one_violation_holds (isReport_violation hmem _)
        · exact no_violations_hold
      · exact no_violations_hold
    · exact no_violations_hold

theorem fix_holds (v : Violation) : L.Holds c (fix v ctx) fun _ r => ∀ plans, r = .ok plans →
    ∀ plan ∈ plans, plan.annotation? = none := by
  unfold fix
  split
  · exact no_plans_hold
  · split
    · exact no_plans_hold
    · exact one_plan_holds rfl

end MutableRecord

/-! ### Comments -/

theorem LayerDependency.fix_holds (ctx : RuleContext) (v : Violation) :
    L.Holds c (fix v ctx) fun _ r => ∀ plans, r = .ok plans →
      ∀ plan ∈ plans, plan.annotation? = none := by
  unfold fix
  split
  · exact no_plans_hold
  · exact one_plan_holds rfl

theorem TestDoubles.fix_holds (ctx : RuleContext) (v : Violation) :
    L.Holds c (fix v ctx) fun _ r => ∀ plans, r = .ok plans →
      ∀ plan ∈ plans, plan.annotation? = none := by
  unfold fix
  split
  · exact no_plans_hold
  · exact one_plan_holds rfl

/-! ### All rules -/

/-- What a rule of this library reports. -/
structure Rule.Reports (Told : Cache → Query InferredType → InferredType → Prop) (ctx : RuleContext)
    (rule : Rule Query) (c : Cache) (v : Violation) : Prop where
  code : v.code = rule.code
  returnHint : v.code = ReturnHint.code → ReturnHint.IsReport Told ctx c v
  parameterHint : v.code = ParameterHint.code → ParameterHint.IsReport Told ctx c v
  mutableRecord : v.code = MutableRecord.code → MutableRecord.IsReport ctx v

/-- Nothing more is said about the reports of other rules. -/
theorem Rule.Reports.of_other {rule : Rule Query} {v : Violation} {code : String}
    (hcode : v.code = code) (hrule : rule.code = code)
    (hne : code ≠ ReturnHint.code ∧ code ≠ ParameterHint.code ∧ code ≠ MutableRecord.code) :
    rule.Reports Told ctx c v where
  code := hcode.trans hrule.symm
  returnHint h := absurd (hcode.symm.trans h) hne.1
  parameterHint h := absurd (hcode.symm.trans h) hne.2.1
  mutableRecord h := absurd (hcode.symm.trans h) hne.2.2

namespace Registry

variable {config : ProjectConfig} {rule : Rule Query}

theorem lasting_reports
    (hlasts : ∀ c c' work t, c ≤ c' → Told c work t → Told c' work t) :
    Lasting (Rule.Reports Told ctx) := by
  intro rule c c' v hle h
  refine ⟨h.code, fun hcode => ?_, fun hcode => ?_, h.mutableRecord⟩
  · obtain ⟨hcode, f, hf, hlocation, htarget, hfix⟩ := h.returnHint hcode
    refine ⟨hcode, f, hf, hlocation, htarget, fun hfixable => ?_⟩
    obtain ⟨halone, t, ht⟩ := hfix hfixable
    exact ⟨halone, t, hlasts _ _ _ _ hle ht⟩
  · obtain ⟨hcode, f, hf, p, hp, hlocation, htarget, hfix⟩ := h.parameterHint hcode
    refine ⟨hcode, f, hf, p, hp, hlocation, htarget, fun hfixable => ?_⟩
    obtain ⟨halone, t, ht⟩ := hfix hfixable
    exact ⟨halone, t, hlasts _ _ _ _ hle ht⟩

/-- **Every rule reports what it should**, whatever its questions are answered. -/
theorem obeys (hlasts : ∀ c c' work t, c ≤ c' → Told c work t → Told c' work t)
    (hrule : rule ∈ catalogue config) (h : Answers L Told ctx.module) :
    rule.Obeys L ctx (TestDoubles.IsRecord ctx) (rule.Reports Told ctx) := by
  simp only [catalogue, List.mem_cons, List.not_mem_nil, or_false] at hrule
  rcases hrule with rfl | rfl | rfl | rfl | rfl | rfl
  · refine Rule.obeys_of_checks rfl _ fun c around node hnode => ?_
    refine L.imp (ReturnHint.check_holds h hnode) fun c' r _ hr found hfound v hv => ?_
    have hreport := hr found hfound v hv
    refine ⟨hreport.1, fun _ => hreport, fun heq => ?_, fun heq => ?_⟩
    · exact absurd (hreport.1.symm.trans heq) (by decide)
    · exact absurd (hreport.1.symm.trans heq) (by decide)
  · refine Rule.obeys_of_checks rfl _ fun c around node hnode => ?_
    refine L.imp (ParameterHint.check_holds hlasts h hnode) fun c' r _ hr found hfound v hv => ?_
    have hreport := hr found hfound v hv
    refine ⟨hreport.1, fun heq => ?_, fun _ => hreport, fun heq => ?_⟩
    · exact absurd (hreport.1.symm.trans heq) (by decide)
    · exact absurd (hreport.1.symm.trans heq) (by decide)
  · refine Rule.obeys_of_checks rfl _ fun c around node hnode => ?_
    refine L.imp (OpaqueIndirection.check_holds h around node) fun c' r _ hr found hfound v hv => ?_
    exact .of_other (hr found hfound v hv) rfl (by decide)
  · refine Rule.obeys_of_checks rfl _ fun c around node hnode => ?_
    refine L.imp (MutableRecord.check_holds h hnode) fun c' r _ hr found hfound v hv => ?_
    have hreport := hr found hfound v hv
    refine ⟨hreport.1, fun heq => ?_, fun heq => ?_, fun _ => hreport⟩
    · exact absurd (hreport.1.symm.trans heq) (by decide)
    · exact absurd (hreport.1.symm.trans heq) (by decide)
  · exact (LayerDependency.obeys L ctx _).imp fun c v hreport => .of_other hreport.1 rfl (by decide)
  · exact (TestDoubles.obeys L _ ctx).imp fun c v hreport => .of_other hreport.1 rfl (by decide)

/-- **Every annotation that a fix writes was an answer.** -/
theorem fixes_hold (hlasts : ∀ c c' work t, c ≤ c' → Told c work t → Told c' work t)
    (hrule : rule ∈ catalogue config) (h : Answers L Told ctx.module)
    {fixer : Fixer Query} (hfixer : rule.fixer = some fixer) (v : Violation) :
    L.Holds c (fixer.fix v ctx) fun c' r => ∀ plans, r = .ok plans →
      ∀ plan ∈ plans, plan.IsTold Told c' := by
  have hplain : ∀ {work : Query (Except Fault (List Plan))},
      L.Holds c work (fun _ r => ∀ plans, r = .ok plans → ∀ plan ∈ plans, plan.annotation? = none) →
      L.Holds c work fun c' r => ∀ plans, r = .ok plans → ∀ plan ∈ plans, plan.IsTold Told c' :=
    fun h => L.imp h fun _ _ _ hr plans heq plan hplan => Plan.isTold_of_none (hr plans heq plan hplan)
  simp only [catalogue, List.mem_cons, List.not_mem_nil, or_false] at hrule
  rcases hrule with rfl | rfl | rfl | rfl | rfl | rfl
  · obtain rfl := Option.some.inj hfixer
    exact ReturnHint.fix_holds hlasts h v
  · obtain rfl := Option.some.inj hfixer
    exact ParameterHint.fix_holds hlasts h v
  · exact absurd hfixer (by simp [OpaqueIndirection.rule])
  · obtain rfl := Option.some.inj hfixer
    exact hplain (MutableRecord.fix_holds v)
  · obtain rfl := Option.some.inj hfixer
    exact hplain (LayerDependency.fix_holds ctx v)
  · obtain rfl := Option.some.inj hfixer
    exact hplain (TestDoubles.fix_holds ctx v)

end Registry

/-! ### Evaluations -/

section

variable {registry : Registry} {rules : ProjectConfig}
  (hrules : ∀ rule ∈ registry.rules, rule ∈ Registry.catalogue rules)
include hrules

namespace FileEvaluation

theorem planned_holds (hlasts : ∀ c c' work t, c ≤ c' → Told c work t → Told c' work t)
    (h : Answers L Told ctx.module) (v : Violation) :
    L.Holds c (planned registry ctx v) fun c' r => ∀ plans, r = .ok plans →
      ∀ plan ∈ plans, plan.IsTold Told c' := by
  unfold planned
  split
  · split
    · exact L.pure fun plans heq => by simp [← Except.ok.inj heq]
    · rename_i fixer hfixer
      obtain ⟨rule, hrule, hfixer⟩ := Option.bind_eq_some_iff.mp hfixer
      have hmem := hrules rule (List.mem_of_find?_eq_some hrule)
      refine L.bind (Registry.fixes_hold hlasts hmem h hfixer v) ?_
      rintro c' (fault | plans) - hplans
      · exact L.pure fun _ heq => nomatch heq
      · exact L.pure fun plans' heq => Except.ok.inj heq ▸ hplans plans rfl
  · exact L.pure fun plans heq => by simp [← Except.ok.inj heq]

theorem ofFile_holds (hlasts : ∀ c c' work t, c ≤ c' → Told c work t → Told c' work t)
    {path : Path}
    (hparse : L.Holds c (parse path) fun c' r => ∀ m, r = .ok m → Answers (L.since c') Told m)
    (config : ProjectConfig) (s : Selection) :
    L.Holds c (ofFile registry config s path) fun c' e => ∀ plan ∈ e.plans, plan.IsTold Told c' := by
  refine L.bind hparse ?_
  rintro c₁ (error | m) - hm
  · exact L.pure (by simp)
  · let L' := L.since c₁
    have hanswers : Answers L' Told m := hm m rfl
    have hobeys : ∀ rule ∈ registry.selected s, rule.Obeys L'
        { module := m, config, classifier := .ofConfig config } (TestDoubles.IsRecord _)
          (rule.Reports Told _) :=
      fun rule hrule => Registry.obeys hlasts (hrules rule (List.mem_filter.mp hrule).1) hanswers
    refine L'.bind (walk_holds (Registry.lasting_reports hlasts) hobeys) ?_ le_rfl
    intro c₂ outcome _ _
    refine L'.foldlM (by simp) fun c₃ e v _ _ he => ?_
    refine L'.bind (planned_holds hrules hlasts hanswers v) ?_
    rintro c₄ (failure | plans) hle hplans
    · exact L'.pure fun plan hplan => (he plan hplan).later hlasts hle
    · refine L'.pure fun plan hplan => ?_
      rcases List.mem_append.mp hplan with hplan | hplan
      · exact (he plan hplan).later hlasts hle
      · exact hplans plans rfl plan hplan

end FileEvaluation

end

end Plumbline
