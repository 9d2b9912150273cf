/-
Only concrete types are written.

Projects are asked one question after the other, files are evaluated and fixes are planned, all with
what the earlier answers have left behind.  Wherever a type is known then, and so wherever one is
planned to be written, it is built in throughout, or it is a class of a module that was read or handed
in (`known_types_are_concrete`).  One step after the other keeps what is needed for that.
-/
import Plumbline.Proofs.Analysis.Concrete
import Plumbline.Proofs.Rule.Independence

namespace Plumbline

open Query

variable {given : Module → Prop} {c : Cache} {p : Project}

/-- Can the type of an answer be looked up? -/
def AnswersConcrete (given : Module → Prop) (c : Cache) (_ : Query InferredType)
    (t : InferredType) : Prop :=
  t.IsConcrete given c

theorem AnswersConcrete.later (c c' : Cache) (work : Query InferredType) (t : InferredType)
    (hle : c ≤ c') (h : AnswersConcrete given c work t) : AnswersConcrete given c' work t :=
  InferredType.IsConcrete.later hle h

/-- From the time on that a module is known, what rules ask about it has only concrete answers. -/
theorem Project.answers_concrete {m : Module} (h : c.Shows given m) :
    Answers ((p.askedConcrete given).logic.since c) (AnswersConcrete given) m where
  inferReturn _ _ hle := (p.concrete given).inferred_holds (h.later hle) trivial
  inferType hscope hle := (p.concrete given).inferType_holds (hscope ▸ h.later hle) _
  ancestors hle := (p.concrete given).ancestors_holds (h.later hle) _
  isReachable hle := (p.concrete given).isReachable_holds (h.later hle) _

/-- Every annotation that the plan writes can be looked up. -/
def Plan.IsConcrete (given : Module → Prop) (c : Cache) (plan : Plan) : Prop :=
  ∀ t, plan.annotation? = some t → t.IsConcrete given c

theorem Plan.isConcrete_of_isTold {plan : Plan} (h : plan.IsTold (AnswersConcrete given) c) :
    plan.IsConcrete given c := by
  intro t ht
  obtain ⟨work, hwork⟩ := h t ht
  exact hwork t rfl

/-! ### Single steps -/

/-- The module that a question is about. -/
def Question.module? : Question → Option Module
  | module _ => none
  | type scope _ => some scope.module
  | returned m _ | hint m _ | ancestors m _ | reachable m _ => some m

theorem Question.ask_holds (q : Question) (hq : ∀ m, q.module? = some m → c.Shows given m) :
    (p.askedConcrete given).logic.Holds c q.ask fun c' a => ∀ t, a = .type (.known t) →
      t.IsConcrete given c' := by
  let L := (p.askedConcrete given).logic
  let G := p.concrete given
  have htype : ∀ {work : Query InferredType},
      L.Holds c work (fun c' t => t.IsConcrete given c') →
      L.Holds c (Answer.type <$> work) fun c' a => ∀ t, a = .type (.known t) →
        t.IsConcrete given c' := by
    intro work h
    rw [map_eq_pure_bind]
    exact L.bind h fun c' t _ ht => L.pure fun r hr => ht r (Answer.type.inj hr)
  have hother : ∀ {α : Type} {work : Query α} {make : α → Answer} {P : Cache → α → Prop},
      (∀ a t, make a ≠ .type t) → L.Holds c work P →
      L.Holds c (make <$> work) fun c' a => ∀ t, a = .type (.known t) → t.IsConcrete given c' := by
    intro α work make P hmake h
    rw [map_eq_pure_bind]
    exact L.bind h fun c' a _ _ => L.pure fun r hr => absurd hr (hmake a _)
  cases q with
  | module path => exact hother (fun _ _ h => nomatch h) (Project.parse_shows path)
  | type scope e => exact htype (G.inferType_holds (hq _ rfl) e)
  | returned m f => exact htype (G.inferred_holds (hq _ rfl) trivial)
  | hint m text => exact htype (G.resolveHint_holds (hq _ rfl) text)
  | ancestors m cls => exact hother (fun _ _ h => nomatch h) (G.ancestors_holds (hq _ rfl) cls)
  | reachable m t => exact hother (fun _ _ h => nomatch h) (G.isReachable_holds (hq _ rfl) t)

theorem Registry.fix_concrete {rules : ProjectConfig} {rule : Rule Query}
    (hrule : rule ∈ catalogue rules) {fixer : Fixer Query} (hfixer : rule.fixer = some fixer)
    (v : Violation) {ctx : RuleContext} (hctx : c.Shows given ctx.module) :
    (p.askedConcrete given).logic.Holds c (fixer.fix v ctx) fun c' r => ∀ plans, r = .ok plans →
      ∀ plan ∈ plans, plan.IsConcrete given c' := by
  have hplans := fixes_hold AnswersConcrete.later hrule (Project.answers_concrete (p := p) hctx)
    (c := c) hfixer v le_rfl
  exact (p.askedConcrete given).logic.imp hplans
    fun _ _ _ h plans heq plan hplan => Plan.isConcrete_of_isTold (h plans heq plan hplan)

theorem Registry.evaluate_concrete {registry : Registry} {rules : ProjectConfig}
    (hrules : ∀ rule ∈ registry.rules, rule ∈ catalogue rules) (config : ProjectConfig)
    (s : Selection) (paths : List Path) :
    (p.askedConcrete given).logic.Holds c (registry.evaluate config s paths) fun c' evaluations =>
      ∀ e ∈ evaluations, ∀ plan ∈ e.plans, plan.IsConcrete given c' := by
  let L := (p.askedConcrete given).logic
  have hfile : ∀ c', ∀ path ∈ paths, c ≤ c' →
      L.Holds c' (FileEvaluation.ofFile registry config s path)
        fun c'' e => ∀ plan ∈ e.plans, plan.IsTold (AnswersConcrete given) c'' := by
    intro c' path _ _
    have hparse := L.imp (Project.parse_shows (c := c') path)
      fun c'' r _ hr m hm => Project.answers_concrete (p := p) (hr m hm)
    exact FileEvaluation.ofFile_holds hrules AnswersConcrete.later hparse config s
  refine L.imp (L.mapM ?_ hfile) fun c' evaluations _ h e he plan hplan => ?_
  · exact fun _ e c' c'' hle h plan hplan => (h plan hplan).later AnswersConcrete.later hle
  · obtain ⟨path, -, hplans⟩ := h e he
    exact Plan.isConcrete_of_isTold (hplans plan hplan)

/-! ### Any number of steps -/

/-- What may be remembered after questions, fixes and evaluations of any projects.  Each is about
modules that have been read, or that are `given`. -/
inductive Asked (given : Module → Prop) : Cache → Prop where
  | nothing : Asked given {}
  | question {c : Cache} (p : Project) (q : Question) (before : Asked given c)
      (known : ∀ m, q.module? = some m → c.Shows given m) :
      Asked given ((q.ask.run p).run c).2
  | fix {c : Cache} (p : Project) {rules : ProjectConfig} {rule : Rule Query}
      {fixer : Fixer Query} (v : Violation) (ctx : RuleContext) (before : Asked given c)
      (listed : rule ∈ Registry.catalogue rules) (fixes : rule.fixer = some fixer)
      (known : c.Shows given ctx.module) : Asked given (((fixer.fix v ctx).run p).run c).2
  | evaluation {c : Cache} (p : Project) {registry : Registry} {rules : ProjectConfig}
      (config : ProjectConfig) (s : Selection) (paths : List Path) (before : Asked given c)
      (listed : ∀ rule ∈ registry.rules, rule ∈ Registry.catalogue rules) :
      Asked given (((registry.evaluate config s paths).run p).run c).2

theorem Asked.isConcrete (h : Asked given c) : c.IsConcrete given := by
  induction h with
  | nothing => exact Cache.isConcrete_empty given
  | question p q _ hknown ih => exact (q.ask_holds (p := p) hknown ih).sound
  | fix p v ctx _ hlisted hfixes hknown ih =>
      exact (Registry.fix_concrete (p := p) hlisted hfixes v hknown ih).sound
  | evaluation p config s paths _ hlisted ih =>
      exact (Registry.evaluate_concrete (p := p) hlisted config s paths ih).sound

/-- **Only concrete types are answers, and only concrete types are written.**  Ask projects anything,
in any order, about modules that were read or handed in.  If an answer is a known type, then either
all names in it are built in, and the marker for any type does not occur in it, or a class of that
name stands at the top level of a module of that name, which was read or handed in.  The same holds
of every annotation that a fix writes, and that an evaluation plans. -/
theorem known_types_are_concrete (h : Asked given c) (p : Project) :
    (∀ q : Question, (∀ m, q.module? = some m → c.Shows given m) →
      ∀ t, ((q.ask.run p).run c).1 = .type (.known t) →
        t.IsConcrete given ((q.ask.run p).run c).2 ∧
          (t.module = none → ¬ "Any".toList <:+: t.name.toList)) ∧
    (∀ rules, ∀ rule ∈ Registry.catalogue rules, ∀ fixer, rule.fixer = some fixer →
      ∀ v ctx, c.Shows given ctx.module →
        ∀ plans, (((fixer.fix v ctx).run p).run c).1 = .ok plans →
          ∀ plan ∈ plans, plan.IsConcrete given (((fixer.fix v ctx).run p).run c).2) ∧
    ∀ (registry : Registry) (rules : ProjectConfig),
      (∀ rule ∈ registry.rules, rule ∈ Registry.catalogue rules) → ∀ config s paths,
        ∀ e ∈ (((registry.evaluate config s paths).run p).run c).1, ∀ plan ∈ e.plans,
          plan.IsConcrete given (((registry.evaluate config s paths).run p).run c).2 := by
  have hc : c.IsConcrete given := h.isConcrete
  refine ⟨fun q hq t ht => ?_, fun rules rule hrule fixer hfixer v ctx hctx => ?_,
    fun registry rules hrules config s paths => ?_⟩
  · have hconcrete := (q.ask_holds (p := p) hq hc).answer t ht
    exact ⟨hconcrete, hconcrete.no_marker⟩
  · exact (Registry.fix_concrete (p := p) hrule hfixer v hctx hc).answer
  · exact (Registry.evaluate_concrete (p := p) hrules config s paths hc).answer

/-- What is remembered when `app.py` has been read. -/
def appRead : Cache := (((Question.module "app.py").ask.run twoModules).run {}).2

def appModule : Module := (appRead.modules.lookup (twoModules.key "app.py")).getD default

def appFunction : FunctionDef := (appModule.findFunction? "f").getD default

/-- The class of `models.py`, which `f` returns. -/
def userType : TypeRef := { name := "User", module := some "models" }

/-- The evaluation of `app.py`, and what is remembered afterwards. -/
def appEvaluated : List FileEvaluation × Cache :=
  (((Registry.ofConfig {}).evaluate {} .all ["app.py"]).run twoModules).run appRead

theorem Question.run_returned (m : Module) (f : FunctionDef) (p : Project) (c : Cache) :
    (((returned m f).ask.run p).run c).1 = .type (((inferReturn m f).run p).run c).1 := rfl

/-- The function of `app.py` returns a class of the other module, which is remembered by then, and
so is the annotation concrete that is planned for it. -/
theorem returned_class_is_concrete :
    let q := Question.returned appModule appFunction
    ((q.ask.run twoModules).run appRead).1 = .type (.known userType) ∧
      userType.IsConcrete (fun _ => False) ((q.ask.run twoModules).run appRead).2 ∧
      ∃ e ∈ appEvaluated.1, ∃ plan ∈ e.plans, plan.annotation? = some userType ∧
        plan.IsConcrete (fun _ => False) appEvaluated.2 := by
  have hread : Asked (fun _ => False) appRead :=
    .question twoModules (.module "app.py") .nothing fun _ h => nomatch h
  obtain ⟨hquestion, -, hevaluation⟩ := known_types_are_concrete hread twoModules
  obtain ⟨hsome, hreturned, hplanned⟩ :
      (appRead.modules.lookup (twoModules.key "app.py")).isSome = true ∧
      (((inferReturn appModule appFunction).run twoModules).run appRead).1 = .known userType ∧
      (appEvaluated.1.any fun e => e.plans.any fun plan =>
        plan.annotation? == some userType) = true := by decide +kernel
  have happ : appRead.Shows (fun _ => False) appModule := by
    obtain ⟨m, hm⟩ := Option.isSome_iff_exists.mp hsome
    refine Or.inr ⟨twoModules.key "app.py", ?_⟩
    unfold appModule
    rw [hm, Option.getD_some]
  have hanswer := Question.run_returned appModule appFunction twoModules appRead
  rw [hreturned] at hanswer
  obtain ⟨e, he, hany⟩ := List.any_eq_true.mp hplanned
  obtain ⟨plan, hplan, hannotation⟩ := List.any_eq_true.mp hany
  refine ⟨hanswer, ?_, e, he, plan, hplan, by simpa using hannotation, ?_⟩
  · refine (hquestion _ (fun m hm => ?_) userType hanswer).1
    exact Option.some.inj hm ▸ happ
  · unfold appEvaluated at he ⊢
    exact hevaluation _ {} (fun rule => Registry.mem_catalogue_of_mem) {} .all _ e he plan hplan

end Plumbline
