/-
What a fix goes to.

A violation carries a name and not the definition that it was reported at, and a fix looks the name up
and asks the questions of the check once more.  For the rules whose fixes change code, a violation is
marked as fixable only if no other definition has the name, so the definition that is found is the one
that was reported; and the questions have the same answers as in the walk, whatever was asked in
between (`Project.askedAgain`), so there is something to write.
-/
import Mathlib.Data.List.Nodup
import Plumbline.Proofs.Analysis.Again
import Plumbline.Proofs.Rule.Hooks
import Plumbline.Proofs.Rule.Plans

namespace Plumbline

open Query

/-! ### Questions of the rules, asked twice -/

theorem Reading.answers (V : Reading) {m : Module} (hm : ∀ c, V.Sound c → V.Known c m) :
    Answers V.logic V.Repeats m where
  inferReturn {c f} hf halone := TwoRuns.holds_of_sound fun hc => by
    have hplaces : m.Places f := Module.places_of_not_ambiguous (V.known_counts (hm c hc)) hf halone
    exact V.logic.imp (TwoRuns.holds_repeats (V.grounds.inferred_holds (hm c hc) hplaces))
      fun _ _ _ ht => ht.2
  inferType {c scope e} hscope := TwoRuns.holds_of_sound fun hc => by
    have hknown : V.Known c scope.module := by
      rw [hscope]
      exact hm c hc
    exact V.logic.imp (TwoRuns.holds_repeats (V.grounds.inferType_holds hknown e)) fun _ _ _ ht => ht.2
  ancestors := TwoRuns.holds_of_sound fun hc => V.grounds.ancestors_holds (hm _ hc) _
  isReachable := TwoRuns.holds_of_sound fun hc => V.grounds.isReachable_holds (hm _ hc) _

/-- The same answer comes also if the second run begins later. -/
theorem TwoRuns.repeats_lasts (V : TwoRuns) {α : Type} (c c' : Cache) (work : Query α) (a : α)
    (hle : c ≤ c') (h : V.Repeats c work a) : V.Repeats c' work a :=
  fun d hd hfollows => h d hd (V.follows_of_le hle hfollows)

/-! ### What is planned -/

variable {p : Project} {d : Cache} {ctx : RuleContext} {v : Violation} {f : FunctionDef} {t : TypeRef}

/-- The fix plans something. -/
def Plans (p : Project) (d : Cache) (work : Query (Except Fault (List Plan))) : Prop :=
  ∃ plans, ((work.run p).run d).1 = .ok plans ∧ plans ≠ []

theorem ReturnHint.plans_of_known (htarget : v.target = some { symbol := f.qualname })
    (hfound : ctx.module.findFunction? f.qualname = some f)
    (halone : ctx.module.isAmbiguous f.qualname = false)
    (ht : (((inferReturn ctx.module f).run p).run d).1 = .known t) : Plans p d (fix v ctx) := by
  unfold Plans fix
  rw [htarget, Option.bind_some, hfound]
  dsimp only
  rw [halone, if_neg (by simp), run_bind, ht]
  exact ⟨_, rfl, by simp⟩

theorem ParameterHint.plans_of_known {q : Param}
    (htarget : v.target = some { symbol := f.qualname, member := some q.name })
    (hfound : ctx.module.findFunction? f.qualname = some f) (hparam : f.param? q.name = some q)
    (halone : ctx.module.isAmbiguous f.qualname = false)
    (ht : (((defaultType ctx.module q).run p).run d).1 = .known t) : Plans p d (fix v ctx) := by
  unfold Plans fix
  rw [htarget]
  dsimp only
  rw [halone, hfound, Option.bind_some, hparam, if_neg (by simp)]
  dsimp only
  rw [run_bind, ht]
  exact ⟨_, rfl, by simp⟩

theorem MutableRecord.plans_of_found {cls : ClassDef}
    (htarget : v.target = some { symbol := cls.qualname })
    (hfound : ctx.module.findClass? cls.qualname = some cls)
    (halone : ctx.module.isAmbiguous cls.qualname = false) : Plans p d (fix v ctx) := by
  have hfix : fix v ctx = pure (.ok [.freezeRecord cls.qualname]) := by
    unfold fix
    rw [htarget]
    dsimp only
    rw [halone, hfound]
    rfl
  unfold Plans
  rw [hfix, run_pure]
  exact ⟨_, rfl, by simp⟩

/-- The parameter of a name is found, if no other has the name. -/
theorem FunctionDef.param?_of_mem {q : Param} (hq : q ∈ f.params)
    (hnames : (f.params.map (·.name)).Nodup) : f.param? q.name = some q := by
  unfold param?
  cases hfound : f.params.find? (·.name == q.name) with
  | none => exact absurd (List.find?_eq_none.mp hfound q hq) (by simp)
  | some q' =>
      have hname : q'.name = q.name := by simpa using List.find?_some hfound
      rw [List.inj_on_of_nodup_map hnames (List.mem_of_find?_eq_some hfound) hq hname]

/-! ### Where violations are reported -/

/-- The violation was reported at this definition of the module, or at a parameter of it, and the
definition is the one that its name leads to. -/
inductive Violation.IsAt (ctx : RuleContext) (v : Violation) : Definition → Prop where
  | returns {f : FunctionDef} (code : v.code = ReturnHint.code)
      (target : v.target = some { symbol := f.qualname })
      (location : v.location = ctx.location f.span)
      (found : ctx.module.findFunction? f.qualname = some f) : IsAt ctx v (.function f)
  | parameter {f : FunctionDef} {q : Param} (code : v.code = ParameterHint.code)
      (param : q ∈ f.params)
      (target : v.target = some { symbol := f.qualname, member := some q.name })
      (location : v.location = ctx.location q.nameSpan)
      (found : ctx.module.findFunction? f.qualname = some f) : IsAt ctx v (.function f)
  | record {cls : ClassDef} (code : v.code = MutableRecord.code)
      (target : v.target = some { symbol := cls.qualname })
      (location : v.location = ctx.location cls.span)
      (found : ctx.module.findClass? cls.qualname = some cls) : IsAt ctx v (.class cls)

/-- Codes of the rules whose fixes change code. -/
def codeFixes : List String := [ReturnHint.code, ParameterHint.code, MutableRecord.code]

/-- What was reported as fixable has a definition to go to, and plans at any later time. -/
theorem exists_definition_of_reports (config : ProjectConfig) {rule : Rule Query} {c₀ c : Cache}
    (hm : ctx.module.CountsNames)
    (hparams : ∀ f ∈ ctx.module.functions, (f.params.map (·.name)).Nodup)
    (h : rule.Reports (p.afterwards c₀).Repeats ctx c v) (hcode : v.code ∈ codeFixes)
    (hfixable : v.fixable = true) :
    (∃ d, v.IsAt ctx d ∧ ctx.module.definitions.filter (·.qualname == d.qualname) = [d]) ∧
    ∃ owner ∈ Registry.catalogue config, owner.code = v.code ∧
      ∃ fixer, owner.fixer = some fixer ∧
        ∀ d, (p.afterwards c₀).Sound d → c ≤ d → Plans p d (fixer.fix v ctx) := by
  simp only [codeFixes, List.mem_cons, List.not_mem_nil, or_false] at hcode
  rcases hcode with hcode | hcode | hcode
  · obtain ⟨-, f, hf, hlocation, htarget, hfix⟩ := h.returnHint hcode
    obtain ⟨halone, t, ht⟩ := hfix hfixable
    have hfound := Module.findFunction?_of_not_ambiguous hm hf halone
    refine ⟨⟨.function f, .returns hcode htarget hlocation hfound, ?_⟩, ReturnHint.rule,
      by simp [Registry.catalogue], hcode.symm, _, rfl, fun d hd hle => ?_⟩
    · exact Module.definitions_of_not_ambiguous hm (Module.function_mem_definitions hf) halone
    · exact ReturnHint.plans_of_known htarget hfound halone (ht d hd hle)
  · obtain ⟨-, f, hf, q, hq, hlocation, htarget, hfix⟩ := h.parameterHint hcode
    obtain ⟨halone, t, ht⟩ := hfix hfixable
    have hfound := Module.findFunction?_of_not_ambiguous hm hf halone
    refine ⟨⟨.function f, .parameter hcode hq htarget hlocation hfound, ?_⟩, ParameterHint.rule,
      by simp [Registry.catalogue], hcode.symm, _, rfl, fun d hd hle => ?_⟩
    · exact Module.definitions_of_not_ambiguous hm (Module.function_mem_definitions hf) halone
    · exact ParameterHint.plans_of_known htarget hfound
        (FunctionDef.param?_of_mem hq (hparams f hf)) halone (ht d hd hle)
  · obtain ⟨-, cls, hcls, hlocation, htarget, hfix⟩ := h.mutableRecord hcode
    have halone := hfix hfixable
    have hfound := Module.findClass?_of_not_ambiguous hm hcls halone
    refine ⟨⟨.class cls, .record hcode htarget hlocation hfound, ?_⟩, MutableRecord.rule,
      by simp [Registry.catalogue], hcode.symm, _, rfl, fun d hd hle => ?_⟩
    · exact Module.definitions_of_not_ambiguous hm (Module.class_mem_definitions hcls) halone
    · exact MutableRecord.plans_of_found htarget hfound halone

/-- **Every fix goes to the definition that was reported.**  Let a module be parsed in which no
function has two parameters of one name, and let rules of this library walk through it.  Each
violation that a rule for annotations or records marks as fixable names one definition of the module
only, which is the one that it was reported at and the one that is found under the name; and whenever
the fix of the rule is asked for, after the walk and with anything read from the project's files
remembered, it plans something. -/
theorem fixable_reports_reach_definitions (p : Project) (c₀ : Cache) (hc₀ : p.Remembers c₀)
    (path : Path) (m : Module) (hm : (((parse path).run p).run c₀).1 = .ok m)
    (hparams : ∀ f ∈ m.functions, (f.params.map (·.name)).Nodup)
    (rules : List (Rule Query)) (config : ProjectConfig)
    (hrules : ∀ rule ∈ rules, rule ∈ Registry.catalogue config)
    (ctx : RuleContext) (hctx : ctx.module = m) (v : Violation)
    (hv : v ∈ (((walk rules ctx).run p).run (((parse path).run p).run c₀).2).1.violations)
    (hcode : v.code ∈ codeFixes) (hfixable : v.fixable = true) :
    (∃ d, v.IsAt ctx d ∧ m.definitions.filter (·.qualname == d.qualname) = [d]) ∧
    ∃ owner ∈ Registry.catalogue config, owner.code = v.code ∧ ∃ fixer, owner.fixer = some fixer ∧
      let after := (((walk rules ctx).run p).run (((parse path).run p).run c₀).2).2
      p.Remembers after ∧ ∀ d, p.Remembers d → after ≤ d →
        ∃ plans, (((fixer.fix v ctx).run p).run d).1 = .ok plans ∧ plans ≠ [] := by
  subst hctx
  obtain ⟨hc₁, hknown⟩ := hc₀.parse hm
  generalize (((parse path).run p).run c₀).2 = c₁ at hv hc₁ hknown ⊢
  let V := p.askedAgain c₁
  have hsound : V.Sound c₁ := ⟨hc₁, le_rfl⟩
  have hanswers : Answers V.logic V.Repeats ctx.module :=
    V.answers fun c hc => V.known_later hc.2 hknown
  have hobeys : ∀ rule ∈ rules,
      rule.Obeys V.logic ctx (TestDoubles.IsRecord ctx) (rule.Reports V.Repeats ctx) :=
    fun rule hrule => Registry.obeys V.repeats_lasts (hrules rule hrule) hanswers
  have hholds : V.logic.Holds c₁ (walk rules ctx) fun c' outcome =>
      ∀ v ∈ outcome.violations, ∃ rule ∈ rules, rule.Reports V.Repeats ctx c' v :=
    walk_holds (Registry.lasting_reports V.repeats_lasts) hobeys
  have hwalk := hholds hsound
  obtain ⟨rule, -, hreports⟩ := hwalk.answer v hv
  obtain ⟨hdefinition, owner, howner, hcode', fixer, hfixer, hplans⟩ :=
    exists_definition_of_reports config (V.known_counts hknown) hparams hreports hcode
      hfixable
  refine ⟨hdefinition, owner, howner, hcode', fixer, hfixer, hwalk.sound.1, fun d hd hle => ?_⟩
  exact hplans d ⟨hd, hwalk.le.trans hle⟩ hle

/-- A project with a function that has nothing annotated. -/
def bareProject : Project where
  root := "/p"
  tree :=
    { files := [(["p", "app.py"], "def f(x=1):\n    return 1\n".toUTF8)]
      dirs := [["p"]] }

def bareModule : Module :=
  (((parse "app.py").run bareProject).run {}).1.toOption.getD default

def bareContext : RuleContext where
  module := bareModule
  config := {}
  classifier := .ofConfig {}

/-- What is remembered and said after a walk through the function. -/
def bareWalk : WalkOutcome × Cache :=
  ((walk (Registry.catalogue {}) bareContext).run bareProject).run
    (((parse "app.py").run bareProject).run {}).2

/-- The violation at the parameter is fixable, and its fix goes to the function. -/
theorem bare_parameter_reaches_function :
    ∃ v ∈ bareWalk.1.violations, v.code = ParameterHint.code ∧ v.fixable = true ∧
      (∃ d, v.IsAt bareContext d ∧
        bareModule.definitions.filter (·.qualname == d.qualname) = [d]) ∧
      ∃ plans, (((ParameterHint.fix v bareContext).run bareProject).run bareWalk.2).1 = .ok plans ∧
        plans ≠ [] := by
  obtain ⟨hsome, hall, hfound⟩ :
      (((parse "app.py").run bareProject).run {}).1.toOption.isSome = true ∧
      (bareModule.functions.all fun f => decide (f.params.map (·.name)).Nodup) = true ∧
      (bareWalk.1.violations.find? fun v =>
        v.code == ParameterHint.code && v.fixable).isSome = true := by decide +kernel
  have hparse : (((parse "app.py").run bareProject).run {}).1 = .ok bareModule := by
    unfold bareModule
    cases hm : (((parse "app.py").run bareProject).run {}).1 with
    | error e =>
        rw [hm] at hsome
        cases hsome
    | ok m => rfl
  have hparams : ∀ f ∈ bareModule.functions, (f.params.map (·.name)).Nodup := by
    simpa using hall
  have hmodule : bareContext.module = bareModule := by
    unfold bareContext
    dsimp only
  obtain ⟨v, hfind⟩ := Option.isSome_iff_exists.mp hfound
  obtain ⟨hcode, hfixable⟩ : v.code = ParameterHint.code ∧ v.fixable = true := by
    simpa using List.find?_some hfind
  have hmem : v ∈ bareWalk.1.violations := List.mem_of_find?_eq_some hfind
  have hv := hmem
  unfold bareWalk at hv
  obtain ⟨hdefinition, owner, howner, hcode', fixer, hfixer, hafter, hplans⟩ :=
    fixable_reports_reach_definitions bareProject {} bareProject.remembers_empty "app.py" bareModule
      hparse hparams (Registry.catalogue {}) {} (fun _ h => h) bareContext hmodule v hv
      (by simp [codeFixes, hcode]) hfixable
  refine ⟨v, hmem, hcode, hfixable, hdefinition, ?_⟩
  obtain rfl : owner = ParameterHint.rule :=
    Registry.eq_of_code_eq howner (by simp [Registry.catalogue]) (hcode'.trans hcode)
  obtain rfl := Option.some.inj hfixer
  unfold bareWalk
  exact hplans _ hafter le_rfl

end Plumbline
