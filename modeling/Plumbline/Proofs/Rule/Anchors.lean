/-
Where the comments of the governance rules go.

A rule reports a node that the walk enters, and its plan names that node by a symbol: an import by
the module it names, a test by its qualified name.  The comment goes to the first node of that name
that a search finds.  `comment_lands_iff` says for every reported violation when that is the node
that was reported.  It need not be: a search for an import does not look inside definitions, where
the walk does go, and of several imports of one module, or several tests of one name, all are
reported but only the first is found.
-/
import Plumbline.Proofs.Module.Traversal
import Plumbline.Proofs.Rule.Walk
import Plumbline.Rule.LayerDependency
import Plumbline.Rule.TestDoubles

namespace Plumbline

open Query

/-! ### What the rules report -/

namespace LayerDependency

theorem mem_of_mem_breaches {c : LayerClassifier} {rank : Nat} {seen : List String}
    {modules : List (String × String)} {written absolute : String} {layer : Layer}
    (h : (written, absolute, layer) ∈ breaches c rank seen modules) :
    (written, absolute) ∈ modules := by
  induction modules generalizing seen with
  | nil => exact absurd h (by simp [breaches])
  | cons x rest ih =>
      obtain ⟨w, a⟩ := x
      unfold breaches at h
      split at h
      · exact List.mem_cons_of_mem _ (ih h)
      · split at h
        · exact List.mem_cons_of_mem _ (ih h)
        · rcases List.mem_cons.mp h with heq | hmem
          · obtain ⟨rfl, rfl, -⟩ : written = w ∧ absolute = a ∧ _ := by simpa using heq
            exact List.mem_cons_self
          · exact List.mem_cons_of_mem _ (ih hmem)

/-- A check reports at the import that it looks at, about one of the modules that it names. -/
theorem check_holds (L : Logic) (c : Cache) (ctx : RuleContext) (node : Node) :
    L.Holds c (check ctx node) fun _ r => ∀ found, r = .ok found → ∀ v ∈ found,
      v.code = code ∧ ∃ i, node.import? = some i ∧ ∃ written ∈ i.writtenModules,
        v.location = ctx.location i.span ∧ v.target = some { symbol := written } := by
  unfold check
  split
  · refine L.pure fun found h v hv => ?_
    obtain rfl := Except.ok.inj h
    exact absurd hv List.not_mem_nil
  · rename_i i hi
    refine L.pure fun found h v hv => ?_
    obtain rfl := Except.ok.inj h
    cases himporter : ctx.classifier.ofPath? ctx.file with
    | none => simp [himporter] at hv
    | some importer =>
        cases hrank : ctx.classifier.rank? importer with
        | none => simp [himporter, hrank] at hv
        | some rank =>
            obtain ⟨written, absolute, layer, hbreach, rfl⟩ : ∃ written absolute layer,
                (written, absolute, layer) ∈ breaches ctx.classifier rank []
                  (i.writtenModules.zip (ctx.module.importedModules i)) ∧
                violation ctx i importer layer written absolute = v := by
              simpa [himporter, hrank] using hv
            have hwritten := (List.of_mem_zip (mem_of_mem_breaches hbreach)).1
            exact ⟨rfl, i, hi, written, hwritten, rfl, rfl⟩

/-- A violation at an import of the module, about one of the modules that it names. -/
def IsReport (ctx : RuleContext) (v : Violation) : Prop :=
  v.code = code ∧ ∃ i ∈ ctx.module.allImports, ∃ written ∈ i.writtenModules,
    v.location = ctx.location i.span ∧ v.target = some { symbol := written }

theorem obeys (L : Logic) (ctx : RuleContext) (Q : ScopeRecord → Prop) :
    rule.Obeys L ctx Q fun _ => IsReport ctx := by
  refine Rule.obeys_of_checks rfl Q fun c around node hnode => ?_
  refine L.imp (check_holds L c _ node) fun _ r _ hr found h v hv => ?_
  obtain ⟨hcode, i, hi, hreport⟩ := hr found h v hv
  exact ⟨hcode, i, ctx.module.mem_allImports_of_enter hnode hi, hreport⟩

theorem keeps (ctx : RuleContext) (Q : ScopeRecord → Prop) :
    rule.Keeps Anything ctx Q (IsReport ctx) := obeys (yielding Anything) ctx Q

end LayerDependency

namespace TestDoubles

/-- A record that belongs to a test of the module. -/
def IsRecord (ctx : RuleContext) (r : ScopeRecord) : Prop :=
  ∃ f ∈ ctx.module.functions, isTest f = true ∧ r.owner = f.qualname ∧
    r.location = ctx.location f.span

/-- A violation at a test of the module. -/
def IsReport (ctx : RuleContext) (v : Violation) : Prop :=
  v.code = code ∧ ∃ f ∈ ctx.module.functions, isTest f = true ∧
    v.location = ctx.location f.span ∧ v.target = some { symbol := f.qualname }

theorem obeys (L : Logic) (max : Nat) (ctx : RuleContext) :
    (rule max).Obeys L ctx (IsRecord ctx) fun _ => IsReport ctx where
  checks check hwatch := absurd hwatch (by simp [rule])
  opens kinds opens notes closes hwatch around node hnode := by
    obtain ⟨rfl, rfl, rfl, rfl⟩ := Watch.scopes.inj hwatch
    refine L.pure fun record h => ?_
    have hopen := Except.ok.inj h
    unfold openScope at hopen
    split at hopen
    · rename_i f hf
      split at hopen
      · rename_i htest
        obtain rfl := Option.some.inj hopen
        exact ⟨f, ctx.module.mem_functions_of_enter hnode hf, htest, rfl, rfl⟩
      · exact absurd hopen (by simp)
    · exact absurd hopen (by simp)
  notes kinds opens notes closes hwatch record hrecord around node hnode := by
    obtain ⟨rfl, rfl, rfl, rfl⟩ := Watch.scopes.inj hwatch
    refine L.pure fun found record' h => ?_
    obtain ⟨rfl, rfl⟩ := Prod.mk.inj (Except.ok.inj h)
    refine ⟨fun v hv => absurd hv List.not_mem_nil, ?_⟩
    unfold note
    split
    · exact hrecord
    · exact hrecord
  closes kinds opens notes closes hwatch record hrecord around := by
    obtain ⟨rfl, rfl, rfl, rfl⟩ := Watch.scopes.inj hwatch
    refine L.pure fun found h v hv => ?_
    obtain rfl := Except.ok.inj h
    obtain ⟨f, hf, htest, howner, hlocation⟩ := hrecord
    unfold closeScope at hv
    dsimp only at hv
    split at hv
    · exact absurd hv List.not_mem_nil
    · obtain rfl := List.mem_singleton.mp hv
      exact ⟨rfl, f, hf, htest, hlocation, by rw [howner]⟩

theorem keeps (max : Nat) (ctx : RuleContext) :
    (rule max).Keeps Anything ctx (IsRecord ctx) (IsReport ctx) := obeys (yielding Anything) max ctx

end TestDoubles

/-! ### What the searches find -/

/-- The search for an import ends at the reported place just if the first import outside definitions
that names the module lies there. -/
theorem importAnchor_iff (m : Module) (written : String) (p : Span → Prop) :
    (∃ span, Edit.anchorSpan? m (.module written) = some span ∧ p span) ↔
      ∃ before i after, m.openImports = before ++ i :: after ∧
        (∀ j ∈ before, written ∉ j.writtenModules) ∧ written ∈ i.writtenModules ∧ p i.span := by
  have hfind : Edit.anchorSpan? m (.module written) =
      (m.openImports.find? (·.writtenModules.contains written)).map (·.span) :=
    m.findImport_eq written
  rw [hfind]
  constructor
  · rintro ⟨span, hspan, hp⟩
    obtain ⟨i, hi, rfl⟩ := Option.map_eq_some_iff.mp hspan
    obtain ⟨hwritten, before, after, hsplit, hbefore⟩ := List.find?_eq_some_iff_append.mp hi
    refine ⟨before, i, after, hsplit, fun j hj => ?_, by simpa using hwritten, hp⟩
    simpa using hbefore j hj
  · rintro ⟨before, i, after, hsplit, hbefore, hwritten, hp⟩
    refine ⟨i.span, Option.map_eq_some_iff.mpr ⟨i, ?_, rfl⟩, hp⟩
    refine List.find?_eq_some_iff_append.mpr ⟨by simpa using hwritten, before, after, hsplit, ?_⟩
    exact fun j hj => by simpa using hbefore j hj

/-- The search for a test ends at the reported place just if the first function of that name lies
there. -/
theorem functionAnchor_iff (m : Module) (qualname : String) (p : FunctionDef → Prop) :
    (∃ f, m.findFunction? qualname = some f ∧
        Edit.anchorSpan? m (.symbol qualname) = some f.header ∧ p f) ↔
      ∃ before f after, m.functions = before ++ f :: after ∧
        (∀ g ∈ before, g.qualname ≠ qualname) ∧ f.qualname = qualname ∧ p f := by
  have hanchor : ∀ f, m.findFunction? qualname = some f →
      Edit.anchorSpan? m (.symbol qualname) = some f.header := by
    intro f hf
    simp [Edit.anchorSpan?, hf]
  constructor
  · rintro ⟨f, hf, -, hp⟩
    rw [m.findFunction?_eq] at hf
    obtain ⟨hname, before, after, hsplit, hbefore⟩ := List.find?_eq_some_iff_append.mp hf
    exact ⟨before, f, after, hsplit, fun g hg => by simpa using hbefore g hg,
      by simpa using hname, hp⟩
  · rintro ⟨before, f, after, hsplit, hbefore, hname, hp⟩
    have hf : m.findFunction? qualname = some f := by
      rw [m.findFunction?_eq]
      refine List.find?_eq_some_iff_append.mpr ⟨by simpa using hname, before, after, hsplit, ?_⟩
      exact fun g hg => by simpa using hbefore g hg
    exact ⟨f, hf, hanchor f hf, hp⟩

/-- The search for a test never fails. -/
theorem isSome_functionAnchor {m : Module} {f : FunctionDef} (hf : f ∈ m.functions) :
    (Edit.anchorSpan? m (.symbol f.qualname)).isSome := by
  have hfound : (m.findFunction? f.qualname).isSome := by
    rw [m.findFunction?_eq, List.find?_isSome]
    exact ⟨f, hf, by simp⟩
  obtain ⟨g, hg⟩ := Option.isSome_iff_exists.mp hfound
  simp [Edit.anchorSpan?, hg]

/-! ### Where comments go -/

/-- **When the comment on a violation goes to the reported node.**  An import breach is explained at
the import that was reported just if that is the first import outside definitions which names the
module; in a definition it never is.  A test is commented on just if it is the first function of its
qualified name. -/
theorem comment_lands_iff (rules : List (Rule Query))
    (hrules : ∀ rule ∈ rules, rule = LayerDependency.rule ∨ ∃ max, rule = TestDoubles.rule max)
    (ctx : RuleContext) (project : Project) (cache : Cache) (v : Violation)
    (hv : v ∈ (((walk rules ctx).run project).run cache).1.violations) :
    (v.code = LayerDependency.code ∧
      ∃ i ∈ ctx.module.allImports, ∃ written ∈ i.writtenModules,
        v.location = ctx.location i.span ∧
        LayerDependency.fix v ctx = pure (.ok
          [.injectComment (.module written) (LayerDependency.code ++ " " ++ v.message)]) ∧
        ((∃ span, Edit.anchorSpan? ctx.module (.module written) = some span ∧
            ctx.location span = v.location) ↔
          ∃ before j after, ctx.module.openImports = before ++ j :: after ∧
            (∀ k ∈ before, written ∉ k.writtenModules) ∧ written ∈ j.writtenModules ∧
            ctx.location j.span = v.location)) ∨
    (v.code = TestDoubles.code ∧
      ∃ f ∈ ctx.module.functions, TestDoubles.isTest f = true ∧
        v.location = ctx.location f.span ∧
        TestDoubles.fix v ctx = pure (.ok
          [.injectComment (.symbol f.qualname) (TestDoubles.code ++ " " ++ v.message)]) ∧
        (Edit.anchorSpan? ctx.module (.symbol f.qualname)).isSome ∧
        ((∃ g, ctx.module.findFunction? f.qualname = some g ∧
            Edit.anchorSpan? ctx.module (.symbol f.qualname) = some g.header ∧
            ctx.location g.span = v.location) ↔
          ∃ before g after, ctx.module.functions = before ++ g :: after ∧
            (∀ k ∈ before, k.qualname ≠ f.qualname) ∧ g.qualname = f.qualname ∧
            ctx.location g.span = v.location)) := by
  have hkeeps : ∀ rule ∈ rules, rule.Keeps Anything ctx (TestDoubles.IsRecord ctx)
      (fun v => LayerDependency.IsReport ctx v ∨ TestDoubles.IsReport ctx v) := by
    intro rule hrule
    rcases hrules rule hrule with rfl | ⟨max, rfl⟩
    · exact (LayerDependency.keeps ctx _).imp fun _ => Or.inl
    · exact (TestDoubles.keeps max ctx).imp fun _ => Or.inr
  obtain ⟨rule, -, hreport⟩ := (yields_walk hkeeps project cache trivial).1 v hv
  rcases hreport with ⟨hcode, i, hi, written, hwritten, hlocation, htarget⟩ |
    ⟨hcode, f, hf, htest, hlocation, htarget⟩
  · refine Or.inl ⟨hcode, i, hi, written, hwritten, hlocation, ?_, ?_⟩
    · unfold LayerDependency.fix
      rw [htarget]
    · exact importAnchor_iff ctx.module written fun span => ctx.location span = v.location
  · refine Or.inr ⟨hcode, f, hf, htest, hlocation, ?_, ?_, ?_⟩
    · unfold TestDoubles.fix
      rw [htarget]
    · exact isSome_functionAnchor hf
    · exact functionAnchor_iff ctx.module f.qualname fun g => ctx.location g.span = v.location

/-- `def f() -> None: import infrastructure.db`, in a file of the domain layer. -/
def importInFunction : RuleContext where
  module :=
    { path := "domain/a.py"
      name := "domain.a"
      body :=
        [.functionDef { name := "f", qualname := "f", span := { line := 1 } }
          [.importing
            { names := [{ name := "infrastructure.db" }], span := { line := 2, column := 4 } }]] }
  config := {}
  classifier := .ofConfig {}

/-- An import in a function is reported, and the comment that is planned for it goes nowhere. -/
theorem import_in_function_misses :
    ∃ v written, v.location = ⟨"domain/a.py", 2, 4⟩ ∧
      LayerDependency.fix v importInFunction = pure (.ok
        [.injectComment (.module written) (LayerDependency.code ++ " " ++ v.message)]) ∧
      ¬ ∃ span, Edit.anchorSpan? importInFunction.module (.module written) = some span ∧
        importInFunction.location span = v.location := by
  obtain ⟨v, hv, hcode, hlocation⟩ : ∃ v ∈ (((walk [LayerDependency.rule] importInFunction).run
      { root := "/p" }).run {}).1.violations,
      v.code = LayerDependency.code ∧ v.location = ⟨"domain/a.py", 2, 4⟩ := by
    decide +kernel
  rcases comment_lands_iff [LayerDependency.rule] (by simp) importInFunction { root := "/p" } {} v
    hv with ⟨-, i, -, written, -, -, hfix, hlands⟩ | ⟨hcode', -⟩
  · refine ⟨v, written, hlocation, hfix, fun h => ?_⟩
    obtain ⟨before, j, after, hopen, -⟩ := hlands.mp h
    have hnone : importInFunction.module.openImports = [] := by rfl
    exact absurd (hnone.symm.trans hopen) (by simp)
  · exact absurd (hcode.symm.trans hcode') (by decide)

end Plumbline
