/-
Which imports breach the order of the layers.

A file of a layer is told about each import that names a module of a later layer: a plain import
names every module that is written in it, and an import that takes names from a module names that
module.  Every import of the file is looked at, at any depth and in source order, among any other
rules (`reported_iff_names_outer`).

An import that takes names from a package may take modules of it.  A lookup knows of these, but the
rule does not look at them, so a module of a later layer that is taken in this way goes unnoticed
unless its package is in a later layer as well.
-/
import Plumbline.Proofs.Analysis.TopLevel
import Plumbline.Proofs.Rule.Anchors
import Plumbline.Proofs.Rule.Looking
import Plumbline.Rule.ReturnHint

namespace Plumbline

/-! ### The imports that a walk enters -/

namespace Visit

/-- The import that is entered. -/
def import? : Visit → Option Import
  | .enter _ node => node.import?
  | .leave _ _ => none

end Visit

theorem imports_enclosed (a : Around) (node : Node) (parts : List Visit) :
    (enclosed a node parts).filterMap Visit.import? =
      node.import?.toList ++ parts.filterMap Visit.import? := by
  unfold enclosed
  cases himport : node.import? <;> simp [Visit.import?, himport]

mutual

/-- There are no imports in an expression. -/
theorem imports_visitsOfExpr (a : Around) :
    (e : Expr) → (visitsOfExpr a e).filterMap Visit.import? = []
  | .member value _ _ => by
      rw [visitsOfExpr, imports_enclosed, imports_visitsOfExpr a value]
      rfl
  | .call func args keywords _ => by
      rw [visitsOfExpr, imports_enclosed, List.filterMap_append, List.filterMap_append,
        imports_visitsOfExpr a func, imports_visitsOfExprs a args,
        imports_visitsOfKeywords a keywords]
      rfl
  | .collection _ items _ => by
      rw [visitsOfExpr, imports_enclosed, imports_visitsOfExprs a items]
      rfl
  | .literal _ _ | .name _ _ | .other _ => rfl

theorem imports_visitsOfExprs (a : Around) :
    (es : List Expr) → (visitsOfExprs a es).filterMap Visit.import? = []
  | [] => rfl
  | e :: rest => by
      rw [visitsOfExprs, List.filterMap_append, imports_visitsOfExpr a e,
        imports_visitsOfExprs a rest]
      rfl

theorem imports_visitsOfKeywords (a : Around) :
    (ks : List (String × Expr)) → (visitsOfKeywords a ks).filterMap Visit.import? = []
  | [] => rfl
  | (_, e) :: rest => by
      rw [visitsOfKeywords, List.filterMap_append, imports_visitsOfExpr a e,
        imports_visitsOfKeywords a rest]
      rfl

end

mutual

theorem imports_visitsOfStmt (a : Around) : (s : Stmt) →
    (visitsOfStmt a s).filterMap Visit.import? =
      (statementsOf s).filterMap fun s => (Node.stmt s).import?
  | .functionDef h body => by
      rw [visitsOfStmt, imports_enclosed, List.filterMap_append, List.filterMap_append,
        imports_visitsOfExprs, imports_visitsOfExprs, imports_visitsOfBlock, statementsOf,
        List.filterMap_cons_none rfl]
      rfl
  | .classDef h body => by
      rw [visitsOfStmt, imports_enclosed, List.filterMap_append, List.filterMap_append,
        imports_visitsOfExprs, imports_visitsOfExprs, imports_visitsOfBlock, statementsOf,
        List.filterMap_cons_none rfl]
      rfl
  | .compound h blocks => by
      rw [visitsOfStmt, imports_enclosed, List.filterMap_append, imports_visitsOfExprs,
        imports_visitsOfBlocks, statementsOf, List.filterMap_cons_none rfl]
      rfl
  | .returning r => by
      rw [visitsOfStmt, imports_enclosed, imports_visitsOfExprs]
      rfl
  | .assign r => by
      rw [visitsOfStmt, imports_enclosed, imports_visitsOfExprs]
      rfl
  | .expr e => by
      rw [visitsOfStmt, imports_enclosed, imports_visitsOfExpr]
      rfl
  | .importing _ | .comment _ | .pass _ | .raise _ | .other _ => rfl

theorem imports_visitsOfBlock (a : Around) : (body : List Stmt) →
    (visitsOfBlock a body).filterMap Visit.import? =
      (statementsIn body).filterMap fun s => (Node.stmt s).import?
  | [] => rfl
  | s :: rest => by
      rw [visitsOfBlock, statementsIn, List.filterMap_append, List.filterMap_append,
        imports_visitsOfStmt a s, imports_visitsOfBlock a rest]

theorem imports_visitsOfBlocks (a : Around) : (blocks : List (List Stmt)) →
    (visitsOfBlocks a blocks).filterMap Visit.import? =
      (statementsInBlocks blocks).filterMap fun s => (Node.stmt s).import?
  | [] => rfl
  | b :: rest => by
      rw [visitsOfBlocks, statementsInBlocks, List.filterMap_append, List.filterMap_append,
        imports_visitsOfBlock a b, imports_visitsOfBlocks a rest]

end

/-- **A walk enters every import once**, in source order. -/
theorem Module.imports_visits (m : Module) :
    m.visits.filterMap Visit.import? = m.allImports := by
  rw [Module.visits, imports_enclosed, imports_visitsOfBlock]
  rfl

namespace LayerDependency

/-! ### What the rule says at an import -/

/-- What the rule reports at an import. -/
def reportsAt (ctx : RuleContext) (i : Import) : List Violation :=
  match ctx.classifier.ofPath? ctx.file with
  | none => []
  | some importer =>
    match ctx.classifier.rank? importer with
    | none => []
    | some rank =>
      (breaches ctx.classifier rank [] (i.writtenModules.zip (ctx.module.importedModules i))).map
        fun (written, absolute, imported) => violation ctx i importer imported written absolute

theorem check_eq (ctx : RuleContext) (node : Node) :
    check ctx node = pure (.ok (node.import?.toList.flatMap (reportsAt ctx))) := by
  unfold check
  cases node.import? with
  | none => rfl
  | some i =>
      rw [Option.toList_some, List.flatMap_singleton, reportsAt]
      cases himporter : ctx.classifier.ofPath? ctx.file with
      | none => rfl
      | some importer => cases hrank : ctx.classifier.rank? importer <;> simp [hrank]

theorem looks (ctx : RuleContext) :
    rule.Looks ctx fun node => node.import?.toList.flatMap (reportsAt ctx) :=
  ⟨check, rfl, fun _ node => check_eq _ node⟩

/-- The rule looks at each import once. -/
theorem foundOn_eq (ctx : RuleContext) (visit : Visit) :
    rule.foundOn (fun node => node.import?.toList.flatMap (reportsAt ctx)) visit =
      visit.import?.toList.flatMap (reportsAt ctx) := by
  cases visit with
  | leave around node => rfl
  | enter around node =>
      unfold Rule.foundOn Rule.foundAt Visit.import?
      cases node with
      | stmt s => cases s <;> simp [rule, Node.kind, Node.import?]
      | _ => simp [Node.import?]

/-- **Every import of the file is looked at**, in source order, and nothing else is said. -/
theorem yields_told (ctx : RuleContext) {rules : List (Rule Query)} {k : Nat}
    (hk : rules[k]? = some rule) :
    Query.Yields Query.Anything (walkLog rules ctx) fun log =>
      log.told k =
        { violations := ctx.module.allImports.flatMap (reportsAt ctx), failures := [] } := by
  refine ((looks ctx).yields_walkLog hk).imp fun log hlog => ?_
  rw [hlog, ← ctx.module.imports_visits]
  congr 1
  induction ctx.module.visits with
  | nil => rfl
  | cons visit rest ih =>
      rw [List.flatMap_cons, ih, foundOn_eq]
      cases himport : visit.import? <;> simp [himport]

/-! ### Which imports are reported -/

/-- The import names the module: a plain import each that is written in it, and an import that takes
names from a module the one that this is. -/
inductive Names (m : Module) (i : Import) (absolute : String) : Prop where
  | plain {n : ImportedName} (hplain : i.fromModule = none) (hn : n ∈ i.names)
      (habsolute : n.name = absolute)
  | source (hsource : m.importSource? i = some absolute) (hne : absolute ≠ "")

/-- The import takes the module from its package, as one of the names in it. -/
def Takes (project : Project) (m : Module) (i : Import) (absolute : String) : Prop :=
  i.wildcard = false ∧ ∃ source, m.importSource? i = some source ∧
    ∃ n ∈ i.names, Query.memberName source n.name = absolute ∧
      (project.moduleFile? absolute).isSome = true

/-- The module lies in a layer that comes later than the one of rank `rank`. -/
def IsOuter (c : LayerClassifier) (rank : Nat) (absolute : String) : Prop :=
  ∃ layer later, c.ofModule? absolute = some layer ∧ c.rank? layer = some later ∧ rank < later

theorem exists_outerLayer?_iff {c : LayerClassifier} {rank : Nat} {absolute : String} :
    (∃ layer, outerLayer? c rank absolute = some layer) ↔ IsOuter c rank absolute := by
  unfold outerLayer? IsOuter
  constructor
  · rintro ⟨layer, h⟩
    cases hlayer : c.ofModule? absolute with
    | none => simp [hlayer] at h
    | some found =>
        cases hrank : c.rank? found with
        | none => simp [hlayer, hrank] at h
        | some later =>
            have hlt : rank < later ∧ found = layer := by simpa [hlayer, hrank] using h
            exact ⟨found, later, rfl, hrank, hlt.1⟩
  · rintro ⟨layer, later, hlayer, hrank, hlt⟩
    exact ⟨layer, by simp [hlayer, hrank, hlt]⟩

/-- What is found lies in an outer layer. -/
theorem outerLayer?_of_mem_breaches {c : LayerClassifier} {rank : Nat} {seen : List String}
    {modules : List (String × String)} {written absolute : String} {layer : Layer}
    (h : (written, absolute, layer) ∈ breaches c rank seen modules) :
    outerLayer? c rank absolute = some layer := by
  induction modules generalizing seen with
  | nil => exact absurd h (by simp [breaches])
  | cons x rest ih =>
      obtain ⟨w, a⟩ := x
      unfold breaches at h
      split at h
      · exact ih h
      · rename_i found hfound
        split at h
        · exact ih h
        · rcases List.mem_cons.mp h with heq | hmem
          · obtain ⟨-, rfl, rfl⟩ : written = w ∧ absolute = a ∧ layer = found := by simpa using heq
            exact hfound
          · exact ih hmem

/-- A module of an outer layer is found, unless one that is written so was found before. -/
theorem exists_mem_breaches {c : LayerClassifier} {rank : Nat} {seen : List String}
    {modules : List (String × String)} {written absolute : String} {layer : Layer}
    (hmem : (written, absolute) ∈ modules) (houter : outerLayer? c rank absolute = some layer)
    (hseen : written ∉ seen) :
    ∃ absolute' layer', (written, absolute', layer') ∈ breaches c rank seen modules := by
  induction modules generalizing seen with
  | nil => exact absurd hmem List.not_mem_nil
  | cons x rest ih =>
      obtain ⟨w, a⟩ := x
      unfold breaches
      by_cases hhead : (written, absolute) = (w, a)
      · obtain ⟨rfl, rfl⟩ := Prod.mk.inj hhead
        rw [houter]
        dsimp only
        rw [if_neg (by simpa using hseen)]
        exact ⟨absolute, layer, List.mem_cons_self⟩
      · have hrest : (written, absolute) ∈ rest := (List.mem_cons.mp hmem).resolve_left hhead
        split
        · exact ih hrest hseen
        · split
          · exact ih hrest hseen
          · by_cases hw : written = w
            · subst hw
              exact ⟨a, _, List.mem_cons_self⟩
            · have hseen' : written ∉ w :: seen := by simp [hw, hseen]
              obtain ⟨absolute', layer', hfound⟩ := ih hrest hseen'
              exact ⟨absolute', layer', List.mem_cons_of_mem _ hfound⟩

/-- The modules that the rule looks at are those that the import names. -/
theorem exists_written_iff {m : Module} {i : Import} {absolute : String} :
    (∃ written, (written, absolute) ∈ i.writtenModules.zip (m.importedModules i)) ↔
      Names m i absolute := by
  unfold Import.writtenModules Module.importedModules Import.isFrom
  cases hfrom : i.fromModule with
  | none =>
      have hnosource : m.importSource? i = none := by simp [Module.importSource?, hfrom]
      rw [Option.isSome_none, if_neg Bool.false_ne_true, List.zip_map']
      constructor
      · rintro ⟨written, h⟩
        obtain ⟨n, hn, heq⟩ := List.mem_map.mp h
        exact .plain hfrom hn (Prod.mk.inj heq).2
      · rintro (⟨-, hn, rfl⟩ | ⟨hsource, -⟩)
        · exact ⟨_, List.mem_map.mpr ⟨_, hn, rfl⟩⟩
        · rw [hnosource] at hsource
          cases hsource
  | some written =>
      rw [Option.isSome_some, if_pos rfl]
      constructor
      · rintro ⟨written', h⟩
        have hfiltered := Option.mem_toList.mp (List.of_mem_zip h).2
        obtain ⟨hsource, hne⟩ := Option.filter_eq_some_iff.mp hfiltered
        exact .source hsource (by simpa using hne)
      · rintro (⟨hplain, -, -⟩ | ⟨hsource, hne⟩)
        · rw [hfrom] at hplain
          cases hplain
        · rw [hsource, Option.filter_some, if_pos (by simpa using hne)]
          exact ⟨_, List.mem_singleton.mpr rfl⟩

/-- How a module is written tells which one it is. -/
theorem absolute_unique {m : Module} {i : Import} {written absolute absolute' : String}
    (h : (written, absolute) ∈ i.writtenModules.zip (m.importedModules i))
    (h' : (written, absolute') ∈ i.writtenModules.zip (m.importedModules i)) :
    absolute = absolute' := by
  unfold Import.writtenModules Module.importedModules Import.isFrom at h h'
  cases hfrom : i.fromModule with
  | none =>
      rw [hfrom, Option.isSome_none, if_neg Bool.false_ne_true, List.zip_map'] at h h'
      obtain ⟨n, -, heq⟩ := List.mem_map.mp h
      obtain ⟨n', -, heq'⟩ := List.mem_map.mp h'
      rw [← (Prod.mk.inj heq).2, (Prod.mk.inj heq).1, ← (Prod.mk.inj heq').1, (Prod.mk.inj heq').2]
  | some source =>
      rw [hfrom, Option.isSome_some, if_pos rfl] at h h'
      have hsource := Option.mem_toList.mp (List.of_mem_zip h).2
      have hsource' := Option.mem_toList.mp (List.of_mem_zip h').2
      exact Option.some.inj (hsource.symm.trans hsource')

/-- What is found is named once. -/
theorem nodup_breaches (c : LayerClassifier) (rank : Nat) (seen : List String)
    (modules : List (String × String)) :
    ((breaches c rank seen modules).map (·.1)).Nodup ∧
      ∀ written ∈ (breaches c rank seen modules).map (·.1), written ∉ seen := by
  induction modules generalizing seen with
  | nil => simp [breaches]
  | cons x rest ih =>
      obtain ⟨written, absolute⟩ := x
      unfold breaches
      split
      · exact ih seen
      · rename_i layer hlayer
        by_cases hseen : seen.contains written = true
        · rw [if_pos hseen]
          exact ih seen
        · rw [if_neg hseen]
          obtain ⟨hnodup, hnew⟩ := ih (written :: seen)
          have hnot : written ∉ (breaches c rank (written :: seen) rest).map (·.1) :=
            fun h => hnew written h List.mem_cons_self
          refine ⟨List.nodup_cons.mpr ⟨hnot, hnodup⟩, List.forall_mem_cons.mpr ⟨?_, ?_⟩⟩
          · simpa using hseen
          · exact fun w hw hmem => hnew w hw (List.mem_cons_of_mem _ hmem)

section

variable {ctx : RuleContext} {importer : Layer} {rank : Nat}

/-- In a file of a ranked layer, the reports at an import are those about the breaches. -/
theorem reportsAt_eq (himporter : ctx.classifier.ofPath? ctx.file = some importer)
    (hrank : ctx.classifier.rank? importer = some rank) (i : Import) :
    reportsAt ctx i =
      (breaches ctx.classifier rank [] (i.writtenModules.zip (ctx.module.importedModules i))).map
        fun (written, absolute, imported) =>
          violation ctx i importer imported written absolute := by
  unfold reportsAt
  rw [himporter]
  dsimp only
  rw [hrank]

/-- Each outer module that an import names is reported. -/
theorem exists_report (himporter : ctx.classifier.ofPath? ctx.file = some importer)
    (hrank : ctx.classifier.rank? importer = some rank) {i : Import} {absolute : String}
    (hnames : Names ctx.module i absolute) (houter : IsOuter ctx.classifier rank absolute) :
    ∃ written layer, violation ctx i importer layer written absolute ∈ reportsAt ctx i := by
  obtain ⟨written, hmem⟩ := exists_written_iff.mpr hnames
  obtain ⟨layer, hlayer⟩ := exists_outerLayer?_iff.mpr houter
  obtain ⟨absolute', layer', hfound⟩ := exists_mem_breaches hmem hlayer List.not_mem_nil
  obtain rfl := absolute_unique hmem (mem_of_mem_breaches hfound)
  rw [reportsAt_eq himporter hrank]
  exact ⟨written, layer', List.mem_map.mpr ⟨_, hfound, rfl⟩⟩

/-- What is reported at an import is about an outer module that it names. -/
theorem eq_violation_of_mem (himporter : ctx.classifier.ofPath? ctx.file = some importer)
    (hrank : ctx.classifier.rank? importer = some rank) {i : Import} {v : Violation}
    (hv : v ∈ reportsAt ctx i) :
    ∃ written absolute layer, v = violation ctx i importer layer written absolute ∧
      Names ctx.module i absolute ∧ IsOuter ctx.classifier rank absolute := by
  rw [reportsAt_eq himporter hrank] at hv
  obtain ⟨⟨written, absolute, layer⟩, hbreach, rfl⟩ := List.mem_map.mp hv
  exact ⟨written, absolute, layer, rfl,
    exists_written_iff.mp ⟨written, mem_of_mem_breaches hbreach⟩,
    exists_outerLayer?_iff.mp ⟨layer, outerLayer?_of_mem_breaches hbreach⟩⟩

/-- No module is reported twice at an import. -/
theorem nodup_targets (himporter : ctx.classifier.ofPath? ctx.file = some importer)
    (hrank : ctx.classifier.rank? importer = some rank) (i : Import) :
    ((reportsAt ctx i).map (·.target)).Nodup := by
  have hnodup := (nodup_breaches ctx.classifier rank []
    (i.writtenModules.zip (ctx.module.importedModules i))).1
  rw [reportsAt_eq himporter hrank, List.map_map]
  refine List.Pairwise.map _ (fun breach breach' hne heq => hne ?_) (List.pairwise_map.mp hnodup)
  exact (Target.mk.inj (Option.some.inj heq)).1

end

/-- The import breaches the order of the layers by a module that it names. -/
def NamesOuter (ctx : RuleContext) (rank : Nat) (i : Import) : Prop :=
  ∃ absolute, Names ctx.module i absolute ∧ IsOuter ctx.classifier rank absolute

/-- The import breaches the order of the layers by a module that it takes from its package. -/
def TakesOuter (project : Project) (ctx : RuleContext) (rank : Nat) (i : Import) : Prop :=
  ∃ absolute, Takes project ctx.module i absolute ∧ IsOuter ctx.classifier rank absolute

/-- **An import is reported if and only if it names an outer module.**  On a walk with any other
rules, in any project and whatever is remembered, the rule looks at every import of the file, in
source order, and says nothing else.  In a file of a ranked layer, what it reports at an import is
about the modules of later layers that the import names, each of them once.

So the reports are the breaches that the order of the layers asks for, counting modules that are
taken from a package, except at an import that breaches the order only by what it takes. -/
theorem reported_iff_names_outer (rules : List (Rule Query)) (k : Nat) (ctx : RuleContext)
    (hk : rules[k]? = some rule) :
    (∀ project cache, WalkLog.told (((walkLog rules ctx).run project).run cache).1 k =
      { violations := ctx.module.allImports.flatMap (reportsAt ctx), failures := [] }) ∧
    ∀ importer rank, ctx.classifier.ofPath? ctx.file = some importer →
      ctx.classifier.rank? importer = some rank → ∀ i,
        ((∃ v, v ∈ reportsAt ctx i) ↔ NamesOuter ctx rank i) ∧
        (∀ v ∈ reportsAt ctx i, v.code = code ∧ v.location = ctx.location i.span ∧
          ∃ written absolute layer, v = violation ctx i importer layer written absolute ∧
            Names ctx.module i absolute ∧ IsOuter ctx.classifier rank absolute) ∧
        (∀ absolute, Names ctx.module i absolute → IsOuter ctx.classifier rank absolute →
          ∃ written layer, violation ctx i importer layer written absolute ∈ reportsAt ctx i) ∧
        ((reportsAt ctx i).map (·.target)).Nodup ∧
        ∀ project, ((∃ v, v ∈ reportsAt ctx i) ↔
            NamesOuter ctx rank i ∨ TakesOuter project ctx rank i) ↔
          (TakesOuter project ctx rank i → NamesOuter ctx rank i) := by
  refine ⟨fun project cache => (yields_told ctx hk project cache trivial).1, ?_⟩
  intro importer rank himporter hrank i
  have hreport : (∃ v, v ∈ reportsAt ctx i) ↔ NamesOuter ctx rank i := by
    constructor
    · rintro ⟨v, hv⟩
      obtain ⟨written, absolute, layer, -, hnames, houter⟩ := eq_violation_of_mem himporter hrank hv
      exact ⟨absolute, hnames, houter⟩
    · rintro ⟨absolute, hnames, houter⟩
      obtain ⟨written, layer, hv⟩ := exists_report himporter hrank hnames houter
      exact ⟨_, hv⟩
  refine ⟨hreport, fun v hv => ?_, fun absolute => exists_report himporter hrank,
    nodup_targets himporter hrank i, fun project => ?_⟩
  · obtain ⟨written, absolute, layer, rfl, hnames, houter⟩ :=
      eq_violation_of_mem himporter hrank hv
    exact ⟨rfl, rfl, written, absolute, layer, rfl, hnames, houter⟩
  · rw [hreport]
    constructor
    · intro h htakes
      exact h.mpr (Or.inr htakes)
    · intro h
      exact ⟨Or.inl, fun hpulls => hpulls.elim id h⟩

/-! ### A package of an outer layer -/

/-- Takes a package from the package around it. -/
def taking : Import := { fromModule := some "app", names := [{ name := "infrastructure" }] }

/-- Names the same package. -/
def naming : Import := { names := [{ name := "app.infrastructure" }] }

/-- A file of the innermost layer with both imports, one of them in a function. -/
def innermost : RuleContext where
  module :=
    { path := "app/domain/user.py"
      name := "app.domain.user"
      body := [
        .importing taking,
        .functionDef { name := "f", qualname := "f" } [.importing naming]] }
  config := {}
  classifier := .ofConfig {}

/-- A project in which the package lies in an outer layer. -/
def layered : Project where
  root := "/p"
  tree :=
    { files := [(["p", "app", "infrastructure", "__init__.py"], "".toUTF8)]
      dirs := [["p"], ["p", "app"], ["p", "app", "infrastructure"]] }

/-- The package is reported where it is named, and where it is only taken it is not. -/
theorem taken_package_goes_unnoticed :
    (∀ project cache, (WalkLog.told (((walkLog [ReturnHint.rule, rule]
        innermost).run project).run cache).1 1).violations.map (·.message) =
      ["Domain layer imports Infrastructure module `app.infrastructure`"]) ∧
    NamesOuter innermost 0 naming ∧
    TakesOuter layered innermost 0 taking ∧ ¬ ∃ v, v ∈ reportsAt innermost taking := by
  obtain ⟨htold, hreports⟩ :=
    reported_iff_names_outer [ReturnHint.rule, rule] 1 innermost rfl
  have hinnermost := hreports ⟨"Domain"⟩ 0 (by decide +kernel) (by decide +kernel)
  have hnothing : reportsAt innermost taking = [] := by decide +kernel
  have hnaming : (reportsAt innermost naming).map (·.message) =
      ["Domain layer imports Infrastructure module `app.infrastructure`"] := by decide +kernel
  refine ⟨fun project cache => ?_, ?_, ?_, ?_⟩
  · rw [htold project cache]
    show ([taking, naming].flatMap (reportsAt innermost)).map (·.message) = _
    rw [List.flatMap_cons, hnothing, List.flatMap_cons, List.flatMap_nil]
    simpa using hnaming
  · refine (hinnermost naming).1.mp (List.exists_mem_of_ne_nil _ ?_)
    intro hnil
    rw [hnil] at hnaming
    cases hnaming
  · refine ⟨"app.infrastructure",
      ⟨rfl, "app", by decide +kernel, _, List.mem_cons_self, ?_, ?_⟩, ?_⟩
    · decide +kernel
    · decide +kernel
    · exact ⟨⟨"Infrastructure"⟩, 2, by decide +kernel, by decide +kernel, by decide⟩
  · rw [hnothing]
    simp

end LayerDependency

end Plumbline
