/-
When a bare name in a function has a type.

A function binds a name by its parameters and by the statements of its own body.  If no parameter
has the name, all of these are looked at: the name has a type exactly if only assignments to it
alone bind it, and they agree.  If a parameter has it, nothing else is looked at: the name has the
type that the first of these parameters is annotated with, also if that is the type of the items
that the parameter collects, and also if the body binds the name to something else
(`bare_name_typed_iff`).

Assigned values are followed a bounded number of times.  What is known when the bound is reached is
known with any larger one (`exprType_extends`), so that assignments have the types that inference
would give their values by themselves.
-/
import Plumbline.Proofs.Analysis.InnerScope
import Plumbline.Proofs.Module.Assignments

namespace Plumbline

/-! ### Assignments to a name -/

namespace FunctionDef

/-- The assignments to `name` in the function's own body, in source order. -/
def assignmentsTo (f : FunctionDef) (name : String) : List Assign :=
  (openStatementsIn f.body).filterMap (·.assignmentTo? name)

/-- Nothing in the function's own body binds `name` but assignments to it alone. -/
structure OnlyAssigns (f : FunctionDef) (name : String) : Prop where
  direct : f.indirect.contains name = false
  alone : ∀ s ∈ openStatementsIn f.body, s.rebinds name = false

theorem localAssignments_eq_some_iff {f : FunctionDef} {name : String} {all : List Assign} :
    f.localAssignments name = some all ↔ f.OnlyAssigns name ∧ all = f.assignmentsTo name := by
  unfold localAssignments
  constructor
  · intro h
    split at h
    · cases h
    · rename_i hdirect
      obtain ⟨halone, hall⟩ := assignmentsIn_eq_some_iff.mp h
      exact ⟨⟨eq_false_of_ne_true hdirect, halone⟩, hall⟩
  · rintro ⟨⟨hdirect, halone⟩, hall⟩
    rw [if_neg (by simp [hdirect])]
    exact assignmentsIn_eq_some_iff.mpr ⟨halone, hall⟩

theorem param?_eq_none_iff {f : FunctionDef} {name : String} :
    f.param? name = none ↔ ∀ p ∈ f.params, p.name ≠ name := by
  unfold param?
  rw [List.find?_eq_none]
  simp only [beq_iff_eq, ne_eq]

end FunctionDef

namespace Query

variable {project : Project} {α : Type}

/-! ### Following more assignments -/

/-- `more` gives every item that `infer` gives a known type the same type, and asks the same. -/
def Extends (project : Project) (more infer : α → Query InferredType) : Prop :=
  ∀ a cache t, (((infer a).run project).run cache).1 = .known t →
    ((more a).run project).run cache = ((infer a).run project).run cache

variable {more infer : α → Query InferredType}

theorem agreed_extends (h : Extends project more infer) (type : Option TypeRef) :
    Extends project (agreed more type) (agreed infer type) := by
  intro items
  induction items generalizing type with
  | nil => exact fun _ _ _ => rfl
  | cons a rest ih =>
      intro cache t hknown
      have hfirst := h a cache
      rw [agreed, run_bind] at hknown
      rw [agreed, agreed, run_bind, run_bind]
      generalize ((infer a).run project).run cache = answer at hknown hfirst ⊢
      obtain ⟨u | _ | _, cache'⟩ := answer
      · rw [hfirst u rfl]
        cases type with
        | none => exact ih (some u) cache' t hknown
        | some v =>
            dsimp only at hknown ⊢
            by_cases heq : v = u
            · rw [if_pos heq] at hknown
              rw [if_pos heq, if_pos heq]
              exact ih (some v) cache' t hknown
            · rw [if_neg heq] at hknown
              cases hknown
      · cases hknown
      · cases hknown

theorem typesOf_extends (h : Extends project more infer) {t : TypeRef} {items : List α}
    {cache : Cache} (hknown : ∀ u ∈ typesOf infer project cache items, u = .known t) :
    typesOf more project cache items = typesOf infer project cache items := by
  induction items generalizing cache with
  | nil => rfl
  | cons a rest ih =>
      rw [typesOf_cons] at hknown
      rw [typesOf_cons, typesOf_cons, h a cache t (hknown _ List.mem_cons_self),
        ih fun u hu => hknown u (List.mem_cons_of_mem _ hu)]

theorem assignmentType_extends {more infer : Expr → Query InferredType}
    (h : Extends project more infer) (m : Module) :
    Extends project (assignmentType more m) (assignmentType infer m) := by
  intro a cache t hknown
  unfold assignmentType at hknown ⊢
  split
  · rfl
  · rename_i hsingle
    rw [if_neg hsingle] at hknown
    cases hhint : a.hint with
    | some hint => rfl
    | none =>
        rw [hhint] at hknown
        cases hvalue : a.value with
        | none => rfl
        | some value =>
            rw [hvalue] at hknown
            exact h value cache t hknown

theorem nameType_extends {more infer : Expr → Query InferredType} (h : Extends project more infer)
    (scope : Scope) : Extends project (nameType more scope) (nameType infer scope) := by
  intro name cache t hknown
  unfold nameType at hknown ⊢
  split
  · rfl
  · rename_i hfree
    rw [hfree] at hknown
    dsimp only at hknown ⊢
    split
    · rename_i all hall
      rw [hall] at hknown
      exact agreed_extends (assignmentType_extends h scope.module) none all cache t hknown
    · rfl

/-- A type that is known after following some assignments is known after following one more. -/
theorem exprType_extends (project : Project) (scope : Scope) (hops : Nat) :
    Extends project (exprType scope (hops + 1)) (exprType scope hops) := by
  induction hops with
  | zero =>
      intro e cache t hknown
      cases hknown
  | succ hops ih =>
      intro e cache t hknown
      cases e with
      | name name span => exact nameType_extends ih scope name cache t hknown
      | _ => rfl

/-! ### Bare names -/

/-- **A bare name is typed by the annotation of a parameter alone, or by all its bindings.**  The
first parameter of that name decides by its annotation, whatever it collects and whatever else binds
the name.  If there is none, the name has a known type exactly if nothing in the function's own body
binds it but assignments to it alone, there is one, and each of them, followed as far as the bound
allows, has that type; and then that is the type that inference finds for the assigned value. -/
theorem bare_name_typed_iff (project : Project) (cache : Cache) (m : Module) (f : FunctionDef)
    (name : String) (span : Span) (t : TypeRef) :
    ((((inferType (.ofFunction m f) (.name name span)).run project).run cache).1 = .known t ↔
      (∃ p hint, f.param? name = some p ∧ p.hint = some hint ∧
        (((resolveHint m hint.text).run project).run cache).1 = .known t) ∨
      ((∀ p ∈ f.params, p.name ≠ name) ∧ f.OnlyAssigns name ∧ f.assignmentsTo name ≠ [] ∧
        ∀ u ∈ typesOf (assignmentType (exprType (.ofFunction m f) maxHops) m) project cache
          (f.assignmentsTo name), u = .known t)) ∧
    ((∀ p ∈ f.params, p.name ≠ name) →
      (((inferType (.ofFunction m f) (.name name span)).run project).run cache).1 = .known t →
      f.OnlyAssigns name ∧
        ∀ u ∈ typesOf (assignmentType (inferType (.ofFunction m f)) m) project cache
          (f.assignmentsTo name), u = .known t) := by
  have hknown : InferredType.known t ≠ .unknown := by simp
  have hassigned : BoundInside project cache m f name (.known t) →
      (∀ p ∈ f.params, p.name ≠ name) → f.OnlyAssigns name ∧ f.assignmentsTo name ≠ [] ∧
        ∀ u ∈ typesOf (assignmentType (exprType (.ofFunction m f) maxHops) m) project cache
          (f.assignmentsTo name), u = .known t := by
    rintro (⟨p, _, hp, -, -⟩ | ⟨-, all, hall, hagree⟩) hfree
    · rw [FunctionDef.param?_eq_none_iff.mpr hfree] at hp
      cases hp
    · obtain ⟨honly, rfl⟩ := FunctionDef.localAssignments_eq_some_iff.mp hall
      obtain ⟨hsome, htypes⟩ := agree_known_iff.mp hagree
      refine ⟨honly, ?_, htypes⟩
      rintro hnone
      rw [hnone] at hsome
      exact hsome rfl
  rw [inferType_name_iff hknown f span]
  refine ⟨⟨fun h => ?_, ?_⟩, fun hfree h => ?_⟩
  · rcases h with ⟨p, hint, hp, hhint, hresolved⟩ | ⟨hnone, htype⟩
    · exact Or.inl ⟨p, hint, hp, hhint, hresolved⟩
    · have hfree := FunctionDef.param?_eq_none_iff.mp hnone
      exact Or.inr ⟨hfree, hassigned (.assigned hnone htype) hfree⟩
  · rintro (⟨p, hint, hp, hhint, hresolved⟩ | ⟨hfree, honly, hsome, htypes⟩)
    · exact .param p hint hp hhint hresolved
    · refine .assigned (FunctionDef.param?_eq_none_iff.mpr hfree) ⟨f.assignmentsTo name,
        FunctionDef.localAssignments_eq_some_iff.mpr ⟨honly, rfl⟩, agree_known_iff.mpr ⟨?_, htypes⟩⟩
      cases hall : f.assignmentsTo name with
      | nil => exact absurd hall hsome
      | cons a rest =>
          rw [typesOf_cons]
          exact List.cons_ne_nil _ _
  · obtain ⟨honly, -, htypes⟩ := hassigned h hfree
    refine ⟨honly, ?_⟩
    unfold inferType
    rw [typesOf_extends (assignmentType_extends (exprType_extends project _ maxHops) m) htypes]
    exact htypes

/-- A function that collects its arguments, one that gives its parameter a new value, and one that
has a variable. -/
def rebinding : String :=
  "def f(*args: int):\n    return args\n\n\ndef g(x: int):\n    x = 'a'\n    return x\n\n\n" ++
    "def h():\n    y = 1\n    return y\n"

def rebindingModule : Module := (Module.parse rebinding "app.py" "app").toOption.getD default

def rebindingFunction (qualname : String) : FunctionDef :=
  (rebindingModule.findFunction? qualname).getD default

/-- All arguments together have the type of one of them, and a parameter keeps its type after an
assignment of another; the variable has that of its only assignment. -/
theorem parameters_typed_by_annotation :
    (((inferType (.ofFunction rebindingModule (rebindingFunction "f"))
        (.name "args" {})).run { root := "/p" }).run {}).1 = .builtin "int" ∧
    ((rebindingFunction "f").param? "args").map (·.kind) = some .varArgs ∧
    (((inferType (.ofFunction rebindingModule (rebindingFunction "g"))
        (.name "x" {})).run { root := "/p" }).run {}).1 = .builtin "int" ∧
    typesOf (assignmentType (inferType (.ofFunction rebindingModule (rebindingFunction "g")))
      rebindingModule) { root := "/p" } {} ((rebindingFunction "g").assignmentsTo "x") =
        [.builtin "str"] ∧
    (rebindingFunction "h").OnlyAssigns "y" := by
  -- one evaluation for all, so that the module is parsed once
  obtain ⟨hresolved, hcollects, htypes, hfree, hassigned⟩ :
      (∀ x ∈ [("f", "args"), ("g", "x")],
        (((rebindingFunction x.1).param? x.2).bind (·.hint)).any (fun hint =>
          (((resolveHint rebindingModule hint.text).run { root := "/p" }).run {}).1 =
            .builtin "int") = true) ∧
      ((rebindingFunction "f").param? "args").map (·.kind) = some .varArgs ∧
      typesOf (assignmentType (inferType (.ofFunction rebindingModule (rebindingFunction "g")))
        rebindingModule) { root := "/p" } {} ((rebindingFunction "g").assignmentsTo "x") =
          [.builtin "str"] ∧
      (∀ p ∈ (rebindingFunction "h").params, p.name ≠ "y") ∧
      (((inferType (.ofFunction rebindingModule (rebindingFunction "h"))
        (.name "y" {})).run { root := "/p" }).run {}).1 = .known { name := "int" } := by
    decide +kernel
  have hannotated : ∀ x ∈ [("f", "args"), ("g", "x")],
      ∃ p hint, (rebindingFunction x.1).param? x.2 = some p ∧ p.hint = some hint ∧
        (((resolveHint rebindingModule hint.text).run { root := "/p" }).run {}).1 =
          .builtin "int" := by
    intro x hx
    obtain ⟨hint, hhint, htype⟩ := (Option.any_eq_true _ _).mp (hresolved x hx)
    obtain ⟨p, hp, hhint⟩ := Option.bind_eq_some_iff.mp hhint
    exact ⟨p, hint, hp, hhint, of_decide_eq_true htype⟩
  refine ⟨?_, hcollects, ?_, htypes, ?_⟩
  · exact ((bare_name_typed_iff _ _ _ _ _ _ _).1).mpr (Or.inl (hannotated ("f", "args") (by simp)))
  · exact ((bare_name_typed_iff _ _ _ _ _ _ _).1).mpr (Or.inl (hannotated ("g", "x") (by simp)))
  · exact ((bare_name_typed_iff { root := "/p" } {} rebindingModule (rebindingFunction "h") "y" {}
      { name := "int" }).2 hfree hassigned).1

end Query

end Plumbline
