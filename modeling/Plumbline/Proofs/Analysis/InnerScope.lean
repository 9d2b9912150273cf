/-
Where the type of a name in an inner scope comes from.

A name that a function binds means something else there than at the top level of the module.  For a
bare name inference looks at the function first (`nameType_iff`).  What is called is looked up at
the top level alone, and so is the receiver of a call of a method; the default of a parameter is
read at the top level too, wherever its definition stands.  So a binding in an inner scope is
respected in these places exactly as long as the top level gives the name no type there
(`inner_names_read_at_top`).
-/
import Plumbline.Proofs.Analysis.Binding
import Plumbline.Rule.ParameterHint

namespace Plumbline.Query

variable {project : Project} {cache : Cache} {m : Module} {name : String} {ty : InferredType}

/-! ### Calls -/

theorem Stmt.binds_of_decides {s : Stmt} (h : s.decides name = true) (hs : s ∈ m.body) :
    m.binds name = true := by
  refine List.any_eq_true.mpr ⟨s, hs, ?_⟩
  cases s with
  | classDef head body => exact h
  | functionDef head body => exact h
  | importing i => exact h
  | _ => exact absurd h (by simp [Stmt.decides])

/-- A name that means something at the top level is bound there. -/
theorem binds_of_lastBinding {x : Symbol} (h : LastBinding project cache m name x) :
    m.binds name = true := by
  obtain ⟨before, s, after, hsplit, hs, -, -⟩ := h
  exact Stmt.binds_of_decides hs (by simp [hsplit])

/-- Calls through a name: of what it means, or of a member of that.  The receiver of a method is
no such name. -/
inductive CallsThrough (name : String) : Expr → Prop where
  | bare (nameSpan : Span) (args : List Expr) (keywords : List (String × Expr)) (span : Span) :
      CallsThrough name (.call (.name name nameSpan) args keywords span)
  | member (hself : name ≠ "self") (hcls : name ≠ "cls") (nameSpan : Span) (attr : String)
      (attrSpan : Span) (args : List Expr) (keywords : List (String × Expr)) (span : Span) :
      CallsThrough name (.call (.member (.name name nameSpan) attr attrSpan) args keywords span)

/-- The type of a call through `name`, by what `name` means at the top level of the module. -/
inductive CalledAtTop (project : Project) (cache : Cache) (m : Module) (name : String) :
    Expr → InferredType → Prop where
  /-- The name is free in the module, and that of a built-in function. -/
  | builtin (type : String) (nameSpan : Span) (args : List Expr)
      (keywords : List (String × Expr)) (span : Span) (hfree : m.binds name = false)
      (htype : builtinCalls.lookup name = some type) :
      CalledAtTop project cache m name (.call (.name name nameSpan) args keywords span)
        (.builtin type)
  /-- The last statement that binds the name says what is called. -/
  | symbol (x : Symbol) (ty : InferredType) (nameSpan : Span) (args : List Expr)
      (keywords : List (String × Expr)) (span : Span)
      (hlast : LastBinding project cache m name x)
      (hcall : (((symbolCall x).run project).run
        (((symbol m name).run project).run cache).2).1 = ty) :
      CalledAtTop project cache m name (.call (.name name nameSpan) args keywords span) ty
  /-- The last statement that binds the name binds it to a module. -/
  | ofModule (dotted : String) (x : Symbol) (ty : InferredType) (nameSpan : Span) (attr : String)
      (attrSpan : Span) (args : List Expr) (keywords : List (String × Expr)) (span : Span)
      (hlast : LastBinding project cache m name (.module dotted))
      (hattr : (((symbolIn dotted attr).run project).run
        (((symbol m name).run project).run cache).2).1 = some x)
      (hcall : (((symbolCall x).run project).run (((symbolIn dotted attr).run project).run
        (((symbol m name).run project).run cache).2).2).1 = ty) :
      CalledAtTop project cache m name
        (.call (.member (.name name nameSpan) attr attrSpan) args keywords span) ty
  /-- The last statement that binds the name binds it to a class. -/
  | ofClass (module className : String) (path : Path) (ty : InferredType) (nameSpan : Span)
      (attr : String) (attrSpan : Span) (args : List Expr) (keywords : List (String × Expr))
      (span : Span) (hlast : LastBinding project cache m name (.class module className path))
      (hcall : (((methodCall path className attr).run project).run
        (((symbol m name).run project).run cache).2).1 = ty) :
      CalledAtTop project cache m name
        (.call (.member (.name name nameSpan) attr attrSpan) args keywords span) ty

/-- What is found at the top level decides the type of a call of a bare name. -/
theorem run_nameCall (scope : Scope) (project : Project) (cache : Cache) :
    (((nameCall scope name).run project).run cache).1 =
      match if scope.module.binds name then none else builtinCalls.lookup name with
      | some type => .builtin type
      | none =>
        match (((symbol scope.module name).run project).run cache).1 with
        | some x => (((symbolCall x).run project).run
            (((symbol scope.module name).run project).run cache).2).1
        | none => .unknown := by
  unfold nameCall
  generalize (if scope.module.binds name then none else builtinCalls.lookup name) = known
  cases known with
  | some type => rfl
  | none =>
      dsimp only
      rw [run_bind]
      generalize ((symbol scope.module name).run project).run cache = answer
      obtain ⟨_ | x, cache⟩ := answer <;> rfl

theorem nameCall_iff (hty : ty ≠ .unknown) (scope : Scope) (nameSpan : Span) (args : List Expr)
    (keywords : List (String × Expr)) (span : Span) :
    (((nameCall scope name).run project).run cache).1 = ty ↔
      CalledAtTop project cache scope.module name
        (.call (.name name nameSpan) args keywords span) ty := by
  rw [run_nameCall]
  constructor
  · intro h
    split at h
    · rename_i type htype
      by_cases hbound : scope.module.binds name = true
      · rw [if_pos hbound] at htype
        exact absurd htype (by simp)
      · rw [if_neg hbound] at htype
        rw [← h]
        exact .builtin type nameSpan args keywords span (by simpa using hbound) htype
    · split at h
      · rename_i x hx
        exact .symbol x ty nameSpan args keywords span (symbol_eq_some_iff.mp hx) h
      · exact absurd h.symm hty
  · intro h
    cases h with
    | builtin type _ _ _ _ hfree htype => simp [hfree, htype]
    | symbol x _ _ _ _ _ hlast hcall =>
        rw [if_pos (binds_of_lastBinding hlast)]
        dsimp only
        rw [symbol_eq_some_iff.mpr hlast]
        exact hcall

/-- What a receiver other than that of a method means decides how to go on. -/
theorem run_memberCall (hself : name ≠ "self") (hcls : name ≠ "cls") (scope : Scope)
    (attr : String) (project : Project) (cache : Cache) :
    (((memberCall scope name attr).run project).run cache).1 =
      match (((symbol scope.module name).run project).run cache).1 with
      | some (.module dotted) =>
        match (((symbolIn dotted attr).run project).run
            (((symbol scope.module name).run project).run cache).2).1 with
        | some x => (((symbolCall x).run project).run (((symbolIn dotted attr).run project).run
            (((symbol scope.module name).run project).run cache).2).2).1
        | none => .unknown
      | some (.class _ className path) =>
        (((methodCall path className attr).run project).run
          (((symbol scope.module name).run project).run cache).2).1
      | _ => .unknown := by
  unfold memberCall
  rw [if_neg (by simp [hself, hcls]), run_bind]
  generalize ((symbol scope.module name).run project).run cache = answer
  obtain ⟨_ | x, cache⟩ := answer
  · rfl
  · cases x with
    | module dotted =>
        dsimp only
        rw [run_bind]
        generalize ((symbolIn dotted attr).run project).run cache = found
        obtain ⟨_ | x, cache⟩ := found <;> rfl
    | _ => rfl

theorem memberCall_iff (hty : ty ≠ .unknown) (hself : name ≠ "self") (hcls : name ≠ "cls")
    (scope : Scope) (nameSpan : Span) (attr : String) (attrSpan : Span) (args : List Expr)
    (keywords : List (String × Expr)) (span : Span) :
    (((memberCall scope name attr).run project).run cache).1 = ty ↔
      CalledAtTop project cache scope.module name
        (.call (.member (.name name nameSpan) attr attrSpan) args keywords span) ty := by
  rw [run_memberCall hself hcls]
  constructor
  · intro h
    split at h
    · rename_i dotted hdotted
      split at h
      · rename_i x hx
        exact .ofModule dotted x ty nameSpan attr attrSpan args keywords span
          (symbol_eq_some_iff.mp hdotted) hx h
      · exact absurd h.symm hty
    · rename_i module className path hclass
      exact .ofClass module className path ty nameSpan attr attrSpan args keywords span
        (symbol_eq_some_iff.mp hclass) h
    · exact absurd h.symm hty
  · intro h
    cases h with
    | ofModule dotted x _ _ _ _ _ _ _ hlast hattr hcall =>
        rw [symbol_eq_some_iff.mpr hlast]
        dsimp only
        rw [hattr]
        exact hcall
    | ofClass module className path _ _ _ _ _ _ _ hlast hcall =>
        rw [symbol_eq_some_iff.mpr hlast]
        exact hcall

/-- The function around a call has no say in its type. -/
theorem inferType_call_iff (hty : ty ≠ .unknown) {e : Expr} (he : CallsThrough name e)
    (scope : Scope) :
    (((inferType scope e).run project).run cache).1 = ty ↔
      CalledAtTop project cache scope.module name e ty := by
  cases he with
  | bare nameSpan args keywords span => exact nameCall_iff hty scope nameSpan args keywords span
  | member hself hcls nameSpan attr attrSpan args keywords span =>
      exact memberCall_iff hty hself hcls scope nameSpan attr attrSpan args keywords span

/-! ### Bare names -/

section

variable {α : Type} {infer : α → Query InferredType}

/-- The types of several items, asked one after the other. -/
def typesOf (infer : α → Query InferredType) (project : Project) (cache : Cache)
    (items : List α) : List InferredType :=
  (((items.mapM infer).run project).run cache).1

theorem typesOf_cons (a : α) (rest : List α) :
    typesOf infer project cache (a :: rest) =
      (((infer a).run project).run cache).1 ::
        typesOf infer project (((infer a).run project).run cache).2 rest := by
  unfold typesOf
  rw [List.mapM_cons]
  rfl

/-- What the types of all bindings of a name come to: they are the same, at least up to the first
one that may be anything. -/
inductive Agree : List InferredType → InferredType → Prop where
  | one (t : TypeRef) : Agree [.known t] (.known t)
  | anything (rest : List InferredType) : Agree (.dynamic :: rest) .dynamic
  | orAnything (t : TypeRef) (rest : List InferredType) :
      Agree (.known t :: .dynamic :: rest) .dynamic
  | same (t : TypeRef) (rest : List InferredType) (ty : InferredType)
      (h : Agree (.known t :: rest) ty) : Agree (.known t :: .known t :: rest) ty

/-- Bindings give a name a known type if each of them does. -/
theorem agree_known_iff {t : TypeRef} {types : List InferredType} :
    Agree types (.known t) ↔ types ≠ [] ∧ ∀ u ∈ types, u = .known t := by
  constructor
  · intro h
    generalize hty : InferredType.known t = ty at h
    induction h with
    | one u => simp
    | anything rest => exact absurd hty (by simp)
    | orAnything u rest => exact absurd hty (by simp)
    | same u rest ty h ih =>
        obtain ⟨-, hall⟩ := ih hty
        exact ⟨by simp, by simpa using hall⟩
  · rintro ⟨hne, hall⟩
    induction types with
    | nil => exact absurd rfl hne
    | cons u rest ih =>
        obtain rfl : u = .known t := hall u (by simp)
        cases rest with
        | nil => exact .one t
        | cons v rest =>
            obtain rfl : v = .known t := hall v (by simp)
            exact .same t rest _ (ih (by simp) fun w hw => hall w (List.mem_cons_of_mem _ hw))

/-- The first item decides how to go on. -/
theorem run_agreed_cons (type : Option TypeRef) (a : α) (rest : List α) (project : Project)
    (cache : Cache) :
    (((agreed infer type (a :: rest)).run project).run cache).1 =
      match (((infer a).run project).run cache).1 with
      | .unknown => .unknown
      | .dynamic => .dynamic
      | .known t =>
        if type.all (· == t) then
          (((agreed infer (some t) rest).run project).run
            (((infer a).run project).run cache).2).1
        else .unknown := by
  rw [agreed, run_bind]
  generalize ((infer a).run project).run cache = answer
  obtain ⟨t | _ | _, cache⟩ := answer
  · cases type with
    | none => rfl
    | some u =>
        by_cases hu : u = t
        · simp [hu]
        · simp [hu]
          rfl
  · rfl
  · rfl

/-- Two types agree if they are the same, or if the second may be anything. -/
theorem agree_cons_cons_iff {t : TypeRef} {u : InferredType} {rest : List InferredType} :
    Agree (.known t :: u :: rest) ty ↔
      u = .dynamic ∧ ty = .dynamic ∨ u = .known t ∧ Agree (.known t :: rest) ty := by
  constructor
  · intro h
    cases h with
    | orAnything _ _ => exact Or.inl ⟨rfl, rfl⟩
    | same _ _ _ h => exact Or.inr ⟨rfl, h⟩
  · rintro (⟨rfl, rfl⟩ | ⟨rfl, h⟩)
    · exact .orAnything t rest
    · exact .same t rest ty h

theorem agreed_some_iff (t : TypeRef) (hty : ty ≠ .unknown) (items : List α) :
    (((agreed infer (some t) items).run project).run cache).1 = ty ↔
      Agree (.known t :: typesOf infer project cache items) ty := by
  induction items generalizing cache with
  | nil =>
      show .known t = ty ↔ Agree [.known t] ty
      constructor
      · rintro rfl
        exact .one t
      · intro h
        cases h
        rfl
  | cons a rest ih =>
      rw [run_agreed_cons, typesOf_cons, agree_cons_cons_iff]
      cases (((infer a).run project).run cache).1 with
      | unknown => simp [hty.symm]
      | dynamic => simp [eq_comm]
      | known u =>
          by_cases hu : t = u
          · subst hu
            simpa using ih
          · simp [hu, Ne.symm hu, hty.symm]

/-- **A name has the type on which all its bindings agree.** -/
theorem agreed_iff (hty : ty ≠ .unknown) (items : List α) :
    (((agreed infer none items).run project).run cache).1 = ty ↔
      Agree (typesOf infer project cache items) ty := by
  cases items with
  | nil =>
      refine ⟨fun h => absurd h.symm hty, fun h => ?_⟩
      cases h
  | cons a rest =>
      rw [run_agreed_cons, typesOf_cons]
      cases (((infer a).run project).run cache).1 with
      | unknown =>
          refine ⟨fun h => absurd h.symm hty, fun h => ?_⟩
          cases h
      | dynamic =>
          constructor
          · rintro rfl
            exact .anything _
          · intro h
            cases h
            rfl
      | known t => exact agreed_some_iff t hty rest

end

/-- The type that all assignments to a name in `m` agree on. -/
def AssignedType (project : Project) (cache : Cache) (scope : Scope)
    (assigns : Option (List Assign)) (ty : InferredType) : Prop :=
  ∃ all, assigns = some all ∧
    Agree (typesOf (assignmentType (exprType scope maxHops) scope.module) project cache all) ty

theorem assignedType_iff (hty : ty ≠ .unknown) (scope : Scope) (assigns : Option (List Assign)) :
    ((((match assigns with
      | some all => agreed (assignmentType (exprType scope maxHops) scope.module) none all
      | none => pure .unknown : Query InferredType).run project).run cache).1 = ty ↔
      AssignedType project cache scope assigns ty) := by
  cases assigns with
  | none =>
      refine ⟨fun h => absurd h.symm hty, ?_⟩
      rintro ⟨all, h, -⟩
      exact absurd h (by simp)
  | some all =>
      rw [agreed_iff hty]
      constructor
      · intro h
        exact ⟨all, rfl, h⟩
      · rintro ⟨all', hall, h⟩
        obtain rfl := Option.some.inj hall
        exact h

/-- The type that the own bindings of a function give to a name. -/
inductive BoundInside (project : Project) (cache : Cache) (m : Module) (f : FunctionDef)
    (name : String) (ty : InferredType) : Prop where
  | param (p : Param) (hint : TypeHint) (hp : f.param? name = some p) (hhint : p.hint = some hint)
      (h : (((resolveHint m hint.text).run project).run cache).1 = ty)
  | assigned (hfree : f.param? name = none)
      (h : AssignedType project cache (.ofFunction m f) (f.localAssignments name) ty)

/-- A bare name in a function has the type that the function itself gives it. -/
theorem inferType_name_iff (hty : ty ≠ .unknown) (f : FunctionDef) (span : Span) :
    (((inferType (.ofFunction m f) (.name name span)).run project).run cache).1 = ty ↔
      BoundInside project cache m f name ty := by
  show (((nameType (exprType (.ofFunction m f) maxHops) (.ofFunction m f) name).run project).run
    cache).1 = ty ↔ _
  unfold nameType
  cases hp : f.param? name with
  | some p =>
      have hfind : (Scope.ofFunction m f).function.bind (·.param? name) = some p := hp
      rw [hfind]
      dsimp only
      cases hhint : p.hint with
      | none =>
          refine ⟨fun h => absurd h.symm hty, ?_⟩
          rintro (⟨p', hint, hp', hhint', -⟩ | ⟨hfree, -⟩)
          · obtain rfl := Option.some.inj (hp.symm.trans hp')
            exact absurd (hhint.symm.trans hhint') (by simp)
          · exact absurd (hp.symm.trans hfree) (by simp)
      | some hint =>
          constructor
          · exact .param p hint hp hhint
          · rintro (⟨p', hint', hp', hhint', h⟩ | ⟨hfree, -⟩)
            · obtain rfl := Option.some.inj (hp.symm.trans hp')
              obtain rfl := Option.some.inj (hhint.symm.trans hhint')
              exact h
            · exact absurd (hp.symm.trans hfree) (by simp)
  | none =>
      have hfind : (Scope.ofFunction m f).function.bind (·.param? name) = none := hp
      rw [hfind]
      refine (assignedType_iff hty (.ofFunction m f) (f.localAssignments name)).trans ?_
      constructor
      · exact .assigned hp
      · rintro (⟨p', hint, hp', -, -⟩ | ⟨-, h⟩)
        · exact absurd (hp.symm.trans hp') (by simp)
        · exact h

/-- The receiver of a method stands for the class around the function. -/
theorem inferType_receiver_iff (hty : ty ≠ .unknown) (hname : name = "self" ∨ name = "cls")
    (f : FunctionDef) (nameSpan : Span) (attr : String) (attrSpan : Span) (args : List Expr)
    (keywords : List (String × Expr)) (span : Span) :
    (((inferType (.ofFunction m f)
      (.call (.member (.name name nameSpan) attr attrSpan) args keywords span)).run project).run
        cache).1 = ty ↔
      ∃ c g, m.enclosingClass? f = some c ∧ c.method? attr = some g ∧
        (((declaredReturn m.path g.qualname).run project).run cache).1 = ty := by
  have howner : (Scope.ofFunction m f).owner.bind (·.method? attr) =
      (m.enclosingClass? f).bind (·.method? attr) := rfl
  show (((memberCall (.ofFunction m f) name attr).run project).run cache).1 = ty ↔ _
  unfold memberCall
  rw [if_pos hname, howner]
  cases hc : m.enclosingClass? f with
  | none =>
      refine ⟨fun h => absurd h.symm hty, ?_⟩
      rintro ⟨c, g, h, -, -⟩
      exact absurd h (by simp)
  | some c =>
      cases hg : c.method? attr with
      | none =>
          rw [Option.bind_some, hg]
          refine ⟨fun h => absurd h.symm hty, ?_⟩
          rintro ⟨c', g, hc', hg', -⟩
          obtain rfl := Option.some.inj hc'
          exact absurd (hg.symm.trans hg') (by simp)
      | some g =>
          rw [Option.bind_some, hg]
          constructor
          · intro h
            exact ⟨c, g, rfl, hg, h⟩
          · rintro ⟨c', g', hc', hg', h⟩
            obtain rfl := Option.some.inj hc'
            obtain rfl := Option.some.inj (hg.symm.trans hg')
            exact h

/-- **Calls and defaults are read at the top level**, whatever the scopes around them bind.  Let
`name` be a name that a function may bind itself.  The type of a call through it in that function is
what the name means at the top level of the module, only `self` and `cls` stand for the class around
the function.  The type of a parameter whose default is the name is what the top-level assignments to
it agree on, wherever the definition stands.  Of the uses of a name only the bare name has the type
that the bindings of the function itself give it. -/
theorem inner_names_read_at_top (project : Project) (cache : Cache) (m : Module) (name : String)
    (ty : InferredType) (hty : ty ≠ .unknown) :
    (∀ f e, CallsThrough name e →
      ((((inferType (.ofFunction m f) e).run project).run cache).1 = ty ↔
        CalledAtTop project cache m name e ty)) ∧
    (∀ f nameSpan attr attrSpan args keywords span, name = "self" ∨ name = "cls" →
      ((((inferType (.ofFunction m f)
          (.call (.member (.name name nameSpan) attr attrSpan) args keywords span)).run
            project).run cache).1 = ty ↔
        ∃ c g, m.enclosingClass? f = some c ∧ c.method? attr = some g ∧
          (((declaredReturn m.path g.qualname).run project).run cache).1 = ty)) ∧
    (∀ p span, p.default = some (.name name span) →
      ((((ParameterHint.defaultType m p).run project).run cache).1 = ty ↔
        AssignedType project cache { module := m } (m.globalAssignments name) ty)) ∧
    ∀ f span, (((inferType (.ofFunction m f) (.name name span)).run project).run cache).1 = ty ↔
      BoundInside project cache m f name ty := by
  refine ⟨?_, ?_, ?_, ?_⟩
  · intro f e he
    exact inferType_call_iff hty he (.ofFunction m f)
  · intro f nameSpan attr attrSpan args keywords span hname
    exact inferType_receiver_iff hty hname f nameSpan attr attrSpan args keywords span
  · intro p span hdefault
    unfold ParameterHint.defaultType
    rw [hdefault]
    exact assignedType_iff hty { module := m } (m.globalAssignments name)
  · intro f span
    exact inferType_name_iff hty f span

/-- A function that binds the name of a built-in function and that of a variable, and uses them. -/
def shadowing : String :=
  "x = 1\n\n\ndef f(len, x):\n    def g(y=x):\n        return y\n\n    return len([])\n"

def shadowingModule : Module := (Module.parse shadowing "app.py" "app").toOption.getD default

def shadowingFunction (qualname : String) : FunctionDef :=
  (shadowingModule.findFunction? qualname).getD default

def shadowingParam : Param := ((shadowingFunction "f.g").param? "y").getD default

/-- Is the expression this name? -/
def isNamed (name : String) : Option Expr → Bool
  | some (.name n _) => n == name
  | _ => false

theorem exists_of_isNamed {name : String} {e : Option Expr} (h : isNamed name e = true) :
    ∃ span, e = some (.name name span) := by
  unfold isNamed at h
  split at h
  · rename_i n span
    exact ⟨span, by rw [eq_of_beq h]⟩
  · exact absurd h (by simp)

/-- A call of the parameter `len` has the type of the built-in function, and the parameter whose
default is the parameter `x` has that of the variable. -/
theorem shadowing_names_read_at_top :
    ((shadowingFunction "f").param? "len").isSome = true ∧
    CalledAtTop { root := "/p" } {} shadowingModule "len"
      (.call (.name "len" {}) [.collection .list [] {}] [] {}) (.builtin "int") ∧
    ((shadowingFunction "f").param? "x").isSome = true ∧
    (∃ span, shadowingParam.default = some (.name "x" span)) ∧
    AssignedType { root := "/p" } {} { module := shadowingModule }
      (shadowingModule.globalAssignments "x") (.builtin "int") := by
  have hint : InferredType.builtin "int" ≠ .unknown := by decide
  -- one evaluation for all, so that the module is parsed once
  obtain ⟨hlen, hx, hdefault, hcall, htype⟩ :
      ((shadowingFunction "f").param? "len").isSome = true ∧
      ((shadowingFunction "f").param? "x").isSome = true ∧
      isNamed "x" shadowingParam.default = true ∧
      (((inferType (.ofFunction shadowingModule (shadowingFunction "f"))
        (.call (.name "len" {}) [.collection .list [] {}] [] {})).run { root := "/p" }).run {}).1 =
          .builtin "int" ∧
      (((ParameterHint.defaultType shadowingModule shadowingParam).run { root := "/p" }).run {}).1 =
        .builtin "int" := by
    decide +kernel
  obtain ⟨span, hspan⟩ := exists_of_isNamed hdefault
  refine ⟨hlen, ?_, hx, ⟨span, hspan⟩, ?_⟩
  · exact ((inner_names_read_at_top { root := "/p" } {} shadowingModule "len" (.builtin "int")
      hint).1 (shadowingFunction "f") _ (.bare {} _ _ {})).mp hcall
  · exact ((inner_names_read_at_top { root := "/p" } {} shadowingModule "x" (.builtin "int")
      hint).2.2.1 shadowingParam span hspan).mp htype

end Plumbline.Query
