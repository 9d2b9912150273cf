/-
A name means what the last statement that binds it says.

A lookup goes through the top-level statements of a module and starts anew at each one that binds
the name.  So of all those statements only the last one counts (`symbol_eq_some_iff`): an import
above a class of the same name is as good as absent.  What an import says can depend on what earlier
imports have made the project remember, hence the statements before the last one still stand in
`LastBinding`.

From this it follows when an annotation denotes a built-in type (`resolveHint_eq_builtin_iff`) and
when a class (`resolveHint_eq_class_iff`).
-/
import Plumbline.Proofs.Analysis.Builtin
import Plumbline.Proofs.Text.Slice

namespace Plumbline

/-! ### The last binding of a name -/

/-- In a list nothing is as `p` says, or there is a last thing that is. -/
theorem exists_last {α : Type} (p : α → Bool) (items : List α) :
    (∀ a ∈ items, p a = false) ∨
      ∃ before a after, items = before ++ a :: after ∧ p a = true ∧
        ∀ a' ∈ after, p a' = false := by
  induction items with
  | nil => exact Or.inl (by simp)
  | cons a rest ih =>
      rcases ih with hnone | ⟨before, a', after, rfl, ha', hafter⟩
      · cases ha : p a with
        | true => exact Or.inr ⟨[], a, rest, rfl, ha, hnone⟩
        | false => exact Or.inl (List.forall_mem_cons.mpr ⟨ha, hnone⟩)
      · exact Or.inr ⟨a :: before, a', after, rfl, ha', hafter⟩

/-- Does a top-level statement decide what `name` means? -/
def Stmt.decides (name : String) : Stmt → Bool
  | .classDef h _ => h.name == name
  | .functionDef h _ => h.name == name
  | .importing i => i.binds name
  | _ => false

namespace Query

section

variable {lookIn : String → String → Query (Option Symbol)} {m : Module} {name : String}

theorem bindingStep_of_not_decides {s : Stmt} (h : s.decides name = false) (found : Option Symbol) :
    bindingStep lookIn m name found s = pure found := by
  cases s with
  | classDef head body =>
      have hne : head.name ≠ name := by simpa [Stmt.decides] using h
      simp [bindingStep, hne]
  | functionDef head body =>
      have hne : head.name ≠ name := by simpa [Stmt.decides] using h
      simp [bindingStep, hne]
  | importing i =>
      unfold bindingStep
      by_cases hwild : i.wildcard = true
      · simp [hwild]
      · have hnames : i.names.filter (·.boundName == name) = [] := by
          have : i.names.any (·.boundName == name) = false := by
            simpa [Stmt.decides, Import.binds, hwild] using h
          simpa using this
        simp [hwild, hnames]
  | _ => rfl

/-- A statement that decides does not look at what was found before. -/
theorem bindingStep_of_decides {s : Stmt} (h : s.decides name = true) (found : Option Symbol) :
    bindingStep lookIn m name found s = bindingStep lookIn m name none s := by
  cases s with
  | classDef head body =>
      have heq : head.name = name := by simpa [Stmt.decides] using h
      simp [bindingStep, heq]
  | functionDef head body =>
      have heq : head.name = name := by simpa [Stmt.decides] using h
      simp [bindingStep, heq]
  | importing i =>
      unfold bindingStep
      have hbinds : i.wildcard = false ∧ i.names.any (·.boundName == name) = true := by
        simpa [Stmt.decides, Import.binds] using h
      cases hnames : i.names.filter (·.boundName == name) with
      | nil =>
          have : i.names.any (·.boundName == name) = false := by simpa using hnames
          exact absurd (this.symm.trans hbinds.2) (by simp)
      | cons n rest => simp [hbinds.1, hnames]
  | _ => exact absurd h (by simp [Stmt.decides])

theorem foldlM_bindingStep_of_not_decides {after : List Stmt}
    (h : ∀ s ∈ after, s.decides name = false) (found : Option Symbol) :
    after.foldlM (bindingStep lookIn m name) found = pure found := by
  induction after generalizing found with
  | nil => rfl
  | cons s rest ih =>
      rw [List.foldlM_cons, bindingStep_of_not_decides (h s (by simp)), pure_bind]
      exact ih (fun s' hs' => h s' (List.mem_cons_of_mem s hs')) found

end

/-- The last top-level statement of `m` that decides what `name` means says that it means `x`. -/
def LastBinding (project : Project) (cache : Cache) (m : Module) (name : String) (x : Symbol) :
    Prop :=
  ∃ before s after, m.body = before ++ s :: after ∧ s.decides name = true ∧
    (∀ s' ∈ after, s'.decides name = false) ∧
    (((bindingStep symbolIn m name none s).run project).run
      (((before.foldlM (bindingStep symbolIn m name) none).run project).run cache).2).1 = some x

/-- A lookup follows imports as `symbolIn` does. -/
theorem symbol_eq_foldlM (m : Module) (name : String) :
    symbol m name = m.body.foldlM (bindingStep symbolIn m name) none := rfl

/-- What a lookup gives, if the last statement that decides is `s`. -/
theorem symbol_of_split {m : Module} {name : String} {before after : List Stmt} {s : Stmt}
    (hsplit : m.body = before ++ s :: after) (hs : s.decides name = true)
    (hafter : ∀ s' ∈ after, s'.decides name = false) (project : Project) (cache : Cache) :
    (((symbol m name).run project).run cache).1 =
      (((bindingStep symbolIn m name none s).run project).run
        (((before.foldlM (bindingStep symbolIn m name) none).run project).run cache).2).1 := by
  have hfold : symbol m name = (do
      let _ ← before.foldlM (bindingStep symbolIn m name) none
      bindingStep symbolIn m name none s) := by
    rw [symbol_eq_foldlM, hsplit, List.foldlM_append]
    congr 1
    funext found
    rw [List.foldlM_cons, bindingStep_of_decides hs]
    have : ∀ x : Option Symbol, after.foldlM (bindingStep symbolIn m name) x = pure x :=
      foldlM_bindingStep_of_not_decides hafter
    simp [this]
  rw [hfold]
  rfl

/-- **Only the last statement that binds a name counts.** -/
theorem symbol_eq_some_iff {project : Project} {cache : Cache} {m : Module} {name : String}
    {x : Symbol} :
    (((symbol m name).run project).run cache).1 = some x ↔ LastBinding project cache m name x := by
  constructor
  · intro h
    rcases exists_last (Stmt.decides name) m.body with
      hnone | ⟨before, s, after, hsplit, hs, hafter⟩
    · rw [symbol_eq_foldlM, foldlM_bindingStep_of_not_decides hnone] at h
      exact absurd h (by simp)
    · rw [symbol_of_split hsplit hs hafter] at h
      exact ⟨before, s, after, hsplit, hs, hafter, h⟩
  · rintro ⟨before, s, after, hsplit, hs, hafter, h⟩
    rw [symbol_of_split hsplit hs hafter]
    exact h

/-- A class of another module can be used by its name if the name is bound to it. -/
theorem isReachable_iff {m : Module} {name module : String} (hmodule : module ≠ m.name)
    {project : Project} {cache : Cache} :
    (((isReachable m { name, module := some module }).run project).run cache).1 = true ↔
      ∃ path, LastBinding project cache m name (.class module name path) := by
  simp only [← symbol_eq_some_iff]
  unfold isReachable
  dsimp only
  rw [if_neg hmodule, run_bind]
  generalize ((symbol m name).run project).run cache = answer
  obtain ⟨_ | found, cache⟩ := answer
  · dsimp only
    rw [run_pure]
    simp
  · cases found with
    | «class» module' name' path =>
        dsimp only
        rw [run_pure]
        simp
    | _ =>
        dsimp only
        rw [run_pure]
        simp

/-! ### Dotted names -/

/-- What a text means as a name: without a dot it is a name of `m`, else what stands before the last
dot is a module and what follows is a name of that. -/
inductive Denotes (project : Project) (cache : Cache) (m : Module) (text : List Char)
    (x : Symbol) : Prop where
  | name (hdots : '.' ∉ text) (hlast : LastBinding project cache m (String.ofList text) x)
  | member (receiver attr : List Char) (dotted : String) (hdots : '.' ∉ attr)
      (hsplit : text = receiver ++ '.' :: attr)
      (hlast : LastBinding project cache m (String.ofList receiver) (.module dotted))
      (hattr : (((symbolIn dotted (String.ofList attr)).run project).run
        (((symbol m (String.ofList receiver)).run project).run cache).2).1 = some x)

theorem dottedSymbol_of_not_mem {m : Module} {text : List Char} (h : '.' ∉ text) :
    dottedSymbol m (String.ofList text) = symbol m (String.ofList text) := by
  unfold dottedSymbol
  rw [String.toList_ofList, Text.cutLast?_of_not_mem h]

/-- What the text before the last dot means decides how to go on. -/
theorem dottedSymbol_append {m : Module} {receiver attr : List Char} (h : '.' ∉ attr)
    (project : Project) (cache : Cache) :
    (((dottedSymbol m (String.ofList (receiver ++ '.' :: attr))).run project).run cache).1 =
      match (((symbol m (String.ofList receiver)).run project).run cache).1 with
      | some (.module dotted) =>
          (((symbolIn dotted (String.ofList attr)).run project).run
            (((symbol m (String.ofList receiver)).run project).run cache).2).1
      | _ => none := by
  unfold dottedSymbol
  rw [String.toList_ofList, Text.cutLast?_append_cons h]
  dsimp only
  rw [run_bind]
  generalize ((symbol m (String.ofList receiver)).run project).run cache = answer
  obtain ⟨_ | found, cache⟩ := answer
  · rfl
  · cases found <;> rfl

/-- **A text is looked up to what it denotes.** -/
theorem dottedSymbol_eq_some_iff {project : Project} {cache : Cache} {m : Module}
    {text : List Char} {x : Symbol} :
    (((dottedSymbol m (String.ofList text)).run project).run cache).1 = some x ↔
      Denotes project cache m text x := by
  by_cases hdots : '.' ∈ text
  · obtain ⟨receiver, attr, rfl, hattr⟩ := Text.exists_last_of_mem hdots
    rw [dottedSymbol_append hattr]
    constructor
    · intro h
      split at h
      · rename_i dotted hfound
        exact .member receiver attr dotted hattr rfl (symbol_eq_some_iff.mp hfound) h
      · exact absurd h (by simp)
    · rintro (⟨hno, -⟩ | ⟨receiver', attr', dotted, hattr', hsplit, hlast, hmeans⟩)
      · exact absurd hdots hno
      · obtain ⟨rfl, rfl⟩ := Text.append_cons_inj hattr hattr' hsplit
        rw [symbol_eq_some_iff.mpr hlast]
        exact hmeans
  · rw [dottedSymbol_of_not_mem hdots, symbol_eq_some_iff]
    constructor
    · exact Denotes.name hdots
    · rintro (⟨-, hlast⟩ | ⟨receiver, attr, dotted, -, rfl, -, -⟩)
      · exact hlast
      · exact absurd (by simp) hdots

/-! ### Annotations -/

/-- Annotations look such a text up: it is no built-in type and has no parts. -/
structure IsLookedUp (text : List Char) : Prop where
  notAny : (hintTokens text).any isAnyMarker = false
  notBuiltin : String.ofList text ∉ builtinTypes
  noBracket : '[' ∉ text
  noBar : '|' ∉ text

/-- The text of an annotation says that the type is `t`. -/
def SaysType (project : Project) (cache : Cache) (m : Module) (text : List Char) (t : TypeRef) :
    Prop :=
  match t.module with
  | none => text = t.name.toList
  | some module =>
      IsLookedUp text ∧ ∃ path, Denotes project cache m text (.class module t.name path)

variable {project : Project} {cache : Cache} {m : Module}

/-- The answer for an annotation without a meaning of its own. -/
theorem resolveHint_of_isLookedUp {hint : String} (h : IsLookedUp (hintText hint)) :
    (((resolveHint m hint).run project).run cache).1 =
      match (((dottedSymbol m (String.ofList (hintText hint))).run project).run cache).1 with
      | some (.class module name _) => .known { name, module := some module }
      | _ => .unknown := by
  unfold resolveHint
  dsimp only
  rw [if_neg (by simp [h.notAny]), if_neg (by simpa using h.notBuiltin),
    if_neg (by simp [h.noBracket, h.noBar]), run_bind]
  generalize ((dottedSymbol m _).run project).run cache = answer
  obtain ⟨_ | found, cache⟩ := answer
  · rfl
  · cases found <;> rfl

/-- An annotation with a meaning of its own is not looked up. -/
theorem resolveHint_of_not_isLookedUp {hint : String} (h : ¬ IsLookedUp (hintText hint))
    {t : TypeRef} (ht : (((resolveHint m hint).run project).run cache).1 = .known t) :
    t = { name := String.ofList (hintText hint) } := by
  unfold resolveHint at ht
  dsimp only at ht
  split at ht
  · exact absurd ht (by simp)
  · rename_i hany
    split at ht
    · exact (InferredType.known.inj ht).symm
    · rename_i hbuiltin
      split at ht
      · rw [run_pure] at ht
        rcases compositeType_eq (hintText hint) with hwhole | hunknown
        · rw [hwhole] at ht
          exact (InferredType.known.inj ht).symm
        · rw [hunknown] at ht
          exact absurd ht (by simp)
      · rename_i hparts
        have hnone : '[' ∉ hintText hint ∧ '|' ∉ hintText hint := by simpa using hparts
        exact absurd ⟨by simpa using hany, by simpa using hbuiltin, hnone.1, hnone.2⟩ h

/-- **An annotation denotes a built-in type** if it is that type's name. -/
theorem resolveHint_eq_builtin_iff {hint name : String} (hname : IsAnnotation name) :
    (((resolveHint m hint).run project).run cache).1 = .builtin name ↔
      hintText hint = name.toList := by
  constructor
  · intro h
    by_cases hlooked : IsLookedUp (hintText hint)
    · rw [resolveHint_of_isLookedUp hlooked] at h
      split at h
      · exact absurd h (by simp [InferredType.builtin])
      · exact absurd h (by simp [InferredType.builtin])
    · have hwhole : ({ name } : TypeRef) = { name := String.ofList (hintText hint) } :=
        resolveHint_of_not_isLookedUp hlooked h
      rw [(TypeRef.mk.inj hwhole).1, String.toList_ofList]
  · intro h
    have hself : String.ofList (hintText hint) = name := by rw [h, String.ofList_toList]
    unfold resolveHint
    dsimp only
    rw [hself, h, if_neg (by simp [hname.notAny])]
    by_cases hbuiltin : name ∈ builtinTypes
    · rw [if_pos (by simpa using hbuiltin)]
      rfl
    · obtain ⟨hparts, hwhole⟩ := hname.known.resolve_left hbuiltin
      rw [if_neg (by simpa using hbuiltin), if_pos (by simpa using hparts), hwhole]
      rfl

/-- **An annotation denotes a class** if it is looked up and means that class. -/
theorem resolveHint_eq_class_iff {hint name module : String} :
    (((resolveHint m hint).run project).run cache).1 = .known { name, module := some module } ↔
      IsLookedUp (hintText hint) ∧
        ∃ path, Denotes project cache m (hintText hint) (.class module name path) := by
  by_cases hlooked : IsLookedUp (hintText hint)
  · rw [resolveHint_of_isLookedUp hlooked]
    constructor
    · intro h
      split at h
      · rename_i path hfound
        obtain ⟨rfl, rfl⟩ : _ ∧ _ := by simpa using h
        exact ⟨hlooked, path, dottedSymbol_eq_some_iff.mp hfound⟩
      · exact absurd h (by simp)
    · rintro ⟨-, path, hdenotes⟩
      rw [dottedSymbol_eq_some_iff.mpr hdenotes]
  · constructor
    · intro h
      have := congrArg TypeRef.module (resolveHint_of_not_isLookedUp hlooked h)
      exact absurd this (by simp)
    · exact fun h => absurd h.1 hlooked

end Query

end Plumbline
