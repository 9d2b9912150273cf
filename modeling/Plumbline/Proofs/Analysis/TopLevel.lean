/-
Rebinding at the top level.

A class, a function, an import and an assignment all bind names, and the last of them is what counts
for whoever reads the module.  A lookup follows that for three of the four: it gives the class, the
function, or what the import resolves to.  It passes over assignments, however late they stand, so
that a name keeps the meaning it had before one.

`Query.Means` is this reading of a module, stated without the walk through its statements, and
`lookup_eq_iff_means` says that a lookup answers by it.
-/
import Plumbline.Proofs.Analysis.Binding

namespace Plumbline

/-- Does a statement bind `name`, if it stands at the top level? -/
def Stmt.binds (name : String) : Stmt → Bool
  | .classDef h _ => h.name == name
  | .functionDef h _ => h.name == name
  | .importing i => i.binds name
  | .assign a => a.targets.contains name
  | _ => false

theorem Stmt.decides_of_not_binds {name : String} {s : Stmt} (h : s.binds name = false) :
    s.decides name = false := by
  cases s with
  | classDef head body => exact h
  | functionDef head body => exact h
  | importing i => exact h
  | _ => rfl

namespace Module

/-- A module binds the names that its statements bind. -/
theorem binds_eq_any (m : Module) (name : String) : m.binds name = m.body.any (·.binds name) := rfl

/-- The module with another body. -/
def withBody (m : Module) (body : List Stmt) : Module := { m with body }

/-- `s` is the last top-level statement of `m` that binds `name`, and `before` stands before it. -/
def LastBinds (m : Module) (name : String) (before : List Stmt) (s : Stmt) : Prop :=
  s.binds name = true ∧
    ∃ after, m.body = before ++ s :: after ∧ ∀ s' ∈ after, s'.binds name = false

/-- A name that is bound at all is bound by a last statement. -/
theorem exists_lastBinds {m : Module} {name : String} (h : m.binds name = true) :
    ∃ before s, m.LastBinds name before s := by
  rw [binds_eq_any] at h
  rcases exists_last (Stmt.binds name) m.body with hnone | ⟨before, s, after, hsplit, hs, hafter⟩
  · obtain ⟨s, hs, hbinds⟩ := List.any_eq_true.mp h
    rw [hnone s hs] at hbinds
    cases hbinds
  · exact ⟨before, s, hs, after, hsplit, hafter⟩

theorem LastBinds.length_lt {m : Module} {name : String} {before : List Stmt} {s : Stmt}
    (h : m.LastBinds name before s) : before.length < m.body.length := by
  obtain ⟨-, after, hsplit, -⟩ := h
  rw [hsplit, List.length_append, List.length_cons]
  omega

end Module

namespace Query

/-- Looks up a name in the module called `dotted`, if at most `hops` more imports are followed. -/
def lookupIn (hops : Nat) (dotted name : String) : Query (Option Symbol) := do
  match (← read).moduleFile? dotted with
  | none => pure none
  | some path =>
    match ← parse path with
    | .ok m => lookup hops m name
    | .error _ => pure none

theorem lookup_succ (hops : Nat) (m : Module) (name : String) :
    lookup (hops + 1) m name = m.body.foldlM (bindingStep (lookupIn hops) m name) none := rfl

/-- The name of a module in a package. -/
def memberName (source name : String) : String :=
  if source.isEmpty then name else source ++ "." ++ name

variable {project : Project} {cache : Cache} {hops : Nat} {m : Module} {name : String}

/-! ### What an import resolves to -/

/-- What the imported name `n` resolves to: a plain import stands for a module, and a name taken
from a module for what it means there, or else for a module in that package. -/
inductive Resolves (project : Project) (cache : Cache) (hops : Nat) (m : Module) (i : Import)
    (n : ImportedName) : Option Symbol → Prop where
  | renamed {a : String} (hplain : i.fromModule = none) (ha : n.asName = some a) :
      Resolves project cache hops m i n (some (.module n.name))
  | package (hplain : i.fromModule = none) (ha : n.asName = none) :
      Resolves project cache hops m i n (some (.module (firstSegment n.name)))
  | nowhere (hfrom : i.isFrom = true) (hsource : m.importSource? i = none) :
      Resolves project cache hops m i n none
  | member {source : String} {x : Symbol} (hsource : m.importSource? i = some source)
      (hx : (((lookupIn hops source n.name).run project).run cache).1 = some x) :
      Resolves project cache hops m i n (some x)
  | submodule {source : String} {path : Path} (hsource : m.importSource? i = some source)
      (hnone : (((lookupIn hops source n.name).run project).run cache).1 = none)
      (hfile : project.moduleFile? (memberName source n.name) = some path) :
      Resolves project cache hops m i n (some (.module (memberName source n.name)))
  | missing {source : String} (hsource : m.importSource? i = some source)
      (hnone : (((lookupIn hops source n.name).run project).run cache).1 = none)
      (hfile : project.moduleFile? (memberName source n.name) = none) :
      Resolves project cache hops m i n none

/-- Only an import that takes names from a module has a module to take them from. -/
theorem isFrom_of_importSource? {i : Import} {source : String}
    (h : m.importSource? i = some source) : i.isFrom = true := by
  unfold Module.importSource? at h
  cases hfrom : i.fromModule with
  | none =>
      rw [hfrom] at h
      cases h
  | some written => simp [Import.isFrom, hfrom]

theorem run_imported (source name : String) :
    (((imported (lookupIn hops) source name).run project).run cache).1 =
      ((((lookupIn hops source name).run project).run cache).1).or
        ((project.moduleFile? (memberName source name)).map fun _ =>
          .module (memberName source name)) := by
  unfold imported
  rw [run_bind]
  generalize ((lookupIn hops source name).run project).run cache = answer
  obtain ⟨_ | x, cache⟩ := answer <;> rfl

/-- An imported name is looked up to what it resolves to. -/
theorem importedSymbol_eq_iff {i : Import} {n : ImportedName} {x : Option Symbol} :
    (((importedSymbol (lookupIn hops) m i n).run project).run cache).1 = x ↔
      Resolves project cache hops m i n x := by
  unfold importedSymbol
  constructor
  · rintro rfl
    cases hfrom : i.fromModule with
    | none =>
        rw [if_neg (by simp [Import.isFrom, hfrom])]
        cases ha : n.asName with
        | some a => exact .renamed hfrom ha
        | none =>
            have hbound : n.boundName = firstSegment n.name := by simp [ImportedName.boundName, ha]
            rw [hbound]
            exact .package hfrom ha
    | some written =>
        have hisFrom : i.isFrom = true := by simp [Import.isFrom, hfrom]
        rw [if_pos hisFrom]
        cases hsource : m.importSource? i with
        | none => exact .nowhere hisFrom hsource
        | some source =>
            dsimp only
            rw [run_imported]
            cases hx : (((lookupIn hops source n.name).run project).run cache).1 with
            | some x => exact .member hsource hx
            | none =>
                cases hfile : project.moduleFile? (memberName source n.name) with
                | some path => exact .submodule hsource hx hfile
                | none => exact .missing hsource hx hfile
  · intro h
    cases h with
    | renamed hplain ha =>
        rw [if_neg (by simp [Import.isFrom, hplain]), ha]
        rfl
    | package hplain ha =>
        have hbound : n.boundName = firstSegment n.name := by simp [ImportedName.boundName, ha]
        rw [if_neg (by simp [Import.isFrom, hplain]), ha, hbound]
        rfl
    | nowhere hfrom hsource =>
        rw [if_pos hfrom, hsource]
        rfl
    | member hsource hx =>
        rw [if_pos (isFrom_of_importSource? hsource), hsource]
        dsimp only
        rw [run_imported, hx]
        rfl
    | submodule hsource hnone hfile =>
        rw [if_pos (isFrom_of_importSource? hsource), hsource]
        dsimp only
        rw [run_imported, hnone, hfile]
        rfl
    | missing hsource hnone hfile =>
        rw [if_pos (isFrom_of_importSource? hsource), hsource]
        dsimp only
        rw [run_imported, hnone, hfile]
        rfl

/-! ### What the last binding says -/

/-- A statement says the same whatever stands around it. -/
theorem lookup_withBody (body : List Stmt) :
    lookup (hops + 1) (m.withBody body) name =
      body.foldlM (bindingStep (lookupIn hops) m name) none := by
  have hsame : bindingStep (lookupIn hops) (m.withBody body) name =
      bindingStep (lookupIn hops) m name := by
    funext found s
    cases s <;> rfl
  rw [lookup_succ, hsame]
  rfl

/-- A lookup in a module is one in the statements before the last that binds the name, and then that
statement. -/
theorem lookup_of_lastBinds {before : List Stmt} {s : Stmt} (h : m.LastBinds name before s) :
    lookup (hops + 1) m name = (do
      let found ← lookup (hops + 1) (m.withBody before) name
      bindingStep (lookupIn hops) m name found s) := by
  obtain ⟨-, after, hsplit, hafter⟩ := h
  have hskip : ∀ found : Option Symbol,
      after.foldlM (bindingStep (lookupIn hops) m name) found = pure found :=
    foldlM_bindingStep_of_not_decides fun s' hs' => Stmt.decides_of_not_binds (hafter s' hs')
  rw [lookup_succ, hsplit, List.foldlM_append, lookup_withBody]
  simp [hskip]

theorem lookup_of_not_binds (h : m.binds name = false) :
    lookup (hops + 1) m name = pure none := by
  rw [Module.binds_eq_any, List.any_eq_false] at h
  rw [lookup_succ]
  refine foldlM_bindingStep_of_not_decides (fun s hs => ?_) none
  exact Stmt.decides_of_not_binds (by simpa using h s hs)

/-- An assignment leaves no trace: the module might as well end before it. -/
theorem lookup_of_assign {before : List Stmt} {a : Assign}
    (h : m.LastBinds name before (.assign a)) :
    lookup (hops + 1) m name = lookup (hops + 1) (m.withBody before) name := by
  rw [lookup_of_lastBinds h]
  exact bind_pure _

/-- An import that binds a name has a last name that is bound to it. -/
theorem exists_last_name {i : Import} (h : (Stmt.importing i).binds name = true) :
    ∃ front n back, i.names = front ++ n :: back ∧ n.boundName = name ∧
      ∀ n' ∈ back, n'.boundName ≠ name := by
  have hany : i.names.any (·.boundName == name) = true := (Bool.and_eq_true_iff.mp h).2
  rcases exists_last (fun n : ImportedName => n.boundName == name) i.names with
    hnone | ⟨front, n, back, hsplit, hn, hback⟩
  · obtain ⟨n, hmem, hn⟩ := List.any_eq_true.mp hany
    rw [hnone n hmem] at hn
    cases hn
  · exact ⟨front, n, back, hsplit, by simpa using hn, fun n' hn' => by simpa using hback n' hn'⟩

/-- Of the names that one import binds, the last one counts. -/
theorem bindingStep_importing {i : Import} {front back : List ImportedName} {n : ImportedName}
    (hwild : i.wildcard = false) (hnames : i.names = front ++ n :: back) (hn : n.boundName = name)
    (hback : ∀ n' ∈ back, n'.boundName ≠ name) (found : Option Symbol) :
    bindingStep (lookupIn hops) m name found (.importing i) = (do
      let _ ← bindingStep (lookupIn hops) m name found (.importing { i with names := front })
      importedSymbol (lookupIn hops) m i n) := by
  have hbacknone : back.filter (·.boundName == name) = [] := by simpa using hback
  have hfilter : i.names.filter (·.boundName == name) =
      front.filter (·.boundName == name) ++ [n] := by
    rw [hnames, List.filter_append, List.filter_cons_of_pos (by simpa using hn), hbacknone]
  unfold bindingStep
  dsimp only
  rw [if_neg (by simp [hwild]), if_neg (by simp [hwild]), hfilter, List.foldlM_append]
  rfl

/-- What is remembered once the questions of a module with that body have been asked. -/
def remembered (project : Project) (cache : Cache) (hops : Nat) (m : Module) (name : String)
    (body : List Stmt) : Cache :=
  (((lookup (hops + 1) (m.withBody body) name).run project).run cache).2

/-- What a name means in a module: what the last statement says that binds it.  A class and a
function say what they are, an import what the last of its names that is bound to `name` resolves
to, and an assignment says nothing, so the name means what it meant before. -/
inductive Means (project : Project) (cache : Cache) (hops : Nat) (name : String) :
    Module → Option Symbol → Prop where
  | free {m : Module} (h : m.binds name = false) : Means project cache hops name m none
  | ofClass {m : Module} {before body : List Stmt} {head : ClassHead}
      (h : m.LastBinds name before (.classDef head body)) :
      Means project cache hops name m (some (.class m.name name m.path))
  | ofFunction {m : Module} {before body : List Stmt} {head : FunctionHead}
      (h : m.LastBinds name before (.functionDef head body)) :
      Means project cache hops name m (some (.function m.path head.qualname))
  | ofImport {m : Module} {before : List Stmt} {i : Import} {front back : List ImportedName}
      {n : ImportedName} {x : Option Symbol} (h : m.LastBinds name before (.importing i))
      (hnames : i.names = front ++ n :: back) (hn : n.boundName = name)
      (hback : ∀ n' ∈ back, n'.boundName ≠ name)
      (hx : Resolves project (remembered project cache hops m name
        (before ++ [.importing { i with names := front }])) hops m i n x) :
      Means project cache hops name m x
  | ofAssign {m : Module} {before : List Stmt} {a : Assign} {x : Option Symbol}
      (h : m.LastBinds name before (.assign a))
      (hbefore : Means project cache hops name (m.withBody before) x) :
      Means project cache hops name m x

theorem run_lookup_of_class {before body : List Stmt} {head : ClassHead}
    (h : m.LastBinds name before (.classDef head body)) :
    (((lookup (hops + 1) m name).run project).run cache).1 = some (.class m.name name m.path) := by
  have hname : head.name = name := by simpa [Stmt.binds] using h.1
  rw [lookup_of_lastBinds h, run_bind]
  simp only [bindingStep, hname, if_true]
  rfl

theorem run_lookup_of_function {before body : List Stmt} {head : FunctionHead}
    (h : m.LastBinds name before (.functionDef head body)) :
    (((lookup (hops + 1) m name).run project).run cache).1 =
      some (.function m.path head.qualname) := by
  have hname : head.name = name := by simpa [Stmt.binds] using h.1
  rw [lookup_of_lastBinds h, run_bind]
  simp only [bindingStep, hname, if_true]
  rfl

theorem run_lookup_of_import {before : List Stmt} {i : Import} {front back : List ImportedName}
    {n : ImportedName} (h : m.LastBinds name before (.importing i))
    (hnames : i.names = front ++ n :: back) (hn : n.boundName = name)
    (hback : ∀ n' ∈ back, n'.boundName ≠ name) :
    (((lookup (hops + 1) m name).run project).run cache).1 =
      (((importedSymbol (lookupIn hops) m i n).run project).run
        (remembered project cache hops m name
          (before ++ [.importing { i with names := front }]))).1 := by
  have hwild : i.wildcard = false := by simpa using (Bool.and_eq_true_iff.mp h.1).1
  have hsplit : lookup (hops + 1) m name = (do
      let _ ← lookup (hops + 1) (m.withBody (before ++ [.importing { i with names := front }])) name
      importedSymbol (lookupIn hops) m i n) := by
    rw [lookup_of_lastBinds h, lookup_withBody, lookup_withBody, List.foldlM_append]
    simp [bindingStep_importing hwild hnames hn hback]
  rw [hsplit, run_bind]
  rfl

/-- What a name means in a module is what a lookup gives. -/
theorem Means.run_lookup {x : Option Symbol} (h : Means project cache hops name m x) :
    (((lookup (hops + 1) m name).run project).run cache).1 = x := by
  induction h with
  | free h =>
      rw [lookup_of_not_binds h]
      rfl
  | ofClass h => exact run_lookup_of_class h
  | ofFunction h => exact run_lookup_of_function h
  | ofImport h hnames hn hback hx =>
      rw [run_lookup_of_import h hnames hn hback]
      exact importedSymbol_eq_iff.mpr hx
  | ofAssign h hbefore ih =>
      rw [lookup_of_assign h]
      exact ih

/-- What a lookup gives is what the name means: by induction on the length of the module, which is
shorter before the last binding. -/
theorem means_lookup (m : Module) :
    Means project cache hops name m (((lookup (hops + 1) m name).run project).run cache).1 := by
  induction hlength : m.body.length using Nat.strongRecOn generalizing m with
  | ind length ih =>
      by_cases hbinds : m.binds name = true
      · obtain ⟨before, s, h⟩ := Module.exists_lastBinds hbinds
        have hsname : s.binds name = true := h.1
        cases s with
        | classDef head body =>
            rw [run_lookup_of_class h]
            exact .ofClass h
        | functionDef head body =>
            rw [run_lookup_of_function h]
            exact .ofFunction h
        | importing i =>
            obtain ⟨front, n, back, hnames, hn, hback⟩ := exists_last_name hsname
            rw [run_lookup_of_import h hnames hn hback]
            exact .ofImport h hnames hn hback (importedSymbol_eq_iff.mp rfl)
        | assign a =>
            rw [lookup_of_assign h]
            exact .ofAssign h (ih before.length (hlength ▸ h.length_lt) (m.withBody before) rfl)
        | _ => cases hsname
      · have hfree : m.binds name = false := by simpa using hbinds
        rw [lookup_of_not_binds hfree]
        exact .free hfree

/-- **The last binding decides.**  A lookup gives what the name means by the last statement that
binds it, for any number of further imports that may be followed and whatever is remembered.  If
that statement is an assignment, the module might as well end before it, so a class or an import
above it is what the lookup gives. -/
theorem lookup_eq_iff_means (project : Project) (cache : Cache) (hops : Nat) (name : String)
    (m : Module) (x : Option Symbol) :
    ((((lookup (hops + 1) m name).run project).run cache).1 = x ↔
      Means project cache hops name m x) ∧
    ∀ before a, m.LastBinds name before (.assign a) →
      lookup (hops + 1) m name = lookup (hops + 1) (m.withBody before) name := by
  refine ⟨⟨?_, fun h => h.run_lookup⟩, fun before a h => lookup_of_assign h⟩
  rintro rfl
  exact means_lookup m

/-! ### A class that an assignment replaces -/

/-- A module whose name `User` is no class in the end. -/
def rebound : String := "class User:\n    pass\n\n\nUser = 1\n"

def reboundModule : Module := (Module.parse rebound "app.py" "app").toOption.getD default

/-- A class and an assignment, both to the same name. -/
def IsRebound : List Stmt → Bool
  | [.classDef h _, .assign a] => h.name == "User" && a.targets.contains "User"
  | _ => false

/-- The last statement that binds `User` is an assignment, and a lookup gives the class above it. -/
theorem class_outlives_assignment :
    ∃ before a, reboundModule.LastBinds "User" before (.assign a) ∧
      ∀ project cache,
        symbol reboundModule "User" =
          lookup (maxHops + 1) (reboundModule.withBody before) "User" ∧
        (((symbol reboundModule "User").run project).run cache).1 =
          some (.class "app" "User" "app.py") := by
  obtain ⟨hrebound, hname, hpath⟩ : IsRebound reboundModule.body = true ∧
      reboundModule.name = "app" ∧ reboundModule.path = "app.py" := by decide +kernel
  generalize reboundModule = m at *
  unfold IsRebound at hrebound
  split at hrebound
  · rename_i head body a hbody
    obtain ⟨hhead, htargets⟩ := Bool.and_eq_true_iff.mp hrebound
    have hassign : m.LastBinds "User" [.classDef head body] (.assign a) :=
      ⟨htargets, [], hbody, by simp⟩
    have hclass : (m.withBody [.classDef head body]).LastBinds "User" [] (.classDef head body) :=
      ⟨hhead, [], rfl, by simp⟩
    refine ⟨[.classDef head body], a, hassign, fun project cache => ?_⟩
    obtain ⟨hmeans, hcut⟩ := lookup_eq_iff_means project cache maxHops "User" m
      (some (.class m.name "User" m.path))
    refine ⟨hcut _ a hassign, ?_⟩
    rw [← hname, ← hpath]
    exact hmeans.mpr (.ofAssign hassign (.ofClass hclass))
  · cases hrebound

end Query

end Plumbline
