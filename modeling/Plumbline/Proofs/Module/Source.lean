/-
Statements and what they are read from.

Every statement of a module, at whatever depth, is lowered from a tree of its source, which is sound.
So a function stands for a definition, a decorator of a class for an expression, and definitions and
imports lie where the source can be cut (`isReadFrom_parse`).
-/
import Plumbline.Module.Lower
import Plumbline.Proofs.Module.Definitions
import Plumbline.Proofs.Syntax.Statement

namespace Plumbline

open Syntax (AllSound IsStretch)

namespace Lower

variable {source : List Char}

/-- The function stands for a definition in the source. -/
def IsReadAs (source : List Char) (h : FunctionHead) (t : Syntax.Tree) : Prop :=
  t.Sound source ∧ t.kind = .functionDefinition ∧
    ∃ scope inClass decorators header,
      functionHead? source scope inClass decorators header t = some h

/-- The decorators stand for expressions in the source. -/
def AreReadAs (source : List Char) (ds : List Decorator) : Prop :=
  ∀ d ∈ ds, ∃ t : Syntax.Tree, t.Sound source ∧ d.expr = expr source t

/-- What the source tells of a definition or an import. -/
def IsReadFrom (source : List Char) : Stmt → Prop
  | .functionDef h _ => IsStretch source h.header ∧ ∃ t, IsReadAs source h t
  | .classDef h _ => IsStretch source h.header ∧ AreReadAs source h.decorators
  | .importing i => IsStretch source i.span
  | _ => True

theorem areReadAs_decorators {t : Syntax.Tree} (ht : t.Sound source) :
    AreReadAs source (decorators source t) := by
  intro d hd
  obtain ⟨u, hu, hd⟩ := List.mem_filterMap.mp hd
  obtain ⟨e, he, rfl⟩ := Option.map_eq_some_iff.mp hd
  have hsound : u.Sound source := ht.children u (List.mem_filter.mp hu).1
  exact ⟨e, hsound.children e (List.mem_of_find?_eq_some he), rfl⟩

theorem header_functionHead? {scope : List String} {inClass : Bool} {ds : List Decorator}
    {header : Span} {t : Syntax.Tree} {head : FunctionHead}
    (h : functionHead? source scope inClass ds header t = some head) : head.header = header := by
  obtain ⟨name, -, h⟩ := Option.bind_eq_some_iff.mp h
  obtain ⟨params, -, h⟩ := Option.bind_eq_some_iff.mp h
  cases h
  rfl

theorem header_classHead? {scope : List String} {ds : List Decorator} {header : Span}
    {t : Syntax.Tree} {head : ClassHead} (h : classHead? source scope ds header t = some head) :
    head.header = header ∧ head.decorators = ds := by
  obtain ⟨name, -, h⟩ := Option.bind_eq_some_iff.mp h
  cases h
  exact ⟨rfl, rfl⟩

/-- A statement without blocks lies where its tree does. -/
theorem isReadFrom_simple? {t : Syntax.Tree} {s u : Stmt} (ht : t.Sound source)
    (h : simple? source t = some s) (hu : u ∈ statementsOf s) : IsReadFrom source u := by
  have hsame : statementsOf s = [s] ∧ IsReadFrom source s := by
    unfold simple? at h
    split at h
    case h_1 | h_2 | h_3 =>
      obtain rfl := Option.some.inj h
      exact ⟨rfl, ht.stretch⟩
    case h_5 =>
      obtain ⟨inner, -, rfl⟩ := Option.map_eq_some_iff.mp h
      split <;> exact ⟨rfl, trivial⟩
    all_goals
      obtain rfl := Option.some.inj h
      exact ⟨rfl, trivial⟩
  rw [hsame.1, List.mem_singleton] at hu
  exact hu ▸ hsame.2

theorem mem_statementsIn_append {xs ys : List Stmt} {u : Stmt} :
    u ∈ statementsIn (xs ++ ys) ↔ u ∈ statementsIn xs ∨ u ∈ statementsIn ys := by
  induction xs with
  | nil => simp [statementsIn]
  | cons x xs ih => simp [statementsIn, ih, or_assoc]

theorem mem_statementsInBlocks_append {xs ys : List (List Stmt)} {u : Stmt} :
    u ∈ statementsInBlocks (xs ++ ys) ↔ u ∈ statementsInBlocks xs ∨ u ∈ statementsInBlocks ys := by
  induction xs with
  | nil => simp [statementsInBlocks]
  | cons x xs ih => simp [statementsInBlocks, ih, or_assoc]

theorem isReadFrom_functionDef {scope : List String} {inClass : Bool} {ds : List Decorator}
    {header : Span} {t : Syntax.Tree} {s u : Stmt} {inner : FunctionHead → List Stmt}
    (hheader : IsStretch source header) (ht : t.Sound source) (hkind : t.kind = .functionDefinition)
    (hinner : ∀ h, u ∈ statementsIn (inner h) → IsReadFrom source u)
    (h : (functionHead? source scope inClass ds header t).map
      (fun h => .functionDef h (inner h)) = some s) (hu : u ∈ statementsOf s) :
    IsReadFrom source u := by
  obtain ⟨head, hhead, rfl⟩ := Option.map_eq_some_iff.mp h
  rw [statementsOf, List.mem_cons] at hu
  rcases hu with rfl | hu
  · exact ⟨header_functionHead? hhead ▸ hheader, t, ht, hkind, scope, inClass, ds, header, hhead⟩
  · exact hinner head hu

theorem isReadFrom_classDef {scope : List String} {ds : List Decorator} {header : Span}
    {t : Syntax.Tree} {s u : Stmt} {inner : ClassHead → List Stmt}
    (hheader : IsStretch source header) (hds : AreReadAs source ds)
    (hinner : ∀ h, u ∈ statementsIn (inner h) → IsReadFrom source u)
    (h : (classHead? source scope ds header t).map
      (fun h => .classDef h (inner h)) = some s) (hu : u ∈ statementsOf s) :
    IsReadFrom source u := by
  obtain ⟨head, hhead, rfl⟩ := Option.map_eq_some_iff.mp h
  obtain ⟨hspan, hdecorators⟩ := header_classHead? hhead
  rw [statementsOf, List.mem_cons] at hu
  rcases hu with rfl | hu
  · exact ⟨hspan ▸ hheader, hdecorators ▸ hds⟩
  · exact hinner head hu

mutual

theorem isReadFrom_stmt? {scope : List String} {inClass : Bool} {s u : Stmt} :
    {t : Syntax.Tree} → t.Sound source → stmt? source scope inClass t = some s →
      u ∈ statementsOf s → IsReadFrom source u
  | .node k f span cs, ht, h, hu => by
      have hnone : AreReadAs source [] := fun _ hd => absurd hd List.not_mem_nil
      rw [stmt?.eq_def] at h
      dsimp only at h
      split at h
      · exact isReadFrom_functionDef ht.stretch ht rfl (fun _ => isReadFrom_body ht.parts) h hu
      · exact isReadFrom_classDef ht.stretch hnone (fun _ => isReadFrom_body ht.parts) h hu
      · exact isReadFrom_definition? ht.stretch (areReadAs_decorators ht) ht.parts h hu
      · split at h
        · obtain rfl := Option.some.inj h
          rw [statementsOf, List.mem_cons] at hu
          rcases hu with rfl | hu
          · exact trivial
          · exact isReadFrom_blocks ht.parts hu
        · exact isReadFrom_simple? ht h hu

theorem isReadFrom_stmts {scope : List String} {inClass : Bool} {u : Stmt} :
    {cs : List Syntax.Tree} → AllSound source cs →
      u ∈ statementsIn (stmts source scope inClass cs) → IsReadFrom source u
  | [], _, hu => absurd hu (by simp [stmts, statementsIn])
  | t :: ts, h, hu => by
      rw [Syntax.allSound_cons] at h
      rw [stmts, mem_statementsIn_append] at hu
      rcases hu with hu | hu
      · cases hs : stmt? source scope inClass t with
        | none =>
            rw [hs] at hu
            exact absurd hu (by simp [statementsIn])
        | some s =>
            rw [hs] at hu
            exact isReadFrom_stmt? h.1 hs (by simpa [statementsIn] using hu)
      · exact isReadFrom_stmts h.2 hu

theorem isReadFrom_body {scope : List String} {inClass : Bool} {u : Stmt} :
    {cs : List Syntax.Tree} → AllSound source cs →
      u ∈ statementsIn (body source scope inClass cs) → IsReadFrom source u
  | [], _, hu => absurd hu (by simp [body, statementsIn])
  | .node k f span cs :: ts, h, hu => by
      rw [Syntax.allSound_cons] at h
      rw [body] at hu
      split at hu
      · exact isReadFrom_stmts h.1.parts hu
      · exact isReadFrom_body h.2 hu

theorem isReadFrom_definition? {scope : List String} {inClass : Bool} {ds : List Decorator}
    {header : Span} {s u : Stmt} (hheader : IsStretch source header) (hds : AreReadAs source ds) :
    {cs : List Syntax.Tree} → AllSound source cs →
      definition? source scope inClass ds header cs = some s → u ∈ statementsOf s →
        IsReadFrom source u
  | [], _, h, _ => absurd h (by simp [definition?])
  | .node k f span cs :: ts, hts, h, hu => by
      rw [Syntax.allSound_cons] at hts
      rw [definition?.eq_def] at h
      dsimp only at h
      split at h
      · split at h
        · exact isReadFrom_functionDef hheader hts.1 rfl (fun _ => isReadFrom_body hts.1.parts) h hu
        · exact isReadFrom_classDef hheader hds (fun _ => isReadFrom_body hts.1.parts) h hu
        · obtain rfl := Option.some.inj h
          rw [statementsOf.eq_def, List.mem_singleton] at hu
          subst hu
          exact trivial
      · exact isReadFrom_definition? hheader hds hts.2 h hu

theorem isReadFrom_blocks {scope : List String} {inClass : Bool} {u : Stmt} :
    {cs : List Syntax.Tree} → AllSound source cs →
      u ∈ statementsInBlocks (blocks source scope inClass cs) → IsReadFrom source u
  | [], _, hu => absurd hu (by simp [blocks, statementsInBlocks])
  | .node k f span cs :: ts, h, hu => by
      rw [Syntax.allSound_cons] at h
      rw [blocks, mem_statementsInBlocks_append] at hu
      rcases hu with hu | hu
      · split at hu
        · exact isReadFrom_stmts h.1.parts (by simpa [statementsInBlocks] using hu)
        · split at hu
          · exact isReadFrom_blocks h.1.parts hu
          · exact absurd hu (by simp [statementsInBlocks])
      · exact isReadFrom_blocks h.2 hu

end

end Lower

/-! ### Modules -/

variable {source name qualname : String} {path : Path} {m : Module}

/-- **Every definition and every import of a module, at any depth, is read from its source.** -/
theorem isReadFrom_parse {s : Stmt} (hm : Module.parse source path name = .ok m)
    (hs : s ∈ statementsIn m.body) : Lower.IsReadFrom source.toList s := by
  obtain ⟨tree, htree, rfl⟩ := Module.parse_eq_ok hm
  exact Lower.isReadFrom_stmts (Syntax.sound_parse htree).children hs

theorem isReadFrom_findFunction? {f : FunctionDef} (hm : Module.parse source path name = .ok m)
    (hf : m.findFunction? qualname = some f) :
    IsStretch source.toList f.header ∧ ∃ t, Lower.IsReadAs source.toList f.toFunctionHead t := by
  rw [Module.findFunction?_eq] at hf
  obtain ⟨s, hs, hfunction⟩ := List.mem_filterMap.mp (List.mem_of_find?_eq_some hf)
  cases s with
  | functionDef h body =>
      obtain rfl := Option.some.inj hfunction
      exact isReadFrom_parse hm hs
  | _ => exact absurd hfunction (by simp [Node.function?])

theorem isReadFrom_findClass? {c : ClassDef} (hm : Module.parse source path name = .ok m)
    (hc : m.findClass? qualname = some c) :
    IsStretch source.toList c.header ∧ Lower.AreReadAs source.toList c.decorators := by
  rw [Module.findClass?_eq] at hc
  obtain ⟨s, hs, hclass⟩ := List.mem_filterMap.mp (List.mem_of_find?_eq_some hc)
  cases s with
  | classDef h body =>
      obtain rfl := Option.some.inj hclass
      exact isReadFrom_parse hm hs
  | _ => exact absurd hclass (by simp [Node.class?])

theorem isStretch_findImport {written : String} {span : Span}
    (hm : Module.parse source path name = .ok m)
    (h : Edit.findImportIn written m.body = some span) : IsStretch source.toList span := by
  rw [Module.findImport_eq] at h
  obtain ⟨i, hi, rfl⟩ := Option.map_eq_some_iff.mp h
  obtain ⟨s, hs, himport⟩ := List.mem_filterMap.mp (List.mem_of_find?_eq_some hi)
  cases s with
  | importing j =>
      obtain rfl := Option.some.inj himport
      exact isReadFrom_parse hm (mem_statementsIn_of_open m.body hs)
  | _ => exact absurd himport (by simp [Node.import?])

end Plumbline
