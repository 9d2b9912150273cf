/-
Definitions that are known by their names.

Whether several definitions share a qualified name is counted when a module is made, by a recursion
of its own, and two searches find the function and the class of a name.  All three go through the
same definitions (`definedNames_eq`, `findFunction?_eq`, `findClass?_eq`), so a name that is not
counted as shared leads to one definition only, which is the one that the searches find.
-/
import Plumbline.Module.Query
import Plumbline.Proofs.Module.Traversal

namespace Plumbline

/-! ### Sets of names -/

namespace NameSet

theorem mem_insertSorted {name x : String} {names : List String} :
    x ∈ insertSorted name names ↔ x = name ∨ x ∈ names := by
  induction names with
  | nil => simp [insertSorted]
  | cons y rest ih =>
      unfold insertSorted
      by_cases hlt : name < y
      · rw [if_pos hlt, List.mem_cons]
      · rw [if_neg hlt]
        by_cases hgt : y < name
        · rw [if_pos hgt, List.mem_cons, ih, List.mem_cons]
          exact or_left_comm
        · rw [if_neg hgt]
          have heq : name = y :=
            String.le_antisymm (String.not_lt.mp hgt) (String.not_lt.mp hlt)
          subst heq
          simp

theorem contains_ofList {names : List String} {x : String} :
    (ofList names).contains x = true ↔ x ∈ names := by
  have hfold : ∀ s : NameSet, x ∈ (names.foldl insert s).toList ↔ x ∈ s.toList ∨ x ∈ names := by
    induction names with
    | nil => simp
    | cons name rest ih =>
        intro s
        rw [List.foldl_cons, ih, insert, mem_insertSorted, List.mem_cons]
        exact or_assoc.trans or_left_comm
  unfold contains ofList
  rw [List.contains_iff_mem, hfold]
  simp [empty]

end NameSet

/-! ### Definitions -/

/-- A function or a class. -/
inductive Definition where
  | function (f : FunctionDef)
  | «class» (c : ClassDef)
deriving Inhabited

namespace Definition

def qualname : Definition → String
  | function f => f.qualname
  | «class» c => c.qualname

end Definition

def Stmt.definition? : Stmt → Option Definition
  | functionDef h body => some (.function { h with body })
  | classDef h body => some (.class { h with body })
  | _ => none

namespace Module

/-- All classes, in source order. -/
def classes (m : Module) : List ClassDef :=
  (statementsIn m.body).filterMap fun s => (Node.stmt s).class?

/-- All functions and classes, in source order. -/
def definitions (m : Module) : List Definition := (statementsIn m.body).filterMap (·.definition?)

/-- The classes that a walk enters are those of the module. -/
theorem mem_classes_of_enter {m : Module} {around : Around} {node : Node} {c : ClassDef}
    (h : .enter around node ∈ m.visits) (hc : node.class? = some c) : c ∈ m.classes := by
  cases node with
  | module m => exact absurd hc (by simp [Node.class?])
  | expr e => exact absurd hc (by simp [Node.class?])
  | stmt s => exact List.mem_filterMap.mpr ⟨s, mem_statements_of_enter h, hc⟩

theorem function_mem_definitions {m : Module} {f : FunctionDef} (h : f ∈ m.functions) :
    .function f ∈ m.definitions := by
  obtain ⟨s, hs, hf⟩ := List.mem_filterMap.mp h
  refine List.mem_filterMap.mpr ⟨s, hs, ?_⟩
  cases s with
  | functionDef head body =>
      obtain rfl := Option.some.inj hf
      rfl
  | _ => exact absurd hf (by simp [Node.function?])

theorem class_mem_definitions {m : Module} {c : ClassDef} (h : c ∈ m.classes) :
    .class c ∈ m.definitions := by
  obtain ⟨s, hs, hc⟩ := List.mem_filterMap.mp h
  refine List.mem_filterMap.mpr ⟨s, hs, ?_⟩
  cases s with
  | classDef head body =>
      obtain rfl := Option.some.inj hc
      rfl
  | _ => exact absurd hc (by simp [Node.class?])

end Module

mutual

theorem definedNames_eq : (body : List Stmt) →
    definedNames body = ((statementsIn body).filterMap (·.definition?)).map (·.qualname)
  | [] => rfl
  | s :: rest => by
      rw [definedNames, statementsIn, List.filterMap_append, List.map_append,
        definedNamesOf_eq s, definedNames_eq rest]

theorem definedNamesOf_eq : (s : Stmt) →
    definedNamesOf s = ((statementsOf s).filterMap (·.definition?)).map (·.qualname)
  | .functionDef h body => by
      rw [definedNamesOf, statementsOf, definedNames_eq body]
      rfl
  | .classDef h body => by
      rw [definedNamesOf, statementsOf, definedNames_eq body]
      rfl
  | .compound _ blocks => by
      rw [definedNamesOf, statementsOf, definedNamesInBlocks_eq blocks,
        List.filterMap_cons_none rfl]
  | .returning _ | .assign _ | .expr _ | .importing _ | .comment _ | .pass _ | .raise _
  | .other _ => rfl

theorem definedNamesInBlocks_eq : (blocks : List (List Stmt)) →
    definedNamesInBlocks blocks =
      ((statementsInBlocks blocks).filterMap (·.definition?)).map (·.qualname)
  | [] => rfl
  | b :: rest => by
      rw [definedNamesInBlocks, statementsInBlocks, List.filterMap_append, List.map_append,
        definedNames_eq b, definedNamesInBlocks_eq rest]

end

mutual

theorem findClassIn_eq (qualname : String) : (body : List Stmt) →
    findClassIn qualname body =
      ((statementsIn body).filterMap fun s => (Node.stmt s).class?).find? (·.qualname = qualname)
  | [] => rfl
  | s :: rest => by
      rw [findClassIn, statementsIn, List.filterMap_append, List.find?_append,
        findClassAt_eq qualname s, findClassIn_eq qualname rest]

theorem findClassAt_eq (qualname : String) : (s : Stmt) →
    findClassAt qualname s =
      ((statementsOf s).filterMap fun s => (Node.stmt s).class?).find? (·.qualname = qualname)
  | .classDef h body => by
      rw [findClassAt, statementsOf, findClassIn_eq qualname body]
      by_cases hname : h.qualname = qualname
      · simp [Node.class?, hname]
      · simp [Node.class?, hname]
  | .functionDef _ body => by
      rw [findClassAt, statementsOf, findClassIn_eq qualname body, List.filterMap_cons_none rfl]
  | .compound _ blocks => by
      rw [findClassAt, statementsOf, findClassInBlocks_eq qualname blocks,
        List.filterMap_cons_none rfl]
  | .returning _ | .assign _ | .expr _ | .importing _ | .comment _ | .pass _ | .raise _
  | .other _ => rfl

theorem findClassInBlocks_eq (qualname : String) : (blocks : List (List Stmt)) →
    findClassInBlocks qualname blocks =
      ((statementsInBlocks blocks).filterMap fun s => (Node.stmt s).class?).find?
        (·.qualname = qualname)
  | [] => rfl
  | b :: rest => by
      rw [findClassInBlocks, statementsInBlocks, List.filterMap_append, List.find?_append,
        findClassIn_eq qualname b, findClassInBlocks_eq qualname rest]

end

namespace Module

variable {m : Module} {d : Definition} {f : FunctionDef} {c : ClassDef}

/-- **The first class of a name is found**, wherever it stands. -/
theorem findClass?_eq (m : Module) (qualname : String) :
    m.findClass? qualname = m.classes.find? (·.qualname = qualname) :=
  findClassIn_eq qualname m.body

/-- The module counts the definitions that it has. -/
def CountsNames (m : Module) : Prop := m.duplicates = repeated (definedNames m.body)

/-- **A name that is not shared is that of one definition.** -/
theorem definitions_of_not_ambiguous (hm : m.CountsNames) (hd : d ∈ m.definitions)
    (h : m.isAmbiguous d.qualname = false) :
    m.definitions.filter (·.qualname == d.qualname) = [d] := by
  have hcount : (m.definitions.map (·.qualname)).count d.qualname ≤ 1 := by
    refine Nat.le_of_not_lt fun hmany => ?_
    have hshared : m.isAmbiguous d.qualname = true := by
      unfold isAmbiguous
      rw [hm, repeated, NameSet.contains_ofList, definedNames_eq, List.mem_filter]
      exact ⟨List.mem_map.mpr ⟨d, hd, rfl⟩, by simpa [definitions] using hmany⟩
    rw [h] at hshared
    cases hshared
  have hlength : (m.definitions.filter (·.qualname == d.qualname)).length ≤ 1 := by
    rwa [List.count_eq_countP, List.countP_map, List.countP_eq_length_filter] at hcount
  have hmem : d ∈ m.definitions.filter (·.qualname == d.qualname) :=
    List.mem_filter.mpr ⟨hd, by simp⟩
  cases hfilter : m.definitions.filter (·.qualname == d.qualname) with
  | nil =>
      rw [hfilter] at hmem
      exact absurd hmem List.not_mem_nil
  | cons x rest =>
      rw [hfilter] at hmem hlength
      have hrest : rest = [] := by simpa using hlength
      subst hrest
      rw [List.mem_singleton.mp hmem]

/-- Definitions of a name that is not shared are the same. -/
theorem eq_of_not_ambiguous (hm : m.CountsNames) (hd : d ∈ m.definitions)
    (h : m.isAmbiguous d.qualname = false) {d' : Definition} (hd' : d' ∈ m.definitions)
    (hname : d'.qualname = d.qualname) : d' = d := by
  have hmem : d' ∈ m.definitions.filter (·.qualname == d.qualname) :=
    List.mem_filter.mpr ⟨hd', by simpa using hname⟩
  rw [definitions_of_not_ambiguous hm hd h] at hmem
  exact List.mem_singleton.mp hmem

/-- **A function whose name is not shared is found by its name.** -/
theorem findFunction?_of_not_ambiguous (hm : m.CountsNames) (hf : f ∈ m.functions)
    (h : m.isAmbiguous f.qualname = false) : m.findFunction? f.qualname = some f := by
  rw [findFunction?_eq]
  cases hfound : m.functions.find? (·.qualname = f.qualname) with
  | none => exact absurd (List.find?_eq_none.mp hfound f hf) (by simp)
  | some g =>
      have hg : g ∈ m.functions := List.mem_of_find?_eq_some hfound
      have hname : g.qualname = f.qualname := by simpa using List.find?_some hfound
      have heq := eq_of_not_ambiguous (d := .function f) hm (function_mem_definitions hf) h
        (function_mem_definitions hg) hname
      rw [Definition.function.inj heq]

/-- What is said of a function by its qualified name and its place is about the function itself. -/
def Places (m : Module) (f : FunctionDef) : Prop :=
  m.functions.find? (fun g => g.qualname == f.qualname && g.span.start == f.span.start) = some f

/-- The function that is found by its name is told apart from all others. -/
theorem places_of_findFunction? {qualname : String} (h : m.findFunction? qualname = some f) :
    m.Places f := by
  rw [findFunction?_eq, List.find?_eq_some_iff_append] at h
  obtain ⟨hname, front, back, hsplit, hfront⟩ := h
  obtain rfl : f.qualname = qualname := by simpa using hname
  refine List.find?_eq_some_iff_append.mpr ⟨by simp, front, back, hsplit, fun g hg => ?_⟩
  have hother : g.qualname ≠ f.qualname := by simpa using hfront g hg
  simp [hother]

theorem places_of_not_ambiguous (hm : m.CountsNames) (hf : f ∈ m.functions)
    (h : m.isAmbiguous f.qualname = false) : m.Places f :=
  places_of_findFunction? (findFunction?_of_not_ambiguous hm hf h)

/-- **A class whose name is not shared is found by its name.** -/
theorem findClass?_of_not_ambiguous (hm : m.CountsNames) (hc : c ∈ m.classes)
    (h : m.isAmbiguous c.qualname = false) : m.findClass? c.qualname = some c := by
  rw [findClass?_eq]
  cases hfound : m.classes.find? (·.qualname = c.qualname) with
  | none => exact absurd (List.find?_eq_none.mp hfound c hc) (by simp)
  | some g =>
      have hg : g ∈ m.classes := List.mem_of_find?_eq_some hfound
      have hname : g.qualname = c.qualname := by simpa using List.find?_some hfound
      have heq := eq_of_not_ambiguous (d := .class c) hm (class_mem_definitions hc) h
        (class_mem_definitions hg) hname
      rw [Definition.class.inj heq]

end Module

end Plumbline
