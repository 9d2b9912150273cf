/-
What stands inside what.

A statement stands in a body by itself, in a block of a compound statement that does, or in a
definition that does.  Only a definition counts as being around it; blocks may lie between.  So the
statements outside all definitions are those that have nothing around them (`mem_openStatementsIn_iff`),
and every definition of a module stands somewhere in it, with the definitions around it from the
outermost to the nearest (`Module.exists_standsIn`).
-/
import Plumbline.Proofs.Module.Definitions

namespace Plumbline

namespace Definition

def name : Definition → String
  | function f => f.name
  | «class» c => c.name

def body : Definition → List Stmt
  | function f => f.body
  | «class» c => c.body

/-- Is it a class? -/
def isClass : Definition → Bool
  | function _ => false
  | «class» _ => true

end Definition

/-- The statement stands in the body at some depth, and `around` are the definitions around it there,
outermost first. -/
inductive StandsIn (body : List Stmt) : List Definition → Stmt → Prop where
  | here {s : Stmt} (hs : s ∈ body) : StandsIn body [] s
  | block {around : List Definition} {head : CompoundHead} {blocks : List (List Stmt)}
      {b : List Stmt} {s : Stmt} (outer : StandsIn body around (.compound head blocks))
      (hb : b ∈ blocks) (hs : s ∈ b) : StandsIn body around s
  | definition {around : List Definition} {outer s : Stmt} {d : Definition}
      (hout : StandsIn body around outer) (hd : outer.definition? = some d) (hs : s ∈ d.body) :
      StandsIn body (around ++ [d]) s

section OpenStatements

variable {body : List Stmt} {around : List Definition}

mutual

/-- Outside definitions there is nothing more around a statement than around what it is part of. -/
theorem standsIn_of_mem_openStatementsIn : (part : List Stmt) →
    (∀ s ∈ part, StandsIn body around s) → ∀ s ∈ openStatementsIn part, StandsIn body around s
  | [], _ => fun _ hs => absurd hs List.not_mem_nil
  | t :: rest, h => by
      rw [List.forall_mem_cons] at h
      rw [openStatementsIn, List.forall_mem_append]
      exact ⟨standsIn_of_mem_openStatementsOf t h.1, standsIn_of_mem_openStatementsIn rest h.2⟩

theorem standsIn_of_mem_openStatementsOf : (t : Stmt) → StandsIn body around t →
    ∀ s ∈ openStatementsOf t, StandsIn body around s
  | .compound head blocks, h => by
      rw [openStatementsOf, List.forall_mem_cons]
      exact ⟨h, standsIn_of_mem_openStatementsInBlocks blocks fun b hb s hs => h.block hb hs⟩
  | .functionDef .., h | .classDef .., h | .importing _, h | .returning _, h | .assign _, h
  | .expr _, h | .comment _, h | .pass _, h | .raise _, h | .other _, h => by
      rw [openStatementsOf]
      · simpa using h
      · exact nofun

theorem standsIn_of_mem_openStatementsInBlocks : (blocks : List (List Stmt)) →
    (∀ b ∈ blocks, ∀ s ∈ b, StandsIn body around s) →
      ∀ s ∈ openStatementsInBlocks blocks, StandsIn body around s
  | [], _ => fun _ hs => absurd hs List.not_mem_nil
  | b :: rest, h => by
      rw [List.forall_mem_cons] at h
      rw [openStatementsInBlocks, List.forall_mem_append]
      exact ⟨standsIn_of_mem_openStatementsIn b h.1,
        standsIn_of_mem_openStatementsInBlocks rest h.2⟩

end

end OpenStatements

mutual

/-- What is outside definitions in such a statement is outside definitions. -/
theorem openStatementsIn_trans {s t : Stmt} : (part : List Stmt) → t ∈ openStatementsIn part →
    s ∈ openStatementsOf t → s ∈ openStatementsIn part
  | [], ht, _ => absurd ht List.not_mem_nil
  | u :: rest, ht, hs => by
      rw [openStatementsIn, List.mem_append] at ht ⊢
      exact ht.imp (openStatementsOf_trans u · hs) (openStatementsIn_trans rest · hs)

theorem openStatementsOf_trans {s t : Stmt} : (u : Stmt) → t ∈ openStatementsOf u →
    s ∈ openStatementsOf t → s ∈ openStatementsOf u
  | .compound head blocks, ht, hs => by
      rw [openStatementsOf, List.mem_cons] at ht
      rcases ht with rfl | ht
      · exact hs
      · rw [openStatementsOf]
        exact List.mem_cons_of_mem _ (openStatementsInBlocks_trans blocks ht hs)
  | .functionDef .., ht, hs | .classDef .., ht, hs | .importing _, ht, hs | .returning _, ht, hs
  | .assign _, ht, hs | .expr _, ht, hs | .comment _, ht, hs | .pass _, ht, hs | .raise _, ht, hs
  | .other _, ht, hs => List.mem_singleton.mp ht ▸ hs

theorem openStatementsInBlocks_trans {s t : Stmt} : (blocks : List (List Stmt)) →
    t ∈ openStatementsInBlocks blocks → s ∈ openStatementsOf t →
      s ∈ openStatementsInBlocks blocks
  | [], ht, _ => absurd ht List.not_mem_nil
  | b :: rest, ht, hs => by
      rw [openStatementsInBlocks, List.mem_append] at ht ⊢
      exact ht.imp (openStatementsIn_trans b · hs) (openStatementsInBlocks_trans rest · hs)

end

theorem mem_openStatementsOf_self (s : Stmt) : s ∈ openStatementsOf s := by
  unfold openStatementsOf
  split
  · exact List.mem_cons_self
  · exact List.mem_cons_self

theorem mem_openStatementsIn_of_mem {s : Stmt} {body : List Stmt} (h : s ∈ body) :
    s ∈ openStatementsIn body := by
  induction body with
  | nil => exact absurd h List.not_mem_nil
  | cons t rest ih =>
      rw [openStatementsIn, List.mem_append]
      rcases List.mem_cons.mp h with rfl | h
      · exact Or.inl (mem_openStatementsOf_self s)
      · exact Or.inr (ih h)

theorem mem_openStatementsInBlocks_of_mem {s : Stmt} {b : List Stmt} {blocks : List (List Stmt)}
    (hb : b ∈ blocks) (hs : s ∈ b) : s ∈ openStatementsInBlocks blocks := by
  induction blocks with
  | nil => exact absurd hb List.not_mem_nil
  | cons c rest ih =>
      rw [openStatementsInBlocks, List.mem_append]
      rcases List.mem_cons.mp hb with rfl | hb
      · exact Or.inl (mem_openStatementsIn_of_mem hs)
      · exact Or.inr (ih hb)

/-- **The statements outside all definitions are those that one comes to through blocks alone.** -/
theorem mem_openStatementsIn_iff {body : List Stmt} {s : Stmt} :
    s ∈ openStatementsIn body ↔ StandsIn body [] s := by
  constructor
  · exact standsIn_of_mem_openStatementsIn body (fun _ => .here) s
  · intro h
    generalize haround : ([] : List Definition) = around at h
    induction h with
    | here hs => exact mem_openStatementsIn_of_mem hs
    | block outer hb hs ih =>
        refine openStatementsIn_trans body (ih haround) ?_
        rw [openStatementsOf]
        exact List.mem_cons_of_mem _ (mem_openStatementsInBlocks_of_mem hb hs)
    | definition hout hd hs => exact absurd haround (by simp)

section Statements

variable {body : List Stmt}

mutual

/-- Every statement at any depth has its definitions around it. -/
theorem exists_standsIn_of_mem_statementsIn : (part : List Stmt) → {around : List Definition} →
    (∀ s ∈ part, StandsIn body around s) → ∀ s ∈ statementsIn part, ∃ around, StandsIn body around s
  | [], _, _ => fun _ hs => absurd hs List.not_mem_nil
  | t :: rest, _, h => by
      rw [List.forall_mem_cons] at h
      rw [statementsIn, List.forall_mem_append]
      exact ⟨exists_standsIn_of_mem_statementsOf t h.1,
        exists_standsIn_of_mem_statementsIn rest h.2⟩

theorem exists_standsIn_of_mem_statementsOf : (t : Stmt) → {around : List Definition} →
    StandsIn body around t → ∀ s ∈ statementsOf t, ∃ around, StandsIn body around s
  | .functionDef head inner, around, h => by
      rw [statementsOf, List.forall_mem_cons]
      exact ⟨⟨around, h⟩, exists_standsIn_of_mem_statementsIn inner fun s hs =>
        h.definition (d := .function { head with body := inner }) rfl hs⟩
  | .classDef head inner, around, h => by
      rw [statementsOf, List.forall_mem_cons]
      exact ⟨⟨around, h⟩, exists_standsIn_of_mem_statementsIn inner fun s hs =>
        h.definition (d := .class { head with body := inner }) rfl hs⟩
  | .compound head blocks, around, h => by
      rw [statementsOf, List.forall_mem_cons]
      exact ⟨⟨around, h⟩, exists_standsIn_of_mem_statementsInBlocks blocks fun b hb s hs =>
        h.block hb hs⟩
  | .importing _, around, h | .returning _, around, h | .assign _, around, h | .expr _, around, h
  | .comment _, around, h | .pass _, around, h | .raise _, around, h | .other _, around, h =>
      fun _ hs => ⟨around, List.mem_singleton.mp hs ▸ h⟩

theorem exists_standsIn_of_mem_statementsInBlocks : (blocks : List (List Stmt)) →
    {around : List Definition} → (∀ b ∈ blocks, ∀ s ∈ b, StandsIn body around s) →
      ∀ s ∈ statementsInBlocks blocks, ∃ around, StandsIn body around s
  | [], _, _ => fun _ hs => absurd hs List.not_mem_nil
  | b :: rest, _, h => by
      rw [List.forall_mem_cons] at h
      rw [statementsInBlocks, List.forall_mem_append]
      exact ⟨exists_standsIn_of_mem_statementsIn b h.1,
        exists_standsIn_of_mem_statementsInBlocks rest h.2⟩

end

end Statements

/-- Every function and class of a module stands in it somewhere. -/
theorem Module.exists_standsIn {m : Module} {d : Definition} (h : d ∈ m.definitions) :
    ∃ around s, StandsIn m.body around s ∧ s.definition? = some d := by
  obtain ⟨s, hs, hd⟩ := List.mem_filterMap.mp h
  obtain ⟨around, hin⟩ := exists_standsIn_of_mem_statementsIn m.body (fun _ => .here) s hs
  exact ⟨around, s, hin, hd⟩

end Plumbline
