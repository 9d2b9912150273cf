/-
A walk enters every node once, outer before inner and earlier before later.

The parts of a node are what a walk goes on to from there, and each part has its own innermost
definitions: decorators, bases and defaults those of the node, a body the definition itself
(`Node.parts`).  A walk through a node enters it, walks through its parts in their order and leaves
it (`Node.visits_eq`).

Where a node stands below another one is told by a place: which part to go to first, which part of
that next, and so on.  In the order of lists, places are in preorder.  So the nodes that a walk
enters are those at all places, in the order of the places (`inPreorder_module`).
-/
import Plumbline.Module.Node

namespace Plumbline

/-- Nodes with the innermost definitions around them. -/
abbrev Part := Around × Node

namespace Node

/-- Expressions that have the same definitions around them. -/
def expressions (around : Around) (es : List Expr) : List Part := es.map fun e => (around, expr e)

/-- Statements that have the same definitions around them. -/
def statements (around : Around) (body : List Stmt) : List Part :=
  body.map fun s => (around, stmt s)

/-- What a walk goes on to from a node, in order. -/
def parts (around : Around) : Node → List Part
  | module m => statements around m.body
  | stmt s =>
    match s with
    | .functionDef h body =>
      expressions around (h.decorators.map (·.expr)) ++
        expressions around (h.params.filterMap (·.default)) ++
        statements (around.enterFunction { h with body }) body
    | .classDef h body =>
      expressions around (h.decorators.map (·.expr)) ++ expressions around h.bases ++
        statements (around.enterClass { h with body }) body
    | .returning r => expressions around r.value.toList
    | .assign a => expressions around a.value.toList
    | .expr e => expressions around [e]
    | .compound h blocks =>
      expressions around h.heads ++ blocks.flatMap (statements around)
    | .importing _ | .comment _ | .pass _ | .raise _ | .other _ => []
  | expr e =>
    match e with
    | .member value _ _ => expressions around [value]
    | .call func args keywords _ =>
      expressions around [func] ++ expressions around args ++
        expressions around (keywords.map (·.2))
    | .collection _ items _ => expressions around items
    | .literal _ _ | .name _ _ | .other _ => []

/-- The walk through a node. -/
def visits (around : Around) : Node → List Visit
  | module m => enclosed around (.module m) (visitsOfBlock around m.body)
  | stmt s => visitsOfStmt around s
  | expr e => visitsOfExpr around e

end Node

/-- The walks through several nodes, one after the other. -/
def visitsOfParts (ps : List Part) : List Visit := ps.flatMap fun p => p.2.visits p.1

@[simp] theorem visitsOfParts_append (ps qs : List Part) :
    visitsOfParts (ps ++ qs) = visitsOfParts ps ++ visitsOfParts qs :=
  List.flatMap_append

theorem visitsOfExprs_eq (around : Around) (es : List Expr) :
    visitsOfExprs around es = visitsOfParts (Node.expressions around es) := by
  induction es with
  | nil => rfl
  | cons e rest ih =>
      rw [visitsOfExprs, ih]
      rfl

theorem visitsOfKeywords_eq (around : Around) (ks : List (String × Expr)) :
    visitsOfKeywords around ks = visitsOfExprs around (ks.map (·.2)) := by
  induction ks with
  | nil => rfl
  | cons k rest ih =>
      rw [visitsOfKeywords, ih]
      rfl

theorem visitsOfBlock_eq (around : Around) (body : List Stmt) :
    visitsOfBlock around body = visitsOfParts (Node.statements around body) := by
  induction body with
  | nil => rfl
  | cons s rest ih =>
      rw [visitsOfBlock, ih]
      rfl

theorem visitsOfBlocks_eq (around : Around) (blocks : List (List Stmt)) :
    visitsOfBlocks around blocks =
      visitsOfParts (blocks.flatMap (Node.statements around)) := by
  induction blocks with
  | nil => rfl
  | cons b rest ih =>
      rw [visitsOfBlocks, ih, visitsOfBlock_eq, List.flatMap_cons, visitsOfParts_append]

/-- **A walk enters a node, goes through its parts and leaves it.** -/
theorem Node.visits_eq (around : Around) (node : Node) :
    node.visits around = enclosed around node (visitsOfParts (node.parts around)) := by
  cases node with
  | module m => rw [visits, visitsOfBlock_eq, parts]
  | stmt s =>
      cases s with
      | functionDef h body =>
          simp only [visits, visitsOfStmt, visitsOfExprs_eq, visitsOfBlock_eq, parts,
            visitsOfParts_append]
      | classDef h body =>
          simp only [visits, visitsOfStmt, visitsOfExprs_eq, visitsOfBlock_eq, parts,
            visitsOfParts_append]
      | compound h blocks =>
          simp only [visits, visitsOfStmt, visitsOfExprs_eq, visitsOfBlocks_eq, parts,
            visitsOfParts_append]
      | returning r => simp only [visits, visitsOfStmt, visitsOfExprs_eq, parts]
      | assign a => simp only [visits, visitsOfStmt, visitsOfExprs_eq, parts]
      | expr e => simp [visits, visitsOfStmt, parts, visitsOfParts, expressions]
      | _ => rfl
  | expr e =>
      cases e with
      | member value attr span => simp [visits, visitsOfExpr, parts, visitsOfParts, expressions]
      | call func args keywords span =>
          have hfunc : visitsOfExpr around func = visitsOfExprs around [func] := by
            simp [visitsOfExprs]
          rw [visits, visitsOfExpr, hfunc]
          simp only [visitsOfKeywords_eq, visitsOfExprs_eq, parts, visitsOfParts_append]
      | collection kind items span => simp only [visits, visitsOfExpr, visitsOfExprs_eq, parts]
      | _ => rfl

/-! ### Places -/

/-- The node at a place below another node, with the innermost definitions around it. -/
def Node.at? : Around → Node → List Nat → Option Part
  | around, node, [] => some (around, node)
  | around, node, i :: rest =>
    match (node.parts around)[i]? with
    | some p => p.2.at? p.1 rest
    | none => none

/-- The node at a place below several nodes. -/
def partAt? (ps : List Part) : List Nat → Option Part
  | [] => none
  | i :: rest =>
    match ps[i]? with
    | some p => p.2.at? p.1 rest
    | none => none

/-- The nodes that are entered, in order. -/
def entered (visits : List Visit) : List Part :=
  visits.filterMap fun
    | .enter around node => some (around, node)
    | .leave _ _ => none

@[simp] theorem entered_append (vs vs' : List Visit) :
    entered (vs ++ vs') = entered vs ++ entered vs' :=
  List.filterMap_append

theorem entered_enclosed (around : Around) (node : Node) (vs : List Visit) :
    entered (enclosed around node vs) = (around, node) :: entered vs := by
  simp [entered, enclosed]

/-- The visits enter the nodes at all places, each once, in the order of the places. -/
def InPreorder (at? : List Nat → Option Part) (vs : List Visit) : Prop :=
  ∃ places : List (List Nat), places.Pairwise (· < ·) ∧
    (∀ place, place ∈ places ↔ (at? place).isSome = true) ∧
    places.map at? = (entered vs).map some

/-- The place of a part if one more part comes before. -/
def nextPart : List Nat → List Nat
  | [] => []
  | i :: rest => (i + 1) :: rest

theorem nextPart_lt_nextPart {p q : List Nat} (h : p < q) : nextPart p < nextPart q := by
  cases q with
  | nil => exact absurd h (List.not_lt_nil p)
  | cons j q =>
      cases p with
      | nil => exact List.nil_lt_cons _ _
      | cons i p =>
          rw [List.cons_lt_cons_iff] at h
          rw [nextPart, nextPart, List.cons_lt_cons_iff]
          rcases h with h | ⟨rfl, h⟩
          · exact Or.inl (Nat.succ_lt_succ h)
          · exact Or.inr ⟨rfl, h⟩

theorem partAt?_nextPart (p : Part) (ps : List Part) (place : List Nat) :
    partAt? (p :: ps) (nextPart place) = partAt? ps place := by
  cases place with
  | nil => rfl
  | cons i rest => simp [nextPart, partAt?]

/-- Several nodes are walked through in preorder if each of them is. -/
theorem inPreorder_parts {ps : List Part}
    (h : ∀ p ∈ ps, InPreorder (p.2.at? p.1) (p.2.visits p.1)) :
    InPreorder (partAt? ps) (visitsOfParts ps) := by
  induction ps with
  | nil =>
      refine ⟨[], List.Pairwise.nil, fun place => ?_, rfl⟩
      cases place <;> simp [partAt?]
  | cons p ps ih =>
      obtain ⟨own, hown, hmem, hmap⟩ := h p (by simp)
      obtain ⟨more, hmore, hmem', hmap'⟩ := ih fun q hq => h q (List.mem_cons_of_mem p hq)
      have hfirst : ∀ rest, partAt? (p :: ps) (0 :: rest) = p.2.at? p.1 rest := fun _ => rfl
      have hne : ∀ place ∈ more, ∃ i rest, place = i :: rest := by
        intro place hplace
        cases place with
        | nil => exact absurd ((hmem' []).mp hplace) (by simp [partAt?])
        | cons i rest => exact ⟨i, rest, rfl⟩
      refine ⟨own.map (0 :: ·) ++ more.map nextPart, ?_, ?_, ?_⟩
      · rw [List.pairwise_append, List.pairwise_map, List.pairwise_map]
        refine ⟨hown.imp fun h => ?_, hmore.imp nextPart_lt_nextPart, ?_⟩
        · rw [List.cons_lt_cons_iff]
          exact Or.inr ⟨rfl, h⟩
        · intro place hplace place' hplace'
          obtain ⟨rest, -, rfl⟩ := List.mem_map.mp hplace
          obtain ⟨place'', hplace'', rfl⟩ := List.mem_map.mp hplace'
          obtain ⟨i, rest', rfl⟩ := hne place'' hplace''
          rw [nextPart, List.cons_lt_cons_iff]
          exact Or.inl (Nat.succ_pos i)
      · intro place
        rw [List.mem_append, List.mem_map, List.mem_map]
        cases place with
        | nil =>
            constructor
            · rintro (⟨rest, -, h⟩ | ⟨place, hplace, h⟩)
              · exact absurd h (by simp)
              · obtain ⟨i, rest, rfl⟩ := hne place hplace
                exact absurd h (by simp [nextPart])
            · intro h
              exact absurd h (by simp [partAt?])
        | cons i rest =>
            cases i with
            | zero =>
                rw [hfirst, ← hmem]
                constructor
                · rintro (⟨rest', hrest, h⟩ | ⟨place, hplace, h⟩)
                  · rwa [← (List.cons.inj h).2]
                  · obtain ⟨i, rest', rfl⟩ := hne place hplace
                    exact absurd h (by simp [nextPart])
                · intro hrest
                  exact Or.inl ⟨rest, hrest, rfl⟩
            | succ i =>
                have hnext : partAt? (p :: ps) ((i + 1) :: rest) = partAt? ps (i :: rest) :=
                  partAt?_nextPart p ps (i :: rest)
                rw [hnext, ← hmem']
                constructor
                · rintro (⟨rest', hrest, h⟩ | ⟨place, hplace, h⟩)
                  · exact absurd h (by simp)
                  · obtain ⟨j, rest', rfl⟩ := hne place hplace
                    obtain ⟨rfl, rfl⟩ : j = i ∧ rest' = rest := by simpa [nextPart] using h
                    exact hplace
                · intro hplace
                  exact Or.inr ⟨i :: rest, hplace, rfl⟩
      · have hvisits : visitsOfParts (p :: ps) = p.2.visits p.1 ++ visitsOfParts ps := rfl
        rw [hvisits, entered_append, List.map_append, List.map_append, ← hmap, ← hmap',
          List.map_map, List.map_map]
        congr 1
        exact List.map_congr_left fun place _ => partAt?_nextPart p ps place

/-- A node is walked through in preorder if its parts are. -/
theorem inPreorder_of_parts {around : Around} {node : Node}
    (h : ∀ p ∈ node.parts around, InPreorder (p.2.at? p.1) (p.2.visits p.1)) :
    InPreorder (node.at? around) (node.visits around) := by
  obtain ⟨places, hlt, hmem, hmap⟩ := inPreorder_parts h
  have hbelow : ∀ i rest, node.at? around (i :: rest) =
      partAt? (node.parts around) (i :: rest) := fun _ _ => rfl
  have hne : ∀ place ∈ places, place ≠ [] := by
    rintro place hplace rfl
    exact absurd ((hmem []).mp hplace) (by simp [partAt?])
  refine ⟨[] :: places, ?_, ?_, ?_⟩
  · refine List.pairwise_cons.mpr ⟨fun place hplace => ?_, hlt⟩
    obtain ⟨i, rest, rfl⟩ := List.exists_cons_of_ne_nil (hne place hplace)
    exact List.nil_lt_cons i rest
  · intro place
    cases place with
    | nil => simp [Node.at?]
    | cons i rest =>
        rw [hbelow, ← hmem]
        simp
  · rw [Node.visits_eq, entered_enclosed, List.map_cons, List.map_cons, ← hmap]
    congr 1
    refine List.map_congr_left fun place hplace => ?_
    obtain ⟨i, rest, rfl⟩ := List.exists_cons_of_ne_nil (hne place hplace)
    exact hbelow i rest

/-! ### All nodes -/

mutual

theorem inPreorder_expr :
    (e : Expr) → ∀ around, InPreorder ((Node.expr e).at? around) ((Node.expr e).visits around)
  | .member value _ _, around => by
      refine inPreorder_of_parts fun p hp => ?_
      obtain rfl : p = (around, .expr value) := by simpa [Node.parts, Node.expressions] using hp
      exact inPreorder_expr value around
  | .call func args keywords _, around => by
      refine inPreorder_of_parts fun p hp => ?_
      rcases List.mem_append.mp hp with hp | hp
      · rcases List.mem_append.mp hp with hp | hp
        · obtain rfl : p = (around, .expr func) := by simpa [Node.expressions] using hp
          exact inPreorder_expr func around
        · exact inPreorder_exprs args around p hp
      · exact inPreorder_keywords keywords around p hp
  | .collection _ items _, around => inPreorder_of_parts (inPreorder_exprs items around)
  | .literal _ _, _ | .name _ _, _ | .other _, _ =>
      inPreorder_of_parts fun _ hp => absurd hp List.not_mem_nil

theorem inPreorder_exprs :
    (es : List Expr) → ∀ around, ∀ p ∈ Node.expressions around es,
      InPreorder (p.2.at? p.1) (p.2.visits p.1)
  | [], _, _, hp => absurd hp List.not_mem_nil
  | e :: rest, around, p, hp => by
      rcases List.mem_cons.mp hp with rfl | hp
      · exact inPreorder_expr e around
      · exact inPreorder_exprs rest around p hp

theorem inPreorder_keywords :
    (ks : List (String × Expr)) → ∀ around, ∀ p ∈ Node.expressions around (ks.map (·.2)),
      InPreorder (p.2.at? p.1) (p.2.visits p.1)
  | [], _, _, hp => absurd hp List.not_mem_nil
  | (_, e) :: rest, around, p, hp => by
      rcases List.mem_cons.mp hp with rfl | hp
      · exact inPreorder_expr e around
      · exact inPreorder_keywords rest around p hp

end

mutual

theorem inPreorder_stmt :
    (s : Stmt) → ∀ around, InPreorder ((Node.stmt s).at? around) ((Node.stmt s).visits around)
  | .functionDef h body, around => by
      refine inPreorder_of_parts fun p hp => ?_
      rcases List.mem_append.mp hp with hp | hp
      · rcases List.mem_append.mp hp with hp | hp
        · exact inPreorder_exprs _ around p hp
        · exact inPreorder_exprs _ around p hp
      · exact inPreorder_block body _ p hp
  | .classDef h body, around => by
      refine inPreorder_of_parts fun p hp => ?_
      rcases List.mem_append.mp hp with hp | hp
      · rcases List.mem_append.mp hp with hp | hp
        · exact inPreorder_exprs _ around p hp
        · exact inPreorder_exprs _ around p hp
      · exact inPreorder_block body _ p hp
  | .compound h blocks, around => by
      refine inPreorder_of_parts fun p hp => ?_
      rcases List.mem_append.mp hp with hp | hp
      · exact inPreorder_exprs _ around p hp
      · exact inPreorder_blocks blocks around p hp
  | .returning r, around => inPreorder_of_parts (inPreorder_exprs r.value.toList around)
  | .assign a, around => inPreorder_of_parts (inPreorder_exprs a.value.toList around)
  | .expr e, around => inPreorder_of_parts (inPreorder_exprs [e] around)
  | .importing _, _ | .comment _, _ | .pass _, _ | .raise _, _ | .other _, _ =>
      inPreorder_of_parts fun _ hp => absurd hp List.not_mem_nil

theorem inPreorder_block :
    (body : List Stmt) → ∀ around, ∀ p ∈ Node.statements around body,
      InPreorder (p.2.at? p.1) (p.2.visits p.1)
  | [], _, _, hp => absurd hp List.not_mem_nil
  | s :: rest, around, p, hp => by
      rcases List.mem_cons.mp hp with rfl | hp
      · exact inPreorder_stmt s around
      · exact inPreorder_block rest around p hp

theorem inPreorder_blocks :
    (blocks : List (List Stmt)) → ∀ around, ∀ p ∈ blocks.flatMap (Node.statements around),
      InPreorder (p.2.at? p.1) (p.2.visits p.1)
  | [], _, _, hp => absurd hp List.not_mem_nil
  | b :: rest, around, p, hp => by
      rw [List.flatMap_cons] at hp
      rcases List.mem_append.mp hp with hp | hp
      · exact inPreorder_block b around p hp
      · exact inPreorder_blocks rest around p hp

end

/-- **A walk through a module enters its nodes in preorder**, each of them once. -/
theorem inPreorder_module (m : Module) : InPreorder ((Node.module m).at? {}) m.visits :=
  inPreorder_of_parts (inPreorder_block m.body {})

end Plumbline
