/-
Definitions are named by where they stand.

Going down into a definition adds its name to the names around, and tells whether it is a class; going
down into a block changes neither.  So what is handed down to a statement is told by the definitions
around it alone (`NamedIn.standsIn`), and a qualified name is that of its place.

The names around may as well be kept on a stack, which a definition puts its name on before its body is
read and takes it off again after that.  Every construct leaves such a stack as it found it, whatever it
comes to, and reads what the names that are handed down give (`reads_stackedStmt?`).
-/
import Plumbline.Module.Stacked
import Plumbline.Proofs.Module.Nesting

namespace Plumbline

namespace Lower

variable {source : List Char} {scope : List String} {inClass : Bool}

theorem functionHead?_eq_some {decorators : List Decorator} {header : Span} {t : Syntax.Tree}
    {h : FunctionHead} (hhead : functionHead? source scope inClass decorators header t = some h) :
    h.qualname = ".".intercalate (scope ++ [h.name]) ∧ h.isMethod = inClass := by
  obtain ⟨name, -, hrest⟩ := Option.bind_eq_some_iff.mp hhead
  obtain ⟨params, -, hrest⟩ := Option.bind_eq_some_iff.mp hrest
  cases hrest
  exact ⟨rfl, rfl⟩

theorem classHead?_eq_some {decorators : List Decorator} {header : Span} {t : Syntax.Tree}
    {h : ClassHead} (hhead : classHead? source scope decorators header t = some h) :
    h.qualname = ".".intercalate (scope ++ [h.name]) := by
  obtain ⟨name, -, hrest⟩ := Option.bind_eq_some_iff.mp hhead
  cases hrest
  rfl

/-! ### Names that are handed down -/

/-- The statement and all definitions in it are named as inside definitions of the names `scope`, the
nearest of which is a class or not. -/
inductive NamedIn : List String → Bool → Stmt → Prop where
  | function {scope : List String} {inClass : Bool} {head : FunctionHead} {body : List Stmt}
      (hname : head.qualname = ".".intercalate (scope ++ [head.name]))
      (hmethod : head.isMethod = inClass)
      (hbody : ∀ s ∈ body, NamedIn (scope ++ [head.name]) false s) :
      NamedIn scope inClass (.functionDef head body)
  | «class» {scope : List String} {inClass : Bool} {head : ClassHead} {body : List Stmt}
      (hname : head.qualname = ".".intercalate (scope ++ [head.name]))
      (hbody : ∀ s ∈ body, NamedIn (scope ++ [head.name]) true s) :
      NamedIn scope inClass (.classDef head body)
  | compound {scope : List String} {inClass : Bool} {head : CompoundHead}
      {blocks : List (List Stmt)} (hblocks : ∀ b ∈ blocks, ∀ s ∈ b, NamedIn scope inClass s) :
      NamedIn scope inClass (.compound head blocks)
  | plain {scope : List String} {inClass : Bool} {s : Stmt} (hplain : s.definition? = none)
      (hblocks : ∀ head blocks, s ≠ .compound head blocks) : NamedIn scope inClass s

theorem namedIn_simple? {t : Syntax.Tree} {s : Stmt} (h : simple? source t = some s) :
    NamedIn scope inClass s := by
  unfold simple? at h
  split at h
  case h_5 =>
    obtain ⟨inner, -, rfl⟩ := Option.map_eq_some_iff.mp h
    split <;> exact .plain rfl nofun
  all_goals
    obtain rfl := Option.some.inj h
    exact .plain rfl nofun

mutual

theorem namedIn_stmt? {scope : List String} {inClass : Bool} {s : Stmt} : (t : Syntax.Tree) →
    stmt? source scope inClass t = some s → NamedIn scope inClass s
  | .node k f span cs, h => by
      rw [stmt?.eq_def] at h
      dsimp only at h
      split at h
      · obtain ⟨head, hhead, rfl⟩ := Option.map_eq_some_iff.mp h
        obtain ⟨hname, hmethod⟩ := functionHead?_eq_some hhead
        exact .function hname hmethod (namedIn_body cs)
      · obtain ⟨head, hhead, rfl⟩ := Option.map_eq_some_iff.mp h
        exact .class (classHead?_eq_some hhead) (namedIn_body cs)
      · exact namedIn_definition? cs h
      · split at h
        · obtain rfl := Option.some.inj h
          exact .compound (namedIn_blocks cs)
        · exact namedIn_simple? h

theorem namedIn_stmts {scope : List String} {inClass : Bool} : (cs : List Syntax.Tree) →
    ∀ s ∈ stmts source scope inClass cs, NamedIn scope inClass s
  | [] => fun _ hs => absurd hs (by simp [stmts])
  | t :: ts => by
      rw [stmts, List.forall_mem_append]
      exact ⟨fun s hs => namedIn_stmt? t (Option.mem_toList.mp hs), namedIn_stmts ts⟩

theorem namedIn_body {scope : List String} {inClass : Bool} : (cs : List Syntax.Tree) →
    ∀ s ∈ body source scope inClass cs, NamedIn scope inClass s
  | [] => fun _ hs => absurd hs (by simp [body])
  | .node k f span cs :: ts => by
      rw [body]
      split
      · exact namedIn_stmts cs
      · exact namedIn_body ts

theorem namedIn_definition? {scope : List String} {inClass : Bool} {decorators : List Decorator}
    {header : Span} {s : Stmt} : (cs : List Syntax.Tree) →
    definition? source scope inClass decorators header cs = some s → NamedIn scope inClass s
  | [], h => absurd h (by simp [definition?])
  | .node k f span cs :: ts, h => by
      rw [definition?.eq_def] at h
      dsimp only at h
      split at h
      · split at h
        · obtain ⟨head, hhead, rfl⟩ := Option.map_eq_some_iff.mp h
          obtain ⟨hname, hmethod⟩ := functionHead?_eq_some hhead
          exact .function hname hmethod (namedIn_body cs)
        · obtain ⟨head, hhead, rfl⟩ := Option.map_eq_some_iff.mp h
          exact .class (classHead?_eq_some hhead) (namedIn_body cs)
        · obtain rfl := Option.some.inj h
          exact .plain rfl nofun
      · exact namedIn_definition? ts h

/-- Blocks are named like what is around them, those of clauses as well. -/
theorem namedIn_blocks {scope : List String} {inClass : Bool} : (cs : List Syntax.Tree) →
    ∀ b ∈ blocks source scope inClass cs, ∀ s ∈ b, NamedIn scope inClass s
  | [] => fun _ hb => absurd hb (by simp [blocks])
  | .node k f span cs :: ts => by
      rw [blocks, List.forall_mem_append]
      refine ⟨?_, namedIn_blocks ts⟩
      split
      · exact List.forall_mem_singleton.mpr (namedIn_stmts cs)
      · split
        · exact namedIn_blocks cs
        · exact fun _ hb => absurd hb List.not_mem_nil

end

/-- Is the nearest of the definitions a class?  Outside all of them `inClass` is the answer. -/
def nearestIsClass (inClass : Bool) (around : List Definition) : Bool :=
  (around.getLast?.map (·.isClass)).getD inClass

/-- **What is handed down to a place is told by the definitions around it.** -/
theorem NamedIn.standsIn {body : List Stmt} (h : ∀ s ∈ body, NamedIn scope inClass s)
    {around : List Definition} {s : Stmt} (hs : StandsIn body around s) :
    NamedIn (scope ++ around.map (·.name)) (nearestIsClass inClass around) s := by
  induction hs with
  | here hs => simpa [nearestIsClass] using h _ hs
  | block outer hb hs ih =>
      cases ih with
      | compound hblocks => exact hblocks _ hb _ hs
      | plain hplain hnone => exact absurd rfl (hnone _ _)
  | definition hout hd hs ih =>
      rw [List.map_append, ← List.append_assoc, nearestIsClass, List.getLast?_concat]
      cases ih with
      | function hname hmethod hbody =>
          obtain rfl := Option.some.inj hd
          exact hbody _ hs
      | «class» hname hbody =>
          obtain rfl := Option.some.inj hd
          exact hbody _ hs
      | compound hblocks => exact absurd hd (by simp [Stmt.definition?])
      | plain hplain hnone => exact absurd (hplain.symm.trans hd) (by simp)

/-! ### Names on a stack -/

/-- The reader leaves every stack as it is and reads what the names on it give. -/
def Reads {α : Type} (read : Stacked α) (result : List String → α) : Prop :=
  ∀ stack, read.run stack = (result stack, stack)

namespace Reads

variable {α β : Type} {read : Stacked α} {result : List String → α}

theorem pure (a : α) : Reads (Pure.pure a) fun _ => a := fun _ => rfl

theorem bind {next : α → Stacked β} {result' : α → List String → β} (h : Reads read result)
    (hnext : ∀ a, Reads (next a) (result' a)) :
    Reads (read >>= next) fun stack => result' (result stack) stack := by
  intro stack
  rw [StateT.run_bind, h stack]
  exact hnext (result stack) stack

theorem map (f : α → β) (h : Reads read result) : Reads (f <$> read) fun stack => f (result stack) := by
  intro stack
  rw [StateT.run_map, h stack]
  rfl

/-- **A definition takes its name off the stack again.** -/
theorem inside (name : String) (h : Reads read result) :
    Reads (Lower.inside name read) fun stack =>
      (".".intercalate (stack ++ [name]), result (stack ++ [name])) := by
  intro stack
  have hread := h (stack ++ [name])
  have hrun : (Lower.inside name read).run stack =
      ((".".intercalate (stack ++ [name]), (read.run (stack ++ [name])).1),
        (read.run (stack ++ [name])).2.dropLast) := rfl
  rw [hrun, hread, List.dropLast_concat]

end Reads

/-- The names around a function only tell its qualified name. -/
theorem functionHead?_scope (scope : List String) (inClass : Bool) (decorators : List Decorator)
    (header : Span) (t : Syntax.Tree) :
    functionHead? source scope inClass decorators header t =
      (functionHead? source [] inClass decorators header t).map fun h =>
        { h with qualname := ".".intercalate (scope ++ [h.name]) } := by
  unfold functionHead?
  cases t.child? .name with
  | none => rfl
  | some name =>
      cases t.child? .parameters with
      | none => rfl
      | some params => rfl

theorem classHead?_scope (scope : List String) (decorators : List Decorator) (header : Span)
    (t : Syntax.Tree) :
    classHead? source scope decorators header t =
      (classHead? source [] decorators header t).map fun h =>
        { h with qualname := ".".intercalate (scope ++ [h.name]) } := by
  unfold classHead?
  cases t.child? .name with
  | none => rfl
  | some name => rfl

theorem reads_stackedFunction {decorators : List Decorator} {header : Span} {t : Syntax.Tree}
    {inner : Stacked (List Stmt)} {result : List String → List Stmt} (h : Reads inner result) :
    Reads (stackedFunction (functionHead? source [] inClass decorators header t) inner)
      fun stack => (functionHead? source stack inClass decorators header t).map fun h =>
        .functionDef h (result (stack ++ [h.name])) := by
  intro stack
  dsimp only
  rw [functionHead?_scope stack]
  cases functionHead? source [] inClass decorators header t with
  | none => rfl
  | some head => exact ((h.inside head.name).bind fun _ => .pure _) stack

theorem reads_stackedClass {decorators : List Decorator} {header : Span} {t : Syntax.Tree}
    {inner : Stacked (List Stmt)} {result : List String → List Stmt} (h : Reads inner result) :
    Reads (stackedClass (classHead? source [] decorators header t) inner)
      fun stack => (classHead? source stack decorators header t).map fun h =>
        .classDef h (result (stack ++ [h.name])) := by
  intro stack
  dsimp only
  rw [classHead?_scope stack]
  cases classHead? source [] decorators header t with
  | none => rfl
  | some head => exact ((h.inside head.name).bind fun _ => .pure _) stack

/-- What is marked as a definition may be neither a function nor a class. -/
theorem definition?_other {scope : List String} {inClass : Bool} {decorators : List Decorator}
    {header span : Span} {k : Syntax.Kind} {f : Option Syntax.Field} {cs ts : List Syntax.Tree}
    (hfield : f = some .definition) (hfunction : k ≠ .functionDefinition)
    (hclass : k ≠ .classDefinition) :
    definition? source scope inClass decorators header (.node k f span cs :: ts) =
      some (.other header) := by
  rw [definition?, if_pos hfield]
  dsimp only
  split
  · exact absurd rfl hfunction
  · exact absurd rfl hclass
  · rfl

mutual

/-- **Reading a statement leaves the stack as it was**, and gives what the names on it give. -/
theorem reads_stackedStmt? : (inClass : Bool) → (t : Syntax.Tree) →
    Reads (stackedStmt? source inClass t) fun stack => stmt? source stack inClass t
  | inClass, .node k f span cs => by
      intro stack
      dsimp only
      rw [stackedStmt?.eq_def]
      dsimp only
      split
      · rw [stmt?]
        exact reads_stackedFunction (reads_stackedBody false cs) stack
      · rw [stmt?]
        exact reads_stackedClass (reads_stackedBody true cs) stack
      · rw [stmt?]
        exact reads_stackedDefinition? inClass _ _ cs stack
      · rw [stmt?]
        · cases compoundKind? k with
          | none => rfl
          | some kind => exact ((reads_stackedBlocks inClass cs).bind fun _ => .pure _) stack
        all_goals assumption

theorem reads_stackedStmts : (inClass : Bool) → (cs : List Syntax.Tree) →
    Reads (stackedStmts source inClass cs) fun stack => stmts source stack inClass cs
  | _, [] => .pure []
  | inClass, t :: ts => by
      intro stack
      dsimp only
      rw [stackedStmts, stmts]
      exact ((reads_stackedStmt? inClass t).bind fun _ =>
        (reads_stackedStmts inClass ts).bind fun _ => .pure _) stack

theorem reads_stackedBody : (inClass : Bool) → (cs : List Syntax.Tree) →
    Reads (stackedBody source inClass cs) fun stack => body source stack inClass cs
  | _, [] => .pure []
  | inClass, .node k f span cs :: ts => by
      intro stack
      dsimp only
      rw [stackedBody, body]
      split
      · exact reads_stackedStmts inClass cs stack
      · exact reads_stackedBody inClass ts stack

theorem reads_stackedDefinition? : (inClass : Bool) → (decorators : List Decorator) →
    (header : Span) → (cs : List Syntax.Tree) →
    Reads (stackedDefinition? source inClass decorators header cs) fun stack =>
      definition? source stack inClass decorators header cs
  | _, _, _, [] => .pure none
  | inClass, decorators, header, .node k f span cs :: ts => by
      intro stack
      dsimp only
      rw [stackedDefinition?.eq_def]
      dsimp only
      split
      · rename_i hfield
        split
        · rw [definition?, if_pos hfield]
          exact reads_stackedFunction (reads_stackedBody false cs) stack
        · rw [definition?, if_pos hfield]
          exact reads_stackedClass (reads_stackedBody true cs) stack
        · rename_i hfunction hclass
          rw [definition?_other hfield hfunction hclass]
          rfl
      · rename_i hfield
        rw [definition?, if_neg hfield]
        exact reads_stackedDefinition? inClass decorators header ts stack

theorem reads_stackedBlocks : (inClass : Bool) → (cs : List Syntax.Tree) →
    Reads (stackedBlocks source inClass cs) fun stack => blocks source stack inClass cs
  | _, [] => .pure []
  | inClass, .node k f span cs :: ts => by
      have hown : Reads (if k = .block then List.singleton <$> stackedStmts source inClass cs
          else if k.isClause then stackedBlocks source inClass cs else pure []) fun stack =>
          if k = .block then [stmts source stack inClass cs]
          else if k.isClause then blocks source stack inClass cs else [] := by
        intro stack
        split
        · exact (reads_stackedStmts inClass cs).map _ stack
        · split
          · exact reads_stackedBlocks inClass cs stack
          · rfl
      intro stack
      dsimp only
      rw [stackedBlocks, blocks]
      exact (hown.bind fun _ => (reads_stackedBlocks inClass ts).bind fun _ => .pure _) stack

end

end Lower

/-- **A definition is named by the definitions around it, and a function is a method if the nearest of
them is a class.** This is so for all functions and classes of a module, each of which stands somewhere
in it, whatever blocks lie between.  And lowering may as well keep the names around on a stack: every
statement leaves the stack as it found it, whether it is kept or left out. -/
theorem definitions_named_by_place (path : Path) (name source : String) (tree : Syntax.Tree) :
    let m := Module.ofTree path name source tree
    (∀ d ∈ m.definitions, ∃ around s, StandsIn m.body around s ∧ s.definition? = some d) ∧
    (∀ around s d, StandsIn m.body around s → s.definition? = some d →
      d.qualname = ".".intercalate (around.map (·.name) ++ [d.name]) ∧
      ∀ f, d = .function f → (f.isMethod = true ↔ ∃ c, around.getLast? = some (.class c))) ∧
    ∀ t inClass stack, (Lower.stackedStmt? source.toList inClass t).run stack =
      (Lower.stmt? source.toList stack inClass t, stack) := by
  refine ⟨fun d hd => Module.exists_standsIn hd, fun around s d hs hd => ?_,
    fun t inClass => Lower.reads_stackedStmt? inClass t⟩
  have hnamed := Lower.NamedIn.standsIn (Lower.namedIn_stmts tree.children) hs
  rw [List.nil_append] at hnamed
  have hnearest : Lower.nearestIsClass false around = true ↔
      ∃ c, around.getLast? = some (.class c) := by
    unfold Lower.nearestIsClass
    cases around.getLast? with
    | none => simp
    | some d => cases d <;> simp [Definition.isClass]
  cases hnamed with
  | function hname hmethod hbody =>
      obtain rfl := Option.some.inj hd
      refine ⟨hname, fun f hf => ?_⟩
      cases hf
      rw [← hnearest, ← hmethod]
  | «class» hname hbody =>
      obtain rfl := Option.some.inj hd
      exact ⟨hname, nofun⟩
  | compound hblocks => exact absurd hd (by simp [Stmt.definition?])
  | plain hplain hnone => exact absurd (hplain.symm.trans hd) (by simp)

end Plumbline
