/-
Which assignments to a name are known.

Assignments are collected through the blocks of compound statements and not in definitions, and the
first statement that binds the name in another way ends the search without an answer.  All of this is
about the statements outside definitions, whatever blocks they stand in (`assignmentsIn_eq`), so there
is an answer exactly if none of them binds the name in another way, and then the answer is what they
assign, in their order.
-/
import Plumbline.Proofs.Module.Nesting

namespace Plumbline

namespace Stmt

/-- Does the statement by itself bind `name`, other than by an assignment to it alone? -/
def rebinds (name : String) : Stmt → Bool
  | .assign a => a.targets.contains name && a.targets.length != 1
  | .functionDef h _ => h.name == name
  | .classDef h _ => h.name == name
  | .importing i => i.wildcard || i.names.any (·.boundName == name)
  | _ => false

/-- The assignment to `name` that the statement is. -/
def assignmentTo? (name : String) : Stmt → Option Assign
  | .assign a => if a.targets.contains name then some a else none
  | _ => none

end Stmt

/-- The assignments to `name` among some statements, if none of these binds it in another way. -/
def assignmentsAmong (name : String) (statements : List Stmt) : Option (List Assign) :=
  if statements.any (·.rebinds name) then none
  else some (statements.filterMap (·.assignmentTo? name))

theorem assignmentsAmong_append (name : String) (a b : List Stmt) :
    assignmentsAmong name (a ++ b) = (do
      let own ← assignmentsAmong name a
      let more ← assignmentsAmong name b
      pure (own ++ more)) := by
  unfold assignmentsAmong
  rw [List.any_append, List.filterMap_append]
  cases a.any (·.rebinds name) with
  | true => rfl
  | false =>
      cases b.any (·.rebinds name) with
      | true => rfl
      | false => rfl

mutual

/-- Assignments are looked for in all statements that are not inside a definition. -/
theorem assignmentsIn_eq (name : String) : (body : List Stmt) →
    assignmentsIn name body = assignmentsAmong name (openStatementsIn body)
  | [] => rfl
  | s :: rest => by
      rw [assignmentsIn, openStatementsIn, assignmentsAmong_append, assignmentsOf_eq name s,
        assignmentsIn_eq name rest]

theorem assignmentsOf_eq (name : String) : (s : Stmt) →
    assignmentsOf name s = assignmentsAmong name (openStatementsOf s)
  | .assign a => by
      show (if a.targets.contains name then _ else _) = assignmentsAmong name [.assign a]
      by_cases htarget : name ∈ a.targets
      · by_cases hlength : a.targets.length = 1
        · simp [assignmentsAmong, Stmt.rebinds, Stmt.assignmentTo?, htarget, hlength]
        · simp [assignmentsAmong, Stmt.rebinds, htarget, hlength]
      · simp [assignmentsAmong, Stmt.rebinds, Stmt.assignmentTo?, htarget]
  | .functionDef h _ => by
      show (if h.name = name then none else some []) = assignmentsAmong name _
      by_cases hname : h.name = name
      · simp [assignmentsAmong, openStatementsOf, Stmt.rebinds, hname]
      · simp [assignmentsAmong, openStatementsOf, Stmt.rebinds, Stmt.assignmentTo?, hname]
  | .classDef h _ => by
      show (if h.name = name then none else some []) = assignmentsAmong name _
      by_cases hname : h.name = name
      · simp [assignmentsAmong, openStatementsOf, Stmt.rebinds, hname]
      · simp [assignmentsAmong, openStatementsOf, Stmt.rebinds, Stmt.assignmentTo?, hname]
  | .importing i => by
      show (if i.wildcard || i.names.any (·.boundName == name) then none else some []) =
        assignmentsAmong name [.importing i]
      unfold assignmentsAmong
      rw [List.any_cons, List.any_nil, Bool.or_false]
      rfl
  | .compound _ blocks => by
      rw [assignmentsOf, openStatementsOf, assignmentsInBlocks_eq name blocks,
        ← List.singleton_append, assignmentsAmong_append]
      exact (bind_pure (assignmentsAmong name (openStatementsInBlocks blocks))).symm
  | .returning _ | .expr _ | .comment _ | .pass _ | .raise _ | .other _ => rfl

theorem assignmentsInBlocks_eq (name : String) : (blocks : List (List Stmt)) →
    assignmentsInBlocks name blocks = assignmentsAmong name (openStatementsInBlocks blocks)
  | [] => rfl
  | b :: rest => by
      rw [assignmentsInBlocks, openStatementsInBlocks, assignmentsAmong_append,
        assignmentsIn_eq name b, assignmentsInBlocks_eq name rest]

end

theorem assignmentsIn_eq_some_iff {name : String} {body : List Stmt} {all : List Assign} :
    assignmentsIn name body = some all ↔
      (∀ s ∈ openStatementsIn body, s.rebinds name = false) ∧
        all = (openStatementsIn body).filterMap (·.assignmentTo? name) := by
  have hnone : (openStatementsIn body).any (·.rebinds name) = false ↔
      ∀ s ∈ openStatementsIn body, s.rebinds name = false := by
    rw [List.any_eq_false]
    simp only [Bool.not_eq_true]
  rw [assignmentsIn_eq, assignmentsAmong, ← hnone]
  by_cases hany : (openStatementsIn body).any (·.rebinds name) = true
  · rw [if_pos hany]
    simp [hany]
  · rw [if_neg hany]
    simp [hany, eq_comm]

/-! ### The same without Booleans -/

/-- By itself the statement binds `name` in another way than by an assignment to it alone. -/
inductive Stmt.BindsOtherwise (name : String) : Stmt → Prop where
  | function {head : FunctionHead} {body : List Stmt} (hname : head.name = name) :
      BindsOtherwise name (.functionDef head body)
  | «class» {head : ClassHead} {body : List Stmt} (hname : head.name = name) :
      BindsOtherwise name (.classDef head body)
  | imported {i : Import} {n : ImportedName} (hn : n ∈ i.names) (hname : n.boundName = name) :
      BindsOtherwise name (.importing i)
  /-- It may import the name. -/
  | wildcard {i : Import} (hall : i.wildcard = true) : BindsOtherwise name (.importing i)
  /-- The name gets one of several parts of the value. -/
  | several {a : Assign} (hname : name ∈ a.targets) (hmany : 1 < a.targets.length) :
      BindsOtherwise name (.assign a)

theorem Stmt.rebinds_iff {name : String} (s : Stmt) :
    s.rebinds name = true ↔ s.BindsOtherwise name := by
  constructor
  · intro h
    cases s with
    | functionDef head body => exact .function (by simpa [rebinds] using h)
    | classDef head body => exact .class (by simpa [rebinds] using h)
    | importing i =>
        rcases Bool.or_eq_true_iff.mp h with hall | hany
        · exact .wildcard hall
        · obtain ⟨n, hn, hname⟩ := List.any_eq_true.mp hany
          exact .imported hn (by simpa using hname)
    | assign a =>
        obtain ⟨hname, hlength⟩ : name ∈ a.targets ∧ a.targets.length ≠ 1 := by
          simpa [rebinds] using h
        have hpos := List.length_pos_of_mem hname
        exact .several hname (by omega)
    | _ => cases h
  · intro h
    cases h with
    | function hname => simpa [rebinds] using hname
    | «class» hname => simpa [rebinds] using hname
    | imported hn hname =>
        exact Bool.or_eq_true_iff.mpr
          (Or.inr (List.any_eq_true.mpr ⟨_, hn, by simpa using hname⟩))
    | wildcard hall => exact Bool.or_eq_true_iff.mpr (Or.inl hall)
    | several hname hmany =>
        have hlength := Nat.ne_of_gt hmany
        simp [rebinds, hname, hlength]

theorem Stmt.assignmentTo?_eq_some_iff {name : String} {s : Stmt} {a : Assign} :
    s.assignmentTo? name = some a ↔ s = .assign a ∧ name ∈ a.targets := by
  cases s with
  | assign b =>
      by_cases hname : name ∈ b.targets
      · simp only [assignmentTo?, List.contains_iff_mem, if_pos hname, Option.some.injEq,
          Stmt.assign.injEq]
        exact ⟨fun h => ⟨h, h ▸ hname⟩, fun h => h.1⟩
      · simp only [assignmentTo?, List.contains_iff_mem, if_neg hname, Stmt.assign.injEq]
        exact ⟨fun h => absurd h (by simp), fun h => absurd (h.1 ▸ h.2) hname⟩
  | _ => simp [assignmentTo?]

/-- What is said of all assignments to `name` in a scope with that body, where `indirect` are the names
that it binds in ways that are no statements, such as loops and patterns. -/
structure AreAssignments (indirect : NameSet) (body : List Stmt) (name : String)
    (all : List Assign) : Prop where
  direct : name ∉ indirect.toList
  /-- No statement of the scope's own, in whatever blocks it stands, binds the name otherwise. -/
  alone : ∀ s, StandsIn body [] s → ¬ s.BindsOtherwise name
  /-- None of its own assignments to the name is missing, and no other is among them. -/
  mem : ∀ a, a ∈ all ↔ StandsIn body [] (.assign a) ∧ name ∈ a.targets
  /-- They are in the order of the statements. -/
  order : all = (openStatementsIn body).filterMap (·.assignmentTo? name)

/-- In both kinds of scope the same is asked of the names and of the statements. -/
theorem areAssignments_iff {indirect : NameSet} {body : List Stmt} {name : String}
    {all : List Assign} :
    (if indirect.contains name then none else assignmentsIn name body) = some all ↔
      AreAssignments indirect body name all := by
  have hdirect : indirect.contains name = true ↔ name ∈ indirect.toList := List.contains_iff_mem
  have halone : (∀ s ∈ openStatementsIn body, s.rebinds name = false) ↔
      ∀ s, StandsIn body [] s → ¬ s.BindsOtherwise name := by
    refine forall_congr' fun s => ?_
    rw [mem_openStatementsIn_iff, ← Stmt.rebinds_iff, Bool.not_eq_true]
  constructor
  · intro h
    split at h
    · cases h
    · rename_i hindirect
      obtain ⟨hrebinds, rfl⟩ := assignmentsIn_eq_some_iff.mp h
      refine ⟨fun hname => hindirect (hdirect.mpr hname), halone.mp hrebinds, fun a => ?_, rfl⟩
      rw [List.mem_filterMap, ← mem_openStatementsIn_iff]
      constructor
      · rintro ⟨s, hs, ha⟩
        obtain ⟨rfl, hname⟩ := Stmt.assignmentTo?_eq_some_iff.mp ha
        exact ⟨hs, hname⟩
      · exact fun ⟨hs, hname⟩ => ⟨_, hs, Stmt.assignmentTo?_eq_some_iff.mpr ⟨rfl, hname⟩⟩
  · intro h
    rw [if_neg (fun hindirect => h.direct (hdirect.mp hindirect))]
    exact assignmentsIn_eq_some_iff.mpr ⟨halone.mpr h.alone, h.order⟩

/-- **When the assignments to a name are known, and which they are.** A function and a module answer
with a list exactly if the name is not bound indirectly and no statement outside nested definitions
binds it in another way than by an assignment to it alone; and the list is then all assignments to it
there, in source order. -/
theorem assignments_known_iff (name : String) (all : List Assign) :
    (∀ f : FunctionDef, f.localAssignments name = some all ↔
      AreAssignments f.indirect f.body name all) ∧
    ∀ m : Module, m.globalAssignments name = some all ↔
      AreAssignments m.indirect m.body name all :=
  ⟨fun _ => areAssignments_iff, fun _ => areAssignments_iff⟩

end Plumbline
