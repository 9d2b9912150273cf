/-
What a function returns by its body.

A function without a return statement of its own returns nothing, if it is more than a stub and
does not raise.  Any other has the type on which its return statements agree, if it cannot fall off
its end with one of them unseen.  `bodyReturn_eq_known_iff` says so for the statements that belong
to the function, at any depth of its blocks.

The types are asked for one after the other, but each is the type that the value has by itself
(`inferType_later`).  So it makes no difference in which order a function returns its values
(`FunctionDef.Reorders`).
-/
import Plumbline.Proofs.Analysis.Alike
import Plumbline.Proofs.Analysis.InnerScope
import Plumbline.Proofs.Module.Traversal

namespace Plumbline

/-! ### The statements of a body -/

mutual

/-- The return statements of a body are those that are not inside a definition. -/
theorem mem_returnsIn {r : Return} : (body : List Stmt) →
    (r ∈ returnsIn body ↔ .returning r ∈ openStatementsIn body)
  | [] => by simp [returnsIn, openStatementsIn]
  | s :: rest => by
      rw [returnsIn, openStatementsIn, List.mem_append, List.mem_append, mem_returnsOf s,
        mem_returnsIn rest]

theorem mem_returnsOf {r : Return} : (s : Stmt) →
    (r ∈ returnsOf s ↔ .returning r ∈ openStatementsOf s)
  | .returning _ => by simp [returnsOf, openStatementsOf]
  | .compound _ blocks => by
      simp [returnsOf, openStatementsOf, mem_returnsInBlocks blocks]
  | .functionDef _ _ | .classDef _ _ | .importing _ | .assign _ | .expr _ | .comment _ | .pass _
  | .raise _ | .other _ => by simp [returnsOf, openStatementsOf]

theorem mem_returnsInBlocks {r : Return} : (blocks : List (List Stmt)) →
    (r ∈ returnsInBlocks blocks ↔ .returning r ∈ openStatementsInBlocks blocks)
  | [] => by simp [returnsInBlocks, openStatementsInBlocks]
  | b :: rest => by
      rw [returnsInBlocks, openStatementsInBlocks, List.mem_append, List.mem_append,
        mem_returnsIn b, mem_returnsInBlocks rest]

end

mutual

/-- A body raises if one of its statements does that is not inside a definition. -/
theorem raisesIn_iff : (body : List Stmt) →
    (raisesIn body = true ↔ ∃ span, .raise span ∈ openStatementsIn body)
  | [] => by simp [raisesIn, openStatementsIn]
  | s :: rest => by
      simp only [raisesIn, openStatementsIn, Bool.or_eq_true, List.mem_append, exists_or,
        raises_iff s, raisesIn_iff rest]

theorem raises_iff : (s : Stmt) →
    (raises s = true ↔ ∃ span, .raise span ∈ openStatementsOf s)
  | .raise _ => by simp [raises, openStatementsOf]
  | .compound _ blocks => by simp [raises, openStatementsOf, raisesInBlocks_iff blocks]
  | .functionDef _ _ | .classDef _ _ | .importing _ | .assign _ | .expr _ | .comment _ | .pass _
  | .returning _ | .other _ => by simp [raises, openStatementsOf]

theorem raisesInBlocks_iff : (blocks : List (List Stmt)) →
    (raisesInBlocks blocks = true ↔ ∃ span, .raise span ∈ openStatementsInBlocks blocks)
  | [] => by simp [raisesInBlocks, openStatementsInBlocks]
  | b :: rest => by
      simp only [raisesInBlocks, openStatementsInBlocks, Bool.or_eq_true, List.mem_append,
        exists_or, raisesIn_iff b, raisesInBlocks_iff rest]

end

mutual

/-- The statements without what is returned outside definitions. -/
def blankIn : List Stmt → List Stmt
  | [] => []
  | s :: rest => blankOf s :: blankIn rest

def blankOf : Stmt → Stmt
  | .returning _ => .returning {}
  | .compound h blocks => .compound h (blankInBlocks blocks)
  | s => s

def blankInBlocks : List (List Stmt) → List (List Stmt)
  | [] => []
  | b :: rest => blankIn b :: blankInBlocks rest

end

mutual

theorem raisesIn_blankIn : (body : List Stmt) → raisesIn (blankIn body) = raisesIn body
  | [] => rfl
  | s :: rest => by rw [blankIn, raisesIn, raisesIn, raises_blankOf s, raisesIn_blankIn rest]

theorem raises_blankOf : (s : Stmt) → raises (blankOf s) = raises s
  | .compound _ blocks => by rw [blankOf, raises, raises, raisesInBlocks_blankInBlocks blocks]
  | .functionDef _ _ | .classDef _ _ | .importing _ | .assign _ | .expr _ | .comment _ | .pass _
  | .returning _ | .raise _ | .other _ => rfl

theorem raisesInBlocks_blankInBlocks : (blocks : List (List Stmt)) →
    raisesInBlocks (blankInBlocks blocks) = raisesInBlocks blocks
  | [] => rfl
  | b :: rest => by
      rw [blankInBlocks, raisesInBlocks, raisesInBlocks, raisesIn_blankIn b,
        raisesInBlocks_blankInBlocks rest]

end

mutual

theorem assignmentsIn_blankIn (name : String) : (body : List Stmt) →
    assignmentsIn name (blankIn body) = assignmentsIn name body
  | [] => rfl
  | s :: rest => by
      rw [blankIn, assignmentsIn, assignmentsIn, assignmentsOf_blankOf name s,
        assignmentsIn_blankIn name rest]

theorem assignmentsOf_blankOf (name : String) : (s : Stmt) →
    assignmentsOf name (blankOf s) = assignmentsOf name s
  | .compound _ blocks => by
      rw [blankOf, assignmentsOf, assignmentsOf, assignmentsInBlocks_blankInBlocks name blocks]
  | .functionDef _ _ | .classDef _ _ | .importing _ | .assign _ | .expr _ | .comment _ | .pass _
  | .returning _ | .raise _ | .other _ => rfl

theorem assignmentsInBlocks_blankInBlocks (name : String) : (blocks : List (List Stmt)) →
    assignmentsInBlocks name (blankInBlocks blocks) = assignmentsInBlocks name blocks
  | [] => rfl
  | b :: rest => by
      rw [blankInBlocks, assignmentsInBlocks, assignmentsInBlocks, assignmentsIn_blankIn name b,
        assignmentsInBlocks_blankInBlocks name rest]

end

theorem blankIn_eq_map (body : List Stmt) : blankIn body = body.map blankOf := by
  induction body with
  | nil => rfl
  | cons s rest ih => rw [blankIn, ih, List.map_cons]

namespace FunctionDef

/-- The return statement belongs to the function. -/
def Returns (f : FunctionDef) (r : Return) : Prop := .returning r ∈ openStatementsIn f.body

/-- The last statement of the body returns or raises. -/
def EndsExplicitly (f : FunctionDef) : Prop :=
  ∃ front s, f.effectiveBody = front ++ [s] ∧
    ((∃ r, s = .returning r) ∨ ∃ span, s = .raise span)

theorem mem_ownReturns {f : FunctionDef} {r : Return} : r ∈ f.ownReturns ↔ f.Returns r :=
  mem_returnsIn f.body

theorem endsExplicitly_iff (f : FunctionDef) :
    Query.endsExplicitly f = true ↔ f.EndsExplicitly := by
  unfold Query.endsExplicitly EndsExplicitly
  cases hlast : f.effectiveBody.getLast? with
  | none =>
      obtain hnil := List.getLast?_eq_none_iff.mp hlast
      simp [hnil]
  | some s =>
      obtain ⟨front, hfront⟩ := List.getLast?_eq_some_iff.mp hlast
      rw [hfront]
      have hends : (∃ front' s', front ++ [s] = front' ++ [s'] ∧
          ((∃ r, s' = .returning r) ∨ ∃ span, s' = .raise span)) ↔
          (∃ r, s = .returning r) ∨ ∃ span, s = .raise span := by
        constructor
        · rintro ⟨front', s', heq, h⟩
          obtain ⟨-, rfl⟩ := List.append_inj' heq rfl |>.imp_right List.singleton_inj.mp
          exact h
        · exact fun h => ⟨front, s, rfl, h⟩
      rw [hends]
      cases s <;> simp

theorem effectiveBody_blankIn (f : FunctionDef) :
    { f with body := blankIn f.body }.effectiveBody = blankIn f.effectiveBody := by
  have hcomment : ((!·.isComment) ∘ blankOf) = (!·.isComment) := by
    funext s
    cases s <;> rfl
  have hdocstring : ∀ s, (blankOf s).isDocstring = s.isDocstring := by
    intro s
    cases s <;> rfl
  unfold effectiveBody
  dsimp only
  rw [blankIn_eq_map, List.filter_map, hcomment]
  cases f.body.filter (!·.isComment) with
  | nil => rfl
  | cons s rest =>
      rw [List.map_cons]
      dsimp only
      rw [hdocstring, blankIn_eq_map]
      split <;> rfl

theorem isStub_blankIn (f : FunctionDef) : { f with body := blankIn f.body }.isStub = f.isStub := by
  unfold isStub
  rw [effectiveBody_blankIn, blankIn_eq_map, List.all_map]
  congr 1
  funext s
  cases s <;> rfl

theorem endsExplicitly_blankIn (f : FunctionDef) :
    Query.endsExplicitly { f with body := blankIn f.body } = Query.endsExplicitly f := by
  unfold Query.endsExplicitly
  rw [effectiveBody_blankIn, blankIn_eq_map, List.getLast?_map]
  cases f.effectiveBody.getLast? with
  | none => rfl
  | some s => cases s <;> rfl

/-- The function is as the other, but for the order of what their return statements return. -/
structure Reorders (g f : FunctionDef) : Prop where
  head : g.toFunctionHead = f.toFunctionHead
  body : blankIn g.body = blankIn f.body
  values : (g.ownReturns.map (·.value)).Perm (f.ownReturns.map (·.value))

theorem Reorders.blank {g f : FunctionDef} (h : g.Reorders f) :
    { g with body := blankIn g.body } = { f with body := blankIn f.body } := by
  rw [h.head, h.body]

/-- The function comes to its end without a return statement, and does something before. -/
structure ComesToItsEnd (f : FunctionDef) : Prop where
  noReturn : ∀ r, ¬ f.Returns r
  noRaise : ∀ span, .raise span ∉ openStatementsIn f.body
  notStub : f.isStub = false

/-- All return statements of the function return something of the type `t`, where `typeOf` tells the
types of values. -/
structure AlwaysReturns (f : FunctionDef) (typeOf : Expr → InferredType) (t : TypeRef) : Prop where
  returns : ∃ r, f.Returns r
  ends : (∃ r value, f.Returns r ∧ r.value = some value) → f.EndsExplicitly
  values : ∀ r value, f.Returns r → r.value = some value → typeOf value = .known t
  bare : ∀ r, f.Returns r → r.value = none → t = { name := "None" }

theorem comesToItsEnd_iff (f : FunctionDef) :
    f.ComesToItsEnd ↔ f.ownReturns = [] ∧ f.containsRaise = false ∧ f.isStub = false := by
  have hnil : f.ownReturns = [] ↔ ∀ r, ¬ f.Returns r := by
    simp only [← mem_ownReturns, List.eq_nil_iff_forall_not_mem]
  have hraise : f.containsRaise = false ↔ ∀ span, .raise span ∉ openStatementsIn f.body := by
    rw [← Bool.not_eq_true, containsRaise, raisesIn_iff, not_exists]
  rw [hnil, hraise]
  exact ⟨fun h => ⟨h.noReturn, h.noRaise, h.notStub⟩, fun ⟨h, h', h''⟩ => ⟨h, h', h''⟩⟩

/-- Only what the return statements return counts, not where they stand. -/
theorem alwaysReturns_iff (f : FunctionDef) (typeOf : Expr → InferredType) (t : TypeRef) :
    f.AlwaysReturns typeOf t ↔ f.ownReturns.map (·.value) ≠ [] ∧
      ((f.ownReturns.map (·.value)).any (·.isSome) = true → Query.endsExplicitly f = true) ∧
      ∀ v ∈ f.ownReturns.map (·.value), (∀ value, v = some value → typeOf value = .known t) ∧
        (v = none → t = { name := "None" }) := by
  have hsome : (f.ownReturns.map (·.value)).any (·.isSome) = true ↔
      ∃ r value, f.Returns r ∧ r.value = some value := by
    simp [List.any_eq_true, mem_ownReturns, Option.isSome_iff_exists]
  have hne : f.ownReturns.map (·.value) ≠ [] ↔ ∃ r, f.Returns r := by
    simp only [← mem_ownReturns, ne_eq, List.map_eq_nil_iff]
    exact ⟨List.exists_mem_of_ne_nil _, fun ⟨_, hr⟩ => List.ne_nil_of_mem hr⟩
  rw [hsome, hne, endsExplicitly_iff]
  simp only [List.forall_mem_map, mem_ownReturns]
  constructor
  · exact fun h => ⟨h.returns, h.ends, fun r hr =>
      ⟨fun value => h.values r value hr, h.bare r hr⟩⟩
  · exact fun ⟨hreturns, hends, h⟩ =>
      ⟨hreturns, hends, fun r value hr => (h r hr).1 value, fun r hr => (h r hr).2⟩

namespace Reorders

variable {g f : FunctionDef}

theorem localAssignments (h : g.Reorders f) (name : String) :
    g.localAssignments name = f.localAssignments name := by
  unfold FunctionDef.localAssignments
  rw [h.head, ← assignmentsIn_blankIn name g.body, h.body, assignmentsIn_blankIn]

theorem isStub (h : g.Reorders f) : g.isStub = f.isStub := by
  rw [← g.isStub_blankIn, h.blank, f.isStub_blankIn]

theorem endsExplicitly (h : g.Reorders f) : Query.endsExplicitly g = Query.endsExplicitly f := by
  rw [← g.endsExplicitly_blankIn, h.blank, f.endsExplicitly_blankIn]

theorem containsRaise (h : g.Reorders f) : g.containsRaise = f.containsRaise := by
  unfold FunctionDef.containsRaise
  rw [← raisesIn_blankIn g.body, h.body, raisesIn_blankIn]

theorem values_eq_nil_iff (h : g.Reorders f) :
    g.ownReturns.map (·.value) = [] ↔ f.ownReturns.map (·.value) = [] := by
  rw [← List.isEmpty_iff, h.values.isEmpty_eq, List.isEmpty_iff]

theorem comesToItsEnd_iff (h : g.Reorders f) : g.ComesToItsEnd ↔ f.ComesToItsEnd := by
  have hnil : g.ownReturns = [] ↔ f.ownReturns = [] := by
    simpa only [List.map_eq_nil_iff] using h.values_eq_nil_iff
  rw [g.comesToItsEnd_iff, f.comesToItsEnd_iff, hnil, h.containsRaise, h.isStub]

theorem alwaysReturns_iff (h : g.Reorders f) {typeOf : Expr → InferredType} {t : TypeRef} :
    g.AlwaysReturns typeOf t ↔ f.AlwaysReturns typeOf t := by
  have hany : (g.ownReturns.map (·.value)).any (·.isSome) =
      (f.ownReturns.map (·.value)).any (·.isSome) := h.values.any_eq
  rw [g.alwaysReturns_iff, f.alwaysReturns_iff, ne_eq, h.values_eq_nil_iff, hany,
    h.endsExplicitly]
  simp only [h.values.mem_iff]

end Reorders

end FunctionDef

/-- What is not there has the builtin type `None`. -/
theorem InferredType.known_none_iff {t : TypeRef} :
    InferredType.builtin "None" = .known t ↔ t = { name := "None" } := by
  simp [InferredType.builtin, eq_comm]

namespace Query

variable {p : Project} {c d : Cache} {m : Module}

/-! ### Types that are asked for one after the other -/

/-- Questions that do not change each other's answers may be asked in any order. -/
theorem typesOf_eq_map {α : Type} {infer : α → Query InferredType}
    (hinfer : ∀ d, p.Extends c d → ∀ a,
      (((infer a).run p).run d).1 = (((infer a).run p).run c).1 ∧
        p.Extends c (((infer a).run p).run d).2)
    (items : List α) (hd : p.Extends c d) :
    typesOf infer p d items = items.map fun a => (((infer a).run p).run c).1 := by
  induction items generalizing d with
  | nil => rfl
  | cons a rest ih =>
      obtain ⟨heq, hafter⟩ := hinfer d hd a
      rw [typesOf_cons, List.map_cons, heq, ih hafter]

/-- The type of what is returned is the same whenever it is asked for. -/
theorem returnedType_later (hc : p.ReachesAll c) {scope : Scope}
    (hm : p.Reaches c scope.module.path) (hd : p.Extends c d) (r : Return) :
    (((returnedType scope r).run p).run d).1 = (((returnedType scope r).run p).run c).1 ∧
      p.Extends c (((returnedType scope r).run p).run d).2 := by
  unfold returnedType
  cases r.value with
  | none => exact ⟨rfl, hd⟩
  | some value => exact inferType_later hc hm hd value

/-- Return statements agree on a type if each of them has it. -/
theorem agreed_returns_iff (hc : p.ReachesAll c) {scope : Scope}
    (hm : p.Reaches c scope.module.path) (returns : List Return) (t : TypeRef) :
    (((agreed (returnedType scope) none returns).run p).run c).1 = .known t ↔
      returns ≠ [] ∧ ∀ r ∈ returns, (((returnedType scope r).run p).run c).1 = .known t := by
  rw [agreed_iff (by simp) returns, agree_known_iff,
    typesOf_eq_map (fun d hd => returnedType_later hc hm hd) returns (p.extends_self c)]
  simp

theorem bodyReturn_of_noReturn {f : FunctionDef} (hgen : f.isGenerator = false)
    (hnone : f.ownReturns = []) :
    bodyReturn m f = pure (if f.isStub || f.containsRaise then .unknown else .builtin "None") := by
  simp [bodyReturn, hgen, hnone]

/-- One that returns a value must not fall off its end. -/
theorem bodyReturn_of_returns {f : FunctionDef} (hgen : f.isGenerator = false)
    (hsome : f.ownReturns ≠ []) :
    bodyReturn m f =
      if f.ownReturns.any (·.value.isSome) = true → endsExplicitly f = true then
        agreed (returnedType (.ofFunction m f)) none f.ownReturns
      else pure .unknown := by
  unfold bodyReturn
  dsimp only
  rw [hgen, List.isEmpty_eq_false_iff.mpr hsome]
  cases f.ownReturns.any (·.value.isSome) <;> cases endsExplicitly f <;> rfl

/-- A return statement has the type of its value, or that of nothing. -/
theorem returnedType_eq_known_iff {scope : Scope} {r : Return} {t : TypeRef} :
    (((returnedType scope r).run p).run c).1 = .known t ↔
      (∀ value, r.value = some value → (((inferType scope value).run p).run c).1 = .known t) ∧
        (r.value = none → t = { name := "None" }) := by
  unfold returnedType
  cases r.value with
  | none =>
      dsimp only
      rw [run_pure]
      simp [InferredType.known_none_iff]
  | some value => simp

/-- The type of a body by what its statements return, for the order in which they stand. -/
theorem bodyReturn_known_iff (hc : p.ReachesAll c) (hm : p.Reaches c m.path) (f : FunctionDef)
    (t : TypeRef) :
    (((bodyReturn m f).run p).run c).1 = .known t ↔
      f.isGenerator = false ∧
        (f.ComesToItsEnd ∧ t = { name := "None" } ∨
          f.AlwaysReturns (fun e => (((inferType (.ofFunction m f) e).run p).run c).1) t) := by
  have hscope : p.Reaches c (Scope.ofFunction m f).module.path := hm
  cases hgen : f.isGenerator with
  | true => simp [bodyReturn, hgen]
  | false =>
      rw [f.comesToItsEnd_iff, f.alwaysReturns_iff]
      by_cases hnone : f.ownReturns = []
      · rw [bodyReturn_of_noReturn hgen hnone, run_pure]
        cases f.isStub <;> cases f.containsRaise <;> simp [hnone, InferredType.known_none_iff]
      · have hneither : ¬ (f.ownReturns = [] ∧ f.containsRaise = false ∧ f.isStub = false) :=
          fun h => hnone h.1
        simp only [bodyReturn_of_returns hgen hnone, List.any_map, List.forall_mem_map, ne_eq,
          List.map_eq_nil_iff, hneither, false_and, false_or, true_and]
        split
        case isTrue hends =>
          rw [agreed_returns_iff hc hscope]
          simp only [returnedType_eq_known_iff]
          exact and_congr_right fun _ => (and_iff_right hends).symm
        case isFalse hends =>
          rw [run_pure]
          exact ⟨nofun, fun h => absurd h.2.1 hends⟩

/-- Functions that are alike but for the order of what they return give names the same types. -/
theorem exprType_reorders {g f : FunctionDef} (h : g.Reorders f) (hops : Nat) (e : Expr) :
    exprType (.ofFunction m g) hops e = exprType (.ofFunction m f) hops e := by
  have howner : (Scope.ofFunction m g).owner = (Scope.ofFunction m f).owner := by
    simp only [Scope.ofFunction, Module.enclosingClass?, h.head]
  induction hops generalizing e with
  | zero => rfl
  | succ hops ih =>
      cases e with
      | name name span =>
          have hparam : g.param? name = f.param? name := by
            simp only [FunctionDef.param?, h.head]
          rw [exprType, exprType, funext ih]
          simp only [nameType, Scope.ofFunction, Option.bind_some, hparam,
            h.localAssignments name]
      | call func args keywords span =>
          simp only [exprType, call, nameCall, memberCall, howner]
          rfl
      | _ => rfl

/-- **What a function returns by its body.**  The type of a body is known if the function is no
generator and either comes to its end without a return statement, or always returns something of
that type.  The types of the values are those that they have by themselves, with what was
remembered before any of them was asked for.  The order in which a function returns its values does
not count.

What is asked of the state holds of all that are come to: what is remembered was read from the files
of the project (`Project.Remembers.reachesAll`), and so was the module (`Project.reaches_of_load`). -/
theorem bodyReturn_eq_known_iff (p : Project) (c : Cache) (m : Module) (f : FunctionDef)
    (t : TypeRef) (hc : p.ReachesAll c) (hm : p.Reaches c m.path) :
    ((((bodyReturn m f).run p).run c).1 = .known t ↔
      f.isGenerator = false ∧
        (f.ComesToItsEnd ∧ t = { name := "None" } ∨
          f.AlwaysReturns (fun e => (((inferType (.ofFunction m f) e).run p).run c).1) t)) ∧
    ∀ g : FunctionDef, g.Reorders f →
      ((((bodyReturn m g).run p).run c).1 = .known t ↔
        (((bodyReturn m f).run p).run c).1 = .known t) := by
  refine ⟨bodyReturn_known_iff hc hm f t, fun g h => ?_⟩
  have hgenerator : g.isGenerator = f.isGenerator := by rw [h.head]
  rw [bodyReturn_known_iff hc hm, bodyReturn_known_iff hc hm, hgenerator, h.comesToItsEnd_iff,
    h.alwaysReturns_iff]
  simp only [inferType, exprType_reorders h]

/-- A project with a function that returns texts in two ways. -/
def twoReturns : Project where
  root := "/p"
  tree :=
    { files :=
        [(["p", "app.py"], "def f(x):\n    if x:\n        return 'a'\n    return str(x)\n".toUTF8)]
      dirs := [["p"]] }

/-- The module is remembered, and nothing else. -/
def rememberingOnly (p : Project) (path : Path) (m : Module) : Cache :=
  { modules := [(p.key path, m)] }

/-- The function always returns texts, and it would do so in any order. -/
theorem two_ways_return_text : ∃ m f, twoReturns.load "app.py" = .ok m ∧
    let c := rememberingOnly twoReturns "app.py" m
    f.AlwaysReturns (fun e => (((inferType (.ofFunction m f) e).run twoReturns).run c).1)
        { name := "str" } ∧
      ∀ g : FunctionDef, g.Reorders f →
        (((bodyReturn m g).run twoReturns).run c).1 = .known { name := "str" } := by
  have hfound : (twoReturns.load "app.py").toOption.bind (fun m => (m.findFunction? "f").map
      fun f => (((bodyReturn m f).run twoReturns).run
        (rememberingOnly twoReturns "app.py" m)).1) = some (.known { name := "str" }) := by
    decide +kernel
  generalize twoReturns = p at *
  cases hload : p.load "app.py" with
  | error e =>
      rw [hload] at hfound
      cases hfound
  | ok m =>
      rw [hload] at hfound
      obtain ⟨f, -, hbody⟩ := Option.map_eq_some_iff.mp hfound
      have hlook : (rememberingOnly p "app.py" m).modules.lookup (p.key "app.py") = some m :=
        List.lookup_cons_self
      have hm : p.Reaches (rememberingOnly p "app.py" m) m.path :=
        Project.reaches_of_load hload hlook
      have hc : p.ReachesAll (rememberingOnly p "app.py" m) := by
        intro key m' hm'
        simp only [rememberingOnly, List.lookup_cons] at hm'
        split at hm'
        · obtain rfl := Option.some.inj hm'
          exact hm
        · cases hm'
      obtain ⟨hiff, hreorders⟩ := bodyReturn_eq_known_iff p _ m f { name := "str" } hc hm
      refine ⟨m, f, rfl, ?_, fun g hg => (hreorders g hg).mpr hbody⟩
      rcases (hiff.mp hbody).2 with ⟨-, hnone⟩ | halways
      · exact absurd hnone (by decide)
      · exact halways

end Query

end Plumbline
