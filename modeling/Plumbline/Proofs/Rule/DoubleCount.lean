/-
Each test is reported by the doubles that are its own.

The doubles are counted in records, one for each test that the walk is in, and a double adds to the
innermost.  A part of the walk leaves the records around it as they were, but for what it holds
outside tests: that is noted in the innermost record (`Tells`).  A test in it opens a record of its
own, which takes up what the test holds outside the tests in it, and is closed with it.  So each test
is reported once if the doubles in its decorators, its defaults and its body are too many, where
those inside a nested test are not counted (`heard_plain`).
-/
import Plumbline.Proofs.Module.Holdings
import Plumbline.Proofs.Rule.Asking
import Plumbline.Rule.TestDoubles

namespace Plumbline.TestDoubles

open Watcher (innermost? setInnermost)

/-! ### What is reported -/

/-- The number of doubles in a test that are not in a nested one. -/
def doubles (f : FunctionDef) : Nat := (f.holds isTest).countP createsDouble

/-- The report on a test with too many doubles. -/
def reportOf (ctx : RuleContext) (max : Nat) (f : FunctionDef) : Violation where
  code := code
  message := "`" ++ f.qualname ++ "` uses " ++ toString (doubles f) ++ " test doubles (max " ++
    toString max ++ ")"
  location := ctx.location f.span
  fixable := true
  commentOnly := true
  target := some { symbol := f.qualname }

/-- The reports on several tests. -/
def reportsOn (ctx : RuleContext) (max : Nat) (tests : List FunctionDef) : List Violation :=
  (tests.filter (max < doubles ·)).map (reportOf ctx max)

theorem reportsOn_append (ctx : RuleContext) (max : Nat) (tests tests' : List FunctionDef) :
    reportsOn ctx max (tests ++ tests') = reportsOn ctx max tests ++ reportsOn ctx max tests' := by
  rw [reportsOn, List.filter_append, List.map_append, reportsOn, reportsOn]

/-- The rule with hooks that answer at once. -/
def plain (max : Nat) : Rule Id where
  code := code
  name := name
  description := "Tests should not need many mocks"
  fixType := .commentOnly
  interests := [.call]
  watch := .scopes [.functionDef] (fun ctx node => .ok (openScope ctx node))
    (fun r _ node => .ok ([], note r node)) (fun r _ => .ok (closeScope max r))

theorem answersAs_plain (max : Nat) (ctx : RuleContext) :
    (rule max).AnswersAs (plain max) ctx :=
  ⟨rfl, rfl, .scopes (fun _ _ => rfl) (fun _ _ _ => rfl) fun _ _ => rfl⟩

/-! ### Records -/

theorem count_bump (r : ScopeRecord) (key : String) : (r.bump key).count key = r.count key + 1 := by
  simp [ScopeRecord.bump, ScopeRecord.count]

/-- Expressions are noted in a record one after the other. -/
def noteAll (r : ScopeRecord) (es : List Expr) : ScopeRecord :=
  es.foldl (fun r e => note r (.expr e)) r

theorem noteAll_spec (r : ScopeRecord) (es : List Expr) :
    (noteAll r es).owner = r.owner ∧ (noteAll r es).location = r.location ∧
      (noteAll r es).count doublesKey = r.count doublesKey + es.countP createsDouble := by
  induction es generalizing r with
  | nil => exact ⟨rfl, rfl, rfl⟩
  | cons e rest ih =>
      obtain ⟨howner, hlocation, hcount⟩ := ih (note r (.expr e))
      have hnote : note r (.expr e) = if createsDouble e then r.bump doublesKey else r := rfl
      rw [hnote] at howner hlocation hcount
      unfold noteAll
      rw [List.foldl_cons, hnote]
      by_cases hdouble : createsDouble e = true
      · rw [if_pos hdouble] at howner hlocation hcount ⊢
        rw [List.countP_cons_of_pos hdouble]
        rw [count_bump] at hcount
        refine ⟨howner, hlocation, hcount.trans ?_⟩
        omega
      · rw [if_neg hdouble] at howner hlocation hcount ⊢
        rw [List.countP_cons_of_neg hdouble]
        exact ⟨howner, hlocation, hcount⟩

/-- The record that is opened for a test. -/
def recordOf (ctx : RuleContext) (f : FunctionDef) : ScopeRecord :=
  { owner := f.qualname, location := ctx.location f.span }

/-- What a test holds is noted in its record, which then tells whether it is reported. -/
theorem closeScope_noteAll (ctx : RuleContext) (max : Nat) (f : FunctionDef) :
    closeScope max (noteAll (recordOf ctx f) (f.holds isTest)) = reportsOn ctx max [f] := by
  obtain ⟨howner, hlocation, hcount⟩ := noteAll_spec (recordOf ctx f) (f.holds isTest)
  have hdoubles : (noteAll (recordOf ctx f) (f.holds isTest)).count doublesKey = doubles f :=
    hcount.trans (Nat.zero_add _)
  unfold closeScope reportsOn
  rw [hdoubles, howner, hlocation]
  by_cases hmax : doubles f ≤ max
  · rw [if_pos hmax, List.filter_cons_of_neg (by simpa using hmax)]
    rfl
  · rw [if_neg hmax, List.filter_cons_of_pos (by simpa using hmax)]
    rfl

/-! ### Open records -/

/-- An expression is noted in the innermost record that is open. -/
def noteInnermost (scopes : Scopes) (e : Expr) : Scopes :=
  match innermost? scopes with
  | none => scopes
  | some r => setInnermost (note r (.expr e)) scopes

theorem noteInnermost_nil_cons (scopes : Scopes) (e : Expr) :
    noteInnermost ([] :: scopes) e = [] :: noteInnermost scopes e := by
  have hsame : innermost? ([] :: scopes) = innermost? scopes := rfl
  unfold noteInnermost
  rw [hsame]
  cases innermost? scopes with
  | none => rfl
  | some r => rfl

/-- Where no record is opened, expressions are noted in the one around it. -/
theorem foldl_noteInnermost_nil_cons (es : List Expr) (scopes : Scopes) :
    es.foldl noteInnermost ([] :: scopes) = [] :: es.foldl noteInnermost scopes := by
  induction es generalizing scopes with
  | nil => rfl
  | cons e rest ih => rw [List.foldl_cons, noteInnermost_nil_cons, ih, List.foldl_cons]

/-- Where a record is opened, expressions are noted in that. -/
theorem foldl_noteInnermost_record (es : List Expr) (r : ScopeRecord) (scopes : Scopes) :
    es.foldl noteInnermost ([r] :: scopes) = [noteAll r es] :: scopes := by
  induction es generalizing r with
  | nil => rfl
  | cons e rest ih => exact ih (note r (.expr e))

theorem setInnermost_innermost {scopes : Scopes} {r : ScopeRecord}
    (h : innermost? scopes = some r) : setInnermost r scopes = scopes := by
  induction scopes with
  | nil => rfl
  | cons records rest ih =>
      cases records with
      | nil => rw [setInnermost, ih h]
      | cons r' records =>
          obtain rfl : r' = r := Option.some.inj h
          rfl

/-- Only calls create doubles. -/
theorem noteInnermost_of_kind_ne {e : Expr} (h : (Node.expr e).kind ≠ .call) (scopes : Scopes) :
    noteInnermost scopes e = scopes := by
  have hnote : ∀ r, note r (.expr e) = r := by
    intro r
    cases e with
    | call => exact absurd rfl h
    | _ => rfl
  unfold noteInnermost
  cases hinner : innermost? scopes with
  | none => rfl
  | some r => exact (congrArg (setInnermost · scopes) (hnote r)).trans (setInnermost_innermost hinner)

/-! ### Along the walk -/

section

variable {ctx : RuleContext} {max : Nat} {around : Around}

/-- Along some visits the rule reports on `tests`, and notes `es` in the record around them. -/
def Tells (ctx : RuleContext) (max : Nat) (visits : List Visit) (tests : List FunctionDef)
    (es : List Expr) : Prop :=
  ∀ scopes, visits.foldlM ((plain max).hear ctx) scopes =
    ⟨reportsOn ctx max tests, .ok (es.foldl noteInnermost scopes)⟩

theorem tells_nil : Tells ctx max [] [] [] := fun _ => rfl

theorem Tells.append {visits visits' : List Visit} {tests tests' : List FunctionDef}
    {es es' : List Expr} (h : Tells ctx max visits tests es) (h' : Tells ctx max visits' tests' es') :
    Tells ctx max (visits ++ visits') (tests ++ tests') (es ++ es') := by
  intro scopes
  rw [List.foldlM_append, h scopes, Heard.bind_ok, h', reportsOn_append, List.foldl_append]

/-- An expression is noted, and opens no record. -/
theorem hear_enter_expr (e : Expr) (scopes : Scopes) :
    (plain max).hear ctx scopes (.enter around (.expr e)) =
      pure ([] :: noteInnermost scopes e) := by
  cases e with
  | call func args keywords span =>
      have hnotes : (plain max).notes { ctx with around } (.expr (.call func args keywords span))
          scopes = pure (noteInnermost scopes (.call func args keywords span)) := by
        unfold noteInnermost
        cases hinner : innermost? scopes with
        | none => simp [Rule.notes, plain, Node.kind, hinner]
        | some r => simp [Rule.notes, plain, Node.kind, hinner, Heard.answer, Except.map]; rfl
      show (plain max).notes { ctx with around } _ scopes >>= (plain max).opens _ _ = _
      rw [hnotes]
      rfl
  | _ =>
      rw [noteInnermost_of_kind_ne (by simp [Node.kind])]
      rfl

/-- A function opens a record if it is a test. -/
theorem hear_enter_functionDef (h : FunctionHead) (body : List Stmt) (scopes : Scopes) :
    (plain max).hear ctx scopes (.enter around (.stmt (.functionDef h body))) =
      pure ((if isTest { h with body } then [recordOf ctx { h with body }] else []) :: scopes) := by
  have hopen : openScope { ctx with around } (.stmt (.functionDef h body)) =
    if isTest { h with body } then some (recordOf ctx { h with body }) else none := rfl
  have hopens : (plain max).opens { ctx with around } (.stmt (.functionDef h body)) scopes =
      pure ((openScope { ctx with around } (.stmt (.functionDef h body))).elim ([] :: scopes)
        (Watcher.push · ([] :: scopes))) := rfl
  show (plain max).opens { ctx with around } (.stmt (.functionDef h body)) scopes = _
  rw [hopens, hopen]
  by_cases htest : isTest { h with body } = true
  · rw [if_pos htest, if_pos htest]
    rfl
  · rw [if_neg htest, if_neg htest]
    rfl

/-- Nothing happens where a node is left that has opened no record. -/
theorem hear_leave_nil (node : Node) (scopes : Scopes) :
    (plain max).hear ctx ([] :: scopes) (.leave around node) = ⟨[], .ok scopes⟩ := rfl

/-- Where a test is left, its record is closed. -/
theorem hear_leave_record (node : Node) (r : ScopeRecord) (scopes : Scopes) :
    (plain max).hear ctx ([r] :: scopes) (.leave around node) =
      ⟨closeScope max r, .ok scopes⟩ := by
  show Heard.mk (closeScope max r ++ []) _ = _
  rw [List.append_nil]
  rfl

/-- A node that opens no record. -/
theorem Tells.enclosed {node : Node} {parts : List Visit} {tests : List FunctionDef}
    {es : List Expr} (h : Tells ctx max parts tests es) (own : List Expr)
    (henter : ∀ scopes, (plain max).hear ctx scopes (.enter around node) =
      pure ([] :: own.foldl noteInnermost scopes)) :
    Tells ctx max (enclosed around node parts) tests (own ++ es) := by
  intro scopes
  rw [Plumbline.enclosed, List.cons_append, List.foldlM_cons, henter, pure_bind,
    List.foldlM_append, h, Heard.bind_ok, foldl_noteInnermost_nil_cons, List.foldlM_cons,
    hear_leave_nil, Heard.bind_ok, List.foldl_append]
  simp only [List.foldlM_nil, Heard.pure_eq, List.append_nil]

theorem Tells.expr {parts : List Visit} {tests : List FunctionDef} {es : List Expr}
    (h : Tells ctx max parts tests es) (e : Expr) :
    Tells ctx max (Plumbline.enclosed around (.expr e) parts) tests (e :: es) :=
  h.enclosed [e] fun _ => hear_enter_expr _ _

theorem Tells.test {h : FunctionHead} {body : List Stmt} {parts : List Visit}
    {tests : List FunctionDef} (htest : isTest { h with body } = true)
    (hparts : Tells ctx max parts tests (FunctionDef.holds isTest { h with body })) :
    Tells ctx max (Plumbline.enclosed around (.stmt (.functionDef h body)) parts)
      (tests ++ [{ h with body }]) [] := by
  intro scopes
  rw [Plumbline.enclosed, List.cons_append, List.foldlM_cons, hear_enter_functionDef, pure_bind,
    if_pos htest, List.foldlM_append, hparts, Heard.bind_ok, foldl_noteInnermost_record,
    List.foldlM_cons, hear_leave_record, closeScope_noteAll, Heard.bind_ok, reportsOn_append]
  simp only [List.foldlM_nil, Heard.pure_eq, List.append_nil, List.foldl_nil]

mutual

theorem tells_expr (around : Around) : (e : Expr) →
    Tells ctx max (visitsOfExpr around e) [] (subexpressions e)
  | .member value _ _ => (tells_expr around value).expr _
  | .call func args keywords _ =>
      (((tells_expr around func).append (tells_exprs around args)).append
        (tells_keywords around keywords)).expr _
  | .collection _ items _ => (tells_exprs around items).expr _
  | .literal _ _ | .name _ _ | .other _ => tells_nil.expr _

theorem tells_exprs (around : Around) : (es : List Expr) →
    Tells ctx max (visitsOfExprs around es) [] (subexpressionsIn es)
  | [] => tells_nil
  | e :: rest => (tells_expr around e).append (tells_exprs around rest)

theorem tells_keywords (around : Around) : (ks : List (String × Expr)) →
    Tells ctx max (visitsOfKeywords around ks) [] (subexpressionsInKeywords ks)
  | [] => tells_nil
  | (_, e) :: rest => (tells_expr around e).append (tells_keywords around rest)

end

/-- The same for the tests among some statements and in them, which are reported as they are left. -/
def TellsTests (ctx : RuleContext) (max : Nat) (visits : List Visit) (statements : List Stmt)
    (es : List Expr) : Prop :=
  ∃ tests, tests.Perm ((functionsAmong statements).filter isTest) ∧ Tells ctx max visits tests es

theorem TellsTests.append {visits visits' : List Visit} {statements statements' : List Stmt}
    {es es' : List Expr} (h : TellsTests ctx max visits statements es)
    (h' : TellsTests ctx max visits' statements' es') :
    TellsTests ctx max (visits ++ visits') (statements ++ statements') (es ++ es') := by
  obtain ⟨tests, hperm, htells⟩ := h
  obtain ⟨tests', hperm', htells'⟩ := h'
  refine ⟨tests ++ tests', ?_, htells.append htells'⟩
  rw [functionsAmong, List.filterMap_append, List.filter_append]
  exact hperm.append hperm'

theorem TellsTests.after {visits visits' : List Visit} {statements : List Stmt}
    {es es' : List Expr} (h : TellsTests ctx max visits' statements es')
    (hbefore : Tells ctx max visits [] es) :
    TellsTests ctx max (visits ++ visits') statements (es ++ es') := by
  obtain ⟨tests, hperm, htells⟩ := h
  exact ⟨tests, hperm, hbefore.append htells⟩

/-- A statement that is no function opens no record. -/
theorem TellsTests.enclosed {s : Stmt} {visits : List Visit} {statements : List Stmt}
    {es : List Expr} (h : TellsTests ctx max visits statements es)
    (hfunction : (Node.stmt s).function? = none) :
    TellsTests ctx max (Plumbline.enclosed around (.stmt s) visits) (s :: statements) es := by
  obtain ⟨tests, hperm, htells⟩ := h
  have hnone : functionsAmong (s :: statements) = functionsAmong statements :=
    List.filterMap_cons_none hfunction
  refine ⟨tests, by rwa [hnone], htells.enclosed [] fun scopes => ?_⟩
  cases s with
  | functionDef => cases hfunction
  | _ => rfl

theorem TellsTests.functionDef {h : FunctionHead} {body : List Stmt} {visits : List Visit}
    (hvisits : TellsTests ctx max visits (statementsIn body)
      (FunctionDef.holds isTest { h with body })) :
    TellsTests ctx max (Plumbline.enclosed around (.stmt (.functionDef h body)) visits)
      (statementsOf (.functionDef h body)) (heldBy isTest (.functionDef h body)) := by
  obtain ⟨tests, hperm, htells⟩ := hvisits
  have hfunctions : functionsAmong (statementsOf (.functionDef h body)) =
    { h with body } :: functionsIn body := rfl
  unfold TellsTests
  rw [hfunctions, heldBy]
  by_cases htest : isTest { h with body } = true
  · rw [if_pos htest, List.filter_cons_of_pos htest]
    exact ⟨tests ++ [_], List.perm_append_singleton _ _ |>.trans (hperm.cons _), htells.test htest⟩
  · rw [if_neg htest, List.filter_cons_of_neg htest]
    refine ⟨tests, hperm, htells.enclosed [] fun scopes => ?_⟩
    rw [hear_enter_functionDef, if_neg htest]
    rfl

mutual

theorem tells_stmt (around : Around) : (s : Stmt) →
    TellsTests ctx max (visitsOfStmt around s) (statementsOf s) (heldBy isTest s)
  | .functionDef _ body =>
      ((tells_block _ body).after ((tells_exprs around _).append (tells_exprs around _))).functionDef
  | .classDef _ body =>
      ((tells_block _ body).after
        ((tells_exprs around _).append (tells_exprs around _))).enclosed rfl
  | .compound _ blocks =>
      ((tells_blocks around blocks).after (tells_exprs around _)).enclosed rfl
  | .returning _ => TellsTests.enclosed ⟨[], .nil, tells_exprs around _⟩ rfl
  | .assign _ => TellsTests.enclosed ⟨[], .nil, tells_exprs around _⟩ rfl
  | .expr e => TellsTests.enclosed ⟨[], .nil, tells_expr around e⟩ rfl
  | .importing _ | .comment _ | .pass _ | .raise _ | .other _ =>
      TellsTests.enclosed ⟨[], .nil, tells_nil⟩ rfl

theorem tells_block (around : Around) : (body : List Stmt) →
    TellsTests ctx max (visitsOfBlock around body) (statementsIn body) (heldIn isTest body)
  | [] => ⟨[], .nil, tells_nil⟩
  | s :: rest => (tells_stmt around s).append (tells_block around rest)

theorem tells_blocks (around : Around) : (blocks : List (List Stmt)) →
    TellsTests ctx max (visitsOfBlocks around blocks) (statementsInBlocks blocks)
      (heldInBlocks isTest blocks)
  | [] => ⟨[], .nil, tells_nil⟩
  | b :: rest => (tells_block around b).append (tells_blocks around rest)

end

end

/-- A walk through a module. -/
theorem tells_module (ctx : RuleContext) (max : Nat) :
    ∃ tests, tests.Perm (ctx.module.functions.filter isTest) ∧
      Tells ctx max ctx.module.visits tests (heldIn isTest ctx.module.body) := by
  obtain ⟨tests, hperm, htells⟩ := tells_block {} ctx.module.body
  exact ⟨tests, hperm, htells.enclosed [] fun _ => rfl⟩

/-- The rule alone reports on the tests with too many doubles, each once, and never fails. -/
theorem heard_plain (ctx : RuleContext) (max : Nat) :
    ((plain max).heard ctx).failures = [] ∧
    ((plain max).heard ctx).violations.Perm
      (reportsOn ctx max (ctx.module.functions.filter isTest)) := by
  obtain ⟨tests, hperm, htells⟩ := tells_module ctx max
  unfold Rule.heard
  rw [htells]
  exact ⟨rfl, (hperm.filter _).map _⟩

/-- **A test is reported by the doubles that are its own.**  On every walk the rule reports once on
each test that has more doubles than allowed, and on nothing else.  What counts are the doubles that
a test holds in its decorators, its defaults and its body, at any depth but outside nested tests.  So
each expression in the module counts for one test or, outside all tests, for none; and each
expression in a test counts for that test or for one of those in it. -/
theorem each_test_reported_by_its_own_doubles (max : Nat) (rules : List (Rule Query))
    (ctx : RuleContext) (k : Nat) (hk : rules[k]? = some (rule max)) (project : Project)
    (cache : Cache) :
    (WalkLog.told (((walkLog rules ctx).run project).run cache).1 k).failures = [] ∧
    (WalkLog.told (((walkLog rules ctx).run project).run cache).1 k).violations.Perm
      (((ctx.module.functions.filter isTest).filter (max < doubles ·)).map (reportOf ctx max)) ∧
    (heldIn (fun _ => false) ctx.module.body).Perm
      (heldIn isTest ctx.module.body ++
        (ctx.module.functions.filter isTest).flatMap (·.holds isTest)) ∧
    ∀ f ∈ ctx.module.functions.filter isTest, (f.holds fun _ => false).Perm
      (f.holds isTest ++ ((functionsIn f.body).filter isTest).flatMap (·.holds isTest)) := by
  obtain ⟨htold, -⟩ := (answersAs_plain max ctx).yields_walkLog hk project cache trivial
  obtain ⟨hfailures, hviolations⟩ := heard_plain ctx max
  rw [htold]
  exact ⟨hfailures, hviolations, perm_heldIn ctx.module.body, fun f _ => f.perm_holds⟩

/-- A call of a name. -/
def callOf (callee : String) : Expr := .call (.name callee {}) [] [] {}

/-- A test with a double in a decorator, in its body and in a helper, and in it another test with
doubles in a default and in its body. -/
def nestedTests : RuleContext where
  module :=
    { path := "test_a.py"
      name := "test_a"
      body := [.functionDef
        { name := "test_outer", qualname := "test_outer", decorators := [⟨callOf "patch", {}⟩] } [
          .expr (callOf "Mock"),
          .functionDef { name := "helper", qualname := "test_outer.helper" } [
            .returning { value := some (callOf "MagicMock") }],
          .functionDef
            { name := "test_inner"
              qualname := "test_outer.test_inner"
              params := [⟨"x", .positional, none, some (callOf "Mock"), {}, {}⟩] } [
            .expr (callOf "Mock")]]] }
  config := {}
  classifier := .ofConfig {}

/-- With two doubles allowed, the outer test is reported for its three. -/
theorem nested_test_counts_apart :
    [rule 3, rule 2][1]? = some (rule 2) ∧
    (WalkLog.told (((walkLog [rule 3, rule 2] nestedTests).run { root := "" }).run {}).1
      1).violations.map (·.message) = ["`test_outer` uses 3 test doubles (max 2)"] := by
  obtain ⟨-, hviolations, -⟩ := each_test_reported_by_its_own_doubles 2 [rule 3, rule 2] nestedTests 1
    rfl { root := "" } {}
  refine ⟨rfl, List.perm_singleton.mp ((hviolations.map (·.message)).trans (.of_eq ?_))⟩
  decide +kernel

end Plumbline.TestDoubles
