/-
Rules that ask no questions.

The hooks of some rules answer from the node and the file alone.  Such a rule is a plain one, whose
hooks give their answers at once (`Rule.AnswersAs`), and on a walk its watcher does without a
question what a watcher of the plain rule does (`ActsAs`).  So, whatever the other rules ask about
in between and whatever is remembered by then, its part of the log is what is heard of the plain
rule alone (`Rule.AnswersAs.yields_walkLog`).
-/
import Plumbline.Proofs.Analysis.Query
import Plumbline.Proofs.Rule.Separation

namespace Plumbline

open Query

/-! ### Hooks -/

/-- On the file of a context, hooks answer without a question, and as plain hooks do. -/
inductive Watch.AnswersAs (ctx : RuleContext) : Watch Query → Watch Id → Prop where
  | checks {check : Hook Query (List Violation)} {plain : Hook Id (List Violation)}
      (hcheck : ∀ around node,
        check { ctx with around } node = pure (plain { ctx with around } node)) :
      AnswersAs ctx (.checks check) (.checks plain)
  | scopes {kinds : List NodeKind} {opens : Hook Query (Option ScopeRecord)}
      {opens' : Hook Id (Option ScopeRecord)}
      {notes : ScopeRecord → Hook Query (List Violation × ScopeRecord)}
      {notes' : ScopeRecord → Hook Id (List Violation × ScopeRecord)}
      {closes : ScopeRecord → RuleContext → Query (Except Fault (List Violation))}
      {closes' : ScopeRecord → RuleContext → Id (Except Fault (List Violation))}
      (hopens : ∀ around node,
        opens { ctx with around } node = pure (opens' { ctx with around } node))
      (hnotes : ∀ r around node,
        notes r { ctx with around } node = pure (notes' r { ctx with around } node))
      (hcloses : ∀ r around,
        closes r { ctx with around } = pure (closes' r { ctx with around })) :
      AnswersAs ctx (.scopes kinds opens notes closes) (.scopes kinds opens' notes' closes')

/-- On the file of a context, a rule asks no questions and answers as a plain rule does. -/
structure Rule.AnswersAs (rule : Rule Query) (plain : Rule Id) (ctx : RuleContext) : Prop where
  code : rule.code = plain.code
  interests : rule.interests = plain.interests
  watch : Watch.AnswersAs ctx rule.watch plain.watch

/-! ### One watcher -/

/-- The watcher of a rule that stands where `w` stands. -/
def Watcher.lift (rule : Rule Query) (w : Watcher Id) : Watcher Query :=
  { rule, scopes := w.scopes, failed := w.failed }

/-- What a watcher of the plain rule does, a watcher of the rule does without a question. -/
def ActsAs (rule : Rule Query) (plain : Rule Id)
    (act : Watcher Query → Query (Watcher Query × Report))
    (act' : Watcher Id → Id (Watcher Id × Report)) : Prop :=
  ∀ w, w.rule = plain →
    (act' w).1.rule = plain ∧ act (w.lift rule) = pure ((act' w).1.lift rule, (act' w).2)

section

variable {rule : Rule Query} {plain : Rule Id} {ctx : RuleContext}

theorem actsAs_pure : ActsAs rule plain (fun w => pure (w, {})) fun w => pure (w, {}) :=
  fun _ hw => ⟨hw, rfl⟩

/-- A watcher takes the answer of a hook as the plain one does. -/
theorem Rule.AnswersAs.hook (h : rule.AnswersAs plain ctx) {α : Type}
    {question : Query (Except Fault α)} {answer : Except Fault α} (hq : question = pure answer)
    {w : Watcher Id} (hw : w.rule = plain) (around : Around) (f : α → List Violation × Scopes) :
    (w.answer { ctx with around } (answer.map f)).1.rule = plain ∧
      (do
        let found ← question
        pure ((w.lift rule).answer { ctx with around } (found.map f))) =
        pure ((w.answer { ctx with around } (answer.map f)).1.lift rule,
          (w.answer { ctx with around } (answer.map f)).2) := by
  rw [hq, pure_bind]
  rcases answer with f | a
  · refine ⟨hw, ?_⟩
    simp only [Except.map, Watcher.answer, Watcher.lift, h.code, hw]
  · exact ⟨hw, rfl⟩

/-- Until one fails, calls of hooks do what those of the plain hooks do. -/
theorem actsAs_untilFailure {α : Type} {once : α → Watcher Query → Query (Watcher Query × Report)}
    {once' : α → Watcher Id → Id (Watcher Id × Report)}
    (h : ∀ a, ActsAs rule plain (once a) (once' a)) (items : List α) :
    ActsAs rule plain (Watcher.untilFailure once items) (Watcher.untilFailure once' items) := by
  induction items with
  | nil => exact actsAs_pure
  | cons a rest ih =>
      intro w hw
      by_cases hfailed : w.failed = true
      · rw [Watcher.untilFailure, Watcher.untilFailure, if_pos hfailed,
          if_pos (show (w.lift rule).failed = true from hfailed)]
        exact ⟨hw, rfl⟩
      · obtain ⟨hrule, hact⟩ := h a w hw
        obtain ⟨hrule', hrest⟩ := ih (once' a w).1 hrule
        rw [Watcher.untilFailure, Watcher.untilFailure, if_neg hfailed,
          if_neg (show ¬(w.lift rule).failed = true from hfailed), hact, pure_bind]
        dsimp only
        rw [hrest, pure_bind]
        exact ⟨hrule', rfl⟩

theorem Rule.AnswersAs.check (h : rule.AnswersAs plain ctx) (around : Around) (node : Node) :
    ActsAs rule plain (Watcher.check { ctx with around } node)
      (Watcher.check { ctx with around } node) := by
  intro w hw
  have hwatch := h.watch
  generalize hq : rule.watch = watch at hwatch
  generalize hp : plain.watch = watch' at hwatch
  unfold Watcher.check
  cases hwatch with
  | scopes => simp only [Watcher.lift, hw, hq, hp]; exact ⟨hw, rfl⟩
  | checks hcheck =>
      simp only [Watcher.lift, hw, hq, hp, h.interests]
      refine actsAs_untilFailure (fun _ w hw => ?_) _ w hw
      exact h.hook (hcheck around node) hw around _

theorem Rule.AnswersAs.note (h : rule.AnswersAs plain ctx) (around : Around) (node : Node) :
    ActsAs rule plain (Watcher.note { ctx with around } node)
      (Watcher.note { ctx with around } node) := by
  intro w hw
  have hwatch := h.watch
  generalize hq : rule.watch = watch at hwatch
  generalize hp : plain.watch = watch' at hwatch
  unfold Watcher.note
  cases hwatch with
  | checks => simp only [Watcher.lift, hw, hq, hp]; exact ⟨hw, rfl⟩
  | scopes _ hnotes _ =>
      simp only [Watcher.lift, hw, hq, hp, h.interests]
      refine actsAs_untilFailure (fun _ w hw => ?_) _ w hw
      cases hinner : Watcher.innermost? w.scopes with
      | none => simp only [Watcher.lift, hinner]; exact ⟨hw, rfl⟩
      | some r =>
          simp only [Watcher.lift, hinner]
          exact h.hook (hnotes r around node) hw around _

theorem Rule.AnswersAs.openScope (h : rule.AnswersAs plain ctx) (around : Around) (node : Node) :
    ActsAs rule plain (Watcher.openScope { ctx with around } node)
      (Watcher.openScope { ctx with around } node) := by
  intro w hw
  have hwatch := h.watch
  generalize hq : rule.watch = watch at hwatch
  generalize hp : plain.watch = watch' at hwatch
  unfold Watcher.openScope
  cases hwatch with
  | checks => simp only [Watcher.lift, hw, hq, hp]; exact ⟨hw, rfl⟩
  | scopes hopens _ _ =>
      simp only [Watcher.lift, hw, hq, hp]
      refine actsAs_untilFailure (fun _ w hw => ?_) _ ⟨plain, [] :: w.scopes, w.failed⟩ rfl
      exact h.hook (hopens around node) hw around _

theorem Rule.AnswersAs.closeScope (h : rule.AnswersAs plain ctx) (around : Around) :
    ActsAs rule plain (Watcher.closeScope { ctx with around })
      (Watcher.closeScope { ctx with around }) := by
  intro w hw
  have hwatch := h.watch
  generalize hq : rule.watch = watch at hwatch
  generalize hp : plain.watch = watch' at hwatch
  unfold Watcher.closeScope
  cases hwatch with
  | checks => simp only [Watcher.lift, hw, hq, hp]; exact ⟨hw, rfl⟩
  | scopes _ _ hcloses =>
      simp only [Watcher.lift, hw, hq, hp]
      refine actsAs_untilFailure (fun r w hw => ?_) _ ⟨plain, w.scopes.tail, w.failed⟩ rfl
      exact h.hook (hcloses r around) hw around _

end

/-! ### Among others -/

/-- After all watchers have acted, `n` being the number of the first: where `w` stood `w'` stands
and has reported `report`, and rules with smaller numbers have reported nothing. -/
structure Acted (w w' : Watcher Query) (report : Report) (n : Nat)
    (watchers : List (Watcher Query)) (log : WalkLog)
    (done : List (Watcher Query) × WalkLog) : Prop where
  own : ∀ k : Nat, watchers[k]? = some w → done.1[k]? = some w' ∧
    WalkLog.told done.2.reverse (n + k) = (WalkLog.told log.reverse (n + k)).add report
  others : ∀ k, k < n → WalkLog.told done.2.reverse k = WalkLog.told log.reverse k

section

variable {act : Watcher Query → Query (Watcher Query × Report)} {w w' : Watcher Query}
  {report : Report}

/-- A watcher that is `w` acts as `w` does, and any other in some way. -/
theorem yields_act (hact : act w = pure (w', report)) (v : Watcher Query) :
    Yields Anything (act v) fun x => v = w → x = (w', report) := by
  by_cases hv : v = w
  · subst hv
    rw [hact]
    exact yields_pure fun _ => rfl
  · exact (yields_true (act v)).imp fun _ _ h => absurd h hv

theorem yields_inTurn (hact : act w = pure (w', report)) (n : Nat)
    (watchers : List (Watcher Query)) (log : WalkLog) :
    Yields Anything (Walk.inTurn act n watchers log) (Acted w w' report n watchers log) := by
  induction watchers generalizing n log with
  | nil => exact yields_pure ⟨by simp, fun _ _ => rfl⟩
  | cons v rest ih =>
      unfold Walk.inTurn
      refine yields_bind (yields_act hact v) fun ⟨v', said⟩ hv => ?_
      refine yields_bind (ih (n + 1) ((n, said) :: log)) fun ⟨rest', log'⟩ hrest => ?_
      obtain ⟨hown, hothers⟩ := hrest
      rw [List.reverse_cons] at hown hothers
      refine yields_pure ⟨fun k hk => ?_, fun k hk => ?_⟩
      · cases k with
        | zero =>
            obtain ⟨rfl, rfl⟩ := Prod.mk.inj (hv (by simpa using hk))
            exact ⟨rfl, (hothers n (Nat.lt_succ_self n)).trans (told_append_self log.reverse n _)⟩
        | succ k =>
            obtain ⟨hstands, htold⟩ := hown k (by simpa using hk)
            rw [show n + 1 + k = n + (k + 1) by omega, told_append_of_ne (by omega)] at htold
            exact ⟨hstands, htold⟩
      · exact (hothers k (by omega)).trans (told_append_of_ne (by omega) _)

theorem yields_inReverse (hact : act w = pure (w', report)) (n : Nat)
    (watchers : List (Watcher Query)) (log : WalkLog) :
    Yields Anything (Walk.inReverse act n watchers log) (Acted w w' report n watchers log) := by
  induction watchers generalizing n log with
  | nil => exact yields_pure ⟨by simp, fun _ _ => rfl⟩
  | cons v rest ih =>
      unfold Walk.inReverse
      refine yields_bind (ih (n + 1) log) fun ⟨rest', log'⟩ hrest => ?_
      refine yields_bind (yields_act hact v) fun ⟨v', said⟩ hv => ?_
      obtain ⟨hown, hothers⟩ := hrest
      refine yields_pure ⟨fun k hk => ?_, fun k hk => ?_⟩
      · rw [List.reverse_cons]
        cases k with
        | zero =>
            obtain ⟨rfl, rfl⟩ := Prod.mk.inj (hv (by simpa using hk))
            refine ⟨rfl, ?_⟩
            show WalkLog.told _ n = (WalkLog.told _ n).add _
            rw [told_append_self, hothers n (Nat.lt_succ_self n)]
        | succ k =>
            obtain ⟨hstands, htold⟩ := hown k (by simpa using hk)
            rw [told_append_of_ne (by omega), show n + (k + 1) = n + 1 + k by omega]
            exact ⟨hstands, htold⟩
      · rw [List.reverse_cons, told_append_of_ne (by omega)]
        exact hothers k (by omega)

end

/-! ### Along the walk -/

/-- Rule number `k` stands where the plain rule alone would, and has said what that would have
said. -/
def Walk.Stands (rule : Rule Query) (plain : Rule Id) (ctx : RuleContext) (k : Nat)
    (x : Heard Scopes) (w : Walk Query) : Prop :=
  ∃ own : Watcher Id, w.watchers[k]? = some (own.lift rule) ∧
    Agrees plain ctx x own (WalkLog.told w.log.reverse k)

section

variable {rule : Rule Query} {plain : Rule Id} {ctx : RuleContext} {k : Nat} {x : Heard Scopes}
  {w : Walk Query} {next : Scopes → Heard Scopes}
  {act : Watcher Query → Query (Watcher Query × Report)}
  {act' : Watcher Id → Id (Watcher Id × Report)}

/-- All rules act in some order, and in that the rule goes one step further. -/
theorem Walk.Stands.yields_acted (h : w.Stands rule plain ctx k x)
    (hplain : ActsAs rule plain act act') (hfollows : Follows plain ctx next act')
    {work : Query (List (Watcher Query) × WalkLog)}
    (hwork : ∀ v v' report, act v = pure (v', report) →
      Yields Anything work (Acted v v' report 0 w.watchers w.log)) :
    Yields Anything work fun done =>
      Walk.Stands rule plain ctx k (x >>= next) { watchers := done.1, log := done.2 } := by
  obtain ⟨own, hown, hagrees⟩ := h
  obtain ⟨-, hact⟩ := hplain own hagrees.1
  refine (hwork _ _ _ hact).imp fun done hdone => ?_
  obtain ⟨hstands, htold⟩ := hdone.own k hown
  rw [Nat.zero_add] at htold
  refine ⟨(act' own).1, hstands, ?_⟩
  show Agrees plain ctx (x >>= next) (act' own).1 (WalkLog.told done.2.reverse k)
  rw [htold]
  exact hfollows.agrees hagrees

theorem Walk.Stands.yields_phase (h : w.Stands rule plain ctx k x)
    (hplain : ActsAs rule plain act act') (hfollows : Follows plain ctx next act') :
    Yields Anything (w.phase act) (Walk.Stands rule plain ctx k (x >>= next)) := by
  unfold Walk.phase
  refine yields_bind (h.yields_acted hplain hfollows fun v v' report hact =>
    yields_inTurn hact 0 w.watchers w.log) fun ⟨watchers, log⟩ hdone => ?_
  exact yields_pure hdone

/-- One step of the walk. -/
theorem Rule.AnswersAs.yields_step (hrule : rule.AnswersAs plain ctx)
    (h : w.Stands rule plain ctx k x) (visit : Visit) :
    Yields Anything (w.step ctx visit)
      (Walk.Stands rule plain ctx k (x >>= fun scopes => plain.hear ctx scopes visit)) := by
  cases visit with
  | enter around node =>
      have heq : (x >>= fun scopes => plain.hear ctx scopes (.enter around node)) =
          ((x >>= plain.looks { ctx with around } node) >>=
            plain.notes { ctx with around } node) >>= plain.opens { ctx with around } node := by
        rw [bind_assoc, bind_assoc]
        rfl
      rw [heq]
      unfold Walk.step
      refine yields_bind (h.yields_phase (hrule.check around node) (follows_check around node)) ?_
      intro w₁ h₁
      refine yields_bind (h₁.yields_phase (hrule.note around node) (follows_note around node)) ?_
      intro w₂ h₂
      exact h₂.yields_phase (hrule.openScope around node) (follows_openScope around node)
  | leave around node =>
      unfold Walk.step
      refine yields_bind (h.yields_acted (hrule.closeScope around) (follows_closeScope around)
        fun v v' report hact => yields_inReverse hact 0 w.watchers w.log) ?_
      exact fun ⟨watchers, log⟩ hdone => yields_pure hdone

/-- All steps of the walk, one after the other. -/
theorem Rule.AnswersAs.yields_steps (hrule : rule.AnswersAs plain ctx)
    (h : w.Stands rule plain ctx k x) (visits : List Visit) :
    Yields Anything (visits.foldlM (Walk.step ctx) w)
      (Walk.Stands rule plain ctx k (x >>= fun scopes =>
        visits.foldlM (plain.hear ctx) scopes)) := by
  induction visits generalizing w x with
  | nil =>
      have heq : (x >>= fun scopes => ([] : List Visit).foldlM (plain.hear ctx) scopes) = x :=
        bind_pure x
      rw [heq]
      exact yields_pure h
  | cons visit rest ih =>
      have heq : (x >>= fun scopes => (visit :: rest).foldlM (plain.hear ctx) scopes) =
          (x >>= fun scopes => plain.hear ctx scopes visit) >>=
            fun scopes => rest.foldlM (plain.hear ctx) scopes := by
        rw [bind_assoc]
        rfl
      rw [heq, List.foldlM_cons]
      exact yields_bind (hrule.yields_step h visit) fun w' h' => ih h'

/-- **A rule that asks no questions says what the plain rule alone says**, among any other rules, in
every project and whatever is remembered. -/
theorem Rule.AnswersAs.yields_walkLog (hrule : rule.AnswersAs plain ctx)
    {rules : List (Rule Query)} (hk : rules[k]? = some rule) :
    Yields Anything (walkLog rules ctx) fun log => log.told k = plain.heard ctx := by
  have hstart : Walk.Stands rule plain ctx k (pure [])
      { watchers := rules.map ({ rule := · }) } :=
    ⟨{ rule := plain }, by simp [hk, Watcher.lift], rfl, rfl, rfl, rfl, rfl⟩
  unfold walkLog
  refine yields_bind (hrule.yields_steps hstart ctx.module.visits) fun w hw => ?_
  obtain ⟨own, -, hagrees⟩ := hw
  rw [pure_bind] at hagrees
  exact yields_pure hagrees.told_eq

end

end Plumbline
