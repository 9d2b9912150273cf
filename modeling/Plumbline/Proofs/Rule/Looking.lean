/-
Rules that only look.

Some rules ask no questions: what they find at a node is told by the node alone, and they keep no
records and never fail.  Such a rule says the same on every walk, whatever the other rules ask about
in between and whatever is remembered by then: what it finds at the nodes that the walk enters, in
their order (`Rule.Looks.yields_walkLog`).
-/
import Plumbline.Proofs.Rule.Asking

namespace Plumbline

open Query

/-- On a walk the rule finds `finds node` at a node, and that is all it does. -/
def Rule.Looks (rule : Rule Query) (ctx : RuleContext) (finds : Node → List Violation) : Prop :=
  ∃ check, rule.watch = .checks check ∧
    ∀ around node, check { ctx with around } node = pure (.ok (finds node))

/-- What such a rule reports at a node: it looks as often as it lists nodes of that kind. -/
def Rule.foundAt (rule : Rule Query) (finds : Node → List Violation) (node : Node) :
    List Violation :=
  (rule.interests.filter (· == node.kind)).flatMap fun _ => finds node

/-- What such a rule reports at one step of a walk. -/
def Rule.foundOn (rule : Rule Query) (finds : Node → List Violation) : Visit → List Violation
  | .enter _ node => rule.foundAt finds node
  | .leave _ _ => []

/-- The plain rule that finds the same. -/
def Rule.looker (rule : Rule Query) (finds : Node → List Violation) : Rule Id where
  code := rule.code
  name := rule.name
  description := rule.description
  fixType := rule.fixType
  interests := rule.interests
  watch := .checks fun _ node => .ok (finds node)

section

variable {rule : Rule Query} {ctx : RuleContext} {finds : Node → List Violation}

theorem Rule.Looks.answersAs (h : rule.Looks ctx finds) :
    rule.AnswersAs (rule.looker finds) ctx := by
  obtain ⟨check, hwatch, hcheck⟩ := h
  refine ⟨rfl, rfl, ?_⟩
  rw [hwatch]
  exact .checks hcheck

/-- Hooks that find something and leave the records as they are. -/
theorem foldlM_finds {α : Type} (found : α → List Violation) (items : List α) (scopes : Scopes) :
    items.foldlM (fun scopes a => (⟨found a, .ok scopes⟩ : Heard Scopes)) scopes =
      ⟨items.flatMap found, .ok scopes⟩ := by
  induction items with
  | nil => rfl
  | cons a rest ih =>
      rw [List.foldlM_cons, Heard.bind_ok, ih]
      rfl

theorem Rule.hear_looker (visit : Visit) (scopes : Scopes) :
    (rule.looker finds).hear ctx scopes visit = ⟨rule.foundOn finds visit, .ok scopes⟩ := by
  cases visit with
  | leave around node => rfl
  | enter around node =>
      have hlooks : (rule.looker finds).looks { ctx with around } node scopes =
          ⟨rule.foundAt finds node, .ok scopes⟩ := foldlM_finds (fun _ => finds node) _ scopes
      show (rule.looker finds).looks { ctx with around } node scopes >>= pure = _
      rw [bind_pure]
      exact hlooks

theorem Rule.heard_looker :
    (rule.looker finds).heard ctx =
      { violations := ctx.module.visits.flatMap (rule.foundOn finds), failures := [] } := by
  have hhear : (rule.looker finds).hear ctx =
      fun scopes visit => ⟨rule.foundOn finds visit, .ok scopes⟩ :=
    funext fun scopes => funext fun visit => Rule.hear_looker visit scopes
  unfold Rule.heard
  rw [hhear, foldlM_finds]
  rfl

/-- **A rule that only looks says what it finds at the nodes of the walk**, in their order, among
any other rules, in every project and whatever is remembered. -/
theorem Rule.Looks.yields_walkLog (hrule : rule.Looks ctx finds) {rules : List (Rule Query)}
    {k : Nat} (hk : rules[k]? = some rule) :
    Yields Anything (walkLog rules ctx) fun log =>
      log.told k =
        { violations := ctx.module.visits.flatMap (rule.foundOn finds), failures := [] } := by
  rw [← Rule.heard_looker]
  exact hrule.answersAs.yields_walkLog hk

end

end Plumbline
