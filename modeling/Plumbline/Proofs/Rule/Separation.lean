/-
Rules on one walk do not notice each other.

On a walk the hooks of all rules are called in turn, and what they say goes into one log.  A rule by
itself only has its own open records, calls its hooks along the walk and falls silent at the first
one that fails: that is `Rule.heard`, which knows of no other rules and needs no mark for a rule
that failed.  One step of the walk takes every rule of the list one step further in this way
(`Tracks.step`), hence the part of the log that belongs to a rule is what is heard of it alone
(`told_eq_heard`).
-/
import Plumbline.Proofs.Module.Preorder
import Plumbline.Rule.Walk

namespace Plumbline

/-! ### A rule by itself -/

/-- What a rule says, and what comes of it: it stops at the first hook that fails. -/
structure Heard (α : Type) where
  said : List Violation
  result : Except Fault α

namespace Heard

instance : Monad Heard where
  pure a := ⟨[], .ok a⟩
  bind x next :=
    match x.result with
    | .ok a => ⟨x.said ++ (next a).said, (next a).result⟩
    | .error f => ⟨x.said, .error f⟩

variable {α β : Type}

theorem pure_eq (a : α) : (pure a : Heard α) = ⟨[], .ok a⟩ := rfl

theorem bind_ok {said : List Violation} {a : α} (next : α → Heard β) :
    (⟨said, .ok a⟩ : Heard α) >>= next = ⟨said ++ (next a).said, (next a).result⟩ := rfl

instance : LawfulMonad Heard :=
  LawfulMonad.mk' Heard
    (by
      rintro α ⟨said, _ | a⟩
      · rfl
      · show Heard.mk (said ++ []) _ = _
        rw [List.append_nil]
        rfl)
    (fun _ _ => rfl)
    (by
      rintro α β γ ⟨said, _ | a⟩ next next'
      · rfl
      · rw [bind_ok, bind_ok]
        obtain ⟨said', _ | b⟩ := next a
        · rfl
        · rw [bind_ok, bind_ok, List.append_assoc])

/-- The answer of a hook: violations and something more, or a failure. -/
def answer : Except Fault (List Violation × α) → Heard α
  | .ok (violations, a) => ⟨violations, .ok a⟩
  | .error f => ⟨[], .error f⟩

end Heard

open Watcher (innermost? setInnermost push)

/-- Records that are open, for each node that is entered and not yet left. -/
abbrev Scopes := List (List ScopeRecord)

namespace Rule

variable (rule : Rule Id) (ctx : RuleContext)

/-- A checking rule looks at a node that is entered, as often as it lists nodes of that kind. -/
def looks (node : Node) (scopes : Scopes) : Heard Scopes :=
  match rule.watch with
  | .checks check =>
    (rule.interests.filter (· == node.kind)).foldlM
      (fun scopes _ => Heard.answer ((check ctx node).map (·, scopes))) scopes
  | .scopes .. => pure scopes

/-- A scoped rule notes a node that is entered in its innermost record. -/
def notes (node : Node) (scopes : Scopes) : Heard Scopes :=
  match rule.watch with
  | .checks _ => pure scopes
  | .scopes _ _ notes _ =>
    (rule.interests.filter (· == node.kind)).foldlM (fun scopes _ =>
      match innermost? scopes with
      | none => pure scopes
      | some r => Heard.answer ((notes r ctx node).map fun (vs, r) => (vs, setInnermost r scopes)))
      scopes

/-- A scoped rule opens records at a node that is entered. -/
def opens (node : Node) (scopes : Scopes) : Heard Scopes :=
  match rule.watch with
  | .checks _ => pure scopes
  | .scopes kinds opens _ _ =>
    (kinds.filter (· == node.kind)).foldlM (fun scopes _ =>
      Heard.answer ((opens ctx node).map fun r => ([], r.elim scopes (push · scopes))))
      ([] :: scopes)

/-- A scoped rule closes the records that it opened at a node that is left, last one first. -/
def closes (scopes : Scopes) : Heard Scopes :=
  match rule.watch with
  | .checks _ => pure scopes
  | .scopes _ _ _ closes =>
    (scopes.headD []).foldlM (fun scopes r => Heard.answer ((closes r ctx).map (·, scopes)))
      scopes.tail

/-- The hooks of a rule at one step of a walk. -/
def hear (scopes : Scopes) : Visit → Heard Scopes
  | .enter around node => do
    let ctx := { ctx with around }
    let scopes ← rule.looks ctx node scopes
    let scopes ← rule.notes ctx node scopes
    rule.opens ctx node scopes
  | .leave around _ => rule.closes { ctx with around } scopes

/-- The failure that a rule is reported with. -/
def failures {α : Type} : Except Fault α → List RuleFailure
  | .ok _ => []
  | .error f => [⟨rule.code, ctx.file, f.message⟩]

/-- What a rule alone says along the walk through the module. -/
def heard : WalkOutcome :=
  let x := ctx.module.visits.foldlM (rule.hear ctx) []
  { violations := x.said, failures := rule.failures ctx x.result }

theorem length_failures_le {α : Type} (r : Except Fault α) :
    (rule.failures ctx r).length ≤ 1 := by
  cases r <;> simp [failures]

end Rule

/-- The part of the log that belongs to one rule. -/
def WalkLog.told (log : WalkLog) (i : Nat) : WalkOutcome :=
  WalkLog.outcome (log.filter (·.1 == i))

/-- What was said, and one more report. -/
def WalkOutcome.add (o : WalkOutcome) (r : Report) : WalkOutcome :=
  { violations := o.violations ++ r.violations, failures := o.failures ++ r.failure.toList }

theorem WalkOutcome.add_nothing (o : WalkOutcome) : o.add {} = o := by
  simp [add]

theorem told_append_self (log : WalkLog) (i : Nat) (r : Report) :
    WalkLog.told (log ++ [(i, r)]) i = (log.told i).add r := by
  have hlast : [(i, r)].filter (·.1 == i) = [(i, r)] := by simp
  unfold WalkLog.told WalkLog.outcome WalkOutcome.add
  rw [List.filter_append, hlast, List.flatMap_append, List.filterMap_append]
  cases hfailure : r.failure <;> simp [hfailure]

theorem told_append_of_ne {log : WalkLog} {i n : Nat} (h : n ≠ i) (r : Report) :
    WalkLog.told (log ++ [(n, r)]) i = log.told i := by
  have hlast : [(n, r)].filter (·.1 == i) = [] := by simp [h]
  unfold WalkLog.told
  rw [List.filter_append, hlast, List.append_nil]

/-! ### One watcher -/

section

variable {rule : Rule Id} {ctx : RuleContext}

/-- A watcher stands where its rule alone would, and has said what that would have said. -/
def Agrees (rule : Rule Id) (ctx : RuleContext) (x : Heard Scopes) (w : Watcher Id)
    (o : WalkOutcome) : Prop :=
  w.rule = rule ∧ o.violations = x.said ∧ o.failures = rule.failures ctx x.result ∧
    match x.result with
    | .ok scopes => w.scopes = scopes ∧ w.failed = false
    | .error _ => w.failed = true

theorem Agrees.told_eq {x : Heard Scopes} {w : Watcher Id} {o : WalkOutcome}
    (h : Agrees rule ctx x w o) :
    o = { violations := x.said, failures := rule.failures ctx x.result } := by
  obtain ⟨-, hviolations, hfailures, -⟩ := h
  obtain ⟨violations, failures⟩ := o
  obtain rfl := hviolations
  obtain rfl := hfailures
  rfl

/-- What a watcher does is what its rule does, and after a failure it does nothing. -/
structure Follows (rule : Rule Id) (ctx : RuleContext) (next : Scopes → Heard Scopes)
    (act : Watcher Id → Id (Watcher Id × Report)) : Prop where
  live : ∀ scopes,
    Agrees rule ctx (next scopes) (act { rule, scopes }).1 (({} : WalkOutcome).add (act { rule, scopes }).2)
  silent : ∀ w, w.rule = rule → w.failed = true →
    (act w).1.rule = rule ∧ (act w).1.failed = true ∧ (act w).2 = {}

/-- One more step of a watcher. -/
theorem Follows.agrees {next : Scopes → Heard Scopes}
    {act : Watcher Id → Id (Watcher Id × Report)} (h : Follows rule ctx next act)
    {x : Heard Scopes} {w : Watcher Id} {o : WalkOutcome} (hx : Agrees rule ctx x w o) :
    Agrees rule ctx (x >>= next) (act w).1 (o.add (act w).2) := by
  obtain ⟨said, f | scopes⟩ := x
  · obtain ⟨hrule, hviolations, hfailures, hfailed⟩ := hx
    obtain ⟨hrule', hfailed', hreport⟩ := h.silent w hrule hfailed
    rw [hreport, WalkOutcome.add_nothing]
    exact ⟨hrule', hviolations, hfailures, hfailed'⟩
  · obtain ⟨hrule, hviolations, hfailures, hscopes, hfailed⟩ := hx
    obtain rfl : w = { rule, scopes } := by
      obtain ⟨rule', scopes', failed⟩ := w
      simp_all
    obtain ⟨hrule', hviolations', hfailures', hstate⟩ := h.live scopes
    refine ⟨hrule', ?_, ?_, hstate⟩
    · show o.violations ++ _ = said ++ _
      rw [hviolations, ← hviolations']
      rfl
    · show o.failures ++ _ = _
      rw [hfailures]
      exact hfailures'

theorem WalkOutcome.add_add (o : WalkOutcome) {r r' : Report} (h : r.failure = none ∨ r' = {}) :
    o.add (r.add r') = (o.add r).add r' := by
  rcases h with h | rfl
  · simp [add, Report.add, h]
  · simp [add, Report.add]

/-- Until one fails, calls of a hook follow what the rule says in them. -/
theorem follows_untilFailure {α : Type} {next : α → Scopes → Heard Scopes}
    {once : α → Watcher Id → Id (Watcher Id × Report)} {items : List α}
    (h : ∀ a ∈ items, ∀ scopes, Agrees rule ctx (next a scopes) (once a { rule, scopes }).1
      (({} : WalkOutcome).add (once a { rule, scopes }).2)) :
    Follows rule ctx (fun scopes => items.foldlM (fun scopes a => next a scopes) scopes)
      (Watcher.untilFailure once items) := by
  induction items with
  | nil =>
      refine ⟨fun scopes => ⟨rfl, rfl, rfl, rfl, rfl⟩, fun w hrule hfailed => ?_⟩
      exact ⟨hrule, hfailed, rfl⟩
  | cons a rest ih =>
      have hrest := ih fun b hb => h b (List.mem_cons_of_mem a hb)
      have hstep : ∀ w : Watcher Id, w.failed = false →
          Watcher.untilFailure once (a :: rest) w =
            ((Watcher.untilFailure once rest (once a w).1).1,
              (once a w).2.add (Watcher.untilFailure once rest (once a w).1).2) := by
        intro w hw
        rw [Watcher.untilFailure, if_neg (by simp [hw])]
        rfl
      refine ⟨fun scopes => ?_, fun w hrule hfailed => ?_⟩
      · have hfirst := h a (by simp) scopes
        rw [hstep _ rfl, List.foldlM_cons, WalkOutcome.add_add]
        · exact hrest.agrees hfirst
        · obtain ⟨hrule, -, hfailures, hstate⟩ := hfirst
          cases hresult : (next a scopes).result with
          | error f =>
              rw [hresult] at hstate
              exact Or.inr (hrest.silent _ hrule hstate).2.2
          | ok scopes' =>
              rw [hresult] at hfailures
              refine Or.inl (Option.toList_eq_nil_iff.mp ?_)
              simpa [WalkOutcome.add, Rule.failures] using hfailures
      · rw [Watcher.untilFailure, if_pos hfailed]
        exact ⟨hrule, hfailed, rfl⟩

/-- A watcher takes the answer of a hook as its rule does. -/
theorem agrees_answer (scopes : Scopes) (around : Around)
    (r : Except Fault (List Violation × Scopes)) :
    Agrees rule ctx (Heard.answer r)
      (Watcher.answer { rule, scopes } { ctx with around } r).1
      (({} : WalkOutcome).add (Watcher.answer { rule, scopes } { ctx with around } r).2) := by
  rcases r with f | ⟨violations, scopes'⟩
  · exact ⟨rfl, rfl, rfl, rfl⟩
  · exact ⟨rfl, rfl, rfl, rfl, rfl⟩

theorem Follows.congr {next : Scopes → Heard Scopes}
    {act act' : Watcher Id → Id (Watcher Id × Report)} (h : Follows rule ctx next act')
    (heq : ∀ w, w.rule = rule → act w = act' w) : Follows rule ctx next act where
  live scopes := by
    rw [heq _ rfl]
    exact h.live scopes
  silent w hrule hfailed := by
    rw [heq w hrule]
    exact h.silent w hrule hfailed

/-- To do nothing follows a rule that has nothing to do. -/
theorem follows_pure : Follows rule ctx pure fun w => pure (w, {}) where
  live _ := ⟨rfl, rfl, rfl, rfl, rfl⟩
  silent _ hrule hfailed := ⟨hrule, hfailed, rfl⟩

/-- What follows a rule still does so if both first change the open records. -/
theorem Follows.after {next : Scopes → Scopes → Heard Scopes}
    {act : Scopes → Watcher Id → Id (Watcher Id × Report)} (change : Scopes → Scopes)
    (h : ∀ scopes, Follows rule ctx (next scopes) (act scopes)) :
    Follows rule ctx (fun scopes => next scopes (change scopes))
      fun w => act w.scopes { w with scopes := change w.scopes } where
  live scopes := (h scopes).live (change scopes)
  silent w hrule hfailed := (h w.scopes).silent { w with scopes := change w.scopes } hrule hfailed

theorem follows_check (around : Around) (node : Node) :
    Follows rule ctx (rule.looks { ctx with around } node)
      (Watcher.check { ctx with around } node) := by
  unfold Rule.looks
  cases hwatch : rule.watch with
  | scopes kinds opens notes closes =>
      refine follows_pure.congr fun w hw => ?_
      simp only [Watcher.check, hw, hwatch]
  | checks check =>
      let once (w : Watcher Id) : Id (Watcher Id × Report) :=
        w.answer { ctx with around } ((check { ctx with around } node).map (·, w.scopes))
      have hchecks : Follows rule ctx (fun scopes =>
          (rule.interests.filter (· == node.kind)).foldlM (fun scopes _ =>
            Heard.answer ((check { ctx with around } node).map (·, scopes))) scopes)
          (Watcher.untilFailure (fun _ => once) (rule.interests.filter (· == node.kind))) :=
        follows_untilFailure fun _ _ scopes => agrees_answer scopes around _
      refine hchecks.congr fun w hw => ?_
      simp only [Watcher.check, hw, hwatch]
      rfl

theorem follows_note (around : Around) (node : Node) :
    Follows rule ctx (rule.notes { ctx with around } node)
      (Watcher.note { ctx with around } node) := by
  unfold Rule.notes
  cases hwatch : rule.watch with
  | checks check =>
      refine follows_pure.congr fun w hw => ?_
      simp only [Watcher.note, hw, hwatch]
  | scopes kinds opens notes closes =>
      let once (w : Watcher Id) : Id (Watcher Id × Report) :=
        match innermost? w.scopes with
        | none => (w, {})
        | some r => w.answer { ctx with around } ((notes r { ctx with around } node).map
            fun (vs, r) => (vs, setInnermost r w.scopes))
      have hnotes : Follows rule ctx (fun scopes =>
          (rule.interests.filter (· == node.kind)).foldlM (fun scopes _ =>
            match innermost? scopes with
            | none => pure scopes
            | some r => Heard.answer ((notes r { ctx with around } node).map
                fun (vs, r) => (vs, setInnermost r scopes))) scopes)
          (Watcher.untilFailure (fun _ => once) (rule.interests.filter (· == node.kind))) := by
        refine follows_untilFailure fun _ _ scopes => ?_
        show Agrees rule ctx _ (once { rule, scopes }).1 (({} : WalkOutcome).add (once _).2)
        simp only [once]
        cases innermost? scopes with
        | none => exact ⟨rfl, rfl, rfl, rfl, rfl⟩
        | some r => exact agrees_answer scopes around _
      refine hnotes.congr fun w hw => ?_
      simp only [Watcher.note, hw, hwatch]
      rfl

theorem follows_openScope (around : Around) (node : Node) :
    Follows rule ctx (rule.opens { ctx with around } node)
      (Watcher.openScope { ctx with around } node) := by
  unfold Rule.opens
  cases hwatch : rule.watch with
  | checks check =>
      refine follows_pure.congr fun w hw => ?_
      simp only [Watcher.openScope, hw, hwatch]
  | scopes kinds opens notes closes =>
      let once (w : Watcher Id) : Id (Watcher Id × Report) :=
        w.answer { ctx with around } ((opens { ctx with around } node).map fun r =>
          ([], r.elim w.scopes (push · w.scopes)))
      have hopens : ∀ _ : Scopes, Follows rule ctx (fun scopes =>
          (kinds.filter (· == node.kind)).foldlM (fun scopes _ =>
            Heard.answer ((opens { ctx with around } node).map fun r =>
              ([], r.elim scopes (push · scopes)))) scopes)
          (Watcher.untilFailure (fun _ => once) (kinds.filter (· == node.kind))) :=
        fun _ => follows_untilFailure fun _ _ scopes => agrees_answer scopes around _
      refine (Follows.after ([] :: ·) hopens).congr fun w hw => ?_
      simp only [Watcher.openScope, hw, hwatch]
      rfl

theorem follows_closeScope (around : Around) :
    Follows rule ctx (rule.closes { ctx with around })
      (Watcher.closeScope { ctx with around }) := by
  unfold Rule.closes
  cases hwatch : rule.watch with
  | checks check =>
      refine follows_pure.congr fun w hw => ?_
      simp only [Watcher.closeScope, hw, hwatch]
  | scopes kinds opens notes closes =>
      let once (r : ScopeRecord) (w : Watcher Id) : Id (Watcher Id × Report) :=
        w.answer { ctx with around } ((closes r { ctx with around }).map (·, w.scopes))
      have hcloses : ∀ opened : Scopes, Follows rule ctx (fun scopes =>
          (opened.headD []).foldlM (fun scopes r =>
            Heard.answer ((closes r { ctx with around }).map (·, scopes))) scopes)
          (Watcher.untilFailure once (opened.headD [])) :=
        fun _ => follows_untilFailure fun _ _ scopes => agrees_answer scopes around _
      refine (Follows.after List.tail hcloses).congr fun w hw => ?_
      simp only [Watcher.closeScope, hw, hwatch]
      rfl

end

/-! ### All watchers -/

section

variable {act : Watcher Id → Id (Watcher Id × Report)}

/-- Each of several watchers acts once, and its report gets its number; `n` is that of the first. -/
structure Dispatched (act : Watcher Id → Id (Watcher Id × Report)) (n : Nat)
    (watchers : List (Watcher Id)) (log : WalkLog) (done : List (Watcher Id) × WalkLog) :
    Prop where
  acted : done.1 = watchers.map fun w => (act w).1
  own : ∀ i w, watchers[i]? = some w →
    WalkLog.told done.2.reverse (n + i) = (WalkLog.told log.reverse (n + i)).add (act w).2
  others : ∀ k, k < n → WalkLog.told done.2.reverse k = WalkLog.told log.reverse k
  numbers : ∀ x ∈ done.2, x ∈ log ∨ x.1 < n + watchers.length

theorem dispatched_inTurn (n : Nat) (watchers : List (Watcher Id)) (log : WalkLog) :
    Dispatched act n watchers log (Walk.inTurn act n watchers log) := by
  induction watchers generalizing n log with
  | nil => exact ⟨rfl, by simp, fun _ _ => rfl, fun x hx => Or.inl hx⟩
  | cons w ws ih =>
      have hstep : Walk.inTurn act n (w :: ws) log =
          ((act w).1 :: (Walk.inTurn act (n + 1) ws ((n, (act w).2) :: log)).1,
            (Walk.inTurn act (n + 1) ws ((n, (act w).2) :: log)).2) := rfl
      obtain ⟨hacted, hown, hothers, hnumbers⟩ := ih (n + 1) ((n, (act w).2) :: log)
      rw [List.reverse_cons] at hown hothers
      rw [hstep]
      refine ⟨?_, fun i w' hw' => ?_, fun k hk => ?_, fun x hx => ?_⟩
      · show (act w).1 :: _ = _
        rw [hacted]
        rfl
      · cases i with
        | zero =>
            obtain rfl : w = w' := by simpa using hw'
            exact (hothers n (Nat.lt_succ_self n)).trans (told_append_self log.reverse n _)
        | succ i =>
            have hnext := hown i w' (by simpa using hw')
            rw [show n + 1 + i = n + (i + 1) by omega, told_append_of_ne (by omega)] at hnext
            exact hnext
      · exact (hothers k (by omega)).trans (told_append_of_ne (by omega) _)
      · rcases hnumbers x hx with hx | hx
        · rcases List.mem_cons.mp hx with rfl | hx
          · exact Or.inr (by simp)
          · exact Or.inl hx
        · exact Or.inr (by simp only [List.length_cons]; omega)

theorem dispatched_inReverse (n : Nat) (watchers : List (Watcher Id)) (log : WalkLog) :
    Dispatched act n watchers log (Walk.inReverse act n watchers log) := by
  induction watchers generalizing n log with
  | nil => exact ⟨rfl, by simp, fun _ _ => rfl, fun x hx => Or.inl hx⟩
  | cons w ws ih =>
      have hstep : Walk.inReverse act n (w :: ws) log =
          ((act w).1 :: (Walk.inReverse act (n + 1) ws log).1,
            (n, (act w).2) :: (Walk.inReverse act (n + 1) ws log).2) := rfl
      obtain ⟨hacted, hown, hothers, hnumbers⟩ := ih (n + 1) log
      rw [hstep]
      refine ⟨?_, fun i w' hw' => ?_, fun k hk => ?_, fun x hx => ?_⟩
      · show (act w).1 :: _ = _
        rw [hacted]
        rfl
      · show WalkLog.told ((n, _) :: _).reverse _ = _
        rw [List.reverse_cons]
        cases i with
        | zero =>
            obtain rfl : w = w' := by simpa using hw'
            show WalkLog.told _ n = (WalkLog.told _ n).add _
            rw [told_append_self, hothers n (Nat.lt_succ_self n)]
        | succ i =>
            have hnext := hown i w' (by simpa using hw')
            rw [told_append_of_ne (by omega), show n + (i + 1) = n + 1 + i by omega]
            exact hnext
      · show WalkLog.told ((n, _) :: _).reverse _ = _
        rw [List.reverse_cons, told_append_of_ne (by omega)]
        exact hothers k (by omega)
      · rcases List.mem_cons.mp hx with rfl | hx
        · exact Or.inr (by simp)
        · rcases hnumbers x hx with hx | hx
          · exact Or.inl hx
          · exact Or.inr (by simp only [List.length_cons]; omega)

end

/-- Every rule of the list has its watcher, which agrees with what is heard of the rule, and there
are no reports but theirs. -/
structure Tracks (rules : List (Rule Id)) (ctx : RuleContext) (heard : Rule Id → Heard Scopes)
    (watchers : List (Watcher Id)) (log : WalkLog) : Prop where
  listed : watchers.map (·.rule) = rules
  agrees : ∀ i w, watchers[i]? = some w →
    Agrees w.rule ctx (heard w.rule) w (WalkLog.told log.reverse i)
  numbers : ∀ x ∈ log, x.1 < rules.length

section

variable {rules : List (Rule Id)} {ctx : RuleContext} {heard : Rule Id → Heard Scopes}

/-- When all watchers follow their rules, they go on to track them. -/
theorem Tracks.dispatched {next : Rule Id → Scopes → Heard Scopes}
    {act : Watcher Id → Id (Watcher Id × Report)} {watchers : List (Watcher Id)} {log : WalkLog}
    {done : List (Watcher Id) × WalkLog} (h : Tracks rules ctx heard watchers log)
    (hact : ∀ rule, Follows rule ctx (next rule) act)
    (hdone : Dispatched act 0 watchers log done) :
    Tracks rules ctx (fun rule => heard rule >>= next rule) done.1 done.2 := by
  have hlength : watchers.length = rules.length := by rw [← h.listed, List.length_map]
  have hagrees : ∀ i w, watchers[i]? = some w →
      Agrees w.rule ctx (heard w.rule >>= next w.rule) (act w).1
        (WalkLog.told done.2.reverse i) := by
    intro i w hw
    have hown := hdone.own i w hw
    rw [Nat.zero_add] at hown
    rw [hown]
    exact (hact w.rule).agrees (h.agrees i w hw)
  refine ⟨?_, fun i w hw => ?_, fun x hx => ?_⟩
  · rw [hdone.acted, List.map_map, ← h.listed]
    refine List.map_congr_left fun w hw => ?_
    obtain ⟨i, hi⟩ := List.mem_iff_getElem?.mp hw
    exact (hagrees i w hi).1
  · rw [hdone.acted, List.getElem?_map] at hw
    obtain ⟨old, hold, rfl⟩ := Option.map_eq_some_iff.mp hw
    have hnew := hagrees i old hold
    rw [hnew.1]
    exact hnew
  · rcases hdone.numbers x hx with hx | hx
    · exact h.numbers x hx
    · omega

/-- **One step of a walk takes each rule one step further**, as it would go alone. -/
theorem Tracks.step {w : Walk Id} (h : Tracks rules ctx heard w.watchers w.log) (visit : Visit) :
    Tracks rules ctx (fun rule => heard rule >>= fun scopes => rule.hear ctx scopes visit)
      (w.step ctx visit).watchers (w.step ctx visit).log := by
  cases visit with
  | enter around node =>
      have hcheck := h.dispatched (fun rule => follows_check around node)
        (dispatched_inTurn 0 w.watchers w.log)
      have hnote := hcheck.dispatched (fun rule => follows_note around node)
        (dispatched_inTurn 0 _ _)
      have hopen := hnote.dispatched (fun rule => follows_openScope around node)
        (dispatched_inTurn 0 _ _)
      have heq : (fun rule => heard rule >>= fun scopes => rule.hear ctx scopes (.enter around node)) =
          fun rule => ((heard rule >>= rule.looks { ctx with around } node) >>=
            rule.notes { ctx with around } node) >>= rule.opens { ctx with around } node := by
        funext rule
        rw [bind_assoc, bind_assoc]
        rfl
      rw [heq]
      exact hopen
  | leave around node =>
      exact h.dispatched (fun rule => follows_closeScope around)
        (dispatched_inReverse 0 w.watchers w.log)

/-- A whole walk does so with all steps. -/
theorem Tracks.steps (visits : List Visit) (w : Walk Id)
    (h : Tracks rules ctx heard w.watchers w.log) :
    Tracks rules ctx (fun rule => heard rule >>= fun scopes =>
        visits.foldlM (rule.hear ctx) scopes)
      (visits.foldlM (Walk.step ctx) w : Id (Walk Id)).watchers
      (visits.foldlM (Walk.step ctx) w : Id (Walk Id)).log := by
  induction visits generalizing w heard with
  | nil =>
      have heq : (fun rule => heard rule >>= fun scopes =>
          ([] : List Visit).foldlM (rule.hear ctx) scopes) = heard := by
        funext rule
        exact bind_pure (heard rule)
      rw [heq]
      exact h
  | cons visit rest ih =>
      have heq : (fun rule => heard rule >>= fun scopes =>
          (visit :: rest).foldlM (rule.hear ctx) scopes) =
          fun rule => (heard rule >>= fun scopes => rule.hear ctx scopes visit) >>=
            fun scopes => rest.foldlM (rule.hear ctx) scopes := by
        funext rule
        rw [bind_assoc]
        rfl
      rw [heq]
      exact ih _ (h.step visit)

theorem tracks_start (rules : List (Rule Id)) (ctx : RuleContext) :
    Tracks rules ctx (fun _ => pure []) (rules.map ({ rule := · })) [] := by
  refine ⟨?_, fun i w hw => ?_, by simp⟩
  · rw [List.map_map]
    exact List.map_id rules
  · rw [List.getElem?_map] at hw
    obtain ⟨rule, -, rfl⟩ := Option.map_eq_some_iff.mp hw
    exact ⟨rfl, rfl, rfl, rfl, rfl⟩

/-- At the end of a walk, each rule has said what it says alone. -/
theorem tracks_walk (rules : List (Rule Id)) (ctx : RuleContext) :
    ∃ watchers, Tracks rules ctx (fun rule => ctx.module.visits.foldlM (rule.hear ctx) [])
      watchers (walkLog rules ctx).run.reverse := by
  have hend := Tracks.steps ctx.module.visits { watchers := rules.map ({ rule := · }) }
    (tracks_start rules ctx)
  have hlog : (walkLog rules ctx).run.reverse =
      (ctx.module.visits.foldlM (Walk.step ctx)
        { watchers := rules.map ({ rule := · }) } : Id (Walk Id)).run.log :=
    List.reverse_reverse _
  rw [hlog]
  exact ⟨_, hend⟩

/-- **What a rule says on a walk with others is what is heard of it alone.** -/
theorem told_eq_heard {i : Nat} {rule : Rule Id} (h : rules[i]? = some rule) :
    WalkLog.told (walkLog rules ctx).run i = rule.heard ctx := by
  obtain ⟨watchers, htracks⟩ := tracks_walk rules ctx
  obtain ⟨w, hw, rfl⟩ : ∃ w, watchers[i]? = some w ∧ w.rule = rule := by
    rw [← htracks.listed, List.getElem?_map] at h
    exact Option.map_eq_some_iff.mp h
  have hagrees := htracks.agrees i w hw
  rw [List.reverse_reverse] at hagrees
  exact hagrees.told_eq

theorem lt_of_mem_walkLog {x : Nat × Report} (h : x ∈ (walkLog rules ctx).run) :
    x.1 < rules.length := by
  obtain ⟨watchers, htracks⟩ := tracks_walk rules ctx
  exact htracks.numbers x (List.mem_reverse.mpr h)

/-- A rule on a walk of its own says what is heard of it. -/
theorem walk_singleton (rule : Rule Id) (ctx : RuleContext) :
    (walk [rule] ctx).run = rule.heard ctx := by
  have hall : (walkLog [rule] ctx).run.filter (·.1 == 0) = (walkLog [rule] ctx).run := by
    refine List.filter_eq_self.mpr fun x hx => ?_
    have hlt := lt_of_mem_walkLog hx
    simpa using hlt
  have hheard : WalkLog.told (walkLog [rule] ctx).run 0 = rule.heard ctx := told_eq_heard rfl
  rw [← hheard]
  unfold WalkLog.told
  rw [hall]
  rfl

end

/-- **Rules do not interfere.**  What the rules say along a walk is what stands in its log.  Each entry
there belongs to a rule of the list, and the entries of a rule come to what a walk with that rule
alone says: what its hooks give along the walk up to the first that fails, with one failure at most.
The walk enters all nodes in preorder, each once and with the definitions around it. -/
theorem rules_do_not_interfere (rules : List (Rule Id)) (ctx : RuleContext) :
    (walk rules ctx).run = WalkLog.outcome (walkLog rules ctx).run ∧
    (∀ x ∈ (walkLog rules ctx).run, x.1 < rules.length) ∧
    (∀ i : Fin rules.length,
      WalkLog.told (walkLog rules ctx).run i = (walk [rules[i]] ctx).run ∧
      (walk [rules[i]] ctx).run = rules[i].heard ctx ∧
      (walk [rules[i]] ctx).run.failures.length ≤ 1) ∧
    (∀ around node, node.visits around =
      enclosed around node (visitsOfParts (node.parts around))) ∧
    InPreorder ((Node.module ctx.module).at? {}) ctx.module.visits := by
  refine ⟨rfl, fun x hx => lt_of_mem_walkLog hx, fun i => ⟨?_, ?_, ?_⟩, Node.visits_eq,
    inPreorder_module ctx.module⟩
  · rw [walk_singleton]
    exact told_eq_heard (List.getElem?_eq_getElem i.isLt)
  · exact walk_singleton rules[i] ctx
  · rw [walk_singleton]
    exact rules[i].length_failures_le ctx _

/-- A rule that reports how many names it sees in a function, and breaks down at some. -/
def nameCounter (code : String) (breaks : String → Bool) : Rule Id where
  code
  name := code
  description := "counts names"
  fixType := .commentOnly
  interests := [.name]
  watch := .scopes [.functionDef]
    (fun ctx node => .ok (node.function?.map fun f => ⟨f.qualname, ctx.location f.span, []⟩))
    (fun r _ node => match node with
      | .expr (.name id _) => if breaks id then .error (.panic none) else .ok ([], r.bump "names")
      | _ => .ok ([], r))
    (fun r _ => .ok [{ code, message := toString (r.count "names"), location := r.location }])

/-- A function with two names in it, and between them a function with one more. -/
def nestedNames : RuleContext where
  module :=
    { path := "a.py"
      name := "a"
      body := [.functionDef { name := "f", qualname := "f" } [
        .expr (.name "x" {}),
        .functionDef { name := "g", qualname := "f.g" } [.expr (.name "bad" {})],
        .expr (.name "y" {})]] }
  config := {}
  classifier := .ofConfig {}

/-- A rule that breaks down while two of its records are open falls silent, and another one counts
on. -/
theorem broken_rule_does_not_interfere :
    (WalkLog.told (walkLog [nameCounter "A" (· == "bad"), nameCounter "B" fun _ => false]
      nestedNames).run 0).failures = [⟨"A", "a.py", "panicked: Unknown panic"⟩] ∧
    (WalkLog.told (walkLog [nameCounter "A" (· == "bad"), nameCounter "B" fun _ => false]
      nestedNames).run 1).violations.map (·.message) = ["1", "2"] := by
  have h := (rules_do_not_interfere
    [nameCounter "A" (· == "bad"), nameCounter "B" fun _ => false] nestedNames).2.2.1
  have hbroken := (h ⟨0, by decide⟩).1
  have hhealthy := (h ⟨1, by decide⟩).1
  rw [hbroken, hhealthy]
  exact ⟨by decide +kernel, by decide +kernel⟩

end Plumbline
