/-
Rules on a walk.

All rules follow one walk through a module.  At each node that is entered, first the checking rules
look, then the scoped rules note what they see, then they open new scopes; when the node is left,
the scopes that were opened there are closed, last rule first.  A rule that lists a kind of node
several times is called as often at each such node.  What one rule does depends on its own state
only.
-/
import Plumbline.Rule.Basic

namespace Plumbline

/-- A rule on its walk through one file. -/
structure Watcher (m : Type → Type) where
  rule : Rule m
  /-- For each node that is entered and not yet left, innermost first: the records opened there,
  last one first. -/
  scopes : List (List ScopeRecord) := []
  failed : Bool := false

/-- What hooks of one rule gave. -/
structure Report where
  violations : List Violation := []
  failure : Option RuleFailure := none
deriving Inhabited

/-- What was reported in two steps. -/
def Report.add (r r' : Report) : Report :=
  { violations := r.violations ++ r'.violations, failure := r.failure.or r'.failure }

namespace Watcher

variable {m : Type → Type} [Monad m]

/-- The watcher and the report after a hook gave violations and the records that are open then, or
failed. -/
def answer (w : Watcher m) (ctx : RuleContext) :
    Except Fault (List Violation × List (List ScopeRecord)) → Watcher m × Report
  | .ok (violations, scopes) => ({ w with scopes }, { violations })
  | .error f => ({ w with failed := true }, { failure := some ⟨w.rule.code, ctx.file, f.message⟩ })

/-- Calls a hook for each item in turn, until one fails. -/
def untilFailure {α : Type} (act : α → Watcher m → m (Watcher m × Report)) :
    List α → Watcher m → m (Watcher m × Report)
  | [], w => pure (w, {})
  | a :: rest, w =>
    if w.failed then pure (w, {})
    else do
      let (w, report) ← act a w
      let (w, more) ← untilFailure act rest w
      pure (w, report.add more)

/-- Looks at a node that is entered, once for each time the rule lists its kind. -/
def check (ctx : RuleContext) (node : Node) (w : Watcher m) : m (Watcher m × Report) :=
  match w.rule.watch with
  | .scopes .. => pure (w, {})
  | .checks check =>
    untilFailure (fun _ w => do
      let found ← check ctx node
      pure (w.answer ctx (found.map (·, w.scopes))))
      (w.rule.interests.filter (· == node.kind)) w

/-- The innermost record that is open. -/
def innermost? (scopes : List (List ScopeRecord)) : Option ScopeRecord := scopes.flatten.head?

/-- Puts a new record in place of the innermost one. -/
def setInnermost (r : ScopeRecord) : List (List ScopeRecord) → List (List ScopeRecord)
  | [] => []
  | (_ :: records) :: rest => (r :: records) :: rest
  | [] :: rest => [] :: setInnermost r rest

/-- Notes a node that is entered in the innermost record, once for each time the rule lists its
kind. -/
def note (ctx : RuleContext) (node : Node) (w : Watcher m) : m (Watcher m × Report) :=
  match w.rule.watch with
  | .checks _ => pure (w, {})
  | .scopes _ _ notes _ =>
    untilFailure (fun _ w =>
      match innermost? w.scopes with
      | none => pure (w, {})
      | some r => do
        let noted ← notes r ctx node
        pure (w.answer ctx (noted.map fun (vs, r) => (vs, setInnermost r w.scopes))))
      (w.rule.interests.filter (· == node.kind)) w

/-- Opens a record at the innermost node. -/
def push (r : ScopeRecord) : List (List ScopeRecord) → List (List ScopeRecord)
  | [] => [[r]]
  | records :: rest => (r :: records) :: rest

/-- Opens records at a node that is entered, if the rule wants any there. -/
def openScope (ctx : RuleContext) (node : Node) (w : Watcher m) : m (Watcher m × Report) :=
  match w.rule.watch with
  | .checks _ => pure (w, {})
  | .scopes kinds opens _ _ =>
    untilFailure (fun _ w => do
      let opened ← opens ctx node
      pure (w.answer ctx (opened.map fun r => ([], r.elim w.scopes (push · w.scopes)))))
      (kinds.filter (· == node.kind)) { w with scopes := [] :: w.scopes }

/-- Closes the records that were opened at the node that is left, last one first. -/
def closeScope (ctx : RuleContext) (w : Watcher m) : m (Watcher m × Report) :=
  match w.rule.watch with
  | .checks _ => pure (w, {})
  | .scopes _ _ _ closes =>
    untilFailure (fun r w => do
      let found ← closes r ctx
      pure (w.answer ctx (found.map (·, w.scopes))))
      (w.scopes.headD []) { w with scopes := w.scopes.tail }

end Watcher

/-- Reports of a walk, each with the number of the rule that gave it, in order. -/
abbrev WalkLog := List (Nat × Report)

/-- All rules on their walk. -/
structure Walk (m : Type → Type) where
  watchers : List (Watcher m)
  /-- Last report first. -/
  log : WalkLog := []

namespace Walk

variable {m : Type → Type} [Monad m]

/-- Lets each rule in turn do something; `n` is the number of the first. -/
def inTurn (act : Watcher m → m (Watcher m × Report)) :
    (n : Nat) → List (Watcher m) → WalkLog → m (List (Watcher m) × WalkLog)
  | _, [], log => pure ([], log)
  | n, w :: ws, log => do
    let (w, report) ← act w
    let (ws, log) ← inTurn act (n + 1) ws ((n, report) :: log)
    pure (w :: ws, log)

/-- Lets each rule in turn do something, the last rule first. -/
def inReverse (act : Watcher m → m (Watcher m × Report)) :
    (n : Nat) → List (Watcher m) → WalkLog → m (List (Watcher m) × WalkLog)
  | _, [], log => pure ([], log)
  | n, w :: ws, log => do
    let (ws, log) ← inReverse act (n + 1) ws log
    let (w, report) ← act w
    pure (w :: ws, (n, report) :: log)

/-- One phase: every rule does the same. -/
def phase (act : Watcher m → m (Watcher m × Report)) (w : Walk m) : m (Walk m) := do
  let (watchers, log) ← inTurn act 0 w.watchers w.log
  pure { watchers, log }

/-- All rules at one step of the walk. -/
def step (ctx : RuleContext) (w : Walk m) : Visit → m (Walk m)
  | .enter around node => do
    let ctx := { ctx with around }
    let w ← w.phase (Watcher.check ctx node)
    let w ← w.phase (Watcher.note ctx node)
    w.phase (Watcher.openScope ctx node)
  | .leave around _ => do
    let (watchers, log) ← inReverse (Watcher.closeScope { ctx with around }) 0 w.watchers w.log
    pure { watchers, log }

end Walk

/-- What rules said about a file. -/
structure WalkOutcome where
  violations : List Violation := []
  failures : List RuleFailure := []
deriving Inhabited

/-- What the reports of a walk come to. -/
def WalkLog.outcome (log : WalkLog) : WalkOutcome :=
  { violations := log.flatMap (·.2.violations)
    failures := log.filterMap (·.2.failure) }

/-- The reports of the rules along a walk through the module. -/
def walkLog {m : Type → Type} [Monad m] (rules : List (Rule m)) (ctx : RuleContext) :
    m WalkLog := do
  let w ← ctx.module.visits.foldlM (Walk.step ctx) { watchers := rules.map ({ rule := · }) }
  pure w.log.reverse

/-- What the rules say along a walk through the module. -/
def walk {m : Type → Type} [Monad m] (rules : List (Rule m)) (ctx : RuleContext) :
    m WalkOutcome := do
  pure (← walkLog rules ctx).outcome

end Plumbline
