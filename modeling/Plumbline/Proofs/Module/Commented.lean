/-
Sources that differ by comments.

Two trees of two sources stand for the same code if the second one has the parts of the first one and
comments between them, and what is spelled in the first source is spelled the same in the second.  Only
constructs with blocks need not be spelled the same, because comments may lie in them.  The lowering
passes over comments and asks for the text of no construct with blocks, so such trees have the same
skeleton (`skeleton_stmts`).
-/
import Mathlib.Data.List.Forall2
import Plumbline.Module.Skeleton
import Plumbline.Proofs.Module.Extent

namespace Plumbline

open Syntax (Kind Field)

namespace Syntax

/-- What the parts of a construct may be besides parts that are spelled on. -/
inductive Room where
  /-- Statements with blocks. -/
  | lines
  /-- Blocks and clauses, or the definition that is decorated. -/
  | blocks
  | nothing
deriving DecidableEq

/-- The room of a construct. -/
def Kind.room : Kind → Room
  | .module | .block => .lines
  | .ifStatement | .forStatement | .whileStatement | .tryStatement | .withStatement
  | .matchStatement | .functionDefinition | .classDefinition | .decoratedDefinition
  | .elifClause | .elseClause | .exceptClause | .finallyClause | .caseClause => .blocks
  | _ => .nothing

/-- Clauses that are no case. -/
def Kind.goesOn : Kind → Bool
  | .elifClause | .elseClause | .exceptClause | .finallyClause => true
  | _ => false

/-- May a part of a construct with such room have further lines of the source inside? -/
def Room.admits (room : Room) (f : Option Field) (k : Kind) : Bool :=
  match room with
  | .lines => k.room == .blocks && !k.goesOn
  | .blocks =>
    match f with
    | none => k.goesOn
    | some .body => k == .block
    | some .definition => k == .functionDefinition || k == .classDefinition
    | _ => false
  | .nothing => false

theorem Room.admits_of_nothing {room : Room} {f : Option Field} {k : Kind} (hk : k.room = .nothing) :
    room.admits f k = false := by
  have hne : ∀ {k' : Kind}, k'.room ≠ .nothing → (k == k') = false := fun h =>
    beq_eq_false_iff_ne.mpr fun heq => h (heq ▸ hk)
  have hgoes : k.goesOn = false := by
    cases k <;> first | rfl | exact absurd hk (by decide)
  unfold Room.admits
  split
  · rw [hk]
    rfl
  · split
    · exact hgoes
    · exact hne (by decide)
    · rw [hne (by decide), hne (by decide)]
      rfl
    · rfl
  · rfl

/-- What stands in the one stretch of the first source is what stands in the other of the second. -/
structure SameText (a b : List Char) (s s' : Span) : Prop where
  text : s.text a = s'.text b
  length : s.stop - s.start = s'.stop - s'.start

mutual

/-- The second tree is the first one with comments, in another source. -/
inductive IsCommented (a b : List Char) : Room → Tree → Tree → Prop where
  | node {room : Room} {k : Kind} {f : Option Field} {s s' : Span} {cs ds : List Tree}
      (hk : k ≠ .typedParameter) (hs : room.admits f k = false → SameText a b s s')
      (hroles : ∀ c ∈ cs, c.IsGiven k) (h : AreCommented a b k.room cs ds) :
      IsCommented a b room (.node k f s cs) (.node k f s' ds)
  /-- What a type is given to stays in front. -/
  | first {room : Room} {f : Option Field} {s s' : Span} {c d : Tree} {cs ds : List Tree}
      (hs : SameText a b s s') (hc : IsCommented a b .nothing c d) (h : AreCommented a b .nothing cs ds) :
      IsCommented a b room (.node .typedParameter f s (c :: cs)) (.node .typedParameter f s' (d :: ds))
  | text {room : Room} {f : Option Field} {s s' : Span} {cs ds : List Tree} (hs : SameText a b s s') :
      IsCommented a b room (.node .string f s cs) (.node .string f s' ds)

/-- The second trees are the first ones with comments in and between them, in another source. -/
inductive AreCommented (a b : List Char) : Room → List Tree → List Tree → Prop where
  | nil {room : Room} : AreCommented a b room [] []
  | cons {room : Room} {c d : Tree} {cs ds : List Tree} (hc : IsCommented a b room c d)
      (h : AreCommented a b room cs ds) : AreCommented a b room (c :: cs) (d :: ds)
  | comment {room : Room} {s : Span} {cs ds : List Tree} (h : AreCommented a b room cs ds) :
      AreCommented a b room cs (.leaf .comment s :: ds)

end

variable {a b : List Char} {room : Room} {t u : Tree} {cs ds : List Tree}

theorem IsCommented.kind (h : IsCommented a b room t u) : u.kind = t.kind := by cases h <;> rfl

theorem IsCommented.field (h : IsCommented a b room t u) : u.field = t.field := by cases h <;> rfl

theorem IsCommented.spelled (h : IsCommented a b room t u) (hk : room.admits t.field t.kind = false) :
    SameText a b t.span u.span := by
  cases h with
  | node _ hs _ _ => exact hs hk
  | first hs _ _ => exact hs
  | text hs => exact hs

theorem IsCommented.children (h : IsCommented a b room t u) (hk : t.kind ≠ .string) :
    AreCommented a b t.kind.room t.children u.children := by
  cases h with
  | node _ _ _ h => exact h
  | first _ hc h => exact .cons hc h
  | text => exact absurd rfl hk

/-- Parts are of kinds that can play their roles. -/
theorem IsCommented.given (h : IsCommented a b room t u) (hk : t.kind ≠ .string) {c : Tree}
    (hc : c ∈ t.children) : c.IsGiven t.kind := by
  cases h with
  | node _ _ hroles _ => exact hroles c hc
  | first => exact isGiven_of_not_hasRoles rfl _ c hc
  | text => exact absurd rfl hk

/-! ### Lists -/

/-- What is true of no comment is found at the same place. -/
theorem AreCommented.find? {p : Tree → Bool}
    (hp : ∀ {t u}, IsCommented a b room t u → p u = p t)
    (hcomment : ∀ s, p (.leaf .comment s) = false) (h : AreCommented a b room cs ds) :
    (cs.find? p = none ∧ ds.find? p = none) ∨ ∃ c d, cs.find? p = some c ∧ ds.find? p = some d ∧
      IsCommented a b room c d := by
  induction ds generalizing cs with
  | nil =>
      cases h
      exact Or.inl ⟨rfl, rfl⟩
  | cons d ds ih =>
      cases h with
      | @cons _ c _ cs _ hc h =>
          rw [List.find?_cons, List.find?_cons, hp hc]
          cases p c with
          | true => exact Or.inr ⟨c, d, rfl, rfl, hc⟩
          | false => exact ih h
      | comment h =>
          rw [List.find?_cons, hcomment]
          exact ih h

theorem AreCommented.filter {p : Tree → Bool} (hp : ∀ {t u}, IsCommented a b room t u → p u = p t)
    (hcomment : ∀ s, p (.leaf .comment s) = false) (h : AreCommented a b room cs ds) :
    List.Forall₂ (IsCommented a b room) (cs.filter p) (ds.filter p) := by
  induction ds generalizing cs with
  | nil =>
      cases h
      exact .nil
  | cons d ds ih =>
      cases h with
      | @cons _ c _ cs _ hc h =>
          rw [List.filter_cons, List.filter_cons, hp hc]
          split
          · exact .cons hc (ih h)
          · exact ih h
      | comment h =>
          rw [List.filter_cons, hcomment]
          exact ih h

theorem AreCommented.any {p : Tree → Bool} (hp : ∀ {t u}, IsCommented a b room t u → p u = p t)
    (hcomment : ∀ s, p (.leaf .comment s) = false) (h : AreCommented a b room cs ds) :
    ds.any p = cs.any p := by
  induction ds generalizing cs with
  | nil =>
      cases h
      rfl
  | cons d ds ih =>
      cases h with
      | cons hc h => rw [List.any_cons, List.any_cons, hp hc, ih h]
      | comment h => rw [List.any_cons, hcomment, Bool.false_or, ih h]

theorem AreCommented.filterMap {β : Type} {g g' : Tree → Option β}
    (hg : ∀ {t u}, IsCommented a b room t u → g' u = g t)
    (hcomment : ∀ s, g' (.leaf .comment s) = none) (h : AreCommented a b room cs ds) :
    ds.filterMap g' = cs.filterMap g := by
  induction ds generalizing cs with
  | nil =>
      cases h
      rfl
  | cons d ds ih =>
      cases h with
      | cons hc h => rw [List.filterMap_cons, List.filterMap_cons, hg hc, ih h]
      | comment h => rw [List.filterMap_cons, hcomment, ih h]

theorem IsCommented.child? (h : IsCommented a b room t u) (hk : t.kind ≠ .string) (f : Field) :
    (t.child? f = none ∧ u.child? f = none) ∨ ∃ c d, t.child? f = some c ∧ u.child? f = some d ∧
      IsCommented a b t.kind.room c d :=
  (h.children hk).find? (fun hc => by rw [hc.field]) fun _ => rfl

end Syntax

open Syntax (Tree Room SameText IsCommented AreCommented)

variable {a b : List Char} {room : Room} {t u : Tree} {cs ds : List Tree}

/-- Expressions with one skeleton. -/
def SameExpr (e e' : Expr) : Prop := Skeleton.expr e = Skeleton.expr e'

/-- Arguments with one skeleton. -/
def SameArgument (x y : Option String × Expr) : Prop := x.1 = y.1 ∧ SameExpr x.2 y.2

namespace Skeleton

theorem items_eq {es es' : List Expr} (h : List.Forall₂ SameExpr es es') : items es = items es' := by
  induction h with
  | nil => rfl
  | cons he _ ih => rw [items, items, ih, show expr _ = expr _ from he]

theorem keywordItems_eq {ks ks' : List (String × Expr)}
    (h : List.Forall₂ (fun x y => x.1 = y.1 ∧ SameExpr x.2 y.2) ks ks') :
    keywordItems ks = keywordItems ks' := by
  induction h with
  | nil => rfl
  | @cons x y _ _ he _ ih =>
      obtain ⟨name, value⟩ := x
      obtain ⟨name', value'⟩ := y
      obtain ⟨rfl, he⟩ := he
      rw [keywordItems, keywordItems, ih, show expr value = expr value' from he]

end Skeleton

namespace Lower

/-! ### Expressions -/

/-- Parts with the expressions they stand for, and comments in the second list. -/
inductive AreLowered (a b : List Char) (room : Room) : List (Tree × Expr) → List (Tree × Expr) → Prop where
  | nil : AreLowered a b room [] []
  | cons {c d : Tree} {e e' : Expr} {ps qs : List (Tree × Expr)} (hc : IsCommented a b room c d)
      (he : SameExpr e e') (h : AreLowered a b room ps qs) :
      AreLowered a b room ((c, e) :: ps) ((d, e') :: qs)
  | comment {s : Span} {e : Expr} {ps qs : List (Tree × Expr)} (h : AreLowered a b room ps qs) :
      AreLowered a b room ps ((.leaf .comment s, e) :: qs)

variable {ps qs : List (Tree × Expr)}

theorem AreLowered.partAs? (h : AreLowered a b room ps qs) (f : Field) :
    (Lower.partAs? f ps = none ∧ Lower.partAs? f qs = none) ∨ ∃ c d e e',
      Lower.partAs? f ps = some (c, e) ∧ Lower.partAs? f qs = some (d, e') ∧
        IsCommented a b room c d ∧ SameExpr e e' := by
  unfold Lower.partAs?
  induction h with
  | nil => exact Or.inl ⟨rfl, rfl⟩
  | @cons c d e e' _ _ hc he _ ih =>
      rw [List.find?_cons, List.find?_cons, hc.field]
      cases c.field == some f with
      | true => exact Or.inr ⟨c, d, e, e', rfl, rfl, hc, he⟩
      | false => exact ih
  | comment _ ih => exact ih

theorem AreLowered.contents (h : AreLowered a b room ps qs) :
    List.Forall₂ SameExpr ((Lower.contents ps).map (·.2)) ((Lower.contents qs).map (·.2)) := by
  unfold Lower.contents
  induction h with
  | nil => exact .nil
  | @cons c d e e' _ _ hc he _ ih =>
      rw [List.filter_cons, List.filter_cons, hc.kind]
      split
      · exact .cons he ih
      · exact ih
  | comment _ ih => exact ih

theorem sameExpr_collection {es es' : List Expr} (h : List.Forall₂ SameExpr es es') (kind : CollectionKind)
    (s s' : Span) : SameExpr (.collection kind es s) (.collection kind es' s') := by
  simp only [SameExpr, Skeleton.expr, Skeleton.items_eq h]

theorem sameExpr_headD {es es' : List Expr} (h : List.Forall₂ SameExpr es es') (s s' : Span) :
    SameExpr (es.headD (.other s)) (es'.headD (.other s')) := by
  cases h with
  | nil => rfl
  | cons he _ => exact he

/-- Positional arguments. -/
theorem sameExpr_positional {xs ys : List (Option String × Expr)} (h : List.Forall₂ SameArgument xs ys) :
    List.Forall₂ SameExpr (xs.filterMap fun x => if x.1.isNone then some x.2 else none)
      (ys.filterMap fun x => if x.1.isNone then some x.2 else none) := by
  induction h with
  | nil => exact .nil
  | @cons x y _ _ hxy _ ih =>
      rw [List.filterMap_cons, List.filterMap_cons, ← hxy.1]
      cases x.1 with
      | none => exact .cons hxy.2 ih
      | some _ => exact ih

/-- Arguments with names. -/
theorem sameExpr_named {xs ys : List (Option String × Expr)} (h : List.Forall₂ SameArgument xs ys) :
    List.Forall₂ (fun x y => x.1 = y.1 ∧ SameExpr x.2 y.2) (xs.filterMap fun x => x.1.map (·, x.2))
      (ys.filterMap fun x => x.1.map (·, x.2)) := by
  induction h with
  | nil => exact .nil
  | @cons x y _ _ hxy _ ih =>
      rw [List.filterMap_cons, List.filterMap_cons, ← hxy.1]
      cases x.1 with
      | none => exact ih
      | some _ => exact .cons ⟨rfl, hxy.2⟩ ih

/-- What an expression is depends on what its parts stand for, and on its text if it is a name. -/
theorem sameExpr_of_parts {k : Kind} {f f' : Option Field} {s s' : Span} {cs ds : List Tree}
    (hk : k ≠ .string) (hname : k = .identifier → s.text a = s'.text b)
    (hparts : AreLowered a b k.room (exprs a cs) (exprs b ds))
    (harguments : List.Forall₂ SameArgument (callArguments a cs) (callArguments b ds)) :
    SameExpr (expr a (.node k f s cs)) (expr b (.node k f' s' ds)) := by
  have hcontents := hparts.contents
  unfold expr
  dsimp only
  split
  · exact absurd rfl hk
  · rfl
  · rfl
  · rfl
  · rfl
  · rfl
  · rfl
  · rfl
  · simp only [SameExpr, Skeleton.expr, hname rfl]
  · rcases hparts.partAs? .object with ⟨hnone, hnone'⟩ | ⟨c, d, e, e', hobject, hobject', hc, he⟩
    · rw [hnone, hnone']
      rfl
    · rcases hparts.partAs? .attribute with ⟨hnone, hnone'⟩ | ⟨c, d, _, _, hattribute, hattribute', hc, -⟩
      · rw [hobject, hobject', hnone, hnone']
        rfl
      · have hspelled := hc.spelled rfl
        rw [hobject, hobject', hattribute, hattribute']
        simp only [SameExpr, Skeleton.expr, show Skeleton.expr e = Skeleton.expr e' from he, hspelled.text]
  · rcases hparts.partAs? .function with ⟨hnone, hnone'⟩ | ⟨c, d, e, e', hfunction, hfunction', -, he⟩
    · rw [hnone, hnone']
      rfl
    · rw [hfunction, hfunction']
      simp only [SameExpr, Skeleton.expr, show Skeleton.expr e = Skeleton.expr e' from he,
        Skeleton.items_eq (sameExpr_positional harguments),
        Skeleton.keywordItems_eq (sameExpr_named harguments)]
  · exact sameExpr_collection hcontents _ _ _
  · rfl
  · exact sameExpr_collection hcontents _ _ _
  · rfl
  · exact sameExpr_collection hcontents _ _ _
  · rfl
  · exact sameExpr_collection hcontents _ _ _
  · exact sameExpr_collection hcontents _ _ _
  · exact sameExpr_collection hcontents _ _ _
  · exact sameExpr_headD hcontents _ _
  · rcases hparts.partAs? .argument with ⟨hnone, hnone'⟩ | ⟨c, d, e, e', hargument, hargument', hc, he⟩
    · rw [hnone, hnone']
      rfl
    · rw [hargument, hargument']
      simp only [hc.kind]
      split
      · exact he
      · rfl
  · rfl

mutual

/-- **Comments do not matter to expressions.** -/
theorem sameExpr_expr {room : Room} {t u : Tree} (h : IsCommented a b room t u) :
    SameExpr (expr a t) (expr b u) := by
  match t, u, h with
  | .node k f s cs, .node k' f' s' ds, h =>
      obtain rfl : k' = k := h.kind
      have hname : k'.room = .nothing → s.text a = s'.text b := fun hk =>
        (h.spelled (Room.admits_of_nothing hk)).text
      by_cases hk : k' = .string
      · subst hk
        simp only [SameExpr, expr, Skeleton.expr, hname rfl]
      have hparts : AreCommented a b k'.room cs ds := h.children hk
      have hlowered := areLowered_exprs hparts
      have harguments := sameArguments_callArguments hparts
      exact sameExpr_of_parts hk (fun hk => hname (hk ▸ rfl)) hlowered harguments
termination_by sizeOf u

theorem areLowered_exprs {room : Room} {cs ds : List Tree} (h : AreCommented a b room cs ds) :
    AreLowered a b room (exprs a cs) (exprs b ds) := by
  match cs, ds, h with
  | _, [], h =>
      cases h
      exact .nil
  | c :: cs, d :: ds, .cons hc h =>
      refine .cons hc ?_ (areLowered_exprs h)
      rw [hc.kind]
      split
      · rfl
      · exact sameExpr_expr hc
  | cs, _ :: ds, .comment h => exact .comment (areLowered_exprs h)
termination_by sizeOf ds

theorem sameArguments_callArguments {room : Room} {cs ds : List Tree} (h : AreCommented a b room cs ds) :
    List.Forall₂ SameArgument (callArguments a cs) (callArguments b ds) := by
  match cs, ds, h with
  | _, [], h =>
      cases h
      exact .nil
  | .node k f _ cs :: _, .node k' f' _ ds :: _, .cons hc h =>
      obtain rfl : k' = k := hc.kind
      obtain rfl : f' = f := hc.field
      unfold callArguments
      split
      · split
        · rename_i hk
          subst hk
          exact sameArguments_argumentItems (hc.children nofun)
        · exact .nil
      · exact sameArguments_callArguments h
  | cs, _ :: ds, .comment h =>
      have hrest := sameArguments_callArguments h
      exact hrest
termination_by sizeOf ds

theorem sameArguments_argumentItems {room : Room} {cs ds : List Tree} (h : AreCommented a b room cs ds) :
    List.Forall₂ SameArgument (argumentItems a cs) (argumentItems b ds) := by
  match cs, ds, h with
  | _, [], h =>
      cases h
      exact .nil
  | .node k f s cs :: _, .node k' f' s' ds :: _, .cons hc h =>
      obtain rfl : k' = k := hc.kind
      have hrest := sameArguments_argumentItems h
      have hitem := sameExpr_expr hc
      unfold argumentItems
      dsimp only
      split
      · exact hrest
      · have hds : AreCommented a b .nothing cs ds := hc.children nofun
        have hparts := areLowered_exprs hds
        rcases hparts.partAs? .name with ⟨hnone, hnone'⟩ | ⟨c, d, _, _, hname, hname', hnamed, -⟩
        · rw [hnone, hnone']
          exact hrest
        · rcases hparts.partAs? .value with ⟨hnone, hnone'⟩ | ⟨_, _, e, e', hvalue, hvalue', -, he⟩
          · rw [hname, hname', hnone, hnone']
            exact hrest
          · rw [hname, hname', hvalue, hvalue']
            have hspelled := hnamed.spelled rfl
            exact .cons ⟨congrArg some hspelled.text, he⟩ hrest
      · exact .cons ⟨rfl, hitem⟩ hrest
  | cs, _ :: ds, .comment h =>
      have hrest := sameArguments_argumentItems h
      exact hrest
termination_by sizeOf ds

end

end Lower

end Plumbline
