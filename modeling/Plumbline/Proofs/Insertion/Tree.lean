/-
Trees that have moved.

The outcome's trees are the source's trees: those below the new line have moved with it, those around
it have grown, and one of them holds the new comment as one more part.  `IsMoved` counts the new
comments, so that none is lost on the way (`AreMoved.append`).  What stands in a literal is left
aside, and the operand that a construct applies to stays its first part, the operand of a star its
last.  Whatever the grammar does to trees it does to moved trees as well.
-/
import Mathlib.Data.Option.Defs
import Plumbline.Proofs.Insertion.Place
import Plumbline.Syntax.Statement

namespace Plumbline.Syntax

/-- The tree is the other one or holds it. -/
inductive Tree.Holds (c : Tree) : Tree → Prop where
  | here : Holds c c
  | inside {k : Kind} {f : Option Field} {s : Span} {d : Tree} {ds : List Tree} (hd : d ∈ ds)
      (h : Holds c d) : Holds c (.node k f s ds)

namespace CommentPlace

variable {i : CommentPlace}

/-- Where a stretch of the source lies in the outcome. -/
def moveSpan (i : CommentPlace) (s : Span) : Span where
  start := if s.start < i.start then s.start else s.start + byteSize i.line
  stop := if s.stop ≤ i.start then s.stop else s.stop + byteSize i.line
  line := if s.start < i.start then s.line else s.line + 1
  column := s.column

/-- The new comment as a part of a construct. -/
def leaf (i : CommentPlace) : Tree :=
  .leaf .comment (.between (placeBehind (i.before ++ i.indent))
    (placeBehind (i.before ++ i.indent ++ i.comment)))

/-- Constructs whose first part is what they are about. -/
def hasFirst (k : Kind) : Bool := k.appliesToFirst || k == .typedParameter

/-- Constructs without a part that matters more than the others. -/
def isPlain (k : Kind) : Bool := !hasFirst k && k != .listSplat

mutual

/-- The second tree is the first one as the outcome has it, with `n` new comments inside. -/
inductive IsMoved (i : CommentPlace) : Nat → Tree → Tree → Prop where
  | node {k : Kind} {f : Option Field} {s : Span} {cs ds : List Tree} {n : Nat}
      (hk : isPlain k = true) (h : AreMoved i n cs ds) :
      IsMoved i n (.node k f s cs) (.node k f (i.moveSpan s) ds)
  | first {k : Kind} {f : Option Field} {s : Span} {c d : Tree} {cs ds : List Tree} {m n : Nat}
      (hk : (k != .listSplat) = true) (hc : IsMoved i m c d) (h : AreMoved i n cs ds) :
      IsMoved i (n + m) (.node k f s (c :: cs)) (.node k f (i.moveSpan s) (d :: ds))
  | last {f : Option Field} {s : Span} {c d : Tree} {cs ds : List Tree} {m n : Nat}
      (h : AreMoved i m cs ds) (hc : IsMoved i n c d) :
      IsMoved i (n + m) (.node .listSplat f s (cs ++ [c])) (.node .listSplat f (i.moveSpan s) (ds ++ [d]))
  | text {f : Option Field} {s : Span} {cs ds : List Tree} :
      IsMoved i 0 (.node .string f s cs) (.node .string f (i.moveSpan s) ds)

/-- The second trees are the first ones as the outcome has them, with `n` new comments between and
inside of them. -/
inductive AreMoved (i : CommentPlace) : Nat → List Tree → List Tree → Prop where
  | nil : AreMoved i 0 [] []
  | cons {c d : Tree} {cs ds : List Tree} {m n : Nat} (hc : IsMoved i m c d) (h : AreMoved i n cs ds) :
      AreMoved i (n + m) (c :: cs) (d :: ds)
  | leaf {cs ds : List Tree} {n : Nat} (h : AreMoved i n cs ds) : AreMoved i (n + 1) cs (i.leaf :: ds)

end

/-! ### Moved lists -/

variable {m n : Nat} {t u : Tree} {cs ds cs' ds' : List Tree}

theorem AreMoved.append (h : i.AreMoved m cs ds) (h' : i.AreMoved n cs' ds') :
    i.AreMoved (n + m) (cs ++ cs') (ds ++ ds') := by
  induction ds generalizing m cs with
  | nil =>
      cases h
      exact h'
  | cons d ds ih =>
      cases h with
      | cons hc h =>
          rw [← Nat.add_assoc]
          exact .cons hc (ih h)
      | leaf h => exact .leaf (ih h)

theorem AreMoved.singleton (h : i.IsMoved n t u) : i.AreMoved n [t] [u] := by
  have hcons := AreMoved.cons h .nil
  rwa [Nat.zero_add] at hcons

theorem AreMoved.concat (h : i.AreMoved m cs ds) (ht : i.IsMoved n t u) :
    i.AreMoved (n + m) (cs ++ [t]) (ds ++ [u]) :=
  h.append (.singleton ht)

theorem AreMoved.isEmpty (h : i.AreMoved 0 cs ds) : ds.isEmpty = cs.isEmpty := by
  generalize hn : 0 = n at h
  cases h with
  | nil => rfl
  | cons => rfl
  | leaf => exact absurd hn (Nat.succ_ne_zero _).symm

theorem AreMoved.ne_nil (h : i.AreMoved n cs ds) (hne : cs ≠ []) : ds ≠ [] := by
  cases h with
  | nil => exact absurd rfl hne
  | cons => exact List.cons_ne_nil _ _
  | leaf => exact List.cons_ne_nil _ _

theorem IsMoved.kind (h : i.IsMoved n t u) : u.kind = t.kind := by cases h <;> rfl

theorem IsMoved.field (h : i.IsMoved n t u) : u.field = t.field := by cases h <;> rfl

theorem IsMoved.span (h : i.IsMoved n t u) : u.span = i.moveSpan t.span := by cases h <;> rfl

/-- A property of trees that the new comment lacks holds of a tree in a list if it does of a moved
one. -/
theorem AreMoved.any {p : Tree → Bool} (hp : ∀ {n t u}, i.IsMoved n t u → p u = p t)
    (hleaf : p i.leaf = false) (h : i.AreMoved n cs ds) : ds.any p = cs.any p := by
  induction ds generalizing n cs with
  | nil =>
      cases h
      rfl
  | cons d ds ih =>
      cases h with
      | cons hc h => rw [List.any_cons, List.any_cons, hp hc, ih h]
      | leaf h => rw [List.any_cons, hleaf, Bool.false_or, ih h]

theorem AreMoved.all {p : Tree → Bool} (hp : ∀ {n t u}, i.IsMoved n t u → p u = p t)
    (hleaf : p i.leaf = true) (h : i.AreMoved n cs ds) : ds.all p = cs.all p := by
  induction ds generalizing n cs with
  | nil =>
      cases h
      rfl
  | cons d ds ih =>
      cases h with
      | cons hc h => rw [List.all_cons, List.all_cons, hp hc, ih h]
      | leaf h => rw [List.all_cons, hleaf, Bool.true_and, ih h]

/-- The parts of a moved construct have moved, unless it is a literal. -/
theorem IsMoved.children (h : i.IsMoved n t u) (hk : t.kind ≠ .string) :
    i.AreMoved n t.children u.children := by
  cases h with
  | node _ h => exact h
  | first _ hc h => exact .cons hc h
  | last h hc => exact h.concat hc
  | text => exact absurd rfl hk

/-- The part that a tree plays does not matter to how it moves. -/
theorem IsMoved.refield {k : Kind} {f : Option Field} {s s' : Span}
    (h : i.IsMoved n (.node k f s cs) (.node k f s' ds)) (g : Option Field) :
    i.IsMoved n (.node k g s cs) (.node k g (i.moveSpan s) ds) := by
  cases h with
  | node hk h => exact .node hk h
  | first hk hc h => exact .first hk hc h
  | last h hc => exact .last h hc
  | text => exact .text

theorem IsMoved.withField (h : i.IsMoved n t u) (f : Field) :
    i.IsMoved n (t.withField f) (u.withField f) := by
  cases h with
  | node hk h => exact .node hk h
  | first hk hc h => exact .first hk hc h
  | last h hc => exact .last h hc
  | text => exact .text

theorem IsMoved.withKind {k : Kind} (hplain : isPlain k = true)
    (h : i.IsMoved n t u) (hk : t.kind ≠ .string) : i.IsMoved n (t.withKind k) (u.withKind k) := by
  obtain ⟨k', f, s, cs⟩ := t
  obtain ⟨k'', f', s', ds⟩ := u
  obtain rfl : f' = f := h.field
  obtain rfl : s' = i.moveSpan s := h.span
  exact .node hplain (h.children hk)

/-! ### Targets -/

open Grammar

theorem option_rel_map {α β : Type} {R : α → α → Prop} {S : β → β → Prop} {f g : α → β}
    {o p : Option α} (h : Option.Rel R o p) (hfg : ∀ a b, R a b → S (f a) (g b)) :
    Option.Rel S (o.map f) (p.map g) := by
  cases h with
  | some h => exact .some (hfg _ _ h)
  | none => exact .none

theorem option_rel_bind {α β : Type} {R : α → α → Prop} {S : β → β → Prop} {f g : α → Option β}
    {o p : Option α} (h : Option.Rel R o p) (hfg : ∀ a b, R a b → Option.Rel S (f a) (g b)) :
    Option.Rel S (o >>= f) (p >>= g) := by
  cases h with
  | some h => exact hfg _ _ h
  | none => exact .none

theorem option_rel_map_right {α : Type} {R S : α → α → Prop} {g : α → α} {o p : Option α}
    (h : Option.Rel R o p) (hg : ∀ a b, R a b → S a (g b)) : Option.Rel S o (p.map g) := by
  cases h with
  | some h => exact .some (hg _ _ h)
  | none => exact .none

theorem option_rel_getD {α : Type} {R : α → α → Prop} {o p : Option α} {a b : α}
    (h : Option.Rel R o p) (hab : R a b) : R (o.getD a) (p.getD b) := by
  cases h with
  | some h => exact h
  | none => exact hab

theorem option_rel_isNone {α : Type} {R : α → α → Prop} {o p : Option α} (h : Option.Rel R o p) :
    p.isNone = o.isNone := by cases h <;> rfl

theorem toPatterns?_leaf (i : CommentPlace) (ds : List Tree) :
    toPatterns? (i.leaf :: ds) = (toPatterns? ds).map (i.leaf :: ·) := by
  rw [toPatterns?]
  cases toPatterns? ds <;> rfl

mutual

theorem IsMoved.toPattern? {n : Nat} {t u : Tree} (h : i.IsMoved n t u) :
    Option.Rel (i.IsMoved n) (toPattern? t) (toPattern? u) :=
  match t, u, h with
  | .node k f s cs, .node k' f' s' ds, h => by
      obtain rfl : k' = k := h.kind
      obtain rfl : f' = f := h.field
      obtain rfl : s' = i.moveSpan s := h.span
      by_cases hk : k' = .string
      · subst hk
        exact .none
      · have hparts : i.AreMoved n cs ds := h.children hk
        have hlist := AreMoved.toPatterns? hparts
        unfold Grammar.toPattern?
        split
        · exact .some h
        · exact .some h
        · exact .some h
        · rw [hparts.any (fun hc => by rw [hc.kind]) rfl]
          split
          · exact .some (.node rfl hparts)
          · exact .none
        · exact option_rel_map hlist fun _ _ h => .node rfl h
        · exact option_rel_map hlist fun _ _ h => .node rfl h
        · exact option_rel_map hlist fun _ _ h => .node rfl h
        · exact option_rel_map hlist fun _ _ h => .node rfl h
        · exact option_rel_map hlist fun _ _ h => .node rfl h
        · exact .some h
        · exact .some h
        · exact .none
termination_by sizeOf u

theorem AreMoved.toPatterns? {n : Nat} {cs ds : List Tree} (h : i.AreMoved n cs ds) :
    Option.Rel (i.AreMoved n) (toPatterns? cs) (toPatterns? ds) :=
  match cs, ds, h with
  | _, [], h => by
      cases h
      exact .some .nil
  | _, _ :: _, .cons hc h => by
      have hhead := IsMoved.toPattern? hc
      have hrest := AreMoved.toPatterns? h
      unfold Grammar.toPatterns?
      exact option_rel_bind hhead fun _ _ hp => option_rel_bind hrest fun _ _ hps =>
        .some (.cons hp hps)
  | _, _ :: _, .leaf h => by
      have hrest := AreMoved.toPatterns? h
      rw [toPatterns?_leaf]
      exact option_rel_map_right hrest fun _ _ h => .leaf h
termination_by sizeOf ds

end

theorem IsMoved.toTargets? (h : i.IsMoved n t u) :
    Option.Rel (i.IsMoved n) (toTargets? t) (toTargets? u) := by
  unfold Grammar.toTargets?
  rw [h.kind]
  split
  · rename_i hk
    obtain ⟨k, f, s, cs⟩ := t
    obtain ⟨k', f', s', ds⟩ := u
    obtain rfl : f' = f := h.field
    obtain rfl : s' = i.moveSpan s := h.span
    have hparts : i.AreMoved n cs ds := h.children (hk ▸ nofun)
    exact option_rel_map hparts.toPatterns? fun _ _ h => .node rfl h
  · exact h.toPattern?

/-! ### Stars -/

open Syntax.Tree

theorem moveSpan_spanFrom (i : CommentPlace) (a b : Span) :
    i.moveSpan (spanFrom a b) = spanFrom (i.moveSpan a) (i.moveSpan b) := rfl

/-- What applies to an operand has it as its first part. -/
theorem IsMoved.first_inv {k : Kind} {f f' : Option Field} {s s' : Span}
    (hk : k.appliesToFirst = true) (h : i.IsMoved n (.node k f s cs) (.node k f' s' ds)) :
    ∃ a b c d cs' ds', n = b + a ∧ cs = c :: cs' ∧ ds = d :: ds' ∧ (k != .listSplat) = true ∧
      i.IsMoved a c d ∧ i.AreMoved b cs' ds' := by
  cases h with
  | node hplain _ => simp [isPlain, hasFirst, hk] at hplain
  | first hlast hc h => exact ⟨_, _, _, _, _, _, rfl, rfl, rfl, hlast, hc, h⟩
  | last _ _ => exact absurd hk (by decide)
  | text => exact absurd hk (by decide)

/-- A star has what it is bound to as its last part. -/
theorem IsMoved.last_inv {f f' : Option Field} {s s' : Span} (h : i.IsMoved n
    (.node .listSplat f s cs) (.node .listSplat f' s' ds)) :
    ∃ a b before before' c d, n = b + a ∧ cs = before ++ [c] ∧ ds = before' ++ [d] ∧
      i.AreMoved a before before' ∧ i.IsMoved b c d := by
  cases h with
  | node hk _ => exact absurd hk (by decide)
  | first hk _ _ => exact absurd hk (by decide)
  | last h hc => exact ⟨_, _, _, _, _, _, rfl, rfl, rfl, h, hc⟩

/-- A star and what it is bound to. -/
theorem IsMoved.bound {k : Kind} {f : Option Field} {star s : Span} {before before' : List Tree}
    (hbefore : i.AreMoved m before before') (h : i.IsMoved n (.node k f s cs) (.node k f (i.moveSpan s) ds)) :
    i.IsMoved (n + m) (.node .listSplat f (spanFrom star s) (before ++ [.node k none s cs]))
      (.node .listSplat f (spanFrom (i.moveSpan star) (i.moveSpan s))
        (before' ++ [.node k none (i.moveSpan s) ds])) :=
  .last hbefore (h.refield none)

theorem IsMoved.tighten (star : Span) {before before' : List Tree}
    (hbefore : i.AreMoved m before before') {n : Nat} {t u : Tree} (h : i.IsMoved n t u) :
    Option.Rel (i.IsMoved (n + m)) (tighten star before t)
      (tighten (i.moveSpan star) before' u) := by
  match t, u, h with
  | .node k f s cs, .node k' f' s' ds, h =>
      obtain rfl : k' = k := h.kind
      obtain rfl : f' = f := h.field
      obtain rfl : s' = i.moveSpan s := h.span
      unfold Tree.tighten
      dsimp only
      split
      · exact .some (.bound hbefore h)
      · split
        · rename_i hk
          obtain ⟨a, b, c, d, cs, ds, rfl, rfl, rfl, hlast, hc, hrest⟩ := h.first_inv hk
          have hfirst := IsMoved.tighten star hbefore hc
          unfold Tree.tightenFirst
          generalize Tree.tighten star before c = o at hfirst ⊢
          generalize Tree.tighten (i.moveSpan star) before' d = p at hfirst ⊢
          cases hfirst with
          | some hfirst =>
              rw [Nat.add_assoc]
              exact .some (.first hlast hfirst hrest)
          | none =>
              simp only [Option.map_none]
              split
              · exact .some (.bound hbefore h)
              · exact .none
        · exact .none
termination_by sizeOf u

theorem IsMoved.tightened? (h : i.IsMoved n t u) :
    Option.Rel (i.IsMoved n) t.tightened? u.tightened? := by
  obtain ⟨k, f, s, cs⟩ := t
  obtain ⟨k', f', s', ds⟩ := u
  obtain rfl : k' = k := h.kind
  obtain rfl : f' = f := h.field
  obtain rfl : s' = i.moveSpan s := h.span
  by_cases hk : k' = .listSplat
  · subst hk
    obtain ⟨a, b, before, before', c, d, rfl, rfl, rfl, hbefore, hc⟩ := h.last_inv
    simp only [Tree.tightened?, List.getLast?_concat, List.dropLast_concat]
    refine option_rel_map (IsMoved.tighten s hbefore hc) fun t u h => ?_
    obtain ⟨k, _, s, cs⟩ := t
    obtain ⟨k', f'', s', ds⟩ := u
    obtain rfl : k' = k := h.kind
    obtain rfl : f'' = _ := h.field
    obtain rfl : s' = i.moveSpan s := h.span
    exact h.refield f'
  · have hnone : ∀ s cs, Tree.tightened? (.node k' f' s cs) = none := fun s cs =>
      Tree.tightened?.eq_2 _ fun _ _ _ heq => hk (Tree.node.inj heq).1
    rw [hnone, hnone]
    exact .none

/-- What is taken off the front of an expression has moved, and so has what is left. -/
inductive StarMoved (i : CommentPlace) : Nat → Span × List Tree × Tree → Span × List Tree × Tree →
    Prop where
  | mk {star : Span} {m n : Nat} {before before' : List Tree} {t u : Tree}
      (hbefore : i.AreMoved m before before') (h : i.IsMoved n t u) :
      StarMoved i (n + m) (star, before, t) (i.moveSpan star, before', u)

theorem IsMoved.takeStar {n : Nat} {t u : Tree} (h : i.IsMoved n t u) :
    Option.Rel (StarMoved i n) t.takeStar u.takeStar := by
  match t, u, h with
  | .node k f s cs, .node k' f' s' ds, h =>
      obtain rfl : k' = k := h.kind
      obtain rfl : f' = f := h.field
      obtain rfl : s' = i.moveSpan s := h.span
      unfold Tree.takeStar
      split
      · rename_i hk
        obtain rfl : k' = .listSplat := by simpa using hk
        obtain ⟨a, b, before, before', c, d, rfl, rfl, rfl, hbefore, hc⟩ := h.last_inv
        simp only [List.getLast?_concat, List.dropLast_concat]
        obtain ⟨k, _, s, cs⟩ := c
        obtain ⟨k', f'', s', ds⟩ := d
        obtain rfl : k' = k := hc.kind
        obtain rfl : f'' = _ := hc.field
        obtain rfl : s' = i.moveSpan s := hc.span
        exact .some (.mk hbefore (hc.refield f'))
      · split
        · rename_i hk
          obtain ⟨a, b, c, d, cs, ds, rfl, rfl, rfl, hlast, hc, hrest⟩ := h.first_inv hk
          have hfirst := IsMoved.takeStar hc
          unfold Tree.takeStarFirst
          generalize Tree.takeStar c = o at hfirst ⊢
          generalize Tree.takeStar d = p at hfirst ⊢
          cases hfirst with
          | some hfirst =>
              cases hfirst with
              | @mk star a a' before before' t u hbefore hd =>
                  have hwhole := IsMoved.first hlast hd hrest (f := f') (s := spanFrom t.span s)
                  rw [moveSpan_spanFrom, ← hd.span] at hwhole
                  rw [← Nat.add_assoc]
                  exact .some (.mk hbefore hwhole)
          | none => exact .none
        · exact .none
termination_by sizeOf u

theorem IsMoved.loosened? (h : i.IsMoved n t u) :
    Option.Rel (i.IsMoved n) t.loosened? u.loosened? := by
  refine option_rel_map h.takeStar fun x y hxy => ?_
  cases hxy with
  | @mk star a b before before' t u hbefore h =>
      obtain ⟨k, f, s, cs⟩ := t
      obtain ⟨k', f', s', ds⟩ := u
      obtain rfl : k' = k := h.kind
      obtain rfl : f' = f := h.field
      obtain rfl : s' = i.moveSpan s := h.span
      exact .bound hbefore h

theorem IsMoved.leads {n : Nat} {t u : Tree} (kind : Kind) (h : i.IsMoved n t u) :
    u.leads kind = t.leads kind := by
  match t, u, h with
  | .node k f s cs, .node k' f' s' ds, h =>
      obtain rfl : k' = k := h.kind
      by_cases hk : k'.appliesToFirst = true
      · obtain ⟨a, b, c, d, cs, ds, rfl, rfl, rfl, hlast, hc, hrest⟩ := h.first_inv hk
        unfold Tree.leads
        dsimp only
        rw [IsMoved.leads kind hc]
      · unfold Tree.leads
        simp [hk]
termination_by sizeOf u

mutual

theorem IsMoved.wholeGroup? (kind : Kind) (hkind : isPlain kind = true)
    {n : Nat} {t u : Tree} (h : i.IsMoved n t u) :
    Option.Rel (i.IsMoved n) (t.wholeGroup? kind) (u.wholeGroup? kind) := by
  match t, u, h with
  | .node k f s cs, .node k' f' s' ds, h =>
      obtain rfl : k' = k := h.kind
      obtain rfl : f' = f := h.field
      obtain rfl : s' = i.moveSpan s := h.span
      unfold Tree.wholeGroup?
      split
      · rename_i hk
        have hparts : i.AreMoved n cs ds := h.children (by rintro rfl; simp at hk)
        exact option_rel_map (AreMoved.wholeItems? hparts) fun _ _ h => .node hkind h
      · exact .none
termination_by sizeOf u

theorem AreMoved.wholeItems? {n : Nat} {cs ds : List Tree} (h : i.AreMoved n cs ds) :
    Option.Rel (i.AreMoved n) (wholeItems? cs) (wholeItems? ds) := by
  match cs, ds, h with
  | _, [], h =>
      cases h
      exact .none
  | c :: cs, d :: ds, .cons hc h =>
      unfold Tree.wholeItems?
      rw [hc.kind]
      split
      · exact option_rel_map (AreMoved.wholeItems? h) fun _ _ h => .cons hc h
      · have hgroup := IsMoved.wholeGroup? .parenthesized rfl hc
        have hloose := hc.loosened?
        generalize c.wholeGroup? .parenthesized = o at hgroup ⊢
        generalize d.wholeGroup? .parenthesized = p at hgroup ⊢
        cases hgroup with
        | some hgroup => exact .some (.cons hgroup h)
        | none => exact option_rel_map hloose fun _ _ hc => .cons hc h
  | cs, _ :: _, .leaf h =>
      have hrest := option_rel_map_right (AreMoved.wholeItems? h) (S := i.AreMoved _)
        (g := (i.leaf :: ·)) fun _ _ h => .leaf h
      exact hrest
termination_by sizeOf ds

end

theorem AreMoved.map {g : Tree → Tree} (hg : ∀ {n t u}, i.IsMoved n t u → i.IsMoved n (g t) (g u))
    (hleaf : g i.leaf = i.leaf) (h : i.AreMoved n cs ds) : i.AreMoved n (cs.map g) (ds.map g) := by
  induction ds generalizing n cs with
  | nil =>
      cases h
      exact .nil
  | cons d ds ih =>
      cases h with
      | cons hc h => exact .cons (hg hc) (ih h)
      | leaf h =>
          rw [List.map_cons, hleaf]
          exact .leaf (ih h)

theorem IsMoved.mapParts {k : Kind} {f : Option Field} {s s' : Span} {g : Tree → Tree}
    (hg : ∀ {n t u}, i.IsMoved n t u → i.IsMoved n (g t) (g u)) (hleaf : g i.leaf = i.leaf)
    (h : i.IsMoved n (.node k f s cs) (.node k f s' ds)) :
    i.IsMoved n (.node k f s (cs.map g)) (.node k f s' (ds.map g)) := by
  cases h with
  | node hk h => exact .node hk (h.map hg hleaf)
  | first hk hc h => exact .first hk (hg hc) (h.map hg hleaf)
  | last h hc =>
      rw [List.map_append, List.map_append]
      exact .last (h.map hg hleaf) (hg hc)
  | text => exact .text

theorem IsMoved.asTuple? (h : i.IsMoved n t u) : Option.Rel (i.IsMoved n) t.asTuple? u.asTuple? := by
  have hgroup := IsMoved.wholeGroup? .splatTuple rfl h
  unfold Tree.asTuple?
  generalize t.wholeGroup? .splatTuple = o at hgroup ⊢
  generalize u.wholeGroup? .splatTuple = p at hgroup ⊢
  cases hgroup with
  | none => exact .none
  | @some t u h =>
      obtain ⟨k, f, s, cs⟩ := t
      obtain ⟨k', f', s', ds⟩ := u
      obtain rfl : k' = k := h.kind
      obtain rfl : f' = f := h.field
      refine .some (.mapParts (fun hc => ?_) rfl h)
      rw [hc.kind]
      split
      · rename_i hk
        exact hc.withKind rfl (by rintro hstring; simp [hstring] at hk)
      · exact hc

theorem AreMoved.firstGroupWhole {n : Nat} {cs ds : List Tree} (h : i.AreMoved n cs ds) :
    i.AreMoved n (withFirstGroupWhole.first cs) (withFirstGroupWhole.first ds) := by
  induction ds generalizing n cs with
  | nil =>
      cases h
      exact .nil
  | cons d ds ih =>
      cases h with
      | cons hc h =>
          unfold withFirstGroupWhole.first
          rw [hc.kind]
          split
          · exact .cons hc (ih h)
          · exact .cons (option_rel_getD (IsMoved.wholeGroup? .parenthesized rfl hc) hc) h
      | leaf h => exact .leaf (ih h)

theorem IsMoved.withFirstGroupWhole (h : i.IsMoved n t u) :
    i.IsMoved n t.withFirstGroupWhole u.withFirstGroupWhole := by
  obtain ⟨k, f, s, cs⟩ := t
  obtain ⟨k', f', s', ds⟩ := u
  obtain rfl : k' = k := h.kind
  obtain rfl : f' = f := h.field
  obtain rfl : s' = i.moveSpan s := h.span
  unfold Tree.withFirstGroupWhole
  by_cases hk : k' = .argumentList
  · subst hk
    exact .node rfl (AreMoved.firstGroupWhole (h.children nofun))
  · have hne : (k' == .argumentList) = false := by simpa using hk
    simp only [hne]
    exact h

/-! ### What a tree can stand for -/

theorem IsMoved.isPlace (h : i.IsMoved n t u) : Grammar.isPlace u = Grammar.isPlace t := by
  rw [Grammar.isPlace, Grammar.isPlace, h.kind]

theorem IsMoved.isValue (h : i.IsMoved n t u) : Grammar.isValue u = Grammar.isValue t := by
  rw [Grammar.isValue, Grammar.isValue, h.kind, option_rel_isNone h.tightened?]

theorem IsMoved.isFilledBracket (h : i.IsMoved n t u) :
    Grammar.isFilledBracket u = Grammar.isFilledBracket t := by
  rw [Grammar.isFilledBracket, Grammar.isFilledBracket, h.kind]
  by_cases hk : t.kind = .string
  · rw [hk]
    rfl
  · rw [(h.children hk).any (fun hc => by rw [hc.kind]) rfl]

/-! ### The new comment -/

mutual

theorem IsMoved.holds {n : Nat} {t u : Tree} (h : i.IsMoved n t u) (hn : 0 < n) : Tree.Holds i.leaf u := by
  match t, u, h with
  | _, .node _ _ _ ds, h =>
      have hparts : ∃ d ∈ ds, Tree.Holds i.leaf d := by
        cases h with
        | node _ hparts => exact AreMoved.holds hparts hn
        | first _ hc hparts => exact AreMoved.holds (.cons hc hparts) hn
        | last hparts hc => exact AreMoved.holds (hparts.concat hc) hn
        | text => exact absurd hn (Nat.lt_irrefl 0)
      obtain ⟨d, hd, hholds⟩ := hparts
      exact .inside hd hholds
termination_by 2 * sizeOf u

theorem AreMoved.holds {n : Nat} {cs ds : List Tree} (h : i.AreMoved n cs ds) (hn : 0 < n) :
    ∃ d ∈ ds, Tree.Holds i.leaf d := by
  match cs, ds, h with
  | _, [], h =>
      cases h
      exact absurd hn (Nat.lt_irrefl 0)
  | _, d :: ds, .cons (m := a) (n := b) hc h =>
      rcases Nat.eq_zero_or_pos a with rfl | ha
      · obtain ⟨d, hd, hholds⟩ := AreMoved.holds h hn
        exact ⟨d, List.mem_cons_of_mem _ hd, hholds⟩
      · exact ⟨d, List.mem_cons_self, IsMoved.holds hc ha⟩
  | _, _ :: ds, .leaf h => exact ⟨_, List.mem_cons_self, .here⟩
termination_by 2 * sizeOf ds + 1

end

end CommentPlace

end Plumbline.Syntax
