/-
How far expressions reach.

An expression lies where its tree does, unless that is a group, whose parentheses are left out, or a
signed number, whose sign is left out.  Either way it goes forward if the tree does, starts where the
tree or what stands in its parentheses can start, and the source can be cut at both its ends
(`extends_expr`).  A call ends with a parenthesis, and so do the calls that groups stand for
(`callExtends_expr`).
-/
import Plumbline.Module.Lower
import Plumbline.Proofs.Syntax.Splat

namespace Plumbline

open Syntax (Kind Field AllSound IsStretch StandsAt)

/-- A number with a sign in front. -/
def Syntax.Tree.IsSignedNumber (t : Syntax.Tree) : Prop :=
  t.kind = .unary ∧ ∃ number, t.child? .argument = some number ∧
    (number.kind = .integer ∨ number.kind = .float)

/-- Is the expression a name or a constant? -/
def Expr.isWord : Expr → Bool
  | .name .. | .literal (.bool _) _ | .literal .none _ => true
  | _ => false

namespace Lower

variable {source : List Char} {t : Syntax.Tree} {cs : List Syntax.Tree}

/-- The expression that a part of a construct stands for. -/
def partExpr (source : List Char) (t : Syntax.Tree) : Expr :=
  if t.kind = .argumentList then .other t.span else expr source t

theorem partAs?_exprs (f : Field) (cs : List Syntax.Tree) :
    partAs? f (exprs source cs) =
      (cs.find? fun c => c.field == some f).map fun t => (t, partExpr source t) := by
  induction cs with
  | nil => rfl
  | cons c cs ih =>
      unfold partAs? at ih ⊢
      rw [exprs, List.find?_cons, List.find?_cons]
      cases hc : c.field == some f with
      | true => simp [partExpr]
      | false => simpa [hc] using ih

theorem head?_contents (cs : List Syntax.Tree) :
    ((contents (exprs source cs)).map (·.2)).head? =
      (cs.find? (·.kind != .comment)).map (partExpr source) := by
  induction cs with
  | nil => rfl
  | cons c cs ih =>
      unfold contents at ih ⊢
      rw [exprs, List.find?_cons, List.filter_cons]
      cases hc : c.kind != .comment with
      | true => simp [partExpr]
      | false => simpa [hc] using ih

/-- A group stands for what is in it. -/
theorem expr_parenthesized {f : Option Field} {s : Span} :
    expr source (.node .parenthesized f s cs) =
      ((cs.find? (·.kind != .comment)).map (partExpr source)).getD (.other s) := by
  rw [← head?_contents, ← List.headD_eq_head?_getD]
  rfl

/-! ### Where an expression lies -/

theorem span_expr_of_number {t : Syntax.Tree} (h : t.kind = .integer ∨ t.kind = .float) :
    (expr source t).span = t.span := by
  obtain ⟨k, f, s, cs⟩ := t
  rcases h with h | h
  · obtain rfl : k = .integer := h
    rw [expr]
    rfl
  · obtain rfl : k = .float := h
    rw [expr]
    rfl

theorem partExpr_of_number (h : t.kind = .integer ∨ t.kind = .float) :
    partExpr source t = expr source t := by
  refine if_neg fun hlist => ?_
  rcases h with h | h <;> exact absurd (hlist.symm.trans h) (by decide)

/-- The sign of a number is left out. -/
theorem span_expr_of_signed {t number : Syntax.Tree} (ht : t.kind = .unary)
    (hnumber : t.child? .argument = some number)
    (h : number.kind = .integer ∨ number.kind = .float) : (expr source t).span = number.span := by
  obtain ⟨k, f, s, cs⟩ := t
  obtain rfl : k = .unary := ht
  have hpart : partAs? .argument (exprs source cs) = some (number, expr source number) := by
    rw [partAs?_exprs, show cs.find? (fun c => c.field == some .argument) = some number from hnumber,
      Option.map_some, partExpr_of_number h]
  rw [expr, hpart]
  simp only
  rw [if_pos h, span_expr_of_number h]

/-- Other expressions lie where their trees do. -/
theorem span_expr {t : Syntax.Tree} (hparen : t.kind ≠ .parenthesized) (hsign : ¬ t.IsSignedNumber) :
    (expr source t).span = t.span := by
  obtain ⟨k, f, s, cs⟩ := t
  rw [expr.eq_def]
  dsimp only
  split
  case h_10 => split <;> rfl
  case h_11 => split <;> rfl
  case h_21 => exact absurd rfl hparen
  case h_22 =>
    rw [partAs?_exprs]
    cases hnumber : cs.find? fun c => c.field == some .argument with
    | none => rfl
    | some number =>
        have hother : ¬ (number.kind = .integer ∨ number.kind = .float) :=
          fun h => hsign ⟨rfl, number, hnumber, h⟩
        rw [Option.map_some]
        simp only
        rw [if_neg hother]
        rfl
  all_goals rfl

/-- The stretch lies as an expression does that is read from the tree. -/
structure Extends (source : List Char) (t : Syntax.Tree) (s : Span) : Prop where
  stretch : IsStretch source s
  start : t.earliest ≤ s.start
  forward : t.span.start ≤ t.span.stop → s.start ≤ s.stop

theorem extends_span (ht : t.Sound source) : Extends source t t.span where
  stretch := ht.stretch
  start := t.earliest_le_start
  forward := id

theorem extends_expr (ht : t.Sound source) : Extends source t (expr source t).span := by
  induction ht with
  | @node k f s cs placed promises parts ih =>
      have ht : (Syntax.Tree.node k f s cs).Sound source := .node placed promises parts
      by_cases hparen : k = .parenthesized
      · subst hparen
        rw [expr_parenthesized]
        cases hc : cs.find? (·.kind != .comment) with
        | none => exact extends_span ht
        | some c =>
            have hmem : c ∈ cs := List.mem_of_find?_eq_some hc
            have hpart : Extends source c (partExpr source c).span := by
              unfold partExpr
              split
              · exact extends_span (parts c hmem)
              · exact ih c hmem
            refine ⟨hpart.stretch, ?_, fun _ => hpart.forward (ht.forward rfl c hc)⟩
            rw [Syntax.Tree.earliest_of_isGroup rfl hc]
            exact (Nat.min_le_right _ _).trans hpart.start
      · by_cases hsign : (Syntax.Tree.node k f s cs).IsSignedNumber
        · obtain ⟨hkind, number, hnumber, hliteral⟩ := hsign
          obtain rfl : k = .unary := hkind
          have hmem : number ∈ cs := List.mem_of_find?_eq_some hnumber
          have hfield : number.field = some .argument := by simpa using List.find?_some hnumber
          obtain ⟨before, between, rest, -, -, hstart, hbehind, -⟩ :=
            promises.sign rfl number hmem hfield
          rw [span_expr_of_signed rfl hnumber hliteral]
          refine ⟨(parts number hmem).stretch, ?_, fun _ => placed.forward number hnumber⟩
          rw [Syntax.Tree.earliest_node rfl, hbehind, byteSize_append, hstart]
          exact Nat.le_add_right _ _
        · rw [span_expr (t := .node k f s cs) hparen hsign]
          exact extends_span ht

theorem extends_partExpr (ht : t.Sound source) : Extends source t (partExpr source t).span := by
  unfold partExpr
  split
  · exact extends_span ht
  · exact extends_expr ht

/-! ### Words -/

/-- A word that is spelled as the constant is that constant. -/
def TellsTruth (source : List Char) (e : Expr) : Prop :=
  e.isWord = true → e.span.text source = "True" → e = .literal (.bool true) e.span

theorem isWord_stringLiteral (written : String) (s : Span) :
    (Expr.literal (stringLiteral written) s).isWord = false := by
  unfold stringLiteral
  dsimp only
  split
  · rfl
  · split <;> rfl

theorem tellsTruth_expr (ht : t.Sound source) : TellsTruth source (expr source t) := by
  induction ht with
  | @node k f s cs placed promises parts ih =>
      by_cases hparen : k = .parenthesized
      · subst hparen
        rw [expr_parenthesized]
        cases hc : cs.find? (·.kind != .comment) with
        | none => exact nofun
        | some c =>
            show TellsTruth source (partExpr source c)
            unfold partExpr
            split
            · exact nofun
            · exact ih c (List.mem_of_find?_eq_some hc)
      · have hspells := promises.word
        rw [expr.eq_def]
        dsimp only
        split
        case h_1 =>
          exact fun hword => absurd (hword.symm.trans (isWord_stringLiteral _ _)) (by decide)
        case h_5 => exact fun _ _ => rfl
        -- a name is no constant, and the other constants are spelled otherwise
        case h_6 | h_7 | h_9 =>
          intro _ (htext : s.text source = "True")
          exact absurd (hspells rfl) (by rw [htext]; decide)
        case h_10 => split <;> exact nofun
        case h_11 => split <;> exact nofun
        case h_21 => exact absurd rfl hparen
        case h_22 =>
          rw [partAs?_exprs]
          cases hnumber : cs.find? fun c => c.field == some .argument with
          | none => exact nofun
          | some number =>
              rw [Option.map_some]
              dsimp only
              split
              · rename_i hkind
                rw [partExpr_of_number hkind]
                exact ih number (List.mem_of_find?_eq_some hnumber)
              · exact nofun
        all_goals exact nofun

theorem tellsTruth_partExpr (ht : t.Sound source) : TellsTruth source (partExpr source t) := by
  unfold partExpr
  split
  · exact nofun
  · exact tellsTruth_expr ht

/-! ### Calls -/

/-- The argument lies where the source can be cut, and goes forward if it has a keyword. -/
structure ArgumentExtends (source : List Char) (a : Option String × Expr) : Prop where
  stretch : IsStretch source a.2.span
  forward : a.1.isSome = true → a.2.span.start ≤ a.2.span.stop
  truth : TellsTruth source a.2

theorem argumentExtends_argumentItems (hcs : AllSound source cs) :
    ∀ a ∈ argumentItems source cs, ArgumentExtends source a := by
  induction cs with
  | nil => exact fun a ha => absurd ha (by simp [argumentItems])
  | cons c cs ih =>
      rw [Syntax.allSound_cons] at hcs
      obtain ⟨k, f, s, ds⟩ := c
      rw [argumentItems.eq_def]
      dsimp only
      split
      · exact ih hcs.2
      · rename_i hk
        rw [partAs?_exprs, partAs?_exprs]
        cases ds.find? fun c => c.field == some .name with
        | none => exact ih hcs.2
        | some name =>
            cases hvalue : ds.find? fun c => c.field == some .value with
            | none => exact ih hcs.2
            | some value =>
                have hextends := extends_partExpr (hcs.1.parts value (List.mem_of_find?_eq_some hvalue))
                have htruth := tellsTruth_partExpr (hcs.1.parts value (List.mem_of_find?_eq_some hvalue))
                refine List.forall_mem_cons.mpr ⟨⟨hextends.stretch, fun _ => ?_, htruth⟩, ih hcs.2⟩
                exact hextends.forward (hcs.1.placed.forward value hvalue)
      · refine List.forall_mem_cons.mpr
          ⟨⟨(extends_expr hcs.1).stretch, ?_, tellsTruth_expr hcs.1⟩, ih hcs.2⟩
        exact fun hkeyword => absurd hkeyword Bool.false_ne_true

theorem argumentExtends_callArguments (hcs : AllSound source cs) :
    ∀ a ∈ callArguments source cs, ArgumentExtends source a := by
  induction cs with
  | nil => exact fun a ha => absurd ha (by simp [callArguments])
  | cons c cs ih =>
      rw [Syntax.allSound_cons] at hcs
      obtain ⟨k, f, s, ds⟩ := c
      rw [callArguments]
      split
      · split
        · exact argumentExtends_argumentItems hcs.1.parts
        · exact fun a ha => absurd ha List.not_mem_nil
      · exact ih hcs.2

/-- A call ends with a parenthesis, and its arguments lie where the source can be cut. -/
def CallExtends (source : List Char) : Expr → Prop
  | .call _ args keywords span => StandsAt source (span.stop - 1) [')'] ∧
      (∀ e ∈ args, ArgumentExtends source (none, e)) ∧
      ∀ keyword ∈ keywords, ArgumentExtends source (some keyword.1, keyword.2)
  | _ => True

theorem callExtends_expr (ht : t.Sound source) : CallExtends source (expr source t) := by
  induction ht with
  | @node k f s cs placed promises parts ih =>
      by_cases hparen : k = .parenthesized
      · subst hparen
        rw [expr_parenthesized]
        cases hc : cs.find? (·.kind != .comment) with
        | none => exact trivial
        | some c =>
            show CallExtends source (partExpr source c)
            unfold partExpr
            split
            · exact trivial
            · exact ih c (List.mem_of_find?_eq_some hc)
      · rw [expr.eq_def]
        dsimp only
        split
        case h_10 => split <;> exact trivial
        case h_11 =>
          split
          · have hargs := argumentExtends_callArguments parts
            refine ⟨placed.closed rfl, fun e he => ?_, fun keyword hkeyword => ?_⟩
            · obtain ⟨⟨key, e'⟩, ha, heq⟩ := List.mem_filterMap.mp he
              cases key with
              | none =>
                  obtain rfl : e' = e := by simpa using heq
                  exact hargs _ ha
              | some key => exact absurd heq (by simp)
            · obtain ⟨⟨key, e⟩, ha, heq⟩ := List.mem_filterMap.mp hkeyword
              obtain ⟨key, rfl, rfl⟩ := Option.map_eq_some_iff.mp heq
              exact hargs _ ha
          · exact trivial
        case h_21 => exact absurd rfl hparen
        case h_22 =>
          rw [partAs?_exprs]
          cases hnumber : cs.find? fun c => c.field == some .argument with
          | none => exact trivial
          | some number =>
              rw [Option.map_some]
              dsimp only
              split
              · rename_i hkind
                rw [partExpr_of_number hkind]
                exact ih number (List.mem_of_find?_eq_some hnumber)
              · exact trivial
        all_goals exact trivial

end Lower

end Plumbline
