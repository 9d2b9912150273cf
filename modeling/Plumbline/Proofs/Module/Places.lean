/-
Where the statements of a module lie.

The statements at the top level stand for the trees of the file, in the same order, and most of them
lie where their trees do (`IsLowered`).  So an import, a comment or a docstring ends before the imports
after it start, and there is a line end between it and a definition after it (`module_precedes`).
-/
import Plumbline.Fix.Edit
import Plumbline.Proofs.Module.Definitions
import Plumbline.Proofs.Module.Parameter
import Plumbline.Proofs.Syntax.Outline

namespace Plumbline

open Syntax (Kind Tree AllSound EndsWithin IsPlace BreaksBetween)

namespace Lower

variable {text : List Char}

/-! ### Docstrings -/

/-- A string is written as one, or as a group that holds it. -/
theorem expr_str {t : Tree} (ht : t.Sound text) {span : Span}
    (h : expr text t = .literal .str span) :
    t.kind.isText = true ∧ (span = t.span ∨ EndsWithin text span.stop t.span.stop) := by
  induction ht generalizing span with
  | @node k f s cs placed promises parts ih =>
      rw [expr.eq_def] at h
      dsimp only at h
      split at h
      case h_1 => exact ⟨rfl, Or.inl (by injection h with _ h; exact h.symm)⟩
      case h_2 => exact ⟨rfl, Or.inl (by injection h with _ h; exact h.symm)⟩
      case h_21 =>
        refine ⟨rfl, Or.inr ?_⟩
        rw [List.headD_eq_head?_getD, head?_contents] at h
        cases hc : cs.find? (·.kind != .comment) with
        | none =>
            rw [hc] at h
            exact absurd h (by simp)
        | some c =>
            rw [hc, Option.map_some, Option.getD_some, partExpr] at h
            split at h
            · exact absurd h (by simp)
            · obtain ⟨htext, hspan⟩ := ih c (List.mem_of_find?_eq_some hc) h
              obtain ⟨hle, hplace⟩ := promises.held rfl c hc htext
              rcases hspan with rfl | ⟨hle', hplace'⟩
              · exact ⟨hle, hplace⟩
              · exact ⟨hle'.trans hle, hplace'⟩
      case h_10 => split at h <;> exact absurd h (by simp)
      case h_11 => split at h <;> exact absurd h (by simp)
      case h_22 =>
        rw [partAs?_exprs] at h
        cases hnumber : cs.find? fun c => c.field == some .argument with
        | none =>
            rw [hnumber] at h
            exact absurd h (by simp)
        | some number =>
            rw [hnumber, Option.map_some] at h
            dsimp only at h
            split at h
            · rename_i hkind
              rw [partExpr_of_number hkind] at h
              obtain ⟨k', f', s', cs'⟩ := number
              rcases hkind with hkind | hkind
              · obtain rfl : k' = .integer := hkind
                simp [expr] at h
              · obtain rfl : k' = .float := hkind
                simp [expr] at h
            · exact absurd h (by simp)
      all_goals exact absurd h (by simp)

/-! ### Statements -/

/-- What is said of the place of a statement and of the kind of its tree. -/
inductive IsLowered (text : List Char) (t : Tree) : Stmt → Prop where
  | function {head : FunctionHead} {body : List Stmt} (hspan : head.header = t.span)
      (hkind : t.kind.isCompound = true) : IsLowered text t (.functionDef head body)
  | classDef {head : ClassHead} {body : List Stmt} (hspan : head.header = t.span)
      (hkind : t.kind.isCompound = true) : IsLowered text t (.classDef head body)
  | importing {i : Import} (hspan : i.span = t.span) (hkind : t.kind.endsLine = true) :
      IsLowered text t (.importing i)
  | comment {c : Comment} (hspan : c.span = t.span) (hkind : t.kind.endsLine = true) :
      IsLowered text t (.comment c)
  | expr {inner : Tree} (hinner : t.content? = some inner) (hkind : t.kind = .expressionStatement) :
      IsLowered text t (.expr (Lower.expr text inner))
  | other {s : Stmt} (himport : Edit.isImport s = false) (hcomment : s.isComment = false)
      (hdocstring : s.isDocstring = false) (hdefinition : s.definition? = none) : IsLowered text t s

variable {scope : List String} {inClass : Bool} {s : Stmt}

theorem isLowered_simple? {t : Tree} (h : simple? text t = some s) : IsLowered text t s := by
  unfold simple? at h
  split at h
  case h_1 hkind =>
    cases h
    exact .importing rfl (by rw [hkind]; rfl)
  case h_2 hkind =>
    cases h
    exact .importing rfl (by rw [hkind]; rfl)
  case h_3 hkind =>
    cases h
    exact .importing rfl (by rw [hkind]; rfl)
  case h_5 hkind =>
    obtain ⟨inner, hinner, rfl⟩ := Option.map_eq_some_iff.mp h
    split
    · exact .other rfl rfl rfl rfl
    · exact .other rfl rfl rfl rfl
    · exact .expr hinner hkind
  case h_6 hkind =>
    cases h
    exact .comment rfl (by rw [hkind]; rfl)
  all_goals
    cases h
    exact .other rfl rfl rfl rfl

theorem isLowered_definition? {decorators : List Decorator} {t : Tree}
    (hkind : t.kind.isCompound = true) {cs : List Tree}
    (h : definition? text scope inClass decorators t.span cs = some s) : IsLowered text t s := by
  induction cs with
  | nil => exact absurd h (by simp [definition?])
  | cons c cs ih =>
      obtain ⟨k, f, span, ds⟩ := c
      rw [definition?.eq_def] at h
      dsimp only at h
      split at h
      · split at h
        · obtain ⟨head, hhead, rfl⟩ := Option.map_eq_some_iff.mp h
          exact .function (header_functionHead? hhead) hkind
        · obtain ⟨head, hhead, rfl⟩ := Option.map_eq_some_iff.mp h
          exact .classDef (header_classHead? hhead).1 hkind
        · cases h
          exact .other rfl rfl rfl rfl
      · exact ih h

/-- **What a tree of a statement is lowered to.** -/
theorem isLowered_stmt? {t : Tree} (h : stmt? text scope inClass t = some s) :
    IsLowered text t s := by
  obtain ⟨k, f, span, cs⟩ := t
  rw [stmt?.eq_def] at h
  dsimp only at h
  split at h
  · obtain ⟨head, hhead, rfl⟩ := Option.map_eq_some_iff.mp h
    exact .function (header_functionHead? hhead) rfl
  · obtain ⟨head, hhead, rfl⟩ := Option.map_eq_some_iff.mp h
    exact .classDef (header_classHead? hhead).1 rfl
  · exact isLowered_definition? rfl h
  · split at h
    · cases h
      exact .other rfl rfl rfl rfl
    · exact isLowered_simple? h

theorem stmt?_of_simple? {t : Tree} {i : Import} (h : simple? text t = some (.importing i)) :
    stmt? text scope inClass t = some (.importing i) := by
  obtain ⟨k, f, span, cs⟩ := t
  have hkind : k = .importStatement ∨ k = .importFrom ∨ k = .futureImport := by
    unfold simple? at h
    split at h
    case h_1 hk => exact Or.inl hk
    case h_2 hk => exact Or.inr (Or.inl hk)
    case h_3 hk => exact Or.inr (Or.inr hk)
    case h_5 =>
      obtain ⟨inner, -, hinner⟩ := Option.map_eq_some_iff.mp h
      split at hinner <;> exact absurd hinner (by simp)
    all_goals exact absurd h (by simp)
  rcases hkind with rfl | rfl | rfl
  all_goals
    rw [← h, stmt?.eq_def]
    rfl

theorem stmts_eq (ts : List Tree) :
    stmts text scope inClass ts = ts.filterMap (stmt? text scope inClass) := by
  induction ts with
  | nil => rfl
  | cons t ts ih =>
      rw [stmts, ih, List.filterMap_cons]
      cases stmt? text scope inClass t <;> rfl

end Lower

/-! ### The order of a module -/

/-- A new import may go behind the statement. -/
def Stmt.anchors (s : Stmt) : Bool := Edit.isImport s || s.isComment || s.isDocstring

theorem Stmt.exists_of_isDocstring {e : Expr} (h : (Stmt.expr e).isDocstring = true) :
    ∃ span, e = .literal .str span := by
  unfold isDocstring at h
  split at h
  · rename_i span heq
    exact ⟨span, by injection heq⟩
  · exact absurd h Bool.false_ne_true

namespace Lower

variable {text : List Char} {t : Tree} {s : Stmt}

theorem IsLowered.endsWithin (h : IsLowered text t s) (ht : t.Sound text)
    (hs : s.anchors = true) :
    EndsWithin text s.span.stop t.span.stop ∧ t.kind.endsLine = true := by
  cases h with
  | function => exact absurd hs (by simp [Stmt.anchors, Edit.isImport, Stmt.isComment,
      Stmt.isDocstring])
  | classDef => exact absurd hs (by simp [Stmt.anchors, Edit.isImport, Stmt.isComment,
      Stmt.isDocstring])
  | importing hspan hkind =>
      rw [Stmt.span, hspan]
      exact ⟨⟨Nat.le_refl _, ht.stretch.stop⟩, hkind⟩
  | comment hspan hkind =>
      rw [Stmt.span, hspan]
      exact ⟨⟨Nat.le_refl _, ht.stretch.stop⟩, hkind⟩
  | @expr inner hinner hkind =>
      obtain ⟨k, f, span, cs⟩ := t
      obtain rfl : k = .expressionStatement := hkind
      obtain ⟨span', hexpr⟩ := Stmt.exists_of_isDocstring
        (by simpa [Stmt.anchors, Edit.isImport, Stmt.isComment] using hs)
      obtain ⟨htext, hspan⟩ := expr_str (ht.parts inner (List.mem_of_find?_eq_some hinner)) hexpr
      obtain ⟨hle, hplace⟩ := ht.promises.held rfl inner hinner htext
      refine ⟨?_, rfl⟩
      rw [Stmt.span, hexpr]
      rcases hspan with rfl | ⟨hle', hplace'⟩
      · exact ⟨hle, hplace⟩
      · exact ⟨hle'.trans hle, hplace'⟩
  | other himport hcomment hdocstring _ =>
      exact absurd hs (by simp [Stmt.anchors, himport, hcomment, hdocstring])

theorem IsLowered.span_of_isImport (h : IsLowered text t s) (hs : Edit.isImport s = true) :
    s.span = t.span := by
  cases h with
  | importing hspan _ => exact hspan
  | other himport _ _ _ => exact absurd hs (by simp [himport])
  | _ => exact absurd hs (by simp [Edit.isImport])

theorem IsLowered.definition (h : IsLowered text t s) (hs : s.definition?.isSome = true) :
    s.span = t.span ∧ t.kind.isCompound = true := by
  cases h with
  | function hspan hkind => exact ⟨hspan, hkind⟩
  | classDef hspan hkind => exact ⟨hspan, hkind⟩
  | other _ _ _ hdefinition => exact absurd hs (by simp [hdefinition])
  | _ => exact absurd hs (by simp [Stmt.definition?])

end Lower

/-- What lies between a statement and a later one. -/
structure Precedes (text : List Char) (a b : Stmt) : Prop where
  /-- An import ends after what an import may follow. -/
  before : a.anchors = true → Edit.isImport b = true → a.span.stop ≤ b.span.stop
  /-- A definition starts a line of its own. -/
  apart : a.anchors = true → b.definition?.isSome = true →
    BreaksBetween text a.span.stop b.span.start

/-- **The order of the statements of a module.** -/
theorem module_precedes {source name : String} {path : Path} {m : Module}
    (h : Module.parse source path name = .ok m) :
    m.body.Pairwise (Precedes source.toList) ∧
      ∀ s ∈ m.body, s.anchors = true → IsPlace source.toList s.span.stop := by
  obtain ⟨tree, htree, rfl⟩ := Module.parse_eq_ok h
  obtain ⟨state, houtline⟩ := Syntax.outlined_parse htree
  have hsound : AllSound source.toList tree.children := (Syntax.sound_parse htree).children
  show (Lower.stmts _ _ _ _).Pairwise _ ∧ ∀ s ∈ Lower.stmts _ _ _ _, _
  rw [Lower.stmts_eq]
  have hlaid := (Syntax.areLaid_append.mp houtline.laid).choose_spec.1
  refine ⟨List.pairwise_filterMap.mpr ?_, fun s hs hanchors => ?_⟩
  · refine (hlaid.pairwise.and houtline.apart).imp_of_mem ?_
    rintro t d ht hd ⟨hle, hbreaks⟩ a ha b hb
    have hanchor := (Lower.isLowered_stmt? ha).endsWithin (hsound t ht)
    refine ⟨fun hanchors himport => ?_, fun hanchors hdefinition => ?_⟩
    · obtain ⟨⟨hstop, -⟩, -⟩ := hanchor hanchors
      rw [(Lower.isLowered_stmt? hb).span_of_isImport himport]
      exact hstop.trans (hle.trans (hlaid.start_le_stop hd))
    · obtain ⟨⟨hstop, -⟩, hends⟩ := hanchor hanchors
      obtain ⟨hspan, hcompound⟩ := (Lower.isLowered_stmt? hb).definition hdefinition
      rw [hspan]
      exact (hbreaks hends hcompound).mono hstop (Nat.le_refl _)
  · obtain ⟨t, ht, hlowered⟩ := List.mem_filterMap.mp hs
    exact ((Lower.isLowered_stmt? hlowered).endsWithin (hsound t ht) hanchors).1.2

end Plumbline
