/-
Whole texts read alike.

The readers of a text and of the text with the new line in it are tied together with different
allowances for nesting.  Both allow for as much nesting as there is text left, so they agree on
everything, by induction on how much is left.  A text that is read whole leaves nothing to be taken:
its tree has moved and holds the new comment.
-/
import Plumbline.Proofs.Insertion.Block
import Plumbline.Proofs.Syntax.WrittenImport

namespace Plumbline.Syntax

namespace CommentPlace

variable {i : CommentPlace}

/-! ### All readers -/

theorem readsBodies_tie {L n : Nat} (hn : 8 * L ≤ n) : ReadsBodies L (Knot.tie n) :=
  fun _ _ hbody rest pos s hlt hsize hformat =>
    hbody rest pos n s ((Nat.mul_le_mul_left 8 hlt.le).trans hn) hsize hformat

/-- Ties for `l` characters of the text and what else the new line takes, and `r` ties besides. -/
def Allows (i : CommentPlace) (l r n n' : Nat) : Prop :=
  8 * l + r ≤ n ∧ 8 * (l + i.line.length) + r ≤ n'

section

variable {l r r' n n' : Nat}

theorem Allows.mono (h : i.Allows l r n n') (hle : r' ≤ r) : i.Allows l r' n n' :=
  ⟨(Nat.add_le_add_left hle _).trans h.1, (Nat.add_le_add_left hle _).trans h.2⟩

theorem Allows.pred (h : i.Allows l (r + 1) n n') :
    ∃ m m', n = m + 1 ∧ n' = m' + 1 ∧ i.Allows l r m m' := by
  obtain ⟨hn, hn'⟩ := h
  exact ⟨n - 1, n' - 1, by omega, by omega, by omega, by omega⟩

/-- Nothing is read where nothing is left. -/
theorem lines_zero (h : i.Allows 0 1 n n') : i.Lines 0 (Knot.tie n) (Knot.tie n') := by
  have hnone : ∀ {α : Type} {q : Bool} {T : Token → Prop} {d : α → Token → Bool} {c : Nat}
      {R : Nat → α → α → Prop} {p p' : Parser α}, i.Agree 0 q T d c R p p' :=
    fun _ _ _ _ hleft => absurd hleft (Nat.not_lt_zero _)
  have hbodies' : ReadsBodies (0 + i.line.length) (Knot.tie n') := readsBodies_tie (Nat.le_of_lt h.2)
  obtain ⟨m, m', rfl, rfl, -⟩ := h.pred
  exact
    { expression := fun _ _ {_} => hnone
      atom := fun _ {_} => hnone
      arithmetic := fun _ _ {_} => hnone
      type := fun _ _ {_} => hnone
      assigned := hnone
      casePattern := fun _ {_} => hnone
      embedded := fun _ _ _ _ _ _ _ hleft => absurd hleft (Nat.not_lt_zero _)
      bodies := readsBodies_tie (Nat.zero_le _)
      bodies' := hbodies'
      statement := hnone
      starts := isWritten_of_statement }

/-! Readers that come to each other before something is taken need one tie more each. -/

variable (hlines : ∀ {n n' : Nat}, i.Allows l 5 n n' → i.Lines l (Knot.tie n) (Knot.tie n'))

include hlines

theorem agree_atom_tie (h : i.Allows l 6 n n') (p : Place) {T : Token → Prop} :
    i.Agree (l + 1) true T (const false) 0 i.IsMoved ((Knot.tie n).atom p) ((Knot.tie n').atom p) := by
  obtain ⟨m, m', rfl, rfl, hpred⟩ := h.pred
  exact agree_atom (hlines hpred).toLater p

theorem agree_arithmetic_tie (h : i.Allows l 7 n n') (least : Nat) (p : Place) {T : Token → Prop} :
    i.Agree (l + 1) true T (const false) 0 i.IsMoved ((Knot.tie n).arithmetic least p)
      ((Knot.tie n').arithmetic least p) := by
  obtain ⟨m, m', rfl, rfl, hpred⟩ := h.pred
  exact agree_arithmetic (hlines (hpred.mono (by decide))).toOperands (agree_atom_tie hlines hpred) least p

theorem operands_tie (h : i.Allows l 8 n n') : i.Operands (l + 1) (Knot.tie n) (Knot.tie n') := by
  have harithmetic := agree_arithmetic_tie hlines (h.mono (by decide))
  have hatom := agree_atom_tie hlines (h.mono (by decide))
  obtain ⟨m, m', rfl, rfl, hpred⟩ := h.pred
  exact
    { expression := fun level p {_} => agree_expression (hlines (hpred.mono (by decide))).toLater
        (agree_arithmetic_tie hlines hpred) level p
      atom := hatom
      arithmetic := harithmetic }

theorem later_tie (h : i.Allows l 9 n n') : i.Later (l + 1) (Knot.tie n) (Knot.tie n') := by
  have hoperands := operands_tie hlines (h.mono (by decide))
  have hbodies : ReadsBodies (l + 1) (Knot.tie n) := readsBodies_tie (by have hn := h.1; omega)
  have hbodies' : ReadsBodies (l + 1 + i.line.length) (Knot.tie n') :=
    readsBodies_tie (by have hn' := h.2; omega)
  obtain ⟨m, m', rfl, rfl, hpred⟩ := h.pred
  have hnested := (hlines (hpred.mono (by decide))).toLater
  exact
    { hoperands with
      type := fun bound p {_} => agree_type hnested (operands_tie hlines hpred).expression bound p
      assigned := agree_assigned hnested (operands_tie hlines hpred)
      casePattern := fun p {_} => agree_casePattern hnested p
      embedded := agree_embedded hnested.toOperands hnested.embedded
      bodies := hbodies
      bodies' := hbodies' }

theorem lines_succ (h : i.Allows l 10 n n') : i.Lines (l + 1) (Knot.tie n) (Knot.tie n') := by
  have hlater := later_tie hlines (h.mono (by decide))
  obtain ⟨m, m', rfl, rfl, hpred⟩ := h.pred
  exact
    { hlater with
      statement := agree_statement (hlines (hpred.mono (by decide))) (later_tie hlines hpred)
      starts := isWritten_of_statement }

omit hlines in
/-- **All readers agree** that allow for as much nesting as there is text left. -/
theorem lines_tie (h : i.Allows l 5 n n') : i.Lines l (Knot.tie n) (Knot.tie n') := by
  induction l generalizing n n' with
  | zero => exact lines_zero (h.mono (by decide))
  | succ l ih =>
      refine lines_succ ih ?_
      obtain ⟨hn, hn'⟩ := h
      exact ⟨by omega, by omega⟩

end

/-! ### Whole texts -/

/-- Above the new line no text ends. -/
theorem Alike.ahead_of_endOfText {m : Nat} {s s' : State} (h : i.Alike m s s')
    (hend : s.token = .endOfText) : m = 0 := by
  cases h.ahead with
  | early h' _ =>
      obtain ⟨rest, hne, hfront⟩ := h'.front
      obtain ⟨e, width, inFormat, c, hread⟩ := h.read
      rw [State.token, hread] at hend
      have hnil := Lexeme.rest_of_endOfText hend
      rw [← hread, hfront.rest] at hnil
      exact absurd hnil (by simp [hne])
  | late _ _ hwritten => exact Nat.eq_zero_of_not_pos fun hm => (hwritten hm).2 hend

theorem length_outcome (i : CommentPlace) : i.outcome.length = i.source.length + i.line.length := by
  simp only [outcome, source, List.length_append]
  omega

/-- The readers of whole texts agree. -/
theorem ends_module {text text' : String} (h : text.toList = i.source) (h' : text'.toList = i.outcome) :
    i.Ends 1 0 (const false) i.IsMoved (State.start text).left
      (Grammar.module (Knot.tie (nesting text.length)) (State.start text))
      (Grammar.module (Knot.tie (nesting text'.length)) (State.start text')) := by
  have hlength : text.length = i.source.length := by rw [← h, String.length_toList]
  have hlength' : text'.length = i.source.length + i.line.length := by
    rw [← i.length_outcome, ← h', String.length_toList]
  have hstart := i.alike_start h h'
  have hleft : (State.start text).left < text.length + 1 := by
    have hle := hstart.left_le.1
    rw [hstart.size] at hle
    omega
  have hallows : i.Allows (text.length + 1) 5 (nesting text.length) (nesting text'.length) := by
    unfold nesting
    exact ⟨by omega, by omega⟩
  exact agree_module (q := false) (T := Any) (lines_tie hallows) 1 _ _ hstart hleft nofun trivial

/-- **The tree of the text with the new line** is the tree of the text without it, with the new
comment in it. -/
theorem isMoved_parse {text text' : String} (h : text.toList = i.source)
    (h' : text'.toList = i.outcome) {t t' : Tree} (ht : parse text = .ok t) (ht' : parse text' = .ok t') :
    i.IsMoved 1 t t' := by
  have hends := ends_module h h'
  unfold parse at ht ht'
  split at ht
  · rename_i t s hdone
    split at ht'
    · rename_i t' s' hdone'
      cases ht
      cases ht'
      rw [hdone, hdone'] at hends
      cases hends with
      | @done n m _ _ _ _ hmoved halike hcount =>
          have hend : s.token = .endOfText := (Grammar.module_eq_done (n := 8 * text.length + 31) hdone).2
          obtain rfl := halike.ahead_of_endOfText hend
          obtain rfl : n = 1 := hcount.symm
          exact hmoved
    · exact absurd ht' nofun
  · exact absurd ht nofun

end CommentPlace

end Plumbline.Syntax
