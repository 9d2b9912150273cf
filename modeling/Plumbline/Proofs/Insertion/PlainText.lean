/-
Literals that are plain text.

A literal that is no format string, in which nothing is escaped and its mark does not occur, is read to
its closing marks whatever follows, so it is a whole token.
-/
import Plumbline.Proofs.Insertion.Place

namespace Plumbline.Syntax

/-- The marks that end a literal. -/
def Quote.closing (q : Quote) : List Char := if q.triple then [q.mark, q.mark, q.mark] else [q.mark]

/-- Text of a literal that is nothing but itself. -/
structure Quote.IsPlainText (q : Quote) (content : List Char) : Prop where
  noNul : nul ∉ content
  noBackslash : '\\' ∉ content
  noMark : q.mark ∉ content
  oneLine : q.triple = false → '\n' ∉ content

section

variable {q : Quote} {content : List Char}

/-- The closing marks end text, and the literal where no text is left. -/
theorem Quote.scanPlain_closing (hmark : q.mark = '"' ∨ q.mark = '\'') (hformat : q.format = false)
    (size : Nat) (begun : Bool) (rest : List Char) :
    q.scanPlain size begun (q.closing ++ rest) =
      some (if begun then .plain size else .close (size + q.closing.length)) := by
  have hnul : q.mark ≠ nul := by rcases hmark with h | h <;> rw [h] <;> decide
  have hbackslash : q.mark ≠ '\\' := by rcases hmark with h | h <;> rw [h] <;> decide
  unfold closing
  cases htriple : q.triple
  · rw [if_neg Bool.false_ne_true, List.cons_append, scanPlain.eq_def]
    cases begun <;> simp [hnul, hformat, hbackslash, htriple]
  · rw [if_pos rfl, List.cons_append, List.cons_append, List.cons_append, scanPlain.eq_def]
    cases begun <;> simp [hnul, hformat, hbackslash, htriple]

theorem Quote.IsPlainText.tail {c : Char} {cs : List Char} (h : q.IsPlainText (c :: cs)) :
    q.IsPlainText cs :=
  ⟨fun hc => h.noNul (List.mem_cons_of_mem _ hc), fun hc => h.noBackslash (List.mem_cons_of_mem _ hc),
    fun hc => h.noMark (List.mem_cons_of_mem _ hc), fun hq hc => h.oneLine hq (List.mem_cons_of_mem _ hc)⟩

theorem Quote.scanPlain_cons {c : Char} {cs : List Char} (hformat : q.format = false)
    (h : q.IsPlainText (c :: cs)) (size : Nat) (begun : Bool) (rest : List Char) :
    q.scanPlain size begun (c :: (cs ++ rest)) = q.scanPlain (size + 1) true (cs ++ rest) := by
  obtain ⟨hnul, hbackslash, hquote, hline⟩ := h
  simp only [List.mem_cons, not_or] at hnul hbackslash hquote hline
  have hbreak : ¬ (c = '\n' ∧ begun = true ∧ (!q.triple) = true) := fun hc =>
    (hline (by simpa using hc.2.2)).1 hc.1.symm
  rw [scanPlain.eq_def]
  simp only [Ne.symm hnul.1, Ne.symm hbackslash.1, Ne.symm hquote.1, hformat, hbreak, if_false,
    Bool.false_eq_true, false_and]

theorem Quote.scanPlain_content (hmark : q.mark = '"' ∨ q.mark = '\'') (hformat : q.format = false)
    (hcontent : q.IsPlainText content) (size : Nat) (rest : List Char) :
    q.scanPlain size true (content ++ (q.closing ++ rest)) = some (.plain (size + content.length)) := by
  induction content generalizing size with
  | nil => exact scanPlain_closing hmark hformat size true rest
  | cons c cs ih =>
      have hnext := ih hcontent.tail (size + 1)
      rw [List.cons_append, scanPlain_cons hformat hcontent, hnext, List.length_cons]
      simp only [Nat.add_assoc, Nat.add_comm 1]

/-- A literal that holds no more than text is read to its end. -/
theorem isBody_of_isPlainText (hmark : q.mark = '"' ∨ q.mark = '\'') (hformat : q.format = false)
    (hcontent : q.IsPlainText content) : IsBody q (content ++ q.closing) := by
  intro rest pos n s _ hsize _
  have hpiece : ∀ cs, q.piece cs = (q.scanPlain 0 false cs).getD (Quote.pieceBetween cs) := fun cs => by
    unfold Quote.piece
    rw [hformat]
  have hclose : ∀ fuel pos, Grammar.stringPieces (Knot.tie n) q (fuel + 1) ⟨q.closing ++ rest, pos⟩ [] s =
      .done ([], Cursor.advance q.closing.length ⟨q.closing ++ rest, pos⟩) s := by
    intro fuel pos
    rw [Grammar.stringPieces, hpiece, Quote.scanPlain_closing hmark hformat]
    simp only [Bool.false_eq_true, if_false, Option.getD_some, Nat.zero_add]
    rfl
  refine ⟨[], s, ?_⟩
  rw [List.append_assoc]
  cases content with
  | nil => exact hclose s.size pos
  | cons c cs =>
      obtain ⟨fuel, hfuel⟩ : ∃ fuel, s.size = fuel + 1 := ⟨s.size - 1, by simp at hsize; omega⟩
      rw [hfuel, Grammar.stringPieces, hpiece, List.cons_append,
        Quote.scanPlain_cons hformat hcontent, Quote.scanPlain_content hmark hformat hcontent.tail]
      have hskip := advance_append (c :: cs) (q.closing ++ rest) pos
      have hlength : 1 + cs.length = (c :: cs).length := Nat.add_comm 1 _
      simp only [Option.getD_some, Nat.zero_add, hlength]
      rw [List.length_append, ← advance_advance, ← List.cons_append, hskip]
      exact hclose fuel _

/-- **A literal that holds no more than text is a whole token.** -/
theorem isLiteral_of_isPlainText (hmark : q.mark = '"' ∨ q.mark = '\'') (hformat : q.format = false)
    (hcontent : q.IsPlainText content) {opening : List Char} (hopening : opening ≠ [])
    (hat : ∀ rest, Quote.at? (opening ++ (content ++ q.closing) ++ rest) = some (q, opening.length)) :
    IsLiteral (opening ++ (content ++ q.closing)) :=
  ⟨q, opening, content ++ q.closing, rfl, hopening, hat, isBody_of_isPlainText hmark hformat hcontent⟩

end

end Plumbline.Syntax
