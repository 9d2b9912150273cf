/-
Tokens that stand alike.

From cursors that stand alike the same token is read, and the cursors before and behind it stand alike
again.  Only where the reader of the source comes to the line below the new one, the reader of the
outcome finds the comment first, and then the same token (`next_early`).
-/
import Plumbline.Proofs.Insertion.Place

namespace Plumbline.Syntax

namespace CommentPlace

variable {i : CommentPlace} {c c' : Cursor}

/-! ### Cursors -/

/-- Both readers stand above the new line, with `rest` between them and the line. -/
def IsEarly (i : CommentPlace) (rest : List Char) (c c' : Cursor) : Prop :=
  ∃ front, i.before = front ++ rest ∧ c = ⟨rest ++ i.below, placeBehind front⟩ ∧
    c' = ⟨rest ++ (i.line ++ i.below), placeBehind front⟩

/-- Both readers stand below the new line. -/
def IsLate (i : CommentPlace) (c c' : Cursor) : Prop :=
  ∃ front rest, i.below = front ++ rest ∧ c = ⟨rest, placeBehind (i.before ++ front)⟩ ∧
    c' = ⟨rest, placeBehind (i.before ++ i.line ++ front)⟩

theorem IsEarly.advance {w rest : List Char} (h : i.IsEarly (w ++ rest) c c') :
    i.IsEarly rest (c.advance w.length) (c'.advance w.length) := by
  obtain ⟨front, hbefore, rfl, rfl⟩ := h
  refine ⟨front ++ w, by simp [hbefore], ?_, ?_⟩
  · rw [List.append_assoc, advance_append, placeBehind_append]
  · rw [List.append_assoc, advance_append, placeBehind_append]

theorem IsEarly.pos {rest : List Char} (h : i.IsEarly rest c c') : c'.pos = c.pos := by
  obtain ⟨_, _, rfl, rfl⟩ := h
  rfl

theorem IsEarly.byte {rest : List Char} (h : i.IsEarly rest c c') :
    c.pos.byte + byteSize rest = i.start := by
  obtain ⟨front, hbefore, rfl, -⟩ := h
  rw [byte_placeBehind, start, hbefore, byteSize_append]

theorem IsEarly.rest {rest : List Char} (h : i.IsEarly rest c c') : c.rest = rest ++ i.below := by
  obtain ⟨_, _, rfl, -⟩ := h
  rfl

theorem IsEarly.rest' {rest : List Char} (h : i.IsEarly rest c c') :
    c'.rest = rest ++ (i.line ++ i.below) := by
  obtain ⟨_, _, -, rfl⟩ := h
  rfl

theorem IsLate.advance (h : i.IsLate c c') (n : Nat) : i.IsLate (c.advance n) (c'.advance n) := by
  obtain ⟨front, rest, hbelow, rfl, rfl⟩ := h
  induction n generalizing front rest with
  | zero => exact ⟨front, rest, hbelow, rfl, rfl⟩
  | succ n ih =>
      cases rest with
      | nil => exact ⟨front, [], hbelow, rfl, rfl⟩
      | cons x xs =>
          have hstep := ih (front ++ [x]) xs (by simp [hbelow])
          rw [← List.append_assoc, ← List.append_assoc (i.before ++ i.line),
            placeBehind_append (i.before ++ front), placeBehind_append (i.before ++ i.line ++ front)]
            at hstep
          exact hstep

theorem IsLate.rest (h : i.IsLate c c') : c'.rest = c.rest := by
  obtain ⟨_, _, _, rfl, rfl⟩ := h
  rfl

theorem IsLate.pos (h : i.IsLate c c') : c'.pos = i.move c.pos := by
  obtain ⟨front, _, _, rfl, rfl⟩ := h
  exact placeBehind_line front

theorem IsLate.byte (h : i.IsLate c c') : i.start ≤ c.pos.byte := by
  obtain ⟨front, _, _, rfl, -⟩ := h
  rw [byte_placeBehind, byteSize_append]
  exact Nat.le_add_right _ _

theorem byte_lt_advance {n : Nat} (hn : 0 < n) {c : Cursor} (hrest : c.rest ≠ []) :
    c.pos.byte < (c.advance n).pos.byte := by
  obtain ⟨n, rfl⟩ := Nat.exists_eq_succ_of_ne_zero (Nat.ne_of_gt hn)
  obtain ⟨_ | ⟨x, xs⟩, p⟩ := c
  · exact absurd rfl hrest
  · have hstep := Cursor.byte_le_advance n ⟨xs, p.after x⟩
    rw [Cursor.byte_after] at hstep
    exact (Nat.lt_add_of_pos_right x.utf8Size_pos).trans_le hstep

/-! ### Tokens -/

/-- Tokens that have been read above the new line. -/
inductive EarlyPair (i : CommentPlace) : Lexeme → Lexeme → Prop where
  | mark {t : Token} {rest : List Char} {c c' : Cursor} (ht : t.isLayout = true) (hrest : Tokens rest)
      (h : i.IsEarly rest c c') : EarlyPair i ⟨t, c, c⟩ ⟨t, c', c'⟩
  | word {w rest : List Char} {c c' : Cursor} (hw : IsWordOf w rest)
      (hstar : w = ['*', '*'] → Tokens ('*' :: rest)) (hrest : Tokens rest)
      (h : i.IsEarly (w ++ rest) c c') :
      EarlyPair i ⟨(Token.read (w ++ rest)).1, c, c.advance w.length⟩
        ⟨(Token.read (w ++ rest)).1, c', c'.advance w.length⟩
  | literal {w rest : List Char} {q : Quote} {n : Nat} {c c' : Cursor} (hw : IsLiteral w)
      (hquote : ∀ rest, Quote.at? (w ++ rest) = some (q, n)) (hrest : Tokens rest)
      (h : i.IsEarly (w ++ rest) c c') :
      EarlyPair i ⟨.quote q, c, c.advance n⟩ ⟨.quote q, c', c'.advance n⟩

/-- Tokens that have been read below the new line. -/
structure LatePair (i : CommentPlace) (l l' : Lexeme) : Prop where
  token : l'.token = l.token
  front : i.IsLate l.front l'.front
  stop : i.IsLate l.stop l'.stop
  past : i.start < l.stop.pos.byte

/-- What the readers find next, when one of them goes across the new line: a token below it, and the
comment, behind which the same token comes. -/
structure Crossing (i : CommentPlace) (e : Expect) (width : Nat) (inFormat : Bool)
    (l l' : Lexeme) : Prop where
  comment : l'.token = .comment
  start : l'.start = placeBehind (i.before ++ i.indent)
  stop : l'.stop.pos = placeBehind (i.before ++ i.indent ++ i.comment)
  late : i.LatePair l (Lexeme.next e width inFormat l'.stop)
  written : l.token ≠ .comment ∧ l.token ≠ .joined ∧ l.token ≠ .endOfText
  word : l.token.isLayout = false

/-- From the same text the same token is read, wherever it stands. -/
theorem next_eq (e : Expect) (width : Nat) (inFormat : Bool) (rest : List Char) : ∃ t n k, n ≤ k ∧
    ∀ pos, Lexeme.next e width inFormat ⟨rest, pos⟩ =
      ⟨t, Cursor.advance n ⟨rest, pos⟩, Cursor.advance k ⟨rest, pos⟩⟩ := by
  have hword : ∃ t n k, n ≤ k ∧ ∀ pos, Lexeme.word ⟨rest, pos⟩ =
      ⟨t, Cursor.advance n ⟨rest, pos⟩, Cursor.advance k ⟨rest, pos⟩⟩ := by
    refine ⟨(Token.read (rest.drop (Token.runLength isBlank rest))).1, Token.runLength isBlank rest,
      Token.runLength isBlank rest + (Token.read (rest.drop (Token.runLength isBlank rest))).2,
      Nat.le_add_right _ _, fun pos => ?_⟩
    unfold Lexeme.word
    simp only [Cursor.rest_advance, advance_advance]
  unfold Lexeme.next
  dsimp only
  generalize Margin.scan e.layout false rest {} = m
  split
  · rename_i t _
    exact ⟨t, 0, 0, Nat.le_refl 0, fun pos => rfl⟩
  · split
    · exact hword
    · split
      · rename_i q n _
        exact ⟨.quote q, m.size, m.size + n, Nat.le_add_right _ _, fun pos => by
          simp only [advance_advance]⟩
      · exact hword

/-- Below the new line the readers find the same. -/
theorem next_late (e : Expect) (width : Nat) (inFormat : Bool) (h : i.IsLate c c')
    (hpast : i.start < c.pos.byte) :
    i.LatePair (Lexeme.next e width inFormat c) (Lexeme.next e width inFormat c') := by
  obtain ⟨t, n, k, -, hnext⟩ := next_eq e width inFormat c.rest
  have hrest : c' = ⟨c.rest, c'.pos⟩ := by rw [← h.rest]
  have hl : Lexeme.next e width inFormat c = ⟨t, c.advance n, c.advance k⟩ := hnext c.pos
  have hl' : Lexeme.next e width inFormat c' = ⟨t, c'.advance n, c'.advance k⟩ := by
    rw [hrest]
    exact hnext c'.pos
  rw [hl, hl']
  exact ⟨rfl, h.advance n, h.advance k, hpast.trans_le (Cursor.byte_le_advance k c)⟩

/-- Over blanks one comes to the word below. -/
theorem word_of_blanks (i : CommentPlace) {blanks : List Char} (hblanks : AllMarginal blanks)
    (pos : Position) : Lexeme.word ⟨blanks ++ i.word, pos⟩ =
      ⟨(Token.read i.word).1, ⟨i.word, blanks.foldl Position.after pos⟩,
        Cursor.advance (Token.read i.word).2 ⟨i.word, blanks.foldl Position.after pos⟩⟩ := by
  obtain ⟨d, ds, hword, hd⟩ := i.starts
  have hlength : Token.runLength isBlank (blanks ++ i.word) = blanks.length := by
    rw [runLength_blanks hblanks, hword]
    simp [Token.runLength, hd.notBlank]
  unfold Lexeme.word
  simp only [hlength, advance_append]

theorem read_word (i : CommentPlace) : (Token.read i.word).1 ≠ .comment ∧
    (Token.read i.word).1 ≠ .joined ∧ (Token.read i.word).1 ≠ .endOfText := by
  obtain ⟨d, ds, hword, hd⟩ := i.starts
  have hjoin : ¬ 0 < Token.joinLength (d :: ds) := by simp [Token.joinLength, hd.notBackslash]
  rw [hword, Token.read]
  simp only [if_neg hd.notHash, if_neg hjoin]
  repeat' split
  all_goals simp

/-! ### The token above the new line -/

theorem earlyPair_word {blanks w ds : List Char} (h : i.IsEarly (blanks ++ (w ++ ds)) c c')
    (hblanks : AllMarginal blanks) (hw : IsWordOf w ds) (hstar : w = ['*', '*'] → Tokens ('*' :: ds))
    (hds : Tokens ds) : i.EarlyPair (Lexeme.word c) (Lexeme.word c') := by
  rw [Lexeme.word_of_tokens h.rest hblanks hw hds, Lexeme.word_of_tokens h.rest' hblanks hw hds,
    ← advance_advance, ← advance_advance]
  exact .word hw hstar hds h.advance

theorem earlyPair_of_isMarked {rest : List Char} (hrest : Tokens rest) (h : i.IsEarly rest c c')
    (hmarked : IsMarked rest) : i.EarlyPair (Lexeme.word c) (Lexeme.word c') := by
  rcases hrest.exists_first with hall | ⟨blanks, w, ds, rfl, hblanks, hfirst, hds⟩
  · obtain ⟨front, d, back, rfl, -, hd⟩ := hmarked
    have hmark : isMarginal d = false := by rcases hd with rfl | rfl <;> rfl
    exact absurd (hall d (by simp)) (by simp [hmark])
  · cases hfirst with
    | word hw hstar => exact earlyPair_word h hblanks hw hstar hds
    | literal hw => exact (hmarked.not_isLiteral hblanks hw).elim

/-- What stands behind the first character of what a margin ends at does not matter to its layout
mark. -/
theorem mark?_rest (e : Expect) (width : Nat) (inFormat : Bool) (m : Margin) {back : List Char}
    (hback : back ≠ []) (rest rest' : List Char) :
    Margin.mark? e width inFormat { m with rest := back ++ rest } =
      Margin.mark? e width inFormat { m with rest := back ++ rest' } := by
  obtain ⟨d, ds, rfl⟩ := List.exists_cons_of_ne_nil hback
  rfl

theorem next_inside (e : Expect) (width : Nat) (inFormat : Bool) {front back : List Char}
    (hrest : Tokens (front ++ back)) (h : i.IsEarly (front ++ back) c c') {m : Margin}
    (hback : Tokens back) (hhead : ∀ d ∈ back.head?, isMarginal d = false)
    (hsize : m.size = front.length)
    (hscan : ∀ rest, Margin.scan e.layout false (front ++ back ++ rest) {} =
      { m with rest := back ++ rest })
    (hmarked : IsMarked (front ++ back) ∨
      AllMarginal front ∧ m.stuck = false ∧ m.comment = none) :
    i.EarlyPair (Lexeme.next e width inFormat c) (Lexeme.next e width inFormat c') := by
  unfold Lexeme.next
  simp only [h.rest, h.rest', hscan]
  rw [mark?_rest e width inFormat m hback.ne_nil (i.line ++ i.below) i.below]
  split
  · rename_i t ht
    exact .mark (Lexeme.isLayout_of_mark ht) hrest h
  · split
    · rename_i hcomment
      refine earlyPair_of_isMarked hrest h (hmarked.resolve_right ?_)
      rintro ⟨-, hstuck, hnone⟩
      simp [hstuck, hnone] at hcomment
    · rcases hback.exists_first with hall | ⟨blanks, w, ds, rfl, hblanks, hfirst, hds⟩
      · obtain ⟨d, ds, rfl⟩ := List.exists_cons_of_ne_nil hback.ne_nil
        exact absurd (hall d List.mem_cons_self) (by simp [hhead d rfl])
      · obtain rfl : blanks = [] := by
          cases blanks with
          | nil => rfl
          | cons d ds => exact absurd (hblanks d List.mem_cons_self) (by simp [hhead d rfl])
        rw [List.nil_append] at *
        cases hfirst with
        | word hw hstar =>
            rw [hw.at?_append hds, hw.at?_append hds]
            rcases hmarked with hmarked | ⟨hfront, -⟩
            · exact earlyPair_of_isMarked hrest h hmarked
            · exact earlyPair_word h hfront hw hstar hds
        | literal hw =>
            obtain ⟨q, opening, body, hopening, -, hat, -⟩ := id hw
            rw [List.append_assoc, List.append_assoc, hat, hat, hsize]
            exact .literal hw hat hds h.advance

/-! ### The token below the new line -/

/-- Behind the comment the token below is found, if no layout mark comes before it. -/
theorem next_behind_comment (i : CommentPlace) {e : Expect} {width : Nat} {inFormat : Bool}
    (hnone : (Margin.scan e.layout false ('\n' :: i.below) {}).mark? e width inFormat = none)
    (pos : Position) : Lexeme.next e width inFormat ⟨'\n' :: i.below, pos⟩ =
      Lexeme.word ⟨'\n' :: i.below, pos⟩ := by
  have hscan : Margin.scan e.layout false ('\n' :: i.below) {} =
      Margin.scan e.layout false i.below { lineBreak := true, size := 1 } := by simp [Margin.scan]
  unfold Lexeme.next
  simp only [hnone]
  rw [hscan, scan_below]
  simp only [i.noQuote]
  rfl

theorem read_comment (i : CommentPlace) :
    Token.read ('#' :: (i.note ++ '\n' :: i.below)) = (.comment, i.comment.length) := by
  have hall : ∀ d ∈ i.comment, (d != '\n' && d != nul) = true := by
    intro d hd
    rcases List.mem_cons.mp hd with rfl | hd
    · rfl
    · simp [i.inLine d hd]
  have hlength : Token.commentLength (i.comment ++ '\n' :: i.below) = i.comment.length := by
    simp [Token.commentLength, Token.runLength, List.takeWhile_append_of_pos hall]
  exact congrArg (Prod.mk Token.comment) hlength

section

variable {front rest : List Char} (hbefore : i.before = front ++ rest)
  (hblanks : AllMarginal (rest ++ i.indent))

include hbefore hblanks

/-- The reader of the source comes from the blanks above to the word below. -/
theorem word_source : Lexeme.word ⟨rest ++ i.below, placeBehind front⟩ = ⟨(Token.read i.word).1,
    ⟨i.word, placeBehind (i.before ++ i.indent)⟩,
    Cursor.advance (Token.read i.word).2 ⟨i.word, placeBehind (i.before ++ i.indent)⟩⟩ := by
  rw [below, ← List.append_assoc, word_of_blanks i hblanks, ← placeBehind_append, hbefore,
    List.append_assoc]

/-- The reader of the outcome comes from the same blanks to the comment. -/
theorem word_outcome : Lexeme.word ⟨rest ++ (i.line ++ i.below), placeBehind front⟩ = ⟨.comment,
    ⟨i.comment ++ '\n' :: i.below, placeBehind (i.before ++ i.indent)⟩,
    ⟨'\n' :: i.below, placeBehind (i.before ++ i.indent ++ i.comment)⟩⟩ := by
  have hwhole : rest ++ (i.line ++ i.below) =
      rest ++ i.indent ++ (i.comment ++ '\n' :: i.below) := by simp [line]
  have hlength : Token.runLength isBlank (rest ++ i.indent ++ (i.comment ++ '\n' :: i.below)) =
      (rest ++ i.indent).length := by
    rw [runLength_blanks hblanks]
    rfl
  have hplace : (rest ++ i.indent).foldl Position.after (placeBehind front) =
      placeBehind (i.before ++ i.indent) := by
    rw [← placeBehind_append, hbefore, List.append_assoc]
  have hcons : i.comment ++ '\n' :: i.below = '#' :: (i.note ++ '\n' :: i.below) := rfl
  unfold Lexeme.word
  simp only [hwhole, hlength, advance_append, hplace]
  rw [hcons, read_comment, ← hcons, advance_append, ← placeBehind_append]

end

/-- Behind the comment the reader of the outcome comes to the word below as well. -/
theorem word_behind_comment (i : CommentPlace) :
    Lexeme.word ⟨'\n' :: i.below, placeBehind (i.before ++ i.indent ++ i.comment)⟩ =
      ⟨(Token.read i.word).1, ⟨i.word, placeBehind (i.before ++ i.line ++ i.indent)⟩,
        Cursor.advance (Token.read i.word).2
          ⟨i.word, placeBehind (i.before ++ i.line ++ i.indent)⟩⟩ := by
  have hmarginal : AllMarginal ('\n' :: i.indent) :=
    List.forall_mem_cons.mpr ⟨rfl, allMarginal_indent⟩
  have hplace : ('\n' :: i.indent).foldl Position.after
      (placeBehind (i.before ++ i.indent ++ i.comment)) =
        placeBehind (i.before ++ i.line ++ i.indent) := by
    rw [← placeBehind_append]
    simp [line]
  rw [← hplace, ← word_of_blanks i hmarginal]
  rfl

theorem crossing_of_blanks {e : Expect} {width : Nat} {inFormat : Bool} {rest : List Char}
    (h : i.IsEarly rest c c') (hrest : AllMarginal rest)
    (hnone : (Margin.scan e.layout false ('\n' :: i.below) {}).mark? e width inFormat = none) :
    i.Crossing e width inFormat (Lexeme.word c) (Lexeme.word c') := by
  obtain ⟨front, hbefore, rfl, rfl⟩ := h
  have hblanks : AllMarginal (rest ++ i.indent) := by
    intro d hd
    rcases List.mem_append.mp hd with hd | hd
    · exact hrest d hd
    · exact allMarginal_indent d hd
  rw [word_source hbefore hblanks, word_outcome hbefore hblanks]
  refine ⟨rfl, rfl, rfl, ?_, i.read_word, Token.isLayout_read _⟩
  rw [next_behind_comment i hnone, word_behind_comment]
  have hlate : i.IsLate ⟨i.word, placeBehind (i.before ++ i.indent)⟩
      ⟨i.word, placeBehind (i.before ++ i.line ++ i.indent)⟩ := ⟨i.indent, i.word, rfl, rfl, rfl⟩
  refine ⟨rfl, hlate, hlate.advance _, hlate.byte.trans_lt (byte_lt_advance i.reads ?_)⟩
  obtain ⟨d, ds, hword, -⟩ := i.starts
  simp [hword]

/-- A margin that ends with the line below, or with the new one, opens no literal. -/
theorem next_word {e : Expect} {width : Nat} {inFormat : Bool} {m : Margin} {c : Cursor}
    (hscan : Margin.scan e.layout false c.rest {} = m) (hmark : m.mark? e width inFormat = none)
    (hquote : Quote.at? m.rest = none) : Lexeme.next e width inFormat c = Lexeme.word c := by
  unfold Lexeme.next
  simp only [hscan, hmark, hquote, ite_self]

/-- **Going across the new line.**  Above the new line the readers find the same token, unless the
reader of the source finds the first token below it. -/
theorem next_early (e : Expect) (width : Nat) (inFormat : Bool) {rest : List Char}
    (hrest : Tokens rest) (h : i.IsEarly rest c c') :
    i.EarlyPair (Lexeme.next e width inFormat c) (Lexeme.next e width inFormat c') ∨
      i.Crossing e width inFormat (Lexeme.next e width inFormat c)
        (Lexeme.next e width inFormat c') := by
  cases Margin.scanned_of_tokens e.layout hrest {} with
  | inside m front back hcs hback hhead hsize hscan hmarked =>
      subst hcs
      exact Or.inl (next_inside e width inFormat hrest h hback hhead (by simpa using hsize) hscan
        hmarked)
  | across m hbreak hwidth hstuck hcomment hscan hmarked =>
      have hsame := mark?_across i e width inFormat hbreak hwidth
      cases hmark : (Margin.scan e.layout false i.below m).mark? e width inFormat with
      | some t =>
          refine Or.inl ?_
          unfold Lexeme.next
          simp only [h.rest, h.rest', hscan, hsame, hmark]
          exact .mark (Lexeme.isLayout_of_mark hmark) hrest h
      | none =>
          have hl : Lexeme.next e width inFormat c = Lexeme.word c := by
            refine next_word rfl ?_ ?_
            · rw [h.rest, hscan, hmark]
            · rw [h.rest, hscan, scan_below, i.noQuote]
          have hl' : Lexeme.next e width inFormat c' = Lexeme.word c' := by
            refine next_word rfl ?_ ?_
            · rw [h.rest', hscan, hsame, hmark]
            · rw [h.rest', hscan]
              cases hlayout : e.layout with
              | true =>
                  obtain ⟨n, hline⟩ := scan_line (i := i) hbreak hwidth
                  rw [hline, i.noQuote]
              | false =>
                  obtain ⟨n, rest, hline⟩ := scan_line_of_not (i := i) hwidth
                  rw [hline, Quote.at?_eq_none (Or.inr (Or.inr rfl))]
          rw [hl, hl']
          rcases hmarked with hmarked | ⟨hall, hnone⟩
          · exact Or.inl (earlyPair_of_isMarked hrest h hmarked)
          · refine Or.inr (crossing_of_blanks h hall ?_)
            have hbegin : Margin.scan e.layout false ('\n' :: i.below) {} =
                Margin.scan e.layout false i.below { lineBreak := true, size := 1 } := by
              simp [Margin.scan]
            rw [hbegin]
            rw [scan_below] at hmark ⊢
            simpa [Margin.mark?, hbreak, hwidth, hstuck, hnone] using hmark

/-- At the start of a text no line has ended, so no layout mark stands in the way. -/
theorem next_start (inFormat : Bool) (h : i.IsEarly [] c c') :
    i.Crossing .statement 0 inFormat (Lexeme.next .statement 0 inFormat c)
      (Lexeme.next .statement 0 inFormat c') := by
  have hnone : ∀ m : Margin, m.mark? .statement 0 inFormat = none := by
    intro m
    simp [Margin.mark?, Expect.statement]
  have hl : Lexeme.next .statement 0 inFormat c = Lexeme.word c := by
    refine next_word rfl (hnone _) ?_
    rw [h.rest, List.nil_append, scan_below, i.noQuote]
  have hl' : Lexeme.next .statement 0 inFormat c' = Lexeme.word c' := by
    have hscan : (Margin.scan true false (i.line ++ i.below) {}).stuck = true := by
      rw [line, List.append_assoc, List.append_assoc, scan_indent, comment]
      simp [Margin.scan]
    unfold Lexeme.next
    simp only [hnone, h.rest', List.nil_append]
    rw [show Expect.statement.layout = true from rfl, hscan]
    rfl
  rw [hl, hl']
  exact crossing_of_blanks h (List.forall_mem_nil _) (hnone _)

end CommentPlace

end Plumbline.Syntax
