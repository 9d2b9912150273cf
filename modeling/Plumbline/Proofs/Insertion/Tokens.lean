/-
Texts of whole tokens.

A text is a sequence of whole tokens if no token of it depends on what follows the text: it ends with
a line end that joins nothing, its words are read where they stand, and its literals are read up to
their closing marks whatever comes behind them.  What is read in such a text is then the same before
any two continuations, up to where the reader leaves the text.
-/
import Plumbline.Proofs.Insertion.Word
import Plumbline.Proofs.Syntax.Line
import Plumbline.Syntax.Grammar

namespace Plumbline.Syntax

/-- Characters that a margin consists of: blanks and line ends. -/
def isMarginal (c : Char) : Bool :=
  c == ' ' || c == '\t' || c == '\n' || c == '\r' || c.toNat == 12

theorem eq_of_isMarginal {c : Char} (h : isMarginal c = true) :
    c = ' ' ∨ c = '\t' ∨ c = '\n' ∨ c = '\r' ∨ c = '\x0c' := by
  simp only [isMarginal, Bool.or_eq_true, beq_iff_eq] at h
  rcases h with (((h | h) | h) | h) | h
  · exact Or.inl h
  · exact Or.inr (Or.inl h)
  · exact Or.inr (Or.inr (Or.inl h))
  · exact Or.inr (Or.inr (Or.inr (Or.inl h)))
  · exact Or.inr (Or.inr (Or.inr (Or.inr (Char.toNat_inj.mp h))))

theorem isBlank_of_isMarginal {c : Char} (h : isMarginal c = true) : isBlank c = true := by
  rcases eq_of_isMarginal h with rfl | rfl | rfl | rfl | rfl <;> rfl

/-- The inside of a literal with its closing marks, read up to its end whatever follows it and
whatever blocks are open around it. -/
def IsBody (q : Quote) (body : List Char) : Prop :=
  ∀ rest pos n s, 8 * (body ++ rest).length ≤ n → (body ++ rest).length ≤ s.size →
    s.inFormat = q.format →
    ∃ trees s', Grammar.stringPieces (Knot.tie n) q (s.size + 1) ⟨body ++ rest, pos⟩ [] s =
      .done (trees, Cursor.advance body.length ⟨body ++ rest, pos⟩) s'

/-- A literal with its opening marks, which are the same whatever follows it. -/
def IsLiteral (w : List Char) : Prop :=
  ∃ q opening body, w = opening ++ body ∧ opening ≠ [] ∧
    (∀ rest, Quote.at? (w ++ rest) = some (q, opening.length)) ∧ IsBody q body

/-- A word stands at the start of `w ++ cs`: it is `w`, and opens no literal. -/
structure IsWordOf (w cs : List Char) : Prop where
  nonempty : w ≠ []
  counts : ∀ c ∈ w.head?, isBlank c = false ∧ c ≠ nul
  read : (Token.read (w ++ cs)).2 = w.length
  noQuote : Quote.at? (w ++ cs) = none

/-- A sequence of whole tokens with a line end behind the last of them. -/
inductive Tokens : List Char → Prop where
  | lineEnd : Tokens ['\n']
  | blank {c : Char} {cs : List Char} (hc : isMarginal c = true) : Tokens cs → Tokens (c :: cs)
  /-- Two stars can also be taken one by one. -/
  | word {w cs : List Char} (h : IsWordOf w cs) (hstar : w = ['*', '*'] → Tokens ('*' :: cs)) :
      Tokens cs → Tokens (w ++ cs)
  | literal {w cs : List Char} (h : IsLiteral w) : Tokens cs → Tokens (w ++ cs)

theorem Tokens.exists_line {cs : List Char} (h : Tokens cs) : ∃ line, cs = line ++ ['\n'] := by
  induction h with
  | lineEnd => exact ⟨[], rfl⟩
  | blank _ _ ih =>
      obtain ⟨line, rfl⟩ := ih
      exact ⟨_ :: line, rfl⟩
  | word _ _ _ _ ih =>
      obtain ⟨line, rfl⟩ := ih
      exact ⟨_ ++ line, (List.append_assoc _ _ _).symm⟩
  | literal _ _ ih =>
      obtain ⟨line, rfl⟩ := ih
      exact ⟨_ ++ line, (List.append_assoc _ _ _).symm⟩

theorem Tokens.ne_nil {cs : List Char} (h : Tokens cs) : cs ≠ [] := by
  obtain ⟨line, rfl⟩ := h.exists_line
  simp

/-! ### What a text of tokens starts with -/

theorem Tokens.head_ne_nul {cs : List Char} (h : Tokens cs) : ∀ c ∈ cs.head?, c ≠ nul := by
  rintro c hc rfl
  cases h with
  | lineEnd => exact absurd hc (by decide)
  | blank hblank _ =>
      cases hc
      exact absurd hblank (by decide)
  | @word w ds h _ _ =>
      obtain ⟨d, w, rfl⟩ := List.exists_cons_of_ne_nil h.nonempty
      exact (h.counts d rfl).2 (Option.some.inj hc)
  | @literal w ds h _ =>
      obtain ⟨q, opening, body, rfl, hne, hat, -⟩ := h
      obtain ⟨d, opening, rfl⟩ := List.exists_cons_of_ne_nil hne
      have hnone := hat []
      obtain rfl : d = nul := Option.some.inj hc
      exact absurd hnone nofun

/-- All characters are blanks and line ends. -/
def AllMarginal (cs : List Char) : Prop := ∀ c ∈ cs, isMarginal c = true

/-- The first character that is neither a blank nor a line end joins lines or starts a comment, or at
least looks so. -/
def IsMarked (cs : List Char) : Prop :=
  ∃ front c rest, cs = front ++ c :: rest ∧ AllMarginal front ∧ (c = '\\' ∨ c = '#')

theorem IsMarked.cons {c : Char} {cs : List Char} (hc : isMarginal c = true) (h : IsMarked cs) :
    IsMarked (c :: cs) := by
  obtain ⟨front, d, rest, rfl, hfront, hd⟩ := h
  exact ⟨c :: front, d, rest, rfl, List.forall_mem_cons.mpr ⟨hc, hfront⟩, hd⟩

/-- A first token of a text: `w`, with the tokens `cs` behind it. -/
inductive IsFirst (w cs : List Char) : Prop where
  | word (h : IsWordOf w cs) (hstar : w = ['*', '*'] → Tokens ('*' :: cs))
  | literal (h : IsLiteral w)

theorem Tokens.exists_first {cs : List Char} (h : Tokens cs) :
    AllMarginal cs ∨ ∃ blanks w ds, cs = blanks ++ (w ++ ds) ∧ AllMarginal blanks ∧
      IsFirst w ds ∧ Tokens ds := by
  induction h with
  | lineEnd => exact Or.inl (by simp [AllMarginal, isMarginal])
  | @blank c cs hc _ ih =>
      rcases ih with hall | ⟨blanks, w, ds, rfl, hblanks, hfirst, hds⟩
      · exact Or.inl (List.forall_mem_cons.mpr ⟨hc, hall⟩)
      · exact Or.inr ⟨c :: blanks, w, ds, rfl, List.forall_mem_cons.mpr ⟨hc, hblanks⟩, hfirst, hds⟩
  | word h hstar hcs _ => exact Or.inr ⟨[], _, _, rfl, nofun, .word h hstar, hcs⟩
  | literal h hcs _ => exact Or.inr ⟨[], _, _, rfl, nofun, .literal h, hcs⟩

/-- A blank, a line end, a backslash or a comment opens no literal. -/
theorem Quote.at?_eq_none {c : Char} (h : isMarginal c = true ∨ c = '\\' ∨ c = '#')
    (cs : List Char) : Quote.at? (c :: cs) = none := by
  rcases h with h | rfl | rfl
  · rcases eq_of_isMarginal h with rfl | rfl | rfl | rfl | rfl <;> rfl
  · rfl
  · rfl

theorem IsLiteral.ne_nil {w : List Char} (h : IsLiteral w) : w ≠ [] := by
  obtain ⟨_, opening, body, rfl, hne, -⟩ := h
  simp [hne]

theorem IsFirst.head {c : Char} {w cs : List Char} (h : IsFirst (c :: w) cs) :
    isMarginal c = false := by
  rw [← Bool.not_eq_true]
  intro hc
  cases h with
  | word h _ => exact absurd (isBlank_of_isMarginal hc) (by simp [(h.counts c rfl).1])
  | literal h =>
      obtain ⟨_, _, _, _, _, hat, -⟩ := h
      have := hat []
      rw [List.cons_append, Quote.at?_eq_none (Or.inl hc)] at this
      exact absurd this nofun

/-- A literal that is the first token of a marked text is not. -/
theorem IsMarked.not_isLiteral {blanks w cs : List Char} (h : IsMarked (blanks ++ (w ++ cs)))
    (hblanks : AllMarginal blanks) (hw : IsLiteral w) : False := by
  obtain ⟨c, w', rfl⟩ := List.exists_cons_of_ne_nil hw.ne_nil
  have hhead : isMarginal c = false := (show IsFirst (c :: _) cs from .literal hw).head
  obtain ⟨front, d, rest, heq, hfront, hd⟩ := h
  have hmark : isMarginal d = false := by rcases hd with rfl | rfl <;> rfl
  have hsame : c = d := by
    have := congrArg (fun cs => (cs.dropWhile isMarginal).head?) heq
    simpa [List.dropWhile_append_of_pos hblanks, List.dropWhile_append_of_pos hfront, hhead, hmark]
      using this
  obtain ⟨_, _, _, _, _, hat, -⟩ := hw
  have := hat []
  rw [List.cons_append, Quote.at?_eq_none (Or.inr (hsame ▸ hd))] at this
  exact absurd this nofun

/-! ### Words of a text of tokens -/

theorem IsWordOf.read_append {w cs : List Char} (h : IsWordOf w cs) (hcs : Tokens cs)
    (rest : List Char) :
    Token.read (w ++ cs ++ rest) = ((Token.read (w ++ cs)).1, w.length) := by
  obtain ⟨line, rfl⟩ := hcs.exists_line
  have hline : w ++ line ≠ [] := by simp [h.nonempty]
  have hread := h.read
  rw [← List.append_assoc] at hread ⊢
  rw [List.append_assoc, List.singleton_append, Token.read_line hline, ← hread]

theorem IsWordOf.at?_append {w cs : List Char} (h : IsWordOf w cs) (hcs : Tokens cs)
    (rest : List Char) : Quote.at? (w ++ cs ++ rest) = none := by
  obtain ⟨line, rfl⟩ := hcs.exists_line
  have hnone := h.noQuote
  rw [← List.append_assoc] at hnone ⊢
  rw [List.append_assoc, List.singleton_append, Quote.at?_line]
  rwa [Quote.at?_line] at hnone

theorem advance_advance (m n : Nat) (c : Cursor) : (c.advance m).advance n = c.advance (m + n) := by
  induction m generalizing c with
  | zero => rw [Nat.zero_add]; rfl
  | succ m ih =>
      rw [Nat.succ_add]
      obtain ⟨_ | ⟨x, xs⟩, p⟩ := c
      · cases n <;> rfl
      · exact ih ⟨xs, p.after x⟩

theorem runLength_blanks {blanks rest : List Char} (hblanks : AllMarginal blanks) :
    Token.runLength isBlank (blanks ++ rest) = blanks.length + Token.runLength isBlank rest := by
  have hall : ∀ c ∈ blanks, isBlank c = true := fun c hc => isBlank_of_isMarginal (hblanks c hc)
  simp [Token.runLength, List.takeWhile_append_of_pos hall]

/-- Over the blanks that a text of tokens starts with one comes to its first word. -/
theorem Lexeme.word_of_tokens {c : Cursor} {blanks w cs rest : List Char}
    (hrest : c.rest = blanks ++ (w ++ cs) ++ rest) (hblanks : AllMarginal blanks)
    (hw : IsWordOf w cs) (hcs : Tokens cs) :
    Lexeme.word c = ⟨(Token.read (w ++ cs)).1, c.advance blanks.length,
      c.advance (blanks.length + w.length)⟩ := by
  have hzero : Token.runLength isBlank (w ++ cs ++ rest) = 0 := by
    obtain ⟨x, w', rfl⟩ := List.exists_cons_of_ne_nil hw.nonempty
    simp [Token.runLength, (hw.counts x rfl).1]
  have hlength : Token.runLength isBlank c.rest = blanks.length := by
    rw [hrest, List.append_assoc, runLength_blanks hblanks, hzero, Nat.add_zero]
  have hfront : (c.advance blanks.length).rest = w ++ cs ++ rest := by
    rw [Cursor.rest_advance, hrest, List.append_assoc, List.drop_left]
  unfold Lexeme.word
  simp only [hlength, hfront, hw.read_append hcs rest, advance_advance]

/-! ### Margins in a text of tokens -/

namespace Margin

/-- Where a margin ends that is read from the start of a text of tokens: inside of the text, or behind
it, where it is only known that a line has ended. -/
inductive Scanned (comments : Bool) (cs : List Char) (m : Margin) : Prop where
  | inside (m₁ : Margin) (front back : List Char) (hcs : cs = front ++ back) (hback : Tokens back)
      (hhead : ∀ c ∈ back.head?, isMarginal c = false) (hsize : m₁.size = m.size + front.length)
      (hscan : ∀ rest, scan comments false (cs ++ rest) m = { m₁ with rest := back ++ rest })
      (hmarked : IsMarked cs ∨ AllMarginal front ∧ m₁.stuck = m.stuck ∧ m₁.comment = m.comment)
  | across (m₁ : Margin) (hbreak : m₁.lineBreak = true) (hwidth : m₁.width = 0)
      (hstuck : m₁.stuck = m.stuck) (hcomment : comments = false → m₁.comment = m.comment)
      (hscan : ∀ rest, scan comments false (cs ++ rest) m = scan comments false rest m₁)
      (hmarked : IsMarked cs ∨ AllMarginal cs ∧ m₁.comment = m.comment)

variable {comments : Bool} {cs : List Char}

/-- A blank in front is passed over. -/
theorem Scanned.blank {c : Char} {m k : Margin} (hc : isMarginal c = true)
    (hstep : ∀ rest, scan comments false (c :: rest) m = scan comments false rest k)
    (hsize : k.size = m.size + 1) (hstuck : k.stuck = m.stuck) (hcomment : k.comment = m.comment)
    (h : Scanned comments cs k) : Scanned comments (c :: cs) m := by
  cases h with
  | inside m₁ front back hcs hback hhead hsize₁ hscan hmarked =>
      refine .inside m₁ (c :: front) back (by rw [hcs]; rfl) hback hhead ?_ (fun rest => ?_) ?_
      · rw [hsize₁, hsize, List.length_cons]
        omega
      · rw [List.cons_append, hstep, hscan]
      · exact hmarked.imp (.cons hc) fun ⟨hfront, hstuck₁, hcomment₁⟩ =>
          ⟨List.forall_mem_cons.mpr ⟨hc, hfront⟩, hstuck₁.trans hstuck, hcomment₁.trans hcomment⟩
  | across m₁ hbreak hwidth hstuck₁ hcomment₁ hscan hmarked =>
      refine .across m₁ hbreak hwidth (hstuck₁.trans hstuck)
        (fun hcomments => (hcomment₁ hcomments).trans hcomment) (fun rest => ?_) ?_
      · rw [List.cons_append, hstep, hscan]
      · exact hmarked.imp (.cons hc) fun ⟨hcs, hcomment₁⟩ =>
          ⟨List.forall_mem_cons.mpr ⟨hc, hcs⟩, hcomment₁.trans hcomment⟩

/-- A joined line or a comment in front is passed over. -/
theorem Scanned.mark {w : List Char} {m k : Margin} (hmarked : IsMarked (w ++ cs))
    (hstep : ∀ rest, scan comments false (w ++ cs ++ rest) m = scan comments false (cs ++ rest) k)
    (hsize : k.size = m.size + w.length) (hstuck : k.stuck = m.stuck)
    (hcomment : comments = false → k.comment = m.comment)
    (h : Scanned comments cs k) : Scanned comments (w ++ cs) m := by
  cases h with
  | inside m₁ front back hcs hback hhead hsize₁ hscan _ =>
      refine .inside m₁ (w ++ front) back (by rw [hcs, List.append_assoc]) hback hhead ?_
        (fun rest => ?_) (Or.inl hmarked)
      · rw [hsize₁, hsize, List.length_append]
        omega
      · rw [hstep, hscan]
  | across m₁ hbreak hwidth hstuck₁ hcomment₁ hscan _ =>
      exact .across m₁ hbreak hwidth (hstuck₁.trans hstuck)
        (fun hcomments => (hcomment₁ hcomments).trans (hcomment hcomments))
        (fun rest => by rw [hstep, hscan]) (Or.inl hmarked)

/-- A margin that ends before the first character. -/
theorem Scanned.here {k m : Margin} (hcs : Tokens cs) (hhead : ∀ c ∈ cs.head?, isMarginal c = false)
    (hsize : k.size = m.size)
    (hscan : ∀ rest, scan comments false (cs ++ rest) m = { k with rest := cs ++ rest })
    (hmarked : IsMarked cs ∨ k.stuck = m.stuck ∧ k.comment = m.comment) :
    Scanned comments cs m :=
  .inside k [] cs rfl hcs hhead hsize hscan (hmarked.imp_right fun h => ⟨nofun, h⟩)

theorem scan_stop {c : Char} {m : Margin} (hc : isMarginal c = false) (hjoin : c ≠ '\\')
    (hcomment : c = '#' → comments = false) (rest : List Char) :
    scan comments false (c :: rest) m = { m with rest := c :: rest } := by
  simp only [isMarginal, Bool.or_eq_false_iff, beq_eq_false_iff_ne] at hc
  obtain ⟨⟨⟨⟨hspace, htab⟩, hline⟩, hreturn⟩, hfeed⟩ := hc
  have hno : ¬ (c = '#' ∧ comments = true) := by
    rintro ⟨hhash, hcomments⟩
    rw [hcomment hhash] at hcomments
    exact Bool.noConfusion hcomments
  simp [scan, hjoin, hspace, htab, hline, hreturn, hfeed, hno]

theorem scan_stuck {d e : Char} (hd : d ≠ '\n') (hjoin : ¬ (d = '\r' ∧ e = '\n'))
    (rest : List Char) (m : Margin) : scan comments false ('\\' :: d :: e :: rest) m =
      { m with stuck := true, rest := '\\' :: d :: e :: rest } := by
  by_cases hreturn : d = '\r'
  · subst hreturn
    have he : e ≠ '\n' := fun he => hjoin ⟨rfl, he⟩
    simp [scan, he]
  · simp [scan, hd, hreturn]

theorem scan_comment {body : List Char} (hbody : ∀ c ∈ body, c ≠ '\n' ∧ c ≠ nul) (rest : List Char)
    (m : Margin) : scan comments true (body ++ rest) m =
      scan comments true rest { m with size := m.size + body.length } := by
  induction body generalizing m with
  | nil => rfl
  | cons c cs ih =>
      obtain ⟨⟨hline, hnul⟩, hcs⟩ := List.forall_mem_cons.mp hbody
      rw [List.cons_append, scan, if_neg (by simp [hline, hnul]), ih hcs]
      simp [Nat.add_assoc, Nat.add_comm 1]

/-- A comment that is the first word of a text of tokens goes up to a line end. -/
theorem comment_of_tokens {w : List Char} (hw : IsWordOf ('#' :: w) cs) (hcs : Tokens cs) :
    (∀ c ∈ w, c ≠ '\n' ∧ c ≠ nul) ∧ ∃ ds, cs = '\n' :: ds := by
  let p : Char → Bool := fun c => c != '\n' && c != nul
  have hlength : ((w ++ cs).takeWhile p).length = w.length := Nat.succ.inj hw.read
  have hbody : (w ++ cs).takeWhile p = w :=
    (List.prefix_of_prefix_length_le (List.takeWhile_prefix p) (List.prefix_append w cs)
      (Nat.le_of_eq hlength)).eq_of_length hlength
  have hall : ∀ c ∈ w, p c = true := fun c hc => by
    rw [← hbody] at hc
    exact List.all_eq_true.mp List.all_takeWhile c hc
  obtain ⟨d, ds, rfl⟩ := List.exists_cons_of_ne_nil hcs.ne_nil
  have hend : p d = false := by
    rw [List.takeWhile_append_of_pos hall] at hbody
    have hnil : (d :: ds).takeWhile p = [] := List.append_right_eq_self.mp hbody
    by_contra hd
    simp [List.takeWhile_cons, hd] at hnil
  refine ⟨fun c hc => by simpa [p] using hall c hc, ds, ?_⟩
  have hnul : d ≠ nul := hcs.head_ne_nul d rfl
  have : d = '\n' := by simpa [p, hnul] using hend
  rw [this]

/-- A backslash that is the first word of a text of tokens joins two lines of it, or no lines. -/
theorem backslash_of_tokens {w : List Char} (hw : IsWordOf ('\\' :: w) cs) (hcs : Tokens cs)
    (m : Margin) :
    (∀ rest, scan comments false ('\\' :: w ++ cs ++ rest) m =
      scan comments false (cs ++ rest) { m with size := m.size + (w.length + 1) }) ∨
    (∀ rest, scan comments false ('\\' :: w ++ cs ++ rest) m =
      { m with stuck := true, rest := '\\' :: w ++ cs ++ rest }) := by
  have hread := hw.read
  have hlast : ∃ line, w ++ cs = line ++ ['\n'] := by
    obtain ⟨line, rfl⟩ := hcs.exists_line
    exact ⟨w ++ line, (List.append_assoc _ _ _).symm⟩
  rw [List.cons_append] at hread ⊢
  have hcut : ∀ n, w.length = n → w = (w ++ cs).take n ∧ cs = (w ++ cs).drop n := by
    rintro n rfl
    simp
  generalize hmore : w ++ cs = more at hread hlast hcut ⊢
  cases more with
  | nil => simp at hlast
  | cons d r =>
      by_cases hd : d = '\n'
      · subst hd
        have hw : w.length = 1 := (Nat.succ.inj hread).symm
        obtain ⟨-, rfl⟩ := hcut 1 hw
        exact Or.inl fun rest => by simp [scan, hw]
      · cases r with
        | nil =>
            obtain ⟨line, hline⟩ := hlast
            cases line with
            | nil => exact absurd (List.cons.inj hline).1 hd
            | cons x xs => simp at hline
        | cons e r =>
            by_cases hjoin : d = '\r' ∧ e = '\n'
            · obtain ⟨rfl, rfl⟩ := hjoin
              have hw : w.length = 2 := (Nat.succ.inj hread).symm
              obtain ⟨-, rfl⟩ := hcut 2 hw
              exact Or.inl fun rest => by simp [scan, hw]
            · exact Or.inr fun rest => scan_stuck hd hjoin (r ++ rest) m

theorem scanned_of_tokens (comments : Bool) (hcs : Tokens cs) (m : Margin) : Scanned comments cs m := by
  induction hcs generalizing m with
  | lineEnd =>
      refine .across { m with lineBreak := true, width := 0, size := m.size + 1 } rfl rfl rfl
        (fun _ => rfl) (fun rest => ?_) (Or.inr ⟨?_, rfl⟩)
      · simp [scan]
      · simp [AllMarginal, isMarginal]
  | @blank c cs hc _ ih =>
      rcases eq_of_isMarginal hc with rfl | rfl | rfl | rfl | rfl
      · exact .blank (k := { m with width := m.width + 1, size := m.size + 1 }) hc
          (fun rest => by simp [scan]) rfl rfl rfl (ih _)
      · exact .blank (k := { m with width := m.width + 8, size := m.size + 1 }) hc
          (fun rest => by simp [scan]) rfl rfl rfl (ih _)
      · exact .blank (k := { m with lineBreak := true, width := 0, size := m.size + 1 }) hc
          (fun rest => by simp [scan]) rfl rfl rfl (ih _)
      · exact .blank (k := { m with width := 0, size := m.size + 1 }) hc
          (fun rest => by simp [scan]) rfl rfl rfl (ih _)
      · exact .blank (k := { m with width := 0, size := m.size + 1 }) hc
          (fun rest => by simp [scan]) rfl rfl rfl (ih _)
  | @word w cs hw hstar hcs _ ih =>
      have htokens : Tokens (w ++ cs) := .word hw hstar hcs
      obtain ⟨c, w, rfl⟩ := List.exists_cons_of_ne_nil hw.nonempty
      have hhead : ∀ d ∈ (c :: w ++ cs).head?, isMarginal d = false := by
        intro d hd
        obtain rfl : c = d := Option.some.inj hd
        exact (IsFirst.word hw hstar).head
      by_cases hjoin : c = '\\'
      · subst hjoin
        have hmarked : IsMarked ('\\' :: w ++ cs) := ⟨[], _, _, rfl, List.forall_mem_nil _, Or.inl rfl⟩
        rcases backslash_of_tokens hw hcs m with hscan | hscan
        · exact .mark hmarked hscan rfl rfl (fun _ => rfl) (ih _)
        · exact .here (k := { m with stuck := true }) htokens hhead rfl hscan (Or.inl hmarked)
      · by_cases hcomment : c = '#' ∧ comments = true
        · obtain ⟨rfl, rfl⟩ := hcomment
          have hmarked : IsMarked ('#' :: w ++ cs) := ⟨[], _, _, rfl, List.forall_mem_nil _, Or.inr rfl⟩
          cases hbreak : m.lineBreak with
          | false =>
              refine .here (k := { m with stuck := true }) htokens hhead rfl (fun rest => ?_)
                (Or.inl hmarked)
              simp [scan, hbreak]
          | true =>
              obtain ⟨hbody, ds, rfl⟩ := comment_of_tokens hw hcs
              refine .mark (k := { m with
                comment := some (m.comment.getD m.width), size := m.size + (w.length + 1) })
                hmarked (fun rest => ?_) rfl rfl (fun h => absurd h.symm Bool.false_ne_true) (ih _)
              have hopen : scan true false ('#' :: w ++ '\n' :: ds ++ rest) m =
                  scan true true (w ++ '\n' :: (ds ++ rest))
                    { m with comment := some (m.comment.getD m.width), size := m.size + 1 } := by
                simp [scan, hbreak]
              rw [hopen, scan_comment hbody]
              simp [scan, hbreak, Nat.add_assoc, Nat.add_comm 1]
        · refine .here (k := m) htokens hhead rfl (fun rest => ?_) (Or.inr ⟨rfl, rfl⟩)
          refine scan_stop (hhead c rfl) hjoin (fun hhash => ?_) _
          simpa [hhash] using hcomment
  | @literal w cs hw hcs ih =>
      obtain ⟨c, w, rfl⟩ := List.exists_cons_of_ne_nil hw.ne_nil
      have hhead : isMarginal c = false := (show IsFirst (c :: _) cs from .literal hw).head
      have hmark : ¬ IsMarked ([] ++ (c :: w ++ cs)) := fun h => h.not_isLiteral (List.forall_mem_nil _) hw
      refine .here (k := m) (.literal hw hcs) (fun d hd => Option.some.inj hd ▸ hhead) rfl
        (fun rest => scan_stop hhead ?_ ?_ _) (Or.inr ⟨rfl, rfl⟩)
      · rintro rfl
        exact hmark ⟨[], _, _, rfl, List.forall_mem_nil _, Or.inl rfl⟩
      · rintro rfl
        exact absurd ⟨[], _, _, rfl, List.forall_mem_nil _, Or.inr rfl⟩ hmark

end Margin

end Plumbline.Syntax
