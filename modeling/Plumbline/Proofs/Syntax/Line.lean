/-
Where lines end.

A token that is no layout mark starts with a character that counts, so a line end that was reported
as a token is passed over before the next such token (`BreaksLine.between`).  A comment takes the rest
of its line, unless a NUL ends it, which no statement gets past.  And what stands at the start of a
line and counts is not passed over, because a comment does not go on from one line to the next
(`Skips.le_of_lineStart`).
-/
import Plumbline.Proofs.Syntax.Gap

namespace Plumbline.Syntax

/-! ### Characters that count -/

/-- The character is no part of a gap, unless it stands in a comment. -/
structure Counts (c : Char) : Prop where
  notBlank : isBlank c = false
  notNul : c ≠ nul
  notHash : c ≠ '#'
  notBackslash : c ≠ '\\'

/-- The text starts with a character that counts. -/
def StartsWord (cs : List Char) : Prop := ∃ c rest, cs = c :: rest ∧ Counts c

/-- A text that is read as one name.  (No character that a name starts with is passed over, though
the lists of characters are not compared here.) -/
structure IsName (w : List Char) : Prop where
  starts : ∃ c rest, w = c :: rest ∧ isIdentifierStart c = true ∧ Counts c
  parts : ∀ c ∈ w, isIdentifierPart c = true

/-- A text that no name goes on into. -/
def EndsName (cs : List Char) : Prop := ∀ c, cs.head? = some c →
  isIdentifierPart c = false ∧ c.toNat ≠ 96 ∧ c ≠ '"' ∧ c ≠ '\''

/-- Only a comment that has not ended can go over a character that counts. -/
theorem Skips.exists_comment {a b u v : List Char} {c : Char} (h : Skips a b) (hc : Counts c)
    (ha : a = u ++ c :: v) (hb : b.length ≤ v.length) :
    ∃ u₁ u₂, u = u₁ ++ '#' :: u₂ ∧ '\n' ∉ u₂ := by
  -- a first character that is passed over stands in front of `c`
  have hfirst : ∀ {x : Char} {cs : List Char} {u : List Char}, x ≠ c → x :: cs = u ++ c :: v →
      ∃ u', u = x :: u' ∧ cs = u' ++ c :: v := by
    intro x cs u hne heq
    cases u with
    | nil => exact absurd (List.cons.inj heq).1 hne
    | cons y u' =>
        obtain ⟨rfl, hrest⟩ := List.cons.inj heq
        exact ⟨u', rfl, hrest⟩
  induction h generalizing u with
  | done cs =>
      subst ha
      simp at hb
      omega
  | blank hskip _ ih =>
      obtain ⟨u', rfl, hcs⟩ := hfirst (by
        rintro rfl
        rcases hskip with hblank | hnul
        · rw [hc.notBlank] at hblank
          exact Bool.noConfusion hblank
        · exact hc.notNul hnul) ha
      obtain ⟨u₁, u₂, rfl, hline⟩ := ih hcs hb
      exact ⟨_ :: u₁, u₂, rfl, hline⟩
  | @comment body cs _ hinside _ _ ih =>
      obtain ⟨u', rfl, hcs⟩ := hfirst (Ne.symm hc.notHash) ha
      rcases List.append_eq_append_iff.mp hcs with ⟨w, rfl, hrest⟩ | ⟨w, hbody, -⟩
      · obtain ⟨u₁, u₂, rfl, hline⟩ := ih hrest hb
        exact ⟨'#' :: (body ++ u₁), u₂, by simp, hline⟩
      · refine ⟨[], u', rfl, fun hmem => ?_⟩
        exact (hinside '\n' (by rw [hbody]; simp [hmem])).1 rfl
  | joined _ _ ih =>
      obtain ⟨u', rfl, hcs⟩ := hfirst (Ne.symm hc.notBackslash) ha
      obtain ⟨u₁, u₂, rfl, hline⟩ := ih hcs hb
      exact ⟨'\\' :: u₁, u₂, rfl, hline⟩

/-- The line that starts at byte `n` of the text starts with a character that counts. -/
structure LineStart (text : List Char) (n : Nat) (word : List Char) : Prop where
  at_ : ∃ before, text = before ++ word ∧ byteSize before = n ∧
    (before = [] ∨ before.getLast? = some '\n')
  counts : StartsWord word

theorem LineStart.cursor {text word : List Char} {n : Nat} (h : LineStart text n word) :
    Cursor.IsIn text ⟨word, { byte := n }⟩ := by
  obtain ⟨before, htext, hsize, -⟩ := h.at_
  exact ⟨before, htext, hsize.symm⟩

/-- **Nothing is passed over at the start of a line but what does not count.** -/
theorem Skips.le_of_lineStart {text word : List Char} {n : Nat} {c c' : Cursor}
    (h : Skips c.rest c'.rest) (hc : c.IsIn text) (hc' : c'.IsIn text)
    (hword : LineStart text n word) (hle : c.pos.byte ≤ n) : c'.pos.byte ≤ n := by
  by_contra hlt
  obtain ⟨before, htext, hsize, hline⟩ := hword.at_
  obtain ⟨x, rest, rfl, hx⟩ := hword.counts
  obtain ⟨front, u, htext', hrest, hfront, hn⟩ := hc.exists_between hword.cursor hle
  obtain ⟨-, between, -, hpassed, -, hbyte⟩ :=
    hword.cursor.exists_between hc' (Nat.le_of_lt (Nat.lt_of_not_le hlt))
  have hbetween : between ≠ [] := by
    rintro rfl
    have := hword.cursor.byte_eq hc' hpassed
    simp [byteSize] at this
    omega
  have hlength : c'.rest.length ≤ rest.length := by
    obtain ⟨y, ys, rfl⟩ := List.exists_cons_of_ne_nil hbetween
    have hlengths := congrArg List.length hpassed
    simp at hlengths
    omega
  obtain ⟨u₁, u₂, rfl, hu₂⟩ := h.exists_comment hx hrest hlength
  -- the comment starts on the line before, which has ended
  obtain rfl : before = front ++ (u₁ ++ '#' :: u₂) :=
    List.append_cancel_right (htext.symm.trans htext')
  rcases hline with hnil | hlast
  · simp at hnil
  · rcases List.eq_nil_or_concat u₂ with rfl | ⟨u₂, y, rfl⟩
    · simp at hlast
    · have hy : y = '\n' := by simpa [List.getLast?_cons] using hlast
      exact hu₂ (by simp [hy])

/-! ### Tokens that count -/

namespace Token

/-- Tokens that stand for something written. -/
def isWritten : Token → Bool
  | newline | indent _ | dedent | endOfText | comment | joined | unknown => false
  | _ => true

/-- Tokens that stand for a layout mark. -/
def isLayout : Token → Bool
  | newline | indent _ | dedent => true
  | _ => false

theorem isWritten_of_isLayout {t : Token} (h : t.isLayout = true) : t.isWritten = false := by
  cases t <;> first | rfl | exact absurd h Bool.false_ne_true

theorem isLayout_read (cs : List Char) : (read cs).1.isLayout = false := by
  unfold read
  split
  · rfl
  · repeat' split
    all_goals rfl

theorem digitGroups_of_not_isDigit {c : Char} {cs : List Char} (h : c.isDigit = false) :
    digitGroups (c :: cs) = 0 := by
  unfold digitGroups
  split
  · rfl
  · rename_i heq
    obtain ⟨rfl, -⟩ := List.cons.inj heq
    simp [h]
  · rename_i heq
    obtain ⟨rfl, -⟩ := List.cons.inj heq
    simp [h]

/-- A character that can start none of the words is read by itself. -/
theorem read_unknown {c : Char} {cs : List Char} (hstart : isIdentifierStart c = false)
    (hc : c ≠ '#' ∧ c ≠ '!') (hdigit : c.isDigit = false)
    (hop : ∀ op ∈ operators, op.toList.head? ≠ some c) (hjoin : joinLength (c :: cs) = 0) :
    read (c :: cs) = (unknown, 1) := by
  have hpoint : c ≠ '.' := fun h => hop "." (by decide) (by rw [h]; rfl)
  have hzero : c ≠ '0' := by
    rintro rfl
    exact absurd hdigit (by decide)
  have hdigits : digitGroups (c :: cs) = 0 := digitGroups_of_not_isDigit hdigit
  have hfloat : floatLength (c :: cs) = 0 := by
    unfold floatLength
    rw [hdigits]
    simp [hpoint]
  have hinteger : integerLength (c :: cs) = 0 := by
    unfold integerLength basedLength
    rw [hdigits]
    split
    · rename_i heq
      exact absurd (List.cons.inj heq).1 hzero
    · rfl
  have hoperator : operator? (c :: cs) = none := by
    refine List.find?_eq_none.mpr fun op hmem => ?_
    have hne : op.toList ≠ [] := by
      have hall : ∀ op ∈ operators, op.toList ≠ [] := by decide +kernel
      exact hall op hmem
    obtain ⟨x, xs, hcons⟩ := List.exists_cons_of_ne_nil hne
    have hx : x ≠ c := fun h => hop op hmem (by rw [hcons, h]; rfl)
    simp [hcons, hx]
  have hconversion : conversionLength (c :: cs) = 0 := by
    unfold conversionLength
    split
    · rename_i heq
      exact absurd (List.cons.inj heq).1 hc.2
    · rfl
  unfold read
  simp [hstart, hc.1, hjoin, hfloat, hinteger, hoperator, hconversion]

theorem read_nul (cs : List Char) : read (nul :: cs) = (unknown, 1) := by
  refine read_unknown (by decide +kernel) (by decide) (by decide) (by decide +kernel) ?_
  unfold joinLength
  split
  all_goals first | rfl | exact absurd ‹_› (by simp [nul])

/-- What is read as something written starts with a character that counts. -/
theorem startsWord_of_read {cs : List Char} (hblank : ∀ c ∈ cs.head?, isBlank c = false)
    (h : (read cs).1.isWritten = true) : StartsWord cs := by
  cases cs with
  | nil => exact absurd h (by decide)
  | cons c cs =>
      refine ⟨c, cs, rfl, hblank c rfl, ?_, ?_, ?_⟩
      · rintro rfl
        rw [read_nul] at h
        exact absurd h (by decide)
      · rintro rfl
        have hcomment : (read ('#' :: cs)).1 = comment := by
          have hstart : isIdentifierStart '#' = false := by decide +kernel
          simp [read, hstart]
        rw [hcomment] at h
        exact absurd h (by decide)
      · rintro rfl
        have hread : read ('\\' :: cs) = (joined, joinLength ('\\' :: cs)) ∨
            read ('\\' :: cs) = (unknown, 1) := by
          rcases Nat.eq_zero_or_pos (joinLength ('\\' :: cs)) with hzero | hpos
          · exact Or.inr (read_unknown (by decide +kernel) (by decide) (by decide)
              (by decide +kernel) hzero)
          · have hstart : isIdentifierStart '\\' = false := by decide +kernel
            exact Or.inl (by simp [read, hstart, hpos])
        rcases hread with hread | hread
        · simp [hread, isWritten] at h
        · simp [hread, isWritten] at h

end Token

/-- The opening of a string starts with a character that counts. -/
theorem Quote.startsWord_of_read? {q : Quote} {cs : List Char} {r : Quote × Nat}
    (h : q.read? cs = some r) : StartsWord cs := by
  have hmark : ∀ c : Char, c.toNat = 96 ∨ c = '"' ∨ c = '\'' → Counts c := by
    rintro c (hc | rfl | rfl)
    · obtain rfl : c = '`' := Char.ext (UInt32.toNat_inj.mp hc)
      exact ⟨by decide, by decide, by decide, by decide⟩
    · exact ⟨by decide, by decide, by decide, by decide⟩
    · exact ⟨by decide, by decide, by decide, by decide⟩
  cases cs with
  | nil => exact absurd h (by simp [Quote.read?])
  | cons c cs =>
      refine ⟨c, cs, rfl, ?_⟩
      by_cases hletter : c ∈ ['f', 'F', 't', 'T', 'r', 'R', 'b', 'B', 'u', 'U']
      · have hall : ∀ c ∈ ['f', 'F', 't', 'T', 'r', 'R', 'b', 'B', 'u', 'U'],
            isBlank c = false ∧ c ≠ nul ∧ c ≠ '#' ∧ c ≠ '\\' :=
          List.all_iff_forall_prop.mp (by decide)
        obtain ⟨hblank, hnul, hhash, hbackslash⟩ := hall c hletter
        exact ⟨hblank, hnul, hhash, hbackslash⟩
      · simp only [List.mem_cons, List.not_mem_nil, not_or, or_false] at hletter
        simp only [Quote.read?, hletter, or_self, if_false, Quote.open?] at h
        refine hmark c ?_
        split at h
        · exact Or.inl ‹_›
        · split at h
          · exact Or.inr ‹_›
          · exact absurd h (by simp)

/-- A colon starts no number. -/
theorem Token.length_colon (after : List Char) :
    integerLength (':' :: after) = 0 ∧ floatLength (':' :: after) = 0 := by
  have hdigits : digitGroups (':' :: after) = 0 := digitGroups_of_not_isDigit (by decide)
  refine ⟨?_, ?_⟩
  · unfold integerLength
    rw [hdigits]
    rfl
  · unfold floatLength
    rw [hdigits]
    rfl

/-- An operator that starts with a colon is read as the operator it is. -/
theorem Token.read_of_colon {after : List Char} {text : String}
    (h : operator? (':' :: after) = some text) : read (':' :: after) = (.op text, text.length) := by
  have hstart : isIdentifierStart ':' = false := by decide +kernel
  obtain ⟨hinteger, hfloat⟩ := length_colon after
  simp [read, h, hstart, hinteger, hfloat, joinLength]

/-- A colon is read by itself, unless an assignment goes on with it. -/
theorem Token.read_colon {after : List Char} (h : after.head? ≠ some '=') :
    read (':' :: after) = (.op ":", 1) := by
  have hop : operator? (':' :: after) = some ":" := by
    refine List.find?_eq_some_iff_append.mpr ⟨rfl, operators.takeWhile (· != ":"),
      (operators.dropWhile (· != ":")).tail, by decide +kernel, fun op hmem => ?_⟩
    have hfirst : ∀ op ∈ operators.takeWhile (· != ":"),
        op = ":=" ∨ (op.toList.head? ≠ some ':' ∧ op.toList ≠ []) := by decide +kernel
    rcases hfirst op hmem with rfl | ⟨hhead, hne⟩
    · cases after with
      | nil => rfl
      | cons d after =>
          have hd : ('=' == d) = false := beq_eq_false_iff_ne.mpr fun heq => h (by rw [← heq]; rfl)
          show (!(':' == ':' && ('=' == d && true))) = true
          rw [hd]
          rfl
    · obtain ⟨c, cs, hcons⟩ := List.exists_cons_of_ne_nil hne
      have hc : c ≠ ':' := fun heq => hhead (by rw [hcons, heq]; rfl)
      simp [hcons, List.isPrefixOf, hc]
  exact read_of_colon hop

theorem Token.read_assign (after : List Char) : read (':' :: '=' :: after) = (.op ":=", 2) :=
  read_of_colon rfl

/-- A margin ends at a character that counts. -/
theorem Margin.scan_of_counts {comments inside : Bool} {text cs : List Char} {c : Char} {m : Margin}
    (hc : Counts c) (hinside : inside = false) (htext : text = c :: cs) :
    Margin.scan comments inside text m = { m with rest := c :: cs } := by
  have hblank : ∀ {d : Char}, isBlank d = true → c ≠ d := by
    rintro d hd rfl
    rw [hc.notBlank] at hd
    exact Bool.noConfusion hd
  have hfeed : ∀ {d : Char}, d.toNat = 12 → isBlank d = true := by
    intro d hd
    simp [isBlank, hd]
  fun_cases Margin.scan comments inside text m with
  | case1 => exact absurd htext (by simp)
  | case2 => exact Bool.noConfusion hinside
  | case3 => exact Bool.noConfusion hinside
  | case4 | case5 | case6 | case7 | case8 =>
      exact absurd (List.cons.inj htext).1.symm hc.notBackslash
  | case9 => exact absurd (List.cons.inj htext).1.symm (hblank (by decide))
  | case10 => exact absurd (List.cons.inj htext).1.symm (hblank (by decide))
  | case11 => exact absurd (List.cons.inj htext).1.symm (hblank (by decide))
  | case12 _ _ _ _ _ _ _ _ _ _ _ hd =>
      refine absurd (List.cons.inj htext).1.symm (hblank ?_)
      rcases hd with rfl | hd
      · decide
      · exact hfeed hd
  | case13 _ _ _ _ _ _ _ _ _ _ _ _ hd | case14 _ _ _ _ _ _ _ _ _ _ _ _ hd =>
      exact absurd ((List.cons.inj htext).1.symm.trans hd.1) hc.notHash
  | case15 => rw [htext]

namespace Lexeme

/-- The three ways in which the next token is found at a cursor. -/
inductive IsNext (e : Expect) (width : Nat) (inFormat : Bool) (c : Cursor) : Lexeme → Prop where
  | mark {t : Token} (h : (Margin.scan e.layout false c.rest {}).mark? e width inFormat = some t) :
      IsNext e width inFormat c ⟨t, c, c⟩
  | quote {q : Quote} {size : Nat}
      (h : Quote.at? (Margin.scan e.layout false c.rest {}).rest = some (q, size))
      (hstart : (c.advance (Margin.scan e.layout false c.rest {}).size).rest =
        (Margin.scan e.layout false c.rest {}).rest) :
      IsNext e width inFormat c ⟨.quote q, c.advance (Margin.scan e.layout false c.rest {}).size,
        (c.advance (Margin.scan e.layout false c.rest {}).size).advance size⟩
  | word : IsNext e width inFormat c (word c)

theorem isNext_next (e : Expect) (width : Nat) (inFormat : Bool) (c : Cursor) :
    IsNext e width inFormat c (next e width inFormat c) := by
  unfold next
  dsimp only
  split
  · rename_i t ht
    exact .mark ht
  · split
    · exact .word
    · split
      · rename_i q size hquote
        refine .quote hquote ?_
        have hrest : (Margin.scan e.layout false c.rest {}).rest ≠ [] := by
          intro hnil
          rw [hnil] at hquote
          exact absurd hquote (by simp [Quote.at?, Quote.read?])
        obtain ⟨passed, hcs, hsize⟩ := (scan_passes e.layout false c.rest {} hrest).size
        rw [Cursor.rest_advance, hsize]
        generalize (Margin.scan e.layout false c.rest {}).rest = rest at hcs
        rw [hcs]
        simp
      · exact .word

/-- A word starts behind all blanks. -/
theorem rest_front_word (c : Cursor) : (word c).front.rest = c.rest.dropWhile isBlank := by
  show (c.advance (Token.runLength isBlank c.rest)).rest = _
  rw [Cursor.rest_advance, Token.runLength, Skips.drop_runLength]

theorem isLayout_of_mark {e : Expect} {width : Nat} {inFormat : Bool} {m : Margin} {t : Token}
    (h : m.mark? e width inFormat = some t) : t.isLayout = true := by
  unfold Margin.mark? at h
  dsimp only at h
  split at h
  · exact absurd h (by simp)
  · split at h
    · cases h
      rfl
    · repeat' split at h
      all_goals first | (cases h; rfl) | exact absurd h (by simp)

variable {e : Expect} {width : Nat} {inFormat : Bool} {c : Cursor}

/-- **What is written starts with a character that counts.** -/
theorem startsWord_of_isWritten (h : (next e width inFormat c).token.isWritten = true) :
    StartsWord (next e width inFormat c).front.rest := by
  have hnext := isNext_next e width inFormat c
  generalize next e width inFormat c = l at h hnext
  cases hnext with
  | mark hmark =>
      exact absurd h (by simp [Token.isWritten_of_isLayout (isLayout_of_mark hmark)])
  | quote hquote hstart =>
      rw [hstart]
      exact Quote.startsWord_of_read? hquote
  | word =>
      rw [rest_front_word]
      refine Token.startsWord_of_read (fun x hx => ?_) ?_
      · have := List.head?_dropWhile_not isBlank c.rest
        rw [Option.mem_def.mp hx] at this
        simpa using this
      · rw [← rest_front_word]
        exact h

/-- A NUL is no token. -/
theorem token_of_nul (h : c.rest.head? = some nul) :
    (next e width inFormat c).token = .unknown := by
  obtain ⟨more, hrest⟩ := List.head?_eq_some_iff.mp h
  have hscan : Margin.scan e.layout false c.rest {} = { rest := nul :: more } := by
    rw [hrest]
    simp [Margin.scan, nul]
  have hnext := isNext_next e width inFormat c
  generalize next e width inFormat c = l at hnext
  cases hnext with
  | mark hmark =>
      rw [hscan] at hmark
      simp [Margin.mark?] at hmark
  | quote hquote _ =>
      rw [hscan] at hquote
      obtain ⟨x, xs, heq, hx⟩ := Quote.startsWord_of_read? hquote
      exact absurd (List.cons.inj heq).1.symm hx.notNul
  | word =>
      have hfront : (word c).front.rest = nul :: more := by
        rw [rest_front_word, hrest]
        exact List.dropWhile_cons_of_neg (by decide)
      show (Token.read (word c).front.rest).1 = .unknown
      rw [hfront, Token.read_nul]

/-- **What is written ahead is read as the token that it is**, unless it opens a string. -/
theorem token_of_counts {x : Char} {xs : List Char} (hx : Counts x)
    (hquote : Quote.at? (x :: xs) = none) (hfront : (next e width inFormat c).front.rest = x :: xs) :
    (next e width inFormat c).token = (Token.read (x :: xs)).1 ∧
      (next e width inFormat c).stop.rest = (x :: xs).drop (Token.read (x :: xs)).2 := by
  have hnext := isNext_next e width inFormat c
  generalize next e width inFormat c = l at hfront hnext
  cases hnext with
  | mark hmark =>
      dsimp only at hfront
      rw [Margin.scan_of_counts hx rfl hfront] at hmark
      exact absurd hmark (by simp [Margin.mark?])
  | quote hopens hrest =>
      dsimp only at hfront
      rw [← hrest, hfront, hquote] at hopens
      exact absurd hopens (by simp)
  | word =>
      have hword : (c.advance (Token.runLength isBlank c.rest)).rest = x :: xs := hfront
      constructor
      · show (Token.read (c.advance (Token.runLength isBlank c.rest)).rest).1 = _
        rw [hword]
      · show (Cursor.advance (Token.read (c.advance (Token.runLength isBlank c.rest)).rest).2
          (c.advance (Token.runLength isBlank c.rest))).rest = _
        rw [Cursor.rest_advance, hword]

end Lexeme

/-! ### Line ends -/

/-- A line ends here, behind blanks and joined lines. -/
def BreaksLine (cs : List Char) : Prop :=
  ∃ idle rest, cs = idle ++ rest ∧ (∀ c ∈ idle, isBlank c = true ∨ c = '\\') ∧
    (rest = [] ∨ rest.head? = some '\n')

theorem BreaksLine.append (idle : List Char) {cs : List Char}
    (hidle : ∀ c ∈ idle, isBlank c = true ∨ c = '\\') (h : BreaksLine cs) :
    BreaksLine (idle ++ cs) := by
  obtain ⟨more, rest, rfl, hmore, hrest⟩ := h
  exact ⟨idle ++ more, rest, by simp, List.forall_mem_append.mpr ⟨hidle, hmore⟩, hrest⟩

theorem breaksLine_of_scan {comments inside : Bool} {cs : List Char} {m : Margin}
    (hinside : inside = false) (hm : m.lineBreak = false)
    (h : (Margin.scan comments inside cs m).lineBreak = true) : BreaksLine cs := by
  have hnone : ∀ {cs : List Char} {m : Margin}, m.lineBreak = false → m.lineBreak = true →
      BreaksLine cs := by
    intro cs m hm h
    rw [hm] at h
    exact Bool.noConfusion h
  fun_induction Margin.scan comments inside cs m with
  | case1 => exact ⟨[], [], rfl, by simp, Or.inl rfl⟩
  | case2 => exact Bool.noConfusion hinside
  | case3 => exact Bool.noConfusion hinside
  | case4 cs m ih =>
      exact .append ['\\', '\r', '\n'] (List.all_iff_forall_prop.mp (by decide)) (ih rfl hm h)
  | case5 =>
      exact .append ['\\', '\r'] (List.all_iff_forall_prop.mp (by decide))
        ⟨[], [], rfl, by simp, Or.inl rfl⟩
  | case6 cs m ih =>
      exact .append ['\\', '\n'] (List.all_iff_forall_prop.mp (by decide)) (ih rfl hm h)
  | case7 =>
      exact .append ['\\'] (List.all_iff_forall_prop.mp (by decide))
        ⟨[], [], rfl, by simp, Or.inl rfl⟩
  | case8 => exact hnone hm h
  | case9 cs m => exact ⟨[], _, rfl, by simp, Or.inr rfl⟩
  | case10 cs m _ _ _ _ _ _ ih =>
      exact .append [' '] (List.all_iff_forall_prop.mp (by decide)) (ih rfl hm h)
  | case11 cs m _ _ _ _ _ _ _ ih =>
      exact .append ['\t'] (List.all_iff_forall_prop.mp (by decide)) (ih rfl hm h)
  | case12 c cs m _ _ _ _ _ _ _ _ hc ih =>
      refine .append [c] (fun x hx => Or.inl ?_) (ih rfl hm h)
      obtain rfl := List.mem_singleton.mp hx
      rcases hc with rfl | hc
      · decide
      · simp [isBlank, hc]
  | case13 c cs m _ _ _ _ _ _ _ _ _ _ hbreak ih => exact hnone hm hbreak
  | case14 => exact hnone hm h
  | case15 => exact hnone hm h

/-- From a place where a line ends, one comes to something written over a line end. -/
theorem BreaksLine.exists_gap {cs gap rest : List Char} (h : BreaksLine cs) (hcs : cs = gap ++ rest)
    (hrest : StartsWord rest) : ∃ before after, gap = before ++ '\n' :: after := by
  obtain ⟨idle, more, heq, hidle, hmore⟩ := h
  obtain ⟨x, xs, rfl, hx⟩ := hrest
  rcases List.append_eq_append_iff.mp (heq.symm.trans hcs) with ⟨w, rfl, hw⟩ | ⟨w, rfl, hw⟩
  · cases w with
    | nil =>
        subst hw
        rcases hmore with hnil | hhead
        · exact absurd hnil (by simp)
        · obtain rfl : x = '\n' := by simpa using hhead
          exact absurd hx.notBlank (by decide)
    | cons y ys =>
        subst hw
        obtain rfl : y = '\n' := by simpa using hmore
        exact ⟨idle, ys, rfl⟩
  · -- what is written would have to stand among what is passed over
    have hmem : x ∈ gap ++ w ∨ x = '\n' := by
      cases w with
      | nil =>
          rcases hmore with hnil | hhead
          · subst hnil
            simp at hw
          · right
            rw [List.nil_append] at hw
            rw [← hw] at hhead
            simpa using hhead
      | cons y ys =>
          left
          obtain ⟨rfl, -⟩ := List.cons.inj hw
          simp
    rcases hmem with hmem | rfl
    · rcases hidle x hmem with hblank | rfl
      · rw [hx.notBlank] at hblank
        exact Bool.noConfusion hblank
      · exact absurd rfl hx.notBackslash
    · exact absurd hx.notBlank (by decide)

namespace Lexeme

variable {e : Expect} {width : Nat} {inFormat : Bool} {c : Cursor}

/-- A newline is reported where a line ends. -/
theorem breaksLine_of_newline (h : (next e width inFormat c).token = .newline) :
    BreaksLine c.rest ∧ (next e width inFormat c).front = c ∧
      (next e width inFormat c).stop = c := by
  have hnext := isNext_next e width inFormat c
  generalize next e width inFormat c = l at h hnext
  cases hnext with
  | mark hmark =>
      have hm : (Margin.scan e.layout false c.rest {}).lineBreak = true := by
        by_contra hbreak
        simp [Margin.mark?, hbreak] at hmark
      exact ⟨breaksLine_of_scan rfl rfl hm, rfl, rfl⟩
  | quote _ _ => exact absurd h (by simp)
  | word =>
      have hlayout := Token.isLayout_read (word c).front.rest
      rw [show (Token.read (word c).front.rest).1 = .newline from h] at hlayout
      exact absurd hlayout (by decide)

/-- A comment goes on to the end of its line or to a NUL. -/
theorem comment_ends (h : (next e width inFormat c).token = .comment) :
    (next e width inFormat c).stop.rest = [] ∨
      (next e width inFormat c).stop.rest.head? = some '\n' ∨
      (next e width inFormat c).stop.rest.head? = some nul := by
  have hnext := isNext_next e width inFormat c
  generalize next e width inFormat c = l at h hnext
  cases hnext with
  | mark hmark =>
      have hlayout := isLayout_of_mark hmark
      dsimp only at h
      rw [h] at hlayout
      exact absurd hlayout (by decide)
  | quote _ _ => exact absurd h (by simp)
  | word =>
      have hread := Token.isRead_read (word c).front.rest
      have hstop : (word c).stop.rest =
          (word c).front.rest.drop (Token.read (word c).front.rest).2 :=
        Cursor.rest_advance _ _
      have htoken : (Token.read (word c).front.rest).1 = .comment := h
      rw [hstop]
      generalize Token.read (word c).front.rest = r at hread htoken
      cases hread with
      | comment _ =>
          show (List.drop (Token.commentLength _) _) = [] ∨ _
          unfold Token.commentLength Token.runLength
          dsimp only
          rw [Skips.drop_runLength]
          cases hrest : (word c).front.rest.dropWhile (fun c => c != '\n' && c != nul) with
          | nil => exact Or.inl rfl
          | cons x xs =>
              have hnot := List.head?_dropWhile_not (fun c => c != '\n' && c != nul)
                (word c).front.rest
              rw [hrest] at hnot
              refine Or.inr ?_
              by_cases hx : x = '\n'
              · exact Or.inl (by rw [hx]; rfl)
              · exact Or.inr (by simpa [hx] using hnot)
      | other _ hextra => exact absurd htoken hextra.1
      | _ => exact absurd htoken (by simp)

end Lexeme

/-- At a byte of the text a line ends, or the text does. -/
def LineEndsAt (text : List Char) (n : Nat) : Prop :=
  ∃ c : Cursor, c.IsIn text ∧ c.pos.byte = n ∧ (c.rest = [] ∨ c.rest.head? = some '\n')

/-- Between two bytes of the text a line ends. -/
def BreaksBetween (text : List Char) (start stop : Nat) : Prop :=
  ∃ before after, text = before ++ '\n' :: after ∧ start ≤ byteSize before ∧ byteSize before < stop

theorem BreaksBetween.mono {text : List Char} {start stop start' stop' : Nat}
    (h : BreaksBetween text start stop) (hstart : start' ≤ start) (hstop : stop ≤ stop') :
    BreaksBetween text start' stop' := by
  obtain ⟨before, after, htext, hle, hlt⟩ := h
  exact ⟨before, after, htext, Nat.le_trans hstart hle, Nat.lt_of_lt_of_le hlt hstop⟩

/-- A line that ends where something is passed over ends before what comes next. -/
theorem BreaksLine.between {text : List Char} {c c' : Cursor} (h : BreaksLine c.rest)
    (hc : c.IsIn text) (hc' : c'.IsIn text) (hle : c.pos.byte ≤ c'.pos.byte)
    (hword : StartsWord c'.rest) : BreaksBetween text c.pos.byte c'.pos.byte := by
  obtain ⟨front, gap, htext, hrest, hfront, hstop⟩ := hc.exists_between hc' hle
  obtain ⟨before, after, rfl⟩ := h.exists_gap hrest hword
  refine ⟨front ++ before, after ++ c'.rest, by simpa using htext, ?_, ?_⟩
  · rw [hfront, byteSize_append]
    exact Nat.le_add_right _ _
  · rw [hstop, ← List.append_assoc, byteSize_append (front ++ before)]
    exact Nat.lt_add_of_pos_right (byteSize_pos (by simp))

/-- A line that ends right at a place ends before what comes next. -/
theorem LineEndsAt.between {text : List Char} {n : Nat} {c' : Cursor} (h : LineEndsAt text n)
    (hc' : c'.IsIn text) (hle : n ≤ c'.pos.byte) (hword : StartsWord c'.rest) :
    BreaksBetween text n c'.pos.byte := by
  obtain ⟨c, hc, rfl, hrest⟩ := h
  refine BreaksLine.between ⟨[], c.rest, rfl, by simp, hrest⟩ hc hc' hle hword

end Plumbline.Syntax
