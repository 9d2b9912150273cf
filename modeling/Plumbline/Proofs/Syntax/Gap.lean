/-
What lies between two tokens.

Before a token come blanks, line ends, comments and joined lines, which count for nothing.  A text
`Skips` to a later part of itself if only such things are passed over, and the reader passes over
nothing else on its way to the next token (`next_spec`).  Comments and joined lines are tokens of
their own, which are kept as they come; they too are only passed over.
-/
import Mathlib.Data.Bool.AllAny
import Mathlib.Data.List.TakeWhile
import Plumbline.Proofs.Text.Cursor
import Plumbline.Syntax.Layout

namespace Plumbline.Syntax

/-- From the first text one comes to the second, a later part of it, over nothing but blanks,
comments and joined lines.  A comment goes on to the end of its line. -/
inductive Skips : List Char → List Char → Prop where
  | done (cs : List Char) : Skips cs cs
  | blank {c : Char} {cs rest : List Char} (h : isBlank c = true ∨ c = nul) :
      Skips cs rest → Skips (c :: cs) rest
  | comment {body cs rest : List Char} (inside : ∀ c ∈ body, c ≠ '\n' ∧ c ≠ nul)
      (ends : ∀ c, cs.head? = some c → c = '\n' ∨ c = nul) :
      Skips cs rest → Skips ('#' :: (body ++ cs)) rest
  | joined {cs rest : List Char} (h : 0 < Token.joinLength ('\\' :: cs)) :
      Skips cs rest → Skips ('\\' :: cs) rest

namespace Skips

theorem trans {a b c : List Char} (h : Skips a b) (h' : Skips b c) : Skips a c := by
  induction h with
  | done _ => exact h'
  | blank hc _ ih => exact .blank hc (ih h')
  | comment hinside hends _ ih => exact .comment hinside hends (ih h')
  | joined hjoin _ ih => exact .joined hjoin (ih h')

/-- Nothing is passed over in front of a character that counts. -/
theorem eq_of_counts {c : Char} {cs rest : List Char} (h : Skips (c :: cs) rest)
    (hblank : isBlank c = false) (hc : c ≠ nul ∧ c ≠ '#' ∧ c ≠ '\\') : rest = c :: cs := by
  cases h with
  | done _ => rfl
  | blank hskip _ => exact absurd hskip (by simp [hblank, hc.1])
  | comment _ _ _ => exact absurd rfl hc.2.1
  | joined _ _ => exact absurd rfl hc.2.2

/-- What is passed over stands in front. -/
theorem exists_append {a b : List Char} (h : Skips a b) : ∃ gap, a = gap ++ b := by
  induction h with
  | done _ => exact ⟨[], rfl⟩
  | @blank c _ _ _ _ ih =>
      obtain ⟨gap, rfl⟩ := ih
      exact ⟨c :: gap, rfl⟩
  | @comment body _ _ _ _ _ ih =>
      obtain ⟨gap, rfl⟩ := ih
      exact ⟨'#' :: (body ++ gap), by simp⟩
  | joined _ _ ih =>
      obtain ⟨gap, rfl⟩ := ih
      exact ⟨'\\' :: gap, rfl⟩

/-- What is passed over leads forward. -/
theorem byte_le {text : List Char} {c c' : Cursor} (h : Skips c.rest c'.rest) (hc : c.IsIn text)
    (hc' : c'.IsIn text) : c.pos.byte ≤ c'.pos.byte := by
  obtain ⟨gap, hgap⟩ := h.exists_append
  exact Nat.le.intro (hc.byte_eq hc' hgap).symm

theorem blanks {passed rest : List Char} (h : ∀ c ∈ passed, isBlank c = true) :
    Skips (passed ++ rest) rest := by
  induction passed with
  | nil => exact .done rest
  | cons c cs ih => exact .blank (Or.inl (h c (by simp))) (ih fun x hx => h x (by simp [hx]))

theorem drop_runLength (p : Char → Bool) (cs : List Char) :
    cs.drop (cs.takeWhile p).length = cs.dropWhile p := by
  induction cs with
  | nil => rfl
  | cons c cs ih =>
      by_cases hc : p c = true
      · simpa [List.takeWhile_cons_of_pos hc, List.dropWhile_cons_of_pos hc] using ih
      · simp [List.takeWhile_cons_of_neg hc, List.dropWhile_cons_of_neg hc]

theorem commentLine (cs : List Char) :
    Skips ('#' :: cs) (('#' :: cs).drop (Token.commentLength ('#' :: cs))) := by
  let inLine : Char → Bool := fun c => c != '\n' && c != nul
  have hlength : Token.commentLength ('#' :: cs) = (cs.takeWhile inLine).length + 1 := by
    unfold Token.commentLength Token.runLength
    rw [List.takeWhile_cons_of_pos (by decide)]
    rfl
  rw [hlength, List.drop_succ_cons, drop_runLength]
  have hskip : Skips ('#' :: (cs.takeWhile inLine ++ cs.dropWhile inLine)) (cs.dropWhile inLine) := by
    refine .comment (fun c hc => ?_) (fun c hc => ?_) (.done _)
    · simpa [inLine] using List.mem_takeWhile_imp hc
    · have hnot := List.head?_dropWhile_not inLine cs
      rw [hc] at hnot
      by_cases hline : c = '\n'
      · exact Or.inl hline
      · exact Or.inr (by simpa [inLine, hline] using hnot)
  rwa [List.takeWhile_append_dropWhile] at hskip

theorem joinedLine {cs : List Char} (h : 0 < Token.joinLength cs) :
    Skips cs (cs.drop (Token.joinLength cs)) := by
  unfold Token.joinLength at h ⊢
  split
  · exact .joined (by decide) (.done _)
  · exact .joined (by simp [Token.joinLength]) (.blank (Or.inl (by decide)) (.done _))
  · exact .joined (by simp [Token.joinLength])
      (.blank (Or.inl (by decide)) (.blank (Or.inl (by decide)) (.done _)))
  · rename_i c cs hline _
    split
    · rename_i hc
      subst hc
      exact .joined (by simp [Token.joinLength]) (.blank (Or.inr rfl) (.done _))
    · rename_i hc
      simp [hc] at h
  · simp at h

end Skips

/-! ### Margins -/

/-- The reading of a margin, begun after `n` characters with the text `cs` ahead, ends as `m`: it has
passed over something, which counts for nothing, or goes on with the comment that it began in. -/
structure Passes (inside : Bool) (cs : List Char) (n : Nat) (m : Margin) : Prop where
  size : ∃ passed, cs = passed ++ m.rest ∧ m.size = n + passed.length
  skips : inside = false → Skips cs m.rest
  goesOn : inside = true → ∀ body, (∀ c ∈ body, c ≠ '\n' ∧ c ≠ nul) →
    Skips ('#' :: (body ++ cs)) m.rest

namespace Passes

variable {cs front : List Char} {n : Nat} {m : Margin} {c : Char}

theorem size_append (front : List Char) {inside : Bool} (h : Passes inside cs (n + front.length) m) :
    ∃ passed, front ++ cs = passed ++ m.rest ∧ m.size = n + passed.length := by
  obtain ⟨passed, rfl, hsize⟩ := h.size
  exact ⟨front ++ passed, by simp, by rw [hsize, List.length_append, Nat.add_assoc]⟩

theorem blank (hc : isBlank c = true) (h : Passes false cs (n + 1) m) :
    Passes false (c :: cs) n m where
  size := size_append [c] h
  skips _ := .blank (Or.inl hc) (h.skips rfl)
  goesOn h := nomatch h

theorem joined (hskips : Skips (front ++ cs) cs) (h : Passes false cs (n + front.length) m) :
    Passes false (front ++ cs) n m where
  size := size_append front h
  skips _ := hskips.trans (h.skips rfl)
  goesOn h := nomatch h

theorem opens (h : Passes true cs (n + 1) m) : Passes false ('#' :: cs) n m where
  size := size_append ['#'] h
  skips _ := h.goesOn rfl [] (by simp)
  goesOn h := nomatch h

theorem inside (hc : c ≠ '\n' ∧ c ≠ nul) (h : Passes true cs (n + 1) m) :
    Passes true (c :: cs) n m where
  size := size_append [c] h
  skips h := nomatch h
  goesOn _ body hbody := by
    have hmore := h.goesOn rfl (body ++ [c]) fun x hx => by
      rcases List.mem_append.mp hx with hx | hx
      · exact hbody x hx
      · exact List.mem_singleton.mp hx ▸ hc
    rwa [List.append_assoc] at hmore

theorem closes (hc : c = '\n' ∨ c = nul) (h : Passes false cs (n + 1) m) :
    Passes true (c :: cs) n m where
  size := size_append [c] h
  skips h := nomatch h
  goesOn _ body hbody := by
    refine .comment hbody (fun x hx => Option.some.inj hx ▸ hc) (.blank ?_ (h.skips rfl))
    rcases hc with rfl | hnul
    · exact Or.inl (by decide)
    · exact Or.inr hnul

theorem nothing (hrest : m.rest = cs) (hsize : m.size = n) : Passes false cs n m where
  size := ⟨[], hrest.symm, hsize⟩
  skips _ := hrest ▸ .done _
  goesOn h := nomatch h

end Passes

/-- A margin holds nothing but what is passed over, if something follows it. -/
theorem scan_passes (comments inside : Bool) (cs : List Char) (m : Margin)
    (h : (Margin.scan comments inside cs m).rest ≠ []) :
    Passes inside cs m.size (Margin.scan comments inside cs m) := by
  fun_induction Margin.scan comments inside cs m with
  | case1 => exact absurd rfl h
  | case2 c cs m hc ih => exact (ih h).closes hc
  | case3 c cs m hc ih => exact (ih h).inside (not_or.mp hc)
  | case4 cs m ih =>
      have hskips : Skips (['\\', '\r', '\n'] ++ cs) cs :=
        Skips.joinedLine (by simp [Token.joinLength])
      exact (ih h).joined hskips
  | case5 => exact absurd rfl h
  | case6 cs m ih =>
      have hskips : Skips (['\\', '\n'] ++ cs) cs := Skips.joinedLine (by simp [Token.joinLength])
      exact (ih h).joined hskips
  | case7 => exact absurd rfl h
  | case8 cs m => exact .nothing rfl rfl
  | case9 cs m _ _ _ _ _ ih => exact (ih h).blank (by decide)
  | case10 cs m _ _ _ _ _ _ ih => exact (ih h).blank (by decide)
  | case11 cs m _ _ _ _ _ _ _ ih => exact (ih h).blank (by decide)
  | case12 c cs m _ _ _ _ _ _ _ _ hc ih =>
      refine (ih h).blank ?_
      rcases hc with rfl | hc
      · decide
      · simp [isBlank, hc]
  | case13 c cs m _ _ _ _ _ _ _ _ _ hc _ ih =>
      obtain ⟨rfl, -⟩ := hc
      exact (ih h).opens
  | case14 c cs m => exact .nothing rfl rfl
  | case15 c cs m => exact .nothing rfl rfl

/-! ### Tokens -/

namespace Token

/-- What can be read at the start of a text, and how long it is. -/
inductive IsRead (cs : List Char) : Token × Nat → Prop where
  | name : IsRead cs
      (name (String.ofList (cs.takeWhile isIdentifierPart)), (cs.takeWhile isIdentifierPart).length)
  | comment {more : List Char} (h : cs = '#' :: more) : IsRead cs (comment, commentLength cs)
  | joined (h : 0 < joinLength cs) : IsRead cs (joined, joinLength cs)
  | operator {text : String} (h : operator? cs = some text) : IsRead cs (op text, text.length)
  | other {t : Token} {n : Nat} (noMark : ∀ word, t.isMark word = false)
      (noExtra : t ≠ .comment ∧ t ≠ .joined) : IsRead cs (t, n)

theorem isRead_read (cs : List Char) : IsRead cs (read cs) := by
  unfold read
  split
  · exact .other (fun _ => rfl) (by decide)
  · rename_i c more
    split
    · exact .name
    · split
      · rename_i hhash
        exact .comment (congrArg (· :: more) hhash)
      · split
        · rename_i hjoin
          exact .joined hjoin
        · split
          · exact .other (fun _ => rfl) (by decide)
          · split
            · exact .other (fun _ => rfl) (by decide)
            · split
              · rename_i text htext
                exact .operator htext
              · split
                · exact .other (fun _ => rfl) (by decide)
                · exact .other (fun _ => rfl) (by decide)

theorem eq_append_of_operator? {cs : List Char} {text : String} (h : operator? cs = some text) :
    cs = text.toList ++ cs.drop text.length := by
  unfold operator? at h
  have hprefix : text.toList.isPrefixOf cs = true := by simpa using List.find?_some h
  obtain ⟨rest, rfl⟩ := List.isPrefixOf_iff_prefix.mp hprefix
  rw [← String.length_toList, List.drop_left]

/-- A word is read as what it is spelled like. -/
theorem IsRead.eq_append {cs : List Char} {r : Token × Nat} (h : IsRead cs r) {word : String}
    (hword : r.1.isMark word = true) : cs = word.toList ++ cs.drop r.2 := by
  cases h with
  | name =>
      obtain rfl : String.ofList (cs.takeWhile isIdentifierPart) = word := by
        simpa [isMark] using hword
      rw [String.toList_ofList, Skips.drop_runLength, List.takeWhile_append_dropWhile]
  | comment _ => simp [isMark] at hword
  | joined _ => simp [isMark] at hword
  | @operator text htext =>
      obtain rfl : text = word := by simpa [isMark] using hword
      exact eq_append_of_operator? htext
  | other hmark _ => simp [hmark word] at hword

/-- Comments and joined lines count for nothing, and are not empty. -/
theorem IsRead.skips {cs : List Char} {r : Token × Nat} (h : IsRead cs r)
    (hextra : r.1 = .comment ∨ r.1 = .joined) :
    Skips cs (cs.drop r.2) ∧ (cs.drop r.2).length < cs.length := by
  cases h with
  | name => simp at hextra
  | @comment more hcs =>
      subst hcs
      refine ⟨Skips.commentLine more, ?_⟩
      have hpos : 0 < commentLength ('#' :: more) := by
        unfold commentLength runLength
        rw [List.takeWhile_cons_of_pos (by decide)]
        exact Nat.succ_pos _
      simp only [List.length_drop, List.length_cons]
      omega
  | joined hjoin =>
      refine ⟨Skips.joinedLine hjoin, ?_⟩
      have hne : cs ≠ [] := by
        rintro rfl
        exact absurd hjoin (by decide)
      have hlength := List.length_pos_iff.mpr hne
      simp only [List.length_drop]
      omega
  | operator _ => simp at hextra
  | other _ hnone => exact absurd hextra (not_or.mpr hnone)

end Token

/-! ### The next token -/

/-- What is said of the token that is read next at a cursor. -/
structure Lexeme.Comes (c : Cursor) (l : Lexeme) : Prop where
  front : ∃ n, l.front = c.advance n
  stop : ∃ n, l.stop = l.front.advance n
  skips : Skips c.rest l.front.rest
  /-- A word is spelled as it is read. -/
  spelled : ∀ word, l.token.isMark word = true → l.front.rest = word.toList ++ l.stop.rest
  /-- Comments and joined lines are passed over as well. -/
  extra : l.token = .comment ∨ l.token = .joined →
    Skips l.front.rest l.stop.rest ∧ l.stop.rest.length < l.front.rest.length

namespace Lexeme

theorem comes_word (c : Cursor) : (word c).Comes c := by
  unfold word
  dsimp only
  have hread := Token.isRead_read (c.advance (Token.runLength isBlank c.rest)).rest
  refine ⟨⟨_, rfl⟩, ⟨_, rfl⟩, ?_, fun w hw => ?_, fun hextra => ?_⟩
  · dsimp only
    unfold Token.runLength
    rw [Cursor.rest_advance, Skips.drop_runLength]
    have hskip : Skips (c.rest.takeWhile isBlank ++ c.rest.dropWhile isBlank)
        (c.rest.dropWhile isBlank) := .blanks fun x hx => List.mem_takeWhile_imp hx
    rwa [List.takeWhile_append_dropWhile] at hskip
  · dsimp only
    rw [Cursor.rest_advance (Token.read _).2]
    exact hread.eq_append hw
  · dsimp only
    rw [Cursor.rest_advance (Token.read _).2]
    exact hread.skips hextra

/-- Layout marks are no words, and they have no width. -/
theorem comes_mark {e : Expect} {width : Nat} {inFormat : Bool} {m : Margin} {t : Token}
    (h : m.mark? e width inFormat = some t) (c : Cursor) : Comes c ⟨t, c, c⟩ := by
  have hlower : ∀ closes : Bool, (if closes = true then some Token.dedent
      else if e.newline = true then some Token.newline else none) = some t →
        t = .dedent ∨ t = .newline := by
    intro closes h
    split at h
    · exact Or.inl (Option.some.inj h).symm
    · split at h
      · exact Or.inr (Option.some.inj h).symm
      · exact absurd h (by simp)
  have ht : (∃ n, t = .indent n) ∨ t = .dedent ∨ t = .newline := by
    unfold Margin.mark? at h
    dsimp only at h
    split at h
    · exact absurd h (by simp)
    · split at h
      · exact Or.inl ⟨_, (Option.some.inj h).symm⟩
      · exact Or.inr (hlower _ h)
  refine ⟨⟨0, rfl⟩, ⟨0, rfl⟩, .done _, fun word hword => ?_, fun hextra => ?_⟩
  · rcases ht with ⟨n, rfl⟩ | rfl | rfl <;> simp [Token.isMark] at hword
  · rcases ht with ⟨n, rfl⟩ | rfl | rfl <;> simp at hextra

/-- **The next token comes after nothing but blanks, comments and joined lines.** -/
theorem comes_next (e : Expect) (width : Nat) (inFormat : Bool) (c : Cursor) :
    (next e width inFormat c).Comes c := by
  unfold next
  dsimp only
  split
  · rename_i t ht
    exact comes_mark ht c
  · split
    · exact comes_word c
    · split
      · rename_i q size hquote
        have hrest : (Margin.scan e.layout false c.rest {}).rest ≠ [] := by
          intro hnil
          rw [hnil] at hquote
          exact absurd hquote (by simp [Quote.at?, Quote.read?])
        have hpasses := scan_passes e.layout false c.rest {} hrest
        refine ⟨⟨_, rfl⟩, ⟨_, rfl⟩, ?_, fun _ h => (nomatch h), fun h => h.elim nofun nofun⟩
        dsimp only
        rw [Cursor.rest_advance]
        obtain ⟨passed, hcs, hsize⟩ := hpasses.size
        have hdrop : c.rest.drop (Margin.scan e.layout false c.rest {}).size =
            (Margin.scan e.layout false c.rest {}).rest := by
          rw [hsize]
          generalize (Margin.scan e.layout false c.rest {}).rest = rest at hcs
          rw [hcs]
          simp
        rw [hdrop]
        exact hpasses.skips rfl
      · exact comes_word c

end Lexeme

end Plumbline.Syntax
