/-
Where a comment line goes.

A comment line goes between the whole tokens above it and a line that starts with a word.  A reader of
the source and a reader of the outcome stand alike as long as both are above the new line, at the same
place, or both below it, at places that differ by the line; only one token is read while the first goes
across, and there the second finds the comment besides.
-/
import Plumbline.Proofs.Insertion.Tokens

namespace Plumbline.Syntax

/-- A place in a source for a line that holds nothing but a comment. -/
structure CommentPlace where
  before : List Char
  indent : List Char
  note : List Char
  /-- The line below, from its first word on, and all that follows it. -/
  word : List Char
  above : before = [] ∨ Tokens before
  blanks : ∀ c ∈ indent, c = ' ' ∨ c = '\t'
  inLine : ∀ c ∈ note, c ≠ '\n' ∧ c ≠ nul
  starts : StartsWord word
  reads : 0 < (Token.read word).2
  noQuote : Quote.at? word = none

namespace CommentPlace

variable (i : CommentPlace)

def below : List Char := i.indent ++ i.word

def comment : List Char := '#' :: i.note

/-- The line that is put in. -/
def line : List Char := i.indent ++ i.comment ++ ['\n']

def source : List Char := i.before ++ i.below

def outcome : List Char := i.before ++ i.line ++ i.below

/-- The byte at which the line is put in. -/
def start : Nat := byteSize i.before

/-- The place of the outcome at which what stood at `p` below the line stands. -/
def move (p : Position) : Position := ⟨p.byte + byteSize i.line, p.line + 1, p.column⟩

end CommentPlace

/-! ### Places behind a text -/

/-- The place behind `front`. -/
def placeBehind (front : List Char) : Position := front.foldl Position.after {}

theorem placeBehind_append (a b : List Char) :
    placeBehind (a ++ b) = b.foldl Position.after (placeBehind a) :=
  List.foldl_append

theorem advance_append (w rest : List Char) (p : Position) :
    Cursor.advance w.length ⟨w ++ rest, p⟩ = ⟨rest, w.foldl Position.after p⟩ := by
  induction w generalizing p with
  | nil => rfl
  | cons c cs ih => exact ih _

theorem byte_foldl (w : List Char) (p : Position) :
    (w.foldl Position.after p).byte = p.byte + byteSize w := by
  induction w generalizing p with
  | nil => rfl
  | cons c cs ih =>
      rw [List.foldl_cons, ih, Cursor.byte_after, Nat.add_assoc]
      rfl

theorem byte_placeBehind (front : List Char) : (placeBehind front).byte = byteSize front := by
  rw [placeBehind, byte_foldl]
  exact Nat.zero_add _

/-- Over a text without line ends one stays on the line. -/
theorem foldl_inLine {w : List Char} (hw : '\n' ∉ w) (p : Position) :
    w.foldl Position.after p = ⟨p.byte + byteSize w, p.line, p.column + byteSize w⟩ := by
  induction w generalizing p with
  | nil => rfl
  | cons c cs ih =>
      obtain ⟨hc, hcs⟩ : '\n' ≠ c ∧ '\n' ∉ cs := by simpa using hw
      rw [List.foldl_cons, ih hcs, Position.after, if_neg (Ne.symm hc)]
      simp [byteSize, Nat.add_assoc]

namespace CommentPlace

variable {i : CommentPlace}

theorem newLine_notMem_indent : '\n' ∉ i.indent := fun h => by
  rcases i.blanks _ h with h | h <;> exact absurd h (by decide)

theorem newLine_notMem_comment : '\n' ∉ i.comment := by
  rw [comment, List.mem_cons, not_or]
  exact ⟨by decide, fun h => (i.inLine _ h).1 rfl⟩

theorem column_before : (placeBehind i.before).column = 0 := by
  rcases i.above with h | h
  · rw [h]
    rfl
  · obtain ⟨line, hline⟩ := h.exists_line
    rw [hline, placeBehind_append]
    rfl

/-- Behind the new line everything stands one line further down. -/
theorem placeBehind_line (front : List Char) :
    placeBehind (i.before ++ i.line ++ front) = i.move (placeBehind (i.before ++ front)) := by
  have hmove : ∀ p c, (i.move p).after c = i.move (p.after c) := by
    intro p c
    unfold move Position.after
    split <;> simp [Nat.add_right_comm]
  have hfold : ∀ (cs : List Char) p,
      cs.foldl Position.after (i.move p) = i.move (cs.foldl Position.after p) := by
    intro cs
    induction cs with
    | nil => exact fun p => rfl
    | cons c cs ih => exact fun p => by rw [List.foldl_cons, hmove, ih, List.foldl_cons]
  have hinLine : '\n' ∉ i.indent ++ i.comment := by
    simp [newLine_notMem_indent, newLine_notMem_comment]
  have hsize : byteSize i.line = byteSize (i.indent ++ i.comment) + 1 := by
    rw [line, byteSize_append (i.indent ++ i.comment)]
    rfl
  have hline : placeBehind (i.before ++ i.line) = i.move (placeBehind i.before) := by
    rw [placeBehind_append, line, List.foldl_append, foldl_inLine hinLine, move, column_before, hsize]
    rfl
  rw [placeBehind_append, hline, hfold, ← placeBehind_append]

/-! ### Margins that go across the new line -/

theorem allMarginal_indent : AllMarginal i.indent := by
  intro c hc
  rcases i.blanks c hc with rfl | rfl <;> rfl

/-- The width of the line below, and of the new one. -/
def width (i : CommentPlace) : Nat :=
  i.indent.foldr (fun c n => (if c == ' ' then 1 else 8) + n) 0

theorem scan_indent (comments : Bool) (rest : List Char) (m : Margin) :
    Margin.scan comments false (i.indent ++ rest) m = Margin.scan comments false rest
      { m with width := m.width + i.width, size := m.size + i.indent.length } := by
  have hall := i.blanks
  rw [width]
  generalize i.indent = indent at hall
  induction indent generalizing m with
  | nil => rfl
  | cons c cs ih =>
      obtain ⟨hc, hcs⟩ := List.forall_mem_cons.mp hall
      rcases hc with rfl | rfl
      · simp [Margin.scan, ih _ hcs, Nat.add_assoc, Nat.add_comm 1]
      · simp [Margin.scan, ih _ hcs, Nat.add_assoc, Nat.add_comm 1]

theorem isMarginal_of_counts {c : Char} (h : Counts c) : isMarginal c = false := by
  rw [← Bool.not_eq_true]
  exact fun hc => absurd (isBlank_of_isMarginal hc) (by simp [h.notBlank])

/-- Where a margin ends that has come to the line below. -/
theorem scan_below (comments : Bool) (m : Margin) :
    Margin.scan comments false i.below m = { m with
      width := m.width + i.width, size := m.size + i.indent.length, rest := i.word } := by
  obtain ⟨c, cs, hword, hc⟩ := i.starts
  rw [below, scan_indent, hword,
    Margin.scan_stop (isMarginal_of_counts hc) hc.notBackslash fun h => absurd h hc.notHash]

/-- Comments that are passed over are passed over with the new one. -/
theorem scan_line {m : Margin} (hbreak : m.lineBreak = true) (hwidth : m.width = 0) :
    ∃ n, Margin.scan true false (i.line ++ i.below) m = { m with
      width := i.width, comment := some (m.comment.getD i.width), size := n, rest := i.word } := by
  have hopen : ∀ (rest : List Char) (m : Margin), m.lineBreak = true →
      Margin.scan true false ('#' :: rest) m = Margin.scan true true rest
        { m with comment := some (m.comment.getD m.width), size := m.size + 1 } :=
    fun rest m hbreak => by simp [Margin.scan, hbreak]
  have hclose : ∀ (rest : List Char) (m : Margin), Margin.scan true true ('\n' :: rest) m =
        Margin.scan true false rest { m with width := 0, size := m.size + 1 } :=
    fun rest m => by simp [Margin.scan]
  refine ⟨m.size + i.indent.length + 1 + i.note.length + 1 + i.indent.length, ?_⟩
  rw [line, List.append_assoc, List.append_assoc, scan_indent, comment, List.cons_append, hopen,
    Margin.scan_comment i.inLine, List.singleton_append, hclose, scan_below]
  · simp only [hwidth, Nat.zero_add]
  · exact hbreak

/-- Where comments are no part of a margin, the new one ends it. -/
theorem scan_line_of_not {m : Margin} (hwidth : m.width = 0) :
    ∃ n rest, Margin.scan false false (i.line ++ i.below) m = { m with
      width := i.width, size := n, rest := '#' :: rest } := by
  refine ⟨m.size + i.indent.length, i.note ++ '\n' :: i.below, ?_⟩
  rw [line, List.append_assoc, List.append_assoc, scan_indent, comment, List.cons_append,
    Margin.scan_stop (by decide) (by decide) fun _ => rfl]
  simp only [hwidth, Nat.zero_add]
  rfl

/-- A quote opens a literal. -/
theorem isSome_at? {c : Char} (h : (c = '"' ∨ c = '\'') ∨ c.toNat = 96) (cs : List Char) :
    (Quote.at? (c :: cs)).isSome = true := by
  have hmark : ∀ q : Quote, ((c = '"' ∨ c = '\'') ∨ c.toNat = 96) →
      (q.open? (c :: cs)).isSome = true := by
    intro q h
    simp only [Quote.open?]
    split_ifs with hback hquote
    · rfl
    · split
      · split_ifs <;> rfl
      · rfl
    · exact absurd h (not_or.mpr ⟨hquote, hback⟩)
  have hfirst := hmark ⟨' ', false, false, false, false⟩ h
  rcases h with (rfl | rfl) | h
  · exact hfirst
  · exact hfirst
  · obtain rfl : c = '`' := Char.toNat_inj.mp h
    exact hfirst

/-- The word below is no quote. -/
theorem head_word {c : Char} {cs : List Char} (h : i.word = c :: cs) :
    (c == '"' || c == '\'' || c.toNat == 96) = false := by
  by_contra hquote
  rw [Bool.not_eq_false, Bool.or_eq_true, Bool.or_eq_true, beq_iff_eq, beq_iff_eq, beq_iff_eq] at hquote
  have hsome := isSome_at? hquote cs
  rw [← h, i.noQuote] at hsome
  exact absurd hsome Bool.false_ne_true

/-- The layout mark of a margin that comes to the line below is that of one that comes to the new line,
because both are indented alike and neither starts with a quote. -/
theorem mark?_across (i : CommentPlace) (e : Expect) (width : Nat) (inFormat : Bool) {m : Margin}
    (hbreak : m.lineBreak = true) (hwidth : m.width = 0) :
    (Margin.scan e.layout false (i.line ++ i.below) m).mark? e width inFormat =
      (Margin.scan e.layout false i.below m).mark? e width inFormat := by
  obtain ⟨c, cs, hword, hc⟩ := i.starts
  have hquote := head_word hword
  rw [scan_below]
  cases hlayout : e.layout with
  | true =>
      obtain ⟨n, hscan⟩ := scan_line (i := i) hbreak hwidth
      rw [hscan]
      simp only [Margin.mark?, hword, hwidth, Nat.zero_add]
      cases hcomment : m.comment with
      | some v => rfl
      | none =>
          by_cases hle : i.width < width
          · simp [hle]
          · simp [hle]
  | false =>
      obtain ⟨n, rest, hscan⟩ := scan_line_of_not (i := i) hwidth
      rw [hscan]
      simp only [Margin.mark?, hword, hwidth, Nat.zero_add, hquote]
      rfl

end CommentPlace

end Plumbline.Syntax
