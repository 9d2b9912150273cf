/-
An import written on a line of its own.

The statements of a file are read one after the other, and nothing that counts is passed over at the
start of a line.  So a line `from M import n` is met (`Meets`): either it is read as a statement of
the file, which is the import that it looks like, or a statement of the file goes over its start or
its end.
-/
import Plumbline.Proofs.Syntax.ImportLine
import Plumbline.Proofs.Syntax.Outline

namespace Plumbline.Syntax

open Plumbline.Syntax.Parser

/-- Tokens that end a text stand at its end. -/
theorem Lexeme.rest_of_endOfText {e : Expect} {width : Nat} {inFormat : Bool} {c : Cursor}
    (h : (next e width inFormat c).token = .endOfText) : (next e width inFormat c).front.rest = [] := by
  have hnext := isNext_next e width inFormat c
  generalize next e width inFormat c = l at h hnext
  cases hnext with
  | mark hmark =>
      have hlayout := isLayout_of_mark hmark
      dsimp only at h
      rw [h] at hlayout
      exact absurd hlayout (by decide)
  | quote _ _ => exact absurd h (by simp)
  | word =>
      have hread : (Token.read (word c).front.rest).1 = .endOfText := h
      cases hrest : (word c).front.rest with
      | nil => rfl
      | cons x xs =>
          rw [hrest, Token.read] at hread
          repeat' split at hread
          all_goals exact absurd hread (by simp)

/-- The import of `n` from `M` is written on a line of its own, at byte `at_` of the text, and `back`
follows the line. -/
structure ImportLine (text M n back : List Char) (at_ : Nat) : Prop where
  module : IsDottedName M
  name : IsName n
  line : LineStart text at_ (importText M n ++ '\n' :: back)

/-- The tree is the import that is written there. -/
structure IsWritten (text M n : List Char) (at_ : Nat) (t : Tree) : Prop where
  start : t.span.start = at_
  stop : t.span.stop = at_ + byteSize (importText M n)
  lowered : Lower.simple? text t = some (.importing (importOf M n t.span))

/-- The tree goes over the start or the end of the line that is written there. -/
def TakesIn (M n : List Char) (at_ : Nat) (t : Tree) : Prop :=
  t.span.start ≤ at_ ∧ at_ < t.span.stop ∧
    (t.span.start < at_ ∨ at_ + byteSize (importText M n) < t.span.stop)

namespace Grammar

variable {text M n back : List Char} {at_ : Nat} {k : Knot} {s s' : State}

/-- The line has not been reached, or one of the trees so far is the import or takes it in. -/
def Meets (text M n : List Char) (at_ : Nat) (cs : List Tree) (s : State) : Prop :=
  s.last.byte ≤ at_ ∨ ∃ t ∈ cs, IsWritten text M n at_ t ∨ TakesIn M n at_ t

theorem Meets.more {cs ds : List Tree} (h : Meets text M n at_ cs s)
    (hmore : s.last.byte ≤ at_ → Meets text M n at_ ds s') : Meets text M n at_ (cs ++ ds) s' := by
  have hmem : ∀ {ts : List Tree}, ts ⊆ cs ++ ds → (∃ t ∈ ts, IsWritten text M n at_ t ∨
      TakesIn M n at_ t) → Meets text M n at_ (cs ++ ds) s' :=
    fun hsub ⟨t, ht, hmet⟩ => Or.inr ⟨t, hsub ht, hmet⟩
  rcases h with hle | hmet
  · exact (hmore hle).imp_right fun ⟨t, ht, hmet⟩ => ⟨t, List.mem_append_right _ ht, hmet⟩
  · exact hmem (List.subset_append_left _ _) hmet

variable (hline : ImportLine text M n back at_)
include hline

theorem start_le (hs : s.Fits text) (hle : s.last.byte ≤ at_) : s.ahead.start.byte ≤ at_ := by
  obtain ⟨c, hc, hpos, hskips⟩ := hs.after
  exact hskips.le_of_lineStart hc hs.front hline.line (hpos ▸ hle)

theorem front_eq (hs : s.Fits text) (hstart : s.ahead.start.byte = at_) :
    s.ahead.front.rest = importText M n ++ '\n' :: back := by
  have hbyte : s.ahead.front.pos.byte = at_ := hstart
  rw [hs.front.rest_eq, hbyte, ← hline.line.cursor.rest_eq]

theorem token_eq (hs : s.Fits text) (hstart : s.ahead.start.byte = at_) :
    s.token = .name "from" := by
  have hname : IsName "from".toList := by
    refine ⟨⟨'f', "rom".toList, rfl, by decide +kernel, by decide, by decide, by decide,
      by decide⟩, List.all_iff_forall_prop.mp (by decide +kernel)⟩
  have hends : EndsName (' ' :: (M ++ (" import ".toList ++ (n ++ '\n' :: back)))) := by
    intro c hc
    obtain rfl : ' ' = c := by simpa using hc
    decide +kernel
  refine (hs.token_of_isName hname hends ?_).1
  rw [front_eq hline hs hstart]
  simp only [importText_eq, List.append_assoc, List.cons_append]

theorem token_isMark (hs : s.Fits text) (hstart : s.ahead.start.byte = at_) :
    s.token.isMark "from" = true := by
  rw [token_eq hline hs hstart]
  rfl

omit hline in
theorem simpleStatement_from {t : Tree} (hfrom : s.token = .name "from")
    (h : simpleStatement k s = .done t s') : fromStatement s = .done t s' := by
  obtain ⟨_, _, hpeek, h⟩ := bind_eq_done h
  cases hpeek
  rw [hfrom] at h
  exact h

/-! ### What a reader meets -/

/-- The line is the statement that starts where it does. -/
theorem meets_simpleStatement (hk : k.Keeps text) (hs : s.Fits text) (hle : s.last.byte ≤ at_)
    {ts : List Tree} (h : part (simpleStatement k) s = .done ts s') :
    Meets text M n at_ ts s' := by
  obtain ⟨t, hdone, rfl⟩ := part_eq_done h
  have hclean : State.Fits text { s with extras := [] } := (stays_extras s hs _ _ rfl).1
  obtain ⟨hleads, -, -, hstart, hstop, -⟩ := reads_simpleStatement hk _ hclean t s' hdone
  rcases Nat.lt_or_ge at_ s'.last.byte with hlt | hge
  · refine Or.inr ⟨t, by simp, ?_⟩
    have hstart' : t.span.start ≤ at_ := hstart ▸ start_le hline hclean hle
    rcases Nat.lt_or_eq_of_le hstart' with hbefore | hat
    · exact Or.inr ⟨hstart', hstop ▸ hlt, Or.inl hbefore⟩
    · have hahead : s.ahead.start.byte = at_ := hstart.symm.trans hat
      have hfrom := simpleStatement_from (token_eq hline hclean hahead) hdone
      rcases fromStatement_at_lineEnd hclean hline.module hline.name
        (front_eq hline hclean hahead) hfrom with hpast | ⟨hbehind, hlowered⟩
      · obtain ⟨before, htext, hsize, -⟩ := hline.line.at_
        have hnewline : byteSize ('\n' :: back) = 1 + byteSize back := rfl
        rw [State.Past, htext, byteSize_append, byteSize_append, hnewline] at hpast
        refine Or.inr ⟨hstart', hstop ▸ hlt, Or.inr ?_⟩
        omega
      · obtain ⟨c, hc, hpos, hrest⟩ := hbehind.cursor
        have hbyte := hline.line.cursor.byte_eq hc (congrArg (importText M n ++ ·) hrest.symm)
        refine Or.inl ⟨hat, ?_, hlowered⟩
        rw [hstop, ← hpos, hbyte]
  · exact Or.inl hge

/-- A statement with blocks does not start where the line does. -/
theorem meets_compound {p : Parser Tree} (hp : Reads text p) (hs : s.Fits text)
    (hle : s.last.byte ≤ at_) (hfrom : s.token.isMark "from" = false) {ts : List Tree}
    (h : part p s = .done ts s') : Meets text M n at_ ts s' := by
  obtain ⟨t, hdone, rfl⟩ := part_eq_done h
  have hclean : State.Fits text { s with extras := [] } := (stays_extras s hs _ _ rfl).1
  obtain ⟨-, -, -, hstart, hstop, -⟩ := hp _ hclean t s' hdone
  rcases Nat.lt_or_ge at_ s'.last.byte with hlt | hge
  · have hstart' : t.span.start ≤ at_ := hstart ▸ start_le hline hclean hle
    rcases Nat.lt_or_eq_of_le hstart' with hbefore | hat
    · exact Or.inr ⟨t, by simp, Or.inr ⟨hstart', hstop ▸ hlt, Or.inl hbefore⟩⟩
    · have hmark := token_isMark hline hs (hstart.symm.trans hat)
      rw [hfrom] at hmark
      exact Bool.noConfusion hmark
  · exact Or.inl hge

theorem meets_lineSoFar (hk : k.Keeps text) {s₀ : State} {cs : List Tree} (hs₀ : s₀.Fits text)
    (hle : s₀.last.byte ≤ at_) (h : LineSoFar k s₀ cs s) : Meets text M n at_ cs s := by
  induction h with
  | first h => exact meets_simpleStatement hline hk hs₀ hle h
  | @semicolon cs ds s s' h hmark ih =>
      have hs := (line_laid hk hs₀ hs₀.laid h).1.fits
      refine ih.more fun hle => Or.inl ?_
      -- a semicolon has one byte, and it does not stand at the start of the line
      obtain ⟨hword, -, hlast⟩ := mark_eq_done hmark
      have hbyte := hs.front.byte_eq hs.stop_isIn (hs.spelled ";" hword)
      have hne : s.ahead.start.byte ≠ at_ := by
        intro hat
        rw [token_eq hline hs hat] at hword
        exact absurd hword (by decide)
      have hstart := start_le hline hs hle
      have hsize : byteSize ";".toList = 1 := rfl
      have hahead : s.ahead.start.byte = s.ahead.front.pos.byte := rfl
      rw [hlast]
      omega
  | statement h hdone ih =>
      have hs := (line_laid hk hs₀ hs₀.laid h).1.fits
      exact ih.more fun hle => meets_simpleStatement hline hk hs hle hdone

theorem meets_simpleLine (hk : k.Keeps text) {cs : List Tree} (hs : s.Fits text)
    (hle : s.last.byte ≤ at_) (h : simpleLine k s = .done cs s') : Meets text M n at_ cs s' := by
  obtain ⟨ts, s₁, ds, hts, hend, rfl⟩ := simpleLine_eq_done h
  have hs₁ := (line_laid hk hs hs.laid hts).1.fits
  refine (meets_lineSoFar hline hk hs hle hts).more fun hle => Or.inl ?_
  obtain ⟨c, -, -, hlast, hstart⟩ := lineEnd_at hs₁ hend
  rw [hlast, ← hstart]
  exact start_le hline hs₁ hle

/-- **A file meets the line.** -/
theorem meets_file (hk : k.Keeps text) {s₀ : State} {cs : List Tree} (hs₀ : Outlined text [] s₀)
    (hlast : s₀.last.byte ≤ at_) (h : FileSoFar k s₀ cs s) : Meets text M n at_ cs s := by
  induction h with
  | nothing => exact Or.inl hlast
  | @statement cs ds s s' hfile hstatement ih =>
      have hs : State.Fits text { s with extras := [] } :=
        (stays_extras s (outlined_file hk hs₀ hfile).fits _ _ rfl).1
      have hextras : Meets text M n at_ (cs ++ s.extras) { s with extras := [] } :=
        ih.more Or.inl
      refine hextras.more fun hle => ?_
      obtain ⟨-, ⟨p, hreads, -, hfrom, hpart⟩ | ⟨reach, hsimple⟩⟩ := statement_eq_done hk hstatement
      · exact meets_compound hline hreads hs hle hfrom hpart
      · exact meets_simpleLine hline hk (hs.withReach reach) hle hsimple
  | final _ ih => exact ih.more Or.inl

end Grammar

/-- **An import on a line of its own is a statement of the file that looks like it**, unless a
statement takes the line in. -/
theorem importLine_parse {source : String} {M n back : List Char} {at_ : Nat} {tree : Tree}
    (hline : ImportLine source.toList M n back at_) (h : parse source = .ok tree) :
    ∃ t ∈ tree.children, IsWritten source.toList M n at_ t ∨ TakesIn M n at_ t := by
  obtain ⟨k, s, hfile, hend⟩ := exists_file_of_parse h
  have hk := Knot.keeps_tie source.toList k
  have hstart := Grammar.outlined_start source
  have hzero : (State.start source).last.byte ≤ at_ := by
    rw [State.start, State.last_resume]
    exact Nat.zero_le _
  refine (Grammar.meets_file hline hk hstart hzero hfile).resolve_left fun hle => ?_
  -- nothing is left at the end of the text
  have hs := (Grammar.outlined_file hk hstart hfile).fits
  obtain ⟨e, width, inFormat, c, -, -, hnext⟩ := hs.read
  have hrest : s.ahead.front.rest = [] := by
    rw [State.token, hnext] at hend
    rw [hnext, Lexeme.rest_of_endOfText hend]
  have hfront : s.ahead.front.pos.byte ≤ at_ := Grammar.start_le hline hs hle
  obtain ⟨passed, hpassed, hbyte⟩ := hs.front
  obtain ⟨before, htext, hsize, -⟩ := hline.line.at_
  rw [hrest, List.append_nil] at hpassed
  have hpos : 0 < byteSize (importText M n ++ '\n' :: back) := byteSize_pos (by simp)
  rw [hbyte, ← hpassed, htext, byteSize_append] at hfront
  omega

end Plumbline.Syntax
