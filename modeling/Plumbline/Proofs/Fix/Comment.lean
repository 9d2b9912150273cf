/-
What a comment plan does to a text.

The comment goes on a line of its own above the line that its anchor starts on, and that line is
found by its line end alone.  Whatever the source is, the text is unchanged or one whole line is put in
between two others, indented like the line below it, and the outcome is a module again.  If the tokens
above that line end there, the line is a comment of the outcome, and if besides nothing but statements
and blocks goes on from above it to below, the skeleton of the module stays (`comment_takes_line`).
Otherwise it need not be a comment: a statement may start behind a string literal that covers several
lines, and then the new line lies in the literal (`comment_runs`).
-/
import Plumbline.Proofs.Fix.Composition
import Plumbline.Proofs.Insertion.Outcome
import Plumbline.Proofs.Insertion.PlainText
import Plumbline.Proofs.Text.Cursor

namespace Plumbline

namespace Edit

theorem apply_insert (xs ys : List Char) (added : String) :
    (insert (byteSize xs) added).apply (xs ++ ys) = xs ++ added.toList ++ ys := by
  show (splitAtByte (byteSize xs) (xs ++ ys)).1 ++ added.toList ++
    dropBytes (byteSize xs) (xs ++ ys) = _
  rw [dropBytes_eq_splitAtByte_snd, splitAtByte_byteSize]

/-! ### The line of a byte -/

/-- `line` is the rest of a text from the start of the line of byte `n` on, and `before` is what
precedes that line. -/
structure CutsLine (text : List Char) (n : Nat) (before line : List Char) : Prop where
  whole : text = before ++ line
  starts : before = [] ∨ before.getLast? = some '\n'
  /-- No line ends between the start of the line and byte `n`. -/
  reaches : ∃ front back, line = front ++ back ∧ '\n' ∉ front ∧
    byteSize (before ++ front) ≤ n ∧ splitAtByte n text = (before ++ front, back)

theorem cutsLine_splitAtLine (text : List Char) (n : Nat) :
    CutsLine text n (splitAtLine text n).1 (splitAtLine text n).2 := by
  let front := (splitAtByte n text).1
  let back := (splitAtByte n text).2
  let before := (front.reverse.dropWhile (· != '\n')).reverse
  let inLine := (front.reverse.takeWhile (· != '\n')).reverse
  have hfront : before ++ inLine = front := by
    rw [← List.reverse_append, List.takeWhile_append_dropWhile, List.reverse_reverse]
  have hcut : splitAtLine text n = (before, inLine ++ back) := rfl
  rw [hcut]
  refine ⟨?_, ?_, inLine, back, rfl, ?_, ?_, ?_⟩
  · rw [← List.append_assoc, hfront]
    exact (splitAtByte_append n text).symm
  · cases hrest : front.reverse.dropWhile (· != '\n') with
    | nil => exact Or.inl (by simp [before, hrest])
    | cons c cs =>
        have hc : c = '\n' := by
          have hhead := List.head?_dropWhile_not (· != '\n') front.reverse
          rw [hrest] at hhead
          simpa using hhead
        exact Or.inr (by simp [before, hrest, hc])
  · intro hmem
    have hall := List.all_eq_true.mp List.all_takeWhile _ (List.mem_reverse.mp hmem)
    simp at hall
  · rw [hfront]
    exact byteSize_splitAtByte n text
  · rw [hfront]

/-- The rest of a line reaches to the line end before it. -/
theorem CutsLine.prefix_eq {text before before' line line' : List Char} {n : Nat}
    (h : CutsLine text n before line) (h' : CutsLine text n before' line')
    (hle : before.length ≤ before'.length) : before = before' := by
  obtain ⟨front, back, -, hfront, -, hcut⟩ := h.reaches
  obtain ⟨front', back', -, -, -, hcut'⟩ := h'.reaches
  have heq : before ++ front = before' ++ front' := congrArg Prod.fst (hcut.symm.trans hcut')
  obtain ⟨more, hmore, hrest⟩ : ∃ more, before' = before ++ more ∧ front = more ++ front' := by
    rcases List.append_eq_append_iff.mp heq with ⟨more, hbefore, hrest⟩ | ⟨more, hbefore, hrest⟩
    · exact ⟨more, hbefore, hrest⟩
    · obtain rfl : more = [] := by
        rw [hbefore, List.length_append] at hle
        exact List.eq_nil_of_length_eq_zero (by omega)
      exact ⟨[], by simpa using hbefore.symm, by simpa using hrest.symm⟩
  cases hlast : more.getLast? with
  | none => simpa [List.getLast?_eq_none_iff.mp hlast] using hmore.symm
  | some c =>
      have hends : before'.getLast? = some c := by rw [hmore, List.getLast?_append, hlast]; rfl
      rcases h'.starts with hnil | hline
      · simp [hnil] at hends
      · obtain rfl : c = '\n' := Option.some.inj (hends.symm.trans hline)
        exact absurd (hrest ▸ List.mem_append_left _ (List.mem_of_getLast? hlast)) hfront

/-- A byte lies on one line. -/
theorem CutsLine.unique {text before before' line line' : List Char} {n : Nat}
    (h : CutsLine text n before line) (h' : CutsLine text n before' line') :
    before = before' ∧ line = line' := by
  obtain rfl : before = before' := (Nat.le_total before.length before'.length).elim
    (h.prefix_eq h') fun hle => (h'.prefix_eq h hle).symm
  exact ⟨rfl, List.append_cancel_left (h.whole.symm.trans h'.whole)⟩

/-- The blanks that a line starts with. -/
def indentation (line : List Char) : List Char := line.takeWhile fun c => c == ' ' || c == '\t'

/-- The line that is put in above `line`, without its end. -/
def commentLine (note : String) (line : List Char) : List Char :=
  indentation line ++ (commentTag ++ " " ++ note).toList

/-- A comment on a note without line ends is one line. -/
theorem newLine_notMem_commentLine {note : String} (hnote : '\n' ∉ note.toList)
    (line : List Char) : '\n' ∉ commentLine note line := by
  have hindent : '\n' ∉ indentation line := by
    intro hmem
    have hall := List.all_eq_true.mp List.all_takeWhile _ hmem
    simp at hall
  have htag : '\n' ∉ commentTag.toList := by decide
  simp [commentLine, hindent, htag, hnote]

theorem apply_injectComment {text : List Char} {n : Nat} {note : String} {e : Edit}
    (h : injectComment text n note = some e) :
    e.apply text = (splitAtLine text n).1 ++ (commentLine note (splitAtLine text n).2 ++ ['\n']) ++
      (splitAtLine text n).2 := by
  unfold injectComment at h
  dsimp only at h
  split at h
  · exact absurd h (by simp)
  · obtain ⟨before, line, hcut⟩ : ∃ before line, splitAtLine text n = (before, line) := ⟨_, _, rfl⟩
    have hwhole : text = before ++ line := by
      have := (cutsLine_splitAtLine text n).whole
      rwa [hcut] at this
    rw [← Option.some.inj h, hcut]
    simp only [hwhole, apply_insert]
    simp [commentLine, indentation]

/-! ### Comments between tokens -/

/-- A line without the blanks that it starts with. -/
def unindented (line : List Char) : List Char := line.dropWhile fun c => c == ' ' || c == '\t'

theorem indentation_append (line : List Char) : indentation line ++ unindented line = line :=
  List.takeWhile_append_dropWhile

/-- No token goes on from the one text into the other: the first is a sequence of whole tokens, and the
second starts with a word. -/
structure IsBetweenTokens (before line : List Char) : Prop where
  above : before = [] ∨ Syntax.Tokens before
  starts : Syntax.StartsWord (unindented line)
  reads : 0 < (Syntax.Token.read (unindented line)).2
  noQuote : Syntax.Quote.at? (unindented line) = none

/-- The place at which the comment on `note` goes in. -/
def commentPlace {before line : List Char} {note : String} (h : IsBetweenTokens before line)
    (hnote : ∀ c ∈ note.toList, c ≠ '\n' ∧ c ≠ Syntax.nul) : Syntax.CommentPlace where
  before := before
  indent := indentation line
  note := (commentTag ++ " " ++ note).toList.tail
  word := unindented line
  above := h.above
  blanks c hc := by
    have hblank := List.all_eq_true.mp List.all_takeWhile _ hc
    simpa using hblank
  inLine c hc := by
    have htag : (commentTag ++ " ").toList.all (fun c => c != '\n' && c != Syntax.nul) = true := rfl
    rw [String.toList_append] at hc
    rcases List.mem_append.mp (List.mem_of_mem_tail hc) with hc | hc
    · simpa using List.all_eq_true.mp htag c hc
    · exact hnote c hc
  starts := h.starts
  reads := h.reads
  noQuote := h.noQuote

/-- Nothing but statements and blocks of the source goes on over byte `n`. -/
def IsDivided (source : String) (n : Nat) : Prop :=
  ∃ tree, Syntax.parse source = .ok tree ∧ Syntax.Tree.areDivided n .lines tree.children = true

/-- The tree of `output` has the comment on `note` in it, where the line that is put in above `line`
has it. -/
def IsComment (output : String) (before line : List Char) (note : String) : Prop :=
  ∃ tree c, Syntax.parse output = .ok tree ∧ Syntax.Tree.Holds c tree ∧ c.kind = .comment ∧
    c.span.start = byteSize (before ++ indentation line) ∧
    c.span.text output.toList = commentTag ++ " " ++ note

section

variable {before line : List Char} {note source output : String} (h : IsBetweenTokens before line)
  (hnote : ∀ c ∈ note.toList, c ≠ '\n' ∧ c ≠ Syntax.nul)

theorem comment_commentPlace :
    (commentPlace h hnote).comment = (commentTag ++ " " ++ note).toList := by
  have htag : (commentTag ++ " " ++ note).toList =
      '#' :: (commentTag ++ " " ++ note).toList.tail := by
    rw [String.toList_append, String.toList_append]
    rfl
  exact htag.symm

theorem source_commentPlace : (commentPlace h hnote).source = before ++ line := by
  show before ++ (indentation line ++ unindented line) = _
  rw [indentation_append]

theorem outcome_commentPlace :
    (commentPlace h hnote).outcome = before ++ (commentLine note line ++ ['\n']) ++ line := by
  show before ++ (indentation line ++ (commentPlace h hnote).comment ++ ['\n']) ++
    (indentation line ++ unindented line) = _
  rw [indentation_append, comment_commentPlace]
  rfl

variable (hsource : source.toList = before ++ line)
  (houtput : output.toList = before ++ (commentLine note line ++ ['\n']) ++ line)

include h hnote hsource houtput

/-- **A line between whole tokens is a comment.** -/
theorem isComment_of_isBetweenTokens {tree tree' : Syntax.Tree} (ht : Syntax.parse source = .ok tree)
    (ht' : Syntax.parse output = .ok tree') : IsComment output before line note := by
  let i := commentPlace h hnote
  have hmoved := Syntax.CommentPlace.isMoved_parse (i := i)
    (hsource.trans (source_commentPlace h hnote).symm)
    (houtput.trans (outcome_commentPlace h hnote).symm) ht ht'
  refine ⟨tree', i.leaf, ht', hmoved.holds Nat.one_pos, rfl, ?_, ?_⟩
  · exact Syntax.byte_placeBehind _
  · have hspan : i.leaf.span.start = byteSize (before ++ indentation line) ∧
        i.leaf.span.stop = byteSize (before ++ indentation line ++ i.comment) :=
      ⟨Syntax.byte_placeBehind _, Syntax.byte_placeBehind _⟩
    have htext : output.toList = before ++ indentation line ++ i.comment ++ ('\n' :: line) := by
      rw [houtput, comment_commentPlace]
      simp [commentLine]
    rw [Span.text, hspan.1, hspan.2, htext, sliceBytes_append, comment_commentPlace,
      String.ofList_toList]

/-- **A comment between statements leaves the skeleton as it was.** -/
theorem skeleton_of_isBetweenTokens {tree tree' : Syntax.Tree} (ht : Syntax.parse source = .ok tree)
    (ht' : Syntax.parse output = .ok tree')
    (hdivided : Syntax.Tree.areDivided (byteSize before) .lines tree.children = true)
    (path : Path) (name : String) :
    (Module.ofTree path name output tree').skeleton = (Module.ofTree path name source tree).skeleton :=
  Syntax.CommentPlace.skeleton_outcome (i := commentPlace h hnote)
    (hsource.trans (source_commentPlace h hnote).symm)
    (houtput.trans (outcome_commentPlace h hnote).symm) ht ht' hdivided path name

end

end Edit

namespace Plan

/-! ### Comment plans -/

/-- **Where a comment goes.**  A comment plan that is carried out leaves the text as it was, or puts
one whole line in above the line on which its anchor starts, and leaves a module.  The new line is a
comment of that module if it lies between tokens, and if it lies between statements as well, the
skeleton is as it was. -/
theorem comment_takes_line (path : Path) (source output note : String) (anchor : Anchor)
    (hnote : '\n' ∉ note.toList)
    (h : applyAll path source [.injectComment anchor note] = .ok output) :
    Syntax.isValid output = true ∧
      (output = source ∨ ∃ m span before line,
        Module.parse source path "" = .ok m ∧ Edit.anchorSpan? m anchor = some span ∧
        Edit.CutsLine source.toList span.start before line ∧
        '\n' ∉ Edit.commentLine note line ∧
        output.toList = before ++ (Edit.commentLine note line ++ ['\n']) ++ line ∧
        (Syntax.nul ∉ note.toList → Edit.IsBetweenTokens before line →
          Edit.IsComment output before line note ∧
          (Edit.IsDivided source (byteSize before) →
            ∃ m', Module.parse output path "" = .ok m' ∧ m'.skeleton = m.skeleton))) := by
  have hvalid := isValid_of_applyAll h
  refine ⟨hvalid, ?_⟩
  obtain ⟨m, hm, ⟨-, hsame⟩ | ⟨e, hedit, hout, -⟩⟩ := applyTo_eq_ok (applyTo_of_applyAll h)
  · exact Or.inl hsame
  cases asks_of_edit? hedit with
  | @injectComment _ _ span hspan hinject =>
      have hcuts := Edit.cutsLine_splitAtLine source.toList span.start
      have houtput := hout.trans (Edit.apply_injectComment hinject)
      refine Or.inr ⟨m, span, _, _, hm, hspan, hcuts, Edit.newLine_notMem_commentLine hnote _,
        houtput, fun hnul hbetween => ?_⟩
      have hplain : ∀ c ∈ note.toList, c ≠ '\n' ∧ c ≠ Syntax.nul := fun c hc =>
        ⟨fun hline => hnote (hline ▸ hc), fun hnull => hnul (hnull ▸ hc)⟩
      obtain ⟨tree, ht, rfl⟩ := Module.parse_eq_ok hm
      obtain ⟨tree', ht'⟩ := Syntax.exists_parse hvalid
      refine ⟨Edit.isComment_of_isBetweenTokens hbetween hplain hcuts.whole houtput ht ht', ?_⟩
      rintro ⟨_, hparse, hdivided⟩
      obtain rfl := Except.ok.inj (hparse.symm.trans ht)
      have hskeleton := Edit.skeleton_of_isBetweenTokens hbetween hplain hcuts.whole houtput ht ht'
        hdivided path ""
      exact ⟨_, Module.parse_of_tree ht' path "", hskeleton⟩

/-- An import behind a literal that ends on its line. -/
def behindLiteral : String := "s = \"\"\"\nabc\"\"\"; import infrastructure.db\n"

/-- An import below a docstring. -/
def belowDocstring : String := "\"\"\"Layers.\"\"\"\n\nimport os\n"

/-- The docstring with the lines down to the import, and the import. -/
def docstringLines : List Char := "\"\"\"Layers.\"\"\"\n\n".toList

def importLine : List Char := "import os\n".toList

theorem isBetweenTokens_docstringLines : Edit.IsBetweenTokens docstringLines importLine where
  above := by
    have hplain : Syntax.Quote.IsPlainText ⟨'"', true, false, false, false⟩ "Layers.".toList :=
      ⟨by decide, by decide, by decide, nofun⟩
    have hliteral : Syntax.IsLiteral ("\"\"\"".toList ++ ("Layers.".toList ++ "\"\"\"".toList)) :=
      Syntax.isLiteral_of_isPlainText (Or.inl rfl) rfl hplain (by decide) fun rest => rfl
    exact Or.inr (.literal hliteral (.blank rfl .lineEnd))
  starts := ⟨'i', "mport os\n".toList, rfl, ⟨rfl, by decide, by decide, by decide⟩⟩
  reads := by decide +kernel
  noQuote := by decide +kernel

theorem isDivided_belowDocstring : Edit.IsDivided belowDocstring (byteSize docstringLines) := by
  have hdivided : (Syntax.parse belowDocstring).toOption.any
      (fun tree => Syntax.Tree.areDivided (byteSize docstringLines) .lines tree.children) = true := by
    decide +kernel
  unfold Edit.IsDivided
  cases htree : Syntax.parse belowDocstring with
  | ok tree => exact ⟨tree, rfl, by simpa [htree, Except.toOption] using hdivided⟩
  | error => simp [htree, Except.toOption] at hdivided

/-- Where the import starts. -/
theorem anchorSpan?_belowDocstring {m : Module} {span : Span}
    (hm : Module.parse belowDocstring "a.py" "" = .ok m)
    (hspan : Edit.anchorSpan? m (.module "os") = some span) :
    span.start = byteSize docstringLines := by
  have hstart : (Module.parse belowDocstring "a.py" "").toOption.bind
      (fun m => (Edit.anchorSpan? m (.module "os")).map (·.start)) = some (byteSize docstringLines) := by
    decide +kernel
  simpa [hm, hspan, Except.toOption] using hstart

/-- Behind the literal the comment is put in, but it becomes a part of the literal: no statement of
the outcome is a comment.  Below the docstring it is a comment, and the skeleton stays. -/
theorem comment_runs :
    (∃ output m, applyAll "a.py" behindLiteral [.injectComment (.module "infrastructure.db") "why"] =
        .ok output ∧ output ≠ behindLiteral ∧ Module.parse output "a.py" "" = .ok m ∧
        m.body.any Stmt.isComment = false) ∧
      ∃ output m m', applyAll "a.py" belowDocstring [.injectComment (.module "os") "why"] =
          .ok output ∧ output ≠ belowDocstring ∧ Edit.IsComment output docstringLines importLine "why" ∧
        Module.parse belowDocstring "a.py" "" = .ok m ∧ Module.parse output "a.py" "" = .ok m' ∧
        m'.skeleton = m.skeleton := by
  refine ⟨?_, ?_⟩
  · let output := "s = \"\"\"\n# archfix: why\nabc\"\"\"; import infrastructure.db\n"
    have happly : applyAll "a.py" behindLiteral [.injectComment (.module "infrastructure.db") "why"] =
        .ok output := eq_ok_of_toOption (by decide +kernel)
    have hnone : (Module.parse output "a.py" "").toOption.map (·.body.any Stmt.isComment) =
        some false := by
      decide +kernel
    obtain ⟨m, hm⟩ := Module.exists_parse (isValid_of_applyAll happly) "a.py" ""
    exact ⟨output, m, happly, by decide, hm, by simpa [hm, Except.toOption] using hnone⟩
  · let output := "\"\"\"Layers.\"\"\"\n\n# archfix: why\nimport os\n"
    have happly : applyAll "a.py" belowDocstring [.injectComment (.module "os") "why"] =
        .ok output := eq_ok_of_toOption (by decide +kernel)
    have hchanged : output ≠ belowDocstring := by decide
    obtain ⟨-, hsame | ⟨m, span, before, line, hm, hspan, hcut, -, -, hcomment⟩⟩ :=
      comment_takes_line "a.py" belowDocstring output "why" (.module "os") (by decide) happly
    · exact absurd hsame hchanged
    · rw [anchorSpan?_belowDocstring hm hspan] at hcut
      have hcuts : Edit.CutsLine belowDocstring.toList (byteSize docstringLines) docstringLines
          importLine :=
        Edit.cutsLine_splitAtLine belowDocstring.toList (byteSize docstringLines)
      obtain ⟨rfl, rfl⟩ := hcut.unique hcuts
      obtain ⟨hcomment, hskeleton⟩ := hcomment (by decide) isBetweenTokens_docstringLines
      obtain ⟨m', hm', hskeleton⟩ := hskeleton isDivided_belowDocstring
      exact ⟨output, m, m', happly, hchanged, hcomment, hm, hm', hskeleton⟩

end Plan

end Plumbline
