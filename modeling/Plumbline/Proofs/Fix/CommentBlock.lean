/-
Comments that pile up above a line.

A comment is not put in where it stands already, and what counts as standing there is the run of
comment lines right above the line.  An added comment becomes the last line of that run, and the
lines above it stay in the run.  So notes that are put in one after the other each find the ones
before them: every note makes one line at most, all of them are found again afterwards, and without
the added lines the text is as it was (`notes_settle`).
-/
import Mathlib.Data.List.Induction
import Plumbline.Proofs.Files.Paths
import Plumbline.Proofs.Fix.Comment

namespace Plumbline

namespace Text

variable {cs line : List Char}

/-! ### The last line of a text -/

/-- The text is empty or ends with a line end. -/
def EndsLine (cs : List Char) : Prop := cs = [] ∨ cs.getLast? = some '\n'

theorem endsLine_append_newLine (cs : List Char) : EndsLine (cs ++ ['\n']) := by
  simp [EndsLine]

theorem lines_concat_newLine (cs : List Char) :
    lines (cs ++ ['\n']) = (split '\n' cs).map dropReturn := by
  have hsplit : split '\n' (cs ++ ['\n']) = split '\n' cs ++ [[]] := split_append_cons '\n' cs []
  simp [lines, hsplit]

/-- One more line at the end of a text of whole lines. -/
theorem lines_append_line (hcs : EndsLine cs) (hline : '\n' ∉ line) :
    lines (cs ++ (line ++ ['\n'])) = lines cs ++ [dropReturn line] := by
  have hwhole : split '\n' line = [line] := split_of_not_mem hline
  rw [← List.append_assoc, lines_concat_newLine]
  rcases hcs with rfl | hlast
  · rw [List.nil_append, hwhole]
    rfl
  · obtain ⟨front, rfl⟩ := List.getLast?_eq_some_iff.mp hlast
    have hsplit : split '\n' (front ++ ['\n'] ++ line) = split '\n' front ++ split '\n' line := by
      rw [List.append_assoc]
      exact split_append_cons '\n' front line
    rw [hsplit, hwhole, List.map_append, lines_concat_newLine]
    rfl

theorem dropReturn_of_getLast? (h : line.getLast? ≠ some '\r') : dropReturn line = line := by
  unfold dropReturn
  split
  · rename_i rest hrest
    have hlast : line.getLast? = some '\r' := by
      rw [← List.head?_reverse, hrest]
      rfl
    exact absurd hlast h
  · rfl

/-- White space in front is taken off, and nothing else if the rest neither starts nor ends with
white space. -/
theorem trim_append {blanks word : List Char} {first last : Char}
    (hblanks : ∀ c ∈ blanks, isWhiteSpace c = true) (hfirst : word.head? = some first)
    (hfirst' : isWhiteSpace first = false) (hlast : word.getLast? = some last)
    (hlast' : isWhiteSpace last = false) : trim (blanks ++ word) = word := by
  have hstart : trimStart (blanks ++ word) = word := by
    obtain ⟨rest, rfl⟩ := List.head?_eq_some_iff.mp hfirst
    rw [trimStart, List.dropWhile_append_of_pos hblanks]
    exact List.dropWhile_cons_of_neg (by simp [hfirst'])
  obtain ⟨front, rfl⟩ := List.getLast?_eq_some_iff.mp hlast
  rw [trim, hstart, trimEnd, dropEndWhile, List.reverse_append]
  simp [List.dropWhile_cons_of_neg, hlast']

end Text

namespace Edit

open Text (EndsLine)

/-- A note that makes one line: there is something in it, it has no line end, and it does not end
with white space. -/
structure IsNote (note : String) : Prop where
  oneLine : '\n' ∉ note.toList
  ends : ∃ c, note.toList.getLast? = some c ∧ Text.isWhiteSpace c = false

/-- The comment that a note becomes. -/
def commentOf (note : String) : String := commentTag ++ " " ++ note

theorem commentOf_injective {a b : String} (h : commentOf a = commentOf b) : a = b := by
  have hlist := congrArg String.toList h
  simp only [commentOf, String.toList_append] at hlist
  exact String.toList_inj.mp (List.append_cancel_left hlist)

/-! ### The run of comments above a line -/

variable {before line : List Char} {note : String}

theorem head?_commentOf (note : String) : (commentOf note).toList.head? = some '#' := by
  simp [commentOf, commentTag]

theorem isWhiteSpace_of_mem_indentation {c : Char} (hc : c ∈ indentation line) :
    Text.isWhiteSpace c = true := by
  have hblank := List.all_eq_true.mp List.all_takeWhile c hc
  have hcase : c = ' ' ∨ c = '\t' := by simpa using hblank
  rcases hcase with rfl | rfl
  · decide
  · decide

theorem getLast?_commentOf (hnote : IsNote note) :
    ∃ c, (commentOf note).toList.getLast? = some c ∧ Text.isWhiteSpace c = false := by
  obtain ⟨c, hc, hwhite⟩ := hnote.ends
  refine ⟨c, ?_, hwhite⟩
  rw [commentOf, String.toList_append, List.getLast?_append, hc, Option.some_or]

theorem getLast?_commentLine (note : String) (line : List Char) :
    (commentLine note line).getLast? = (commentOf note).toList.getLast? := by
  obtain ⟨rest, hrest⟩ := List.head?_eq_some_iff.mp (head?_commentOf note)
  show (indentation line ++ (commentOf note).toList).getLast? = _
  rw [List.getLast?_append, hrest, List.getLast?_cons]
  rfl

/-- An added line is found as the comment that it is. -/
theorem trim_commentLine (hnote : IsNote note) (line : List Char) :
    Text.trim (Text.dropReturn (commentLine note line)) = (commentOf note).toList := by
  obtain ⟨c, hlast, hwhite⟩ := getLast?_commentOf hnote
  have hreturn : (commentLine note line).getLast? ≠ some '\r' := by
    rw [getLast?_commentLine, hlast]
    rintro ⟨⟩
    exact absurd hwhite (by decide)
  rw [Text.dropReturn_of_getLast? hreturn]
  exact Text.trim_append (fun _ hc => isWhiteSpace_of_mem_indentation hc) (head?_commentOf note)
    (by decide) hlast hwhite

/-- Below an added line that line is found, and all that was found above it. -/
theorem hasComment_append_commentLine (hbefore : EndsLine before) (hnote : IsNote note)
    (line : List Char) (other : String) :
    hasComment (before ++ (commentLine note line ++ ['\n'])) (commentOf other) = true ↔
      other = note ∨ hasComment before (commentOf other) = true := by
  unfold hasComment
  rw [Text.lines_append_line hbefore (newLine_notMem_commentLine hnote.oneLine line),
    List.reverse_concat, List.map_cons, trim_commentLine hnote,
    List.takeWhile_cons_of_pos (by rw [head?_commentOf]; rfl), List.contains_cons,
    Bool.or_eq_true]
  refine or_congr_left ⟨fun h => ?_, fun h => ?_⟩
  · exact commentOf_injective (String.toList_inj.mp (beq_iff_eq.mp h))
  · rw [h, beq_self_eq_true]

/-- The lines that notes become above `line`. -/
def commentBlock (line : List Char) (notes : List String) : List Char :=
  notes.flatMap fun note => commentLine note line ++ ['\n']

theorem commentBlock_concat (line : List Char) (notes : List String) (note : String) :
    commentBlock line (notes ++ [note]) =
      commentBlock line notes ++ (commentLine note line ++ ['\n']) := by
  simp [commentBlock]

theorem endsLine_append_commentBlock (hbefore : EndsLine before) (line : List Char)
    (notes : List String) : EndsLine (before ++ commentBlock line notes) := by
  rcases List.eq_nil_or_concat notes with rfl | ⟨front, note, rfl⟩
  · simpa [commentBlock] using hbefore
  · rw [List.concat_eq_append, commentBlock_concat, ← List.append_assoc, ← List.append_assoc]
    exact Text.endsLine_append_newLine _

/-- Below added lines all of them are found, and all that was found above them. -/
theorem hasComment_append_commentBlock (hbefore : EndsLine before) (line : List Char)
    {notes : List String} (hnotes : ∀ note ∈ notes, IsNote note) (other : String) :
    hasComment (before ++ commentBlock line notes) (commentOf other) = true ↔
      other ∈ notes ∨ hasComment before (commentOf other) = true := by
  induction notes using List.reverseRecOn with
  | nil => simp [commentBlock]
  | append_singleton front note ih =>
      have hfront : ∀ note ∈ front, IsNote note := fun x hx => hnotes x (by simp [hx])
      have hnote : IsNote note := hnotes note (by simp)
      rw [commentBlock_concat, ← List.append_assoc,
        hasComment_append_commentLine (endsLine_append_commentBlock hbefore line front) hnote,
        ih hfront, List.mem_append, List.mem_singleton, or_left_comm, ← or_assoc]

/-! ### The line of a place that moves -/

theorem CutsLine.endsLine {text : List Char} {n : Nat} (h : CutsLine text n before line) :
    EndsLine before := h.starts

/-- There is one way to cut off the line of a byte. -/
theorem CutsLine.splitAtLine {text : List Char} {n : Nat} (h : CutsLine text n before line) :
    splitAtLine text n = (before, line) := by
  obtain ⟨front, back, rfl, hfront, -, hcut⟩ := h.reaches
  unfold Edit.splitAtLine
  rw [hcut]
  have hline : ∀ c ∈ front.reverse, (c != '\n') = true := by
    intro c hc
    rw [bne_iff_ne]
    rintro rfl
    exact hfront (List.mem_reverse.mp hc)
  dsimp only
  rw [List.reverse_append, List.takeWhile_append_of_pos hline, List.dropWhile_append_of_pos hline]
  rcases h.starts with rfl | hlast
  · simp
  · obtain ⟨rest, rfl⟩ := List.getLast?_eq_some_iff.mp hlast
    simp

/-- Whole lines that are put in above a line do not change it, and move all its places by their
length. -/
theorem CutsLine.insert {text : List Char} {n : Nat} (h : CutsLine text n before line)
    {block : List Char} (hblock : EndsLine (before ++ block)) :
    CutsLine (before ++ block ++ line) (n + byteSize block) (before ++ block) line := by
  obtain ⟨front, back, hline, hfront, hle, hcut⟩ := h.reaches
  refine ⟨rfl, hblock, front, back, hline, hfront, ?_, ?_⟩
  · rw [byteSize_append] at hle
    rw [byteSize_append, byteSize_append]
    omega
  · have hbefore : byteSize before ≤ n := by
      rw [byteSize_append] at hle
      omega
    -- What is before the place is cut at the start of the line on both sides.
    have hrest : (splitAtByte (n - byteSize before) line).1 = front := by
      have hsplit := splitAtByte_append_of_le before line hbefore
      rw [← h.whole, hcut] at hsplit
      exact (List.append_cancel_left hsplit).symm
    have hsize : byteSize (before ++ block) ≤ n + byteSize block := by
      rw [byteSize_append]
      omega
    have hmoved : n + byteSize block - byteSize (before ++ block) = n - byteSize before := by
      rw [byteSize_append]
      omega
    have hleft := splitAtByte_append_of_le (before ++ block) line hsize
    rw [hmoved, hrest] at hleft
    refine Prod.ext hleft ?_
    have hwhole := splitAtByte_append (n + byteSize block) (before ++ block ++ line)
    have hsame : before ++ block ++ line = before ++ block ++ front ++ back := by
      rw [hline, ← List.append_assoc]
    rw [hleft, hsame] at hwhole
    rw [hsame]
    exact List.append_cancel_left hwhole

/-! ### Notes one after the other -/

/-- A note is put in at a place of a text, and the place moves on by what is put in. -/
def injectNext (place : List Char × Nat) (note : String) : List Char × Nat :=
  match injectComment place.1 place.2 note with
  | none => place
  | some e => (e.apply place.1, place.2 + byteSize e.replacement.toList)

/-- Notes are put in one after the other at byte `n`. -/
def injectAll (text : List Char) (n : Nat) (notes : List String) : List Char × Nat :=
  notes.foldl injectNext (text, n)

theorem injectAll_concat (text : List Char) (n : Nat) (notes : List String) (note : String) :
    injectAll text n (notes ++ [note]) = injectNext (injectAll text n notes) note := by
  simp [injectAll]

theorem injectComment_eq_none_iff {text : List Char} {n : Nat} (h : CutsLine text n before line) :
    injectComment text n note = none ↔ hasComment before (commentOf note) = true := by
  unfold injectComment
  rw [h.splitAtLine]
  dsimp only
  show (if hasComment before (commentOf note) = true then _ else _) = none ↔ _
  split <;> simp [*]

/-- A note whose comment is not there yet becomes one line. -/
theorem injectComment_eq_some {text : List Char} {n : Nat} (h : CutsLine text n before line)
    (hnew : ¬ hasComment before (commentOf note) = true) :
    injectComment text n note =
      some (insert (byteSize before) (String.ofList (commentLine note line ++ ['\n']))) := by
  unfold injectComment
  rw [h.splitAtLine]
  dsimp only
  show (if hasComment before (commentOf note) = true then _ else _) = _
  rw [if_neg hnew]
  congr 2
  refine String.toList_inj.mp ?_
  simp [commentLine, indentation]

theorem injectNext_of_hasComment {text : List Char} {n : Nat} (h : CutsLine text n before line)
    (hthere : hasComment before (commentOf note) = true) :
    injectNext (text, n) note = (text, n) := by
  unfold injectNext
  rw [(injectComment_eq_none_iff h).mpr hthere]

theorem injectNext_of_not_hasComment {text : List Char} {n : Nat} (h : CutsLine text n before line)
    (hnew : ¬ hasComment before (commentOf note) = true) :
    injectNext (text, n) note = (before ++ (commentLine note line ++ ['\n']) ++ line,
      n + byteSize (commentLine note line ++ ['\n'])) := by
  unfold injectNext
  dsimp only
  rw [injectComment_eq_some h hnew]
  dsimp only
  rw [h.whole, apply_insert, insert, String.toList_ofList]

/-- What has become of a text in which `line` starts the line of byte `n`, when the notes `added`
out of `notes` have become lines. -/
structure HasTaken (before line : List Char) (n : Nat) (notes added : List String)
    (place : List Char × Nat) : Prop where
  text : place.1 = before ++ commentBlock line added ++ line
  moved : place.2 = n + byteSize (commentBlock line added)
  sublist : added.Sublist notes
  nodup : added.Nodup
  /-- Lines are added for the notes whose comments were not there. -/
  fresh : ∀ note ∈ notes, note ∈ added ↔ ¬ hasComment before (commentOf note) = true

/-- What one more note does: its comment is there already, or it becomes one line. -/
theorem HasTaken.step {text : List Char} {n : Nat} {notes added : List String}
    {place : List Char × Nat} (hcut : CutsLine text n before line)
    (hnotes : ∀ note ∈ notes, IsNote note) (h : HasTaken before line n notes added place)
    (note : String) :
    (injectNext place note = place ∧ HasTaken before line n (notes ++ [note]) added place) ∨
    (injectNext place note =
        (before ++ commentBlock line added ++ (commentLine note line ++ ['\n']) ++ line,
          place.2 + byteSize (commentLine note line ++ ['\n'])) ∧
      HasTaken before line n (notes ++ [note]) (added ++ [note]) (injectNext place note)) := by
  have hadded : ∀ note ∈ added, IsNote note := fun x hx => hnotes x (h.sublist.subset hx)
  have hplace : place = (before ++ commentBlock line added ++ line,
      n + byteSize (commentBlock line added)) := Prod.ext h.text h.moved
  have hcut' := hcut.insert (endsLine_append_commentBlock hcut.endsLine line added)
  have hthere := hasComment_append_commentBlock hcut.endsLine line hadded
  by_cases hcomment : hasComment (before ++ commentBlock line added) (commentOf note) = true
  · refine Or.inl ⟨?_, h.text, h.moved, h.sublist.trans (List.sublist_append_left _ _), h.nodup, ?_⟩
    · rw [hplace]
      exact injectNext_of_hasComment hcut' hcomment
    · intro other hother
      rcases List.mem_append.mp hother with hold | hnew
      · exact h.fresh other hold
      · obtain rfl := List.mem_singleton.mp hnew
        rcases (hthere other).mp hcomment with hmem | hbefore
        · exact h.fresh other (h.sublist.subset hmem)
        · refine iff_of_false (fun hmem => ?_) (not_not_intro hbefore)
          exact (h.fresh other (h.sublist.subset hmem)).mp hmem hbefore
  · have hnext : injectNext place note =
        (before ++ commentBlock line added ++ (commentLine note line ++ ['\n']) ++ line,
          place.2 + byteSize (commentLine note line ++ ['\n'])) := by
      rw [hplace]
      exact injectNext_of_not_hasComment hcut' hcomment
    obtain ⟨hunlisted, hunseen⟩ := not_or.mp (mt (hthere note).mpr hcomment)
    refine Or.inr ⟨hnext, ?_, ?_, h.sublist.append (List.Sublist.refl _), ?_, ?_⟩
    · rw [hnext, commentBlock_concat, ← List.append_assoc before]
    · rw [hnext, h.moved, commentBlock_concat, byteSize_append _ (commentLine note line ++ ['\n']),
        Nat.add_assoc]
    · exact List.nodup_append.mpr ⟨h.nodup, by simp, by
        rintro x hx y hy rfl
        exact hunlisted (List.mem_singleton.mp hy ▸ hx)⟩
    · intro other hother
      by_cases hsame : other = note
      · subst hsame
        exact iff_of_true (by simp) hunseen
      · have hold : other ∈ notes := by simpa [hsame] using hother
        simpa [hsame] using h.fresh other hold

/-- What a whole list of notes does. -/
theorem exists_hasTaken {text : List Char} {n : Nat} (hcut : CutsLine text n before line)
    {notes : List String} (hnotes : ∀ note ∈ notes, IsNote note) :
    ∃ added, HasTaken before line n notes added (injectAll text n notes) := by
  induction notes using List.reverseRecOn with
  | nil =>
      refine ⟨[], ?_, rfl, List.Sublist.refl _, List.nodup_nil, by simp⟩
      simpa [injectAll, commentBlock] using hcut.whole
  | append_singleton front note ih =>
      have hfront : ∀ note ∈ front, IsNote note := fun x hx => hnotes x (by simp [hx])
      obtain ⟨added, hadded⟩ := ih hfront
      rw [injectAll_concat]
      rcases hadded.step hcut hfront note with ⟨hsame, h⟩ | ⟨-, h⟩
      · exact ⟨added, by rwa [hsame]⟩
      · exact ⟨added ++ [note], h⟩

/-- **Notes settle.**  Notes are put in at a byte of a text one after the other, and the byte moves
on by what is put in.  Each of them changes nothing or adds one whole line, which is indented like
the line of the byte and lies right above it; without the added lines the text is as it was; and
afterwards none of them is put in again. -/
theorem notes_settle (text : List Char) (n : Nat) {notes : List String}
    (hnotes : ∀ note ∈ notes, IsNote note) :
    ∃ before line added, CutsLine text n before line ∧
      HasTaken before line n notes added (injectAll text n notes) ∧
      (∀ note, '\n' ∉ note.toList → '\n' ∉ commentLine note line) ∧
      (∀ front note rest, notes = front ++ note :: rest →
        injectAll text n (front ++ [note]) = injectAll text n front ∨
        ∃ shown, injectAll text n front =
            (before ++ commentBlock line shown ++ line, n + byteSize (commentBlock line shown)) ∧
          injectAll text n (front ++ [note]) =
            (before ++ commentBlock line shown ++ (commentLine note line ++ ['\n']) ++ line,
              n + byteSize (commentBlock line shown) +
                byteSize (commentLine note line ++ ['\n']))) ∧
      ∀ note ∈ notes,
        injectComment (injectAll text n notes).1 (injectAll text n notes).2 note = none := by
  have hcut := cutsLine_splitAtLine text n
  obtain ⟨added, hadded⟩ := exists_hasTaken hcut hnotes
  refine ⟨_, _, added, hcut, hadded, fun note hnote => newLine_notMem_commentLine hnote _, ?_, ?_⟩
  · rintro front note rest rfl
    have hfront : ∀ note ∈ front, IsNote note := fun x hx => hnotes x (by simp [hx])
    obtain ⟨shown, hshown⟩ := exists_hasTaken hcut hfront
    rw [injectAll_concat]
    rcases hshown.step hcut hfront note with ⟨hsame, -⟩ | ⟨hnext, -⟩
    · exact Or.inl hsame
    · exact Or.inr ⟨shown, Prod.ext hshown.text hshown.moved, by rw [hnext, hshown.moved]⟩
  · intro note hnote
    have hlisted : ∀ note ∈ added, IsNote note := fun x hx => hnotes x (hadded.sublist.subset hx)
    rw [hadded.text, hadded.moved, injectComment_eq_none_iff
      (hcut.insert (endsLine_append_commentBlock hcut.endsLine _ added)),
      hasComment_append_commentBlock hcut.endsLine _ hlisted]
    by_cases hthere : hasComment (splitAtLine text n).1 (commentOf note) = true
    · exact Or.inr hthere
    · exact Or.inl ((hadded.fresh note hnote).mpr hthere)

/-- Three notes, one of them twice, above an indented statement below a comment. -/
theorem notes_settle_above_pass :
    (∀ note ∈ ["why", "how", "why"], IsNote note) ∧
    injectAll "if x:\n\t# archfix: how\n\tpass\n".toList 23 ["why", "how", "why"] =
      ("if x:\n\t# archfix: how\n\t# archfix: why\n\tpass\n".toList, 39) ∧
    injectComment "if x:\n\t# archfix: how\n\t# archfix: why\n\tpass\n".toList 39 "why" = none := by
  have hnotes : ∀ note ∈ ["why", "how", "why"], IsNote note := by
    intro note hnote
    have hcase : note = "why" ∨ note = "how" ∨ note = "why" := by simpa using hnote
    rcases hcase with rfl | rfl | rfl
    · exact ⟨by decide, 'y', by decide, by decide⟩
    · exact ⟨by decide, 'w', by decide, by decide⟩
    · exact ⟨by decide, 'y', by decide, by decide⟩
  have hrun : injectAll "if x:\n\t# archfix: how\n\tpass\n".toList 23 ["why", "how", "why"] =
      ("if x:\n\t# archfix: how\n\t# archfix: why\n\tpass\n".toList, 39) := by decide +kernel
  have hsettled : ∀ place, injectAll "if x:\n\t# archfix: how\n\tpass\n".toList 23
      ["why", "how", "why"] = place → injectComment place.1 place.2 "why" = none := by
    rintro _ rfl
    obtain ⟨-, -, -, -, -, -, -, hnone⟩ := notes_settle _ 23 hnotes
    exact hnone "why" (by simp)
  have hnone := hsettled _ hrun
  exact ⟨hnotes, hrun, hnone⟩

end Edit

end Plumbline
