/-
Words and line ends.

No word goes on from one line to the next, so it is read the same whatever follows its line: a line
end stops a reader of words where the end of the text does.  Only a joined line takes a line end, and
that is seen from the characters up to it.
-/
import Mathlib.Data.List.TakeWhile
import Mathlib.Tactic.SplitIfs
import Plumbline.Syntax.Layout

namespace Plumbline.Syntax

namespace Token

variable {line rest : List Char}

/-! ### Numbers and names at a line end -/

theorem takeWhile_line {p : Char → Bool} (hp : p '\n' = false) (line rest : List Char) :
    (line ++ '\n' :: rest).takeWhile p = line.takeWhile p := by
  induction line with
  | nil => simp [hp]
  | cons c cs ih => simp [List.takeWhile_cons, ih]

theorem runLength_line {p : Char → Bool} (hp : p '\n' = false) (line rest : List Char) :
    runLength p (line ++ '\n' :: rest) = runLength p line := by
  rw [runLength, takeWhile_line hp, runLength]

theorem drop_line {n : Nat} (h : n ≤ line.length) (rest : List Char) :
    (line ++ '\n' :: rest).drop n = line.drop n ++ '\n' :: rest :=
  List.drop_append_of_le_length h

theorem digitGroups_le (cs : List Char) : digitGroups cs ≤ cs.length := by
  induction cs using digitGroups.induct with
  | case1 => exact Nat.le_refl 0
  | case2 c cs hc ih => simp [digitGroups, hc]; omega
  | case3 c cs hc => simp [digitGroups, hc]
  | case4 c cs hnot hc ih => rw [digitGroups.eq_3 _ _ hnot, if_pos hc]; simp; omega
  | case5 c cs hnot hc => rw [digitGroups.eq_3 _ _ hnot, if_neg hc]; omega

theorem digitGroups_line (line rest : List Char) :
    digitGroups (line ++ '\n' :: rest) = digitGroups line := by
  have hend : ∀ rest, digitGroups ('\n' :: rest) = 0 := fun rest => by
    have hlone : ('\n' : Char).isDigit = false := by decide
    rw [digitGroups.eq_def]
    split
    · rfl
    · rename_i heq
      rw [← (List.cons.inj heq).1, hlone]
      rfl
    · rename_i heq
      rw [← (List.cons.inj heq).1, hlone]
      rfl
  induction line using digitGroups.induct with
  | case1 => exact hend rest
  | case2 c cs hc ih => simp [digitGroups, hc, ih]
  | case3 c cs hc => simp [digitGroups, hc]
  | case4 c cs hnot hc ih =>
      rw [List.cons_append, digitGroups.eq_3 _ _ hnot, if_pos hc, digitGroups.eq_3, if_pos hc, ih]
      cases cs <;> simp_all
  | case5 c cs hnot hc =>
      rw [List.cons_append, digitGroups.eq_3 _ _ hnot, if_neg hc, digitGroups.eq_3, if_neg hc]
      cases cs <;> simp_all

theorem baseGroups_le (p : Char → Bool) (cs : List Char) : baseGroups p cs ≤ cs.length := by
  induction cs using baseGroups.induct p with
  | case1 => exact Nat.le_refl 0
  | case2 c cs hc ih => simp [baseGroups, hc]; omega
  | case3 c cs hc => simp [baseGroups, hc]
  | case4 c cs hnot hc ih => rw [baseGroups.eq_3 _ _ _ hnot, if_pos hc]; simp; omega
  | case5 c cs hnot hc => rw [baseGroups.eq_3 _ _ _ hnot, if_neg hc]; omega

theorem baseGroups_line {p : Char → Bool} (hp : p '\n' = false) (hmark : p '_' = false)
    (line rest : List Char) : baseGroups p (line ++ '\n' :: rest) = baseGroups p line := by
  have hnot : ∀ {c : Char} {cs : List Char}, (∀ d ds, c = '_' → cs = d :: ds → False) →
      baseGroups p (c :: (cs ++ '\n' :: rest)) = if p c then 1 + baseGroups p (cs ++ '\n' :: rest)
        else 0 := by
    intro c cs hnot
    by_cases hc : c = '_'
    · subst hc
      cases cs with
      | nil => simp [baseGroups, hp, hmark]
      | cons d ds => exact absurd rfl (hnot d ds rfl)
    · rw [baseGroups.eq_3 _ _ _ fun _ _ h => absurd h hc]
  induction line using baseGroups.induct p with
  | case1 => simp [baseGroups, hp]
  | case2 c cs hc ih => simp [baseGroups, hc, ih]
  | case3 c cs hc => simp [baseGroups, hc]
  | case4 c cs hlone hc ih =>
      rw [List.cons_append, hnot hlone, if_pos hc, baseGroups.eq_3 _ _ _ hlone, if_pos hc, ih]
  | case5 c cs hlone hc =>
      rw [List.cons_append, hnot hlone, if_neg hc, baseGroups.eq_3 _ _ _ hlone, if_neg hc]

theorem optionalMark_le (marks cs : List Char) : optionalMark marks cs ≤ cs.length := by
  cases cs with
  | nil => exact Nat.le_refl 0
  | cons c cs => simp only [optionalMark, List.length_cons]; split <;> omega

theorem optionalMark_line {marks : List Char} (hmarks : marks.contains '\n' = false)
    (line rest : List Char) : optionalMark marks (line ++ '\n' :: rest) = optionalMark marks line := by
  cases line with
  | nil => simp only [List.nil_append, optionalMark, hmarks]; rfl
  | cons c cs => rfl

theorem exponentLength_le (cs : List Char) : exponentLength cs ≤ cs.length := by
  cases cs with
  | nil => exact Nat.le_refl 0
  | cons c cs =>
      have hsign := optionalMark_le ['+', '-'] cs
      have hdigits := digitGroups_le (cs.drop (optionalMark ['+', '-'] cs))
      rw [List.length_drop] at hdigits
      simp only [exponentLength, List.length_cons]
      split
      · split <;> omega
      · omega

theorem exponentLength_line (line rest : List Char) :
    exponentLength (line ++ '\n' :: rest) = exponentLength line := by
  cases line with
  | nil => rfl
  | cons c cs =>
      simp only [List.cons_append, exponentLength]
      rw [optionalMark_line (by decide), drop_line (optionalMark_le _ _), digitGroups_line]

theorem basedLength_line (line rest : List Char) :
    basedLength (line ++ '\n' :: rest) = basedLength line := by
  match line with
  | [] => rfl
  | [c] =>
      by_cases hc : c = '0'
      · subst hc
        rfl
      · simp [basedLength, hc]
  | c :: m :: cs =>
      by_cases hc : c = '0'
      · subst hc
        simp only [List.cons_append, basedLength]
        rw [baseGroups_line (by decide) (by decide), baseGroups_line (by decide) (by decide),
          baseGroups_line (by decide) (by decide)]
        generalize hdigits : (if m = 'x' ∨ m = 'X' then baseGroups isHexDigit cs
          else if m = 'o' ∨ m = 'O' then baseGroups (fun c => '0' ≤ c && c ≤ '7') cs
          else if m = 'b' ∨ m = 'B' then baseGroups (fun c => c == '0' || c == '1') cs
          else 0) = digits
        have hle : digits ≤ cs.length := by
          rw [← hdigits]
          split_ifs
          · exact baseGroups_le _ _
          · exact baseGroups_le _ _
          · exact baseGroups_le _ _
          · exact Nat.zero_le _
        rw [drop_line hle, optionalMark_line (by decide)]
      · simp [basedLength, hc]

theorem integerLength_line (line rest : List Char) :
    integerLength (line ++ '\n' :: rest) = integerLength line := by
  simp only [integerLength]
  rw [basedLength_line, digitGroups_line, drop_line (digitGroups_le _), optionalMark_line (by decide)]

/-- Length of a number with a point or an exponent, without a mark at its end; `whole` digits stand
before the rest of it. -/
def floatDigits (whole : Nat) : List Char → Nat
  | '.' :: more =>
    if whole = 0 ∧ digitGroups more = 0 then 0
    else whole + 1 + digitGroups more + exponentLength (more.drop (digitGroups more))
  | more => if whole = 0 ∨ exponentLength more = 0 then 0 else whole + exponentLength more

theorem floatLength_eq (cs : List Char) :
    floatLength cs =
      if floatDigits (digitGroups cs) (cs.drop (digitGroups cs)) = 0 then 0
      else floatDigits (digitGroups cs) (cs.drop (digitGroups cs)) +
        optionalMark ['j', 'J'] (cs.drop (floatDigits (digitGroups cs) (cs.drop (digitGroups cs)))) := by
  unfold floatLength floatDigits
  rfl

theorem floatDigits_le (whole : Nat) (cs : List Char) :
    floatDigits whole cs ≤ whole + cs.length := by
  unfold floatDigits
  split
  · rename_i more
    have hfraction := digitGroups_le more
    have hexponent := exponentLength_le (more.drop (digitGroups more))
    rw [List.length_drop] at hexponent
    rw [List.length_cons]
    split <;> omega
  · have hexponent := exponentLength_le cs
    split <;> omega

theorem floatDigits_line (whole : Nat) (line rest : List Char) :
    floatDigits whole (line ++ '\n' :: rest) = floatDigits whole line := by
  cases line with
  | nil => simp [floatDigits, exponentLength]
  | cons c cs =>
      by_cases hpoint : c = '.'
      · subst hpoint
        simp only [List.cons_append, floatDigits]
        rw [digitGroups_line, drop_line (digitGroups_le _), exponentLength_line]
      · have hother : ∀ more, floatDigits whole (c :: more) =
            if whole = 0 ∨ exponentLength (c :: more) = 0 then 0
            else whole + exponentLength (c :: more) :=
          fun more => floatDigits.eq_2 _ _ fun _ h => hpoint (List.cons.inj h).1
        rw [List.cons_append, hother, hother, ← List.cons_append, exponentLength_line]

theorem floatLength_line (line rest : List Char) :
    floatLength (line ++ '\n' :: rest) = floatLength line := by
  have hwhole := digitGroups_le line
  have hbody := floatDigits_le (digitGroups line) (line.drop (digitGroups line))
  rw [List.length_drop, Nat.add_sub_cancel' hwhole] at hbody
  rw [floatLength_eq, floatLength_eq, digitGroups_line, drop_line hwhole, floatDigits_line,
    drop_line hbody, optionalMark_line (by decide)]

/-! ### Joined lines, comments and operators at a line end -/

theorem commentLength_line (line rest : List Char) :
    commentLength (line ++ '\n' :: rest) = commentLength line :=
  runLength_line (by decide) line rest

theorem conversionLength_line (line rest : List Char) :
    conversionLength (line ++ '\n' :: rest) = conversionLength line := by
  match line with
  | [] => rfl
  | [c] =>
      by_cases hc : c = '!'
      · subst hc
        rfl
      · simp [conversionLength, hc]
  | c :: d :: cs =>
      by_cases hc : c = '!'
      · subst hc
        rfl
      · simp [conversionLength, hc]

theorem operator?_line (line rest : List Char) :
    operator? (line ++ '\n' :: rest) = operator? line := by
  have hop : ∀ op : List Char, '\n' ∉ op →
      op.isPrefixOf (line ++ '\n' :: rest) = op.isPrefixOf line := by
    intro op
    induction op generalizing line with
    | nil => simp
    | cons d ds ih =>
        intro hd
        cases line with
        | nil =>
            have hne : (d == '\n') = false := by simpa using fun h : d = '\n' => hd (h ▸ List.mem_cons_self)
            simp [List.isPrefixOf, hne]
        | cons c cs => simp_all [List.isPrefixOf]
  have hall : ∀ op ∈ operators, '\n' ∉ op.toList := by decide
  rw [operator?, operator?]
  generalize operators = ops at hall ⊢
  induction ops with
  | nil => rfl
  | cons o ops ih => 
      obtain ⟨ho, hops⟩ := List.forall_mem_cons.mp hall
      rw [List.find?_cons, List.find?_cons, hop o.toList ho, ih hops]

theorem joinLength_line (line rest : List Char) :
    joinLength (line ++ '\n' :: rest) = joinLength (line ++ ['\n']) := by
  match line with
  | [] => rfl
  | c :: cs =>
      by_cases hc : c = '\\'
      · subst hc
        match cs with
        | [] => rfl
        | [d] =>
            by_cases hd : d = '\r'
            · subst hd
              rfl
            · by_cases hend : d = '\n'
              · subst hend
                rfl
              · simp [joinLength, hd]
        | d :: e :: ds =>
            by_cases hd : d = '\r'
            · subst hd
              by_cases he : e = '\n'
              · subst he
                rfl
              · simp [joinLength, he]
            · by_cases hend : d = '\n'
              · subst hend
                rfl
              · simp [joinLength, hd]
      · simp [joinLength, hc]

/-! ### Whole words and string openings -/

/-- A word is read the same whatever follows the end of a line behind its start. -/
theorem read_line (hline : line ≠ []) (rest : List Char) :
    read (line ++ '\n' :: rest) = read (line ++ ['\n']) := by
  obtain ⟨c, cs, rfl⟩ := List.exists_cons_of_ne_nil hline
  simp only [List.cons_append, read]
  rw [← List.cons_append, ← List.cons_append, takeWhile_line (by decide), takeWhile_line (by decide),
    commentLength_line, commentLength_line, joinLength_line _ rest, floatLength_line, floatLength_line,
    integerLength_line, integerLength_line, operator?_line, operator?_line, conversionLength_line,
    conversionLength_line]

end Token

namespace Quote

theorem open?_line (q : Quote) (line rest : List Char) :
    q.open? (line ++ '\n' :: rest) = q.open? line := by
  match line with
  | [] => rfl
  | [c] =>
      match rest with
      | [] => rfl
      | r :: rs =>
          have hne : ¬ ('\n' = c ∧ (c = '"' ∨ c = '\'')) := by
            rintro ⟨rfl, h⟩
            exact absurd h (by decide)
          simp only [open?, List.cons_append, List.nil_append]
          split_ifs <;> simp_all
  | [c, d] =>
      have hne : ¬ ('\n' = c ∧ (c = '"' ∨ c = '\'')) := by
        rintro ⟨rfl, h⟩
        exact absurd h (by decide)
      simp only [open?, List.cons_append, List.nil_append]
      split_ifs <;> simp_all
  | c :: d :: e :: cs => rfl

theorem read?_line (q : Quote) (line rest : List Char) :
    q.read? (line ++ '\n' :: rest) = q.read? line := by
  induction line generalizing q with
  | nil => rfl
  | cons c cs ih =>
      rw [List.cons_append, read?, read?]
      simp only [ih]
      rw [← List.cons_append, open?_line]

/-- A string opening is read the same whatever follows the end of its line. -/
theorem at?_line (line rest : List Char) : at? (line ++ '\n' :: rest) = at? line := read?_line _ line rest

end Quote

end Plumbline.Syntax
