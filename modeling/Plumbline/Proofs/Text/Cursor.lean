/-
Places in a text.

A text is cut at a byte in one way only, and the parts put together give the text again.  A cursor
stands in a text if the text before it is as long as its offset says, and moving forward keeps that.
-/
import Plumbline.Text.Span

namespace Plumbline

/-! ### Texts cut at a byte -/

theorem splitAtByte_append (n : Nat) (text : List Char) :
    (splitAtByte n text).1 ++ (splitAtByte n text).2 = text := by
  induction text generalizing n with
  | nil => rfl
  | cons c cs ih =>
      unfold splitAtByte
      split
      · rw [List.cons_append, ih]
      · rfl

theorem byteSize_splitAtByte (n : Nat) (text : List Char) :
    byteSize (splitAtByte n text).1 ≤ n := by
  induction text generalizing n with
  | nil => exact Nat.zero_le n
  | cons c cs ih =>
      unfold splitAtByte
      split
      · rename_i hc
        have hrest := ih (n - c.utf8Size)
        show c.utf8Size + byteSize (splitAtByte (n - c.utf8Size) cs).1 ≤ n
        omega
      · exact Nat.zero_le n

/-- A cut at the end of a first part. -/
theorem splitAtByte_byteSize (xs ys : List Char) :
    splitAtByte (byteSize xs) (xs ++ ys) = (xs, ys) := by
  induction xs with
  | nil =>
      cases ys with
      | nil => rfl
      | cons c cs =>
          have hc : ¬ c.utf8Size ≤ 0 := Nat.not_le.mpr c.utf8Size_pos
          show splitAtByte 0 (c :: cs) = ([], c :: cs)
          rw [splitAtByte, if_neg hc]
  | cons c cs ih =>
      have hsize : byteSize (c :: cs) = c.utf8Size + byteSize cs := rfl
      rw [hsize, List.cons_append, splitAtByte, if_pos (Nat.le_add_right _ _),
        Nat.add_sub_cancel_left, ih]

theorem dropBytes_byteSize (xs ys : List Char) : dropBytes (byteSize xs) (xs ++ ys) = ys := by
  rw [dropBytes_eq_splitAtByte_snd, splitAtByte_byteSize]

/-- A cut behind a first part. -/
theorem splitAtByte_append_of_le {n : Nat} (xs ys : List Char) (h : byteSize xs ≤ n) :
    (splitAtByte n (xs ++ ys)).1 = xs ++ (splitAtByte (n - byteSize xs) ys).1 := by
  induction xs generalizing n with
  | nil => rfl
  | cons c cs ih =>
      have hsize : byteSize (c :: cs) = c.utf8Size + byteSize cs := rfl
      rw [hsize] at h ⊢
      rw [List.cons_append, splitAtByte, if_pos (by omega)]
      dsimp only
      rw [ih (by omega), List.cons_append, Nat.sub_add_eq]

/-- A text is cut at a byte in one way. -/
theorem append_inj_of_byteSize {xs ys xs' ys' : List Char} (h : xs ++ ys = xs' ++ ys')
    (hsize : byteSize xs = byteSize xs') : xs = xs' ∧ ys = ys' := by
  have hcut := splitAtByte_byteSize xs ys
  rw [h, hsize, splitAtByte_byteSize] at hcut
  exact ⟨(congrArg Prod.fst hcut).symm, (congrArg Prod.snd hcut).symm⟩

theorem byteSize_append (xs ys : List Char) : byteSize (xs ++ ys) = byteSize xs + byteSize ys := by
  induction xs with
  | nil => exact (Nat.zero_add _).symm
  | cons c cs ih =>
      show c.utf8Size + byteSize (cs ++ ys) = c.utf8Size + byteSize cs + byteSize ys
      rw [ih, Nat.add_assoc]

theorem byteSize_pos {cs : List Char} (h : cs ≠ []) : 0 < byteSize cs := by
  obtain ⟨c, rest, rfl⟩ := List.exists_cons_of_ne_nil h
  exact Nat.lt_of_lt_of_le c.utf8Size_pos (Nat.le_add_right _ (byteSize rest))

/-- The part between two cuts. -/
theorem sliceBytes_append (xs ys zs : List Char) :
    sliceBytes (xs ++ ys ++ zs) (byteSize xs) (byteSize (xs ++ ys)) = ys := by
  unfold sliceBytes
  rw [byteSize_append, Nat.add_sub_cancel_left, List.append_assoc, dropBytes_byteSize,
    splitAtByte_byteSize]

theorem splitAtByte_append_of_ge {n : Nat} (xs ys : List Char) (h : n ≤ byteSize xs) :
    splitAtByte n (xs ++ ys) = ((splitAtByte n xs).1, (splitAtByte n xs).2 ++ ys) := by
  induction xs generalizing n with
  | nil =>
      obtain rfl : n = 0 := Nat.le_zero.mp h
      exact splitAtByte_byteSize [] ys
  | cons c cs ih =>
      rw [List.cons_append, splitAtByte, splitAtByte]
      split
      · have hn : n - c.utf8Size ≤ byteSize cs := by
          have hsize : byteSize (c :: cs) = c.utf8Size + byteSize cs := rfl
          omega
        rw [ih hn]
      · rfl

/-- A stretch of the front of a text. -/
theorem sliceBytes_front {start stop : Nat} (xs ys : List Char) (h : stop ≤ byteSize xs) :
    sliceBytes (xs ++ ys) start stop = sliceBytes xs start stop := by
  unfold sliceBytes
  rw [dropBytes_eq_splitAtByte_snd, dropBytes_eq_splitAtByte_snd]
  by_cases hstart : start ≤ byteSize xs
  · rw [splitAtByte_append_of_ge xs ys hstart]
    have hparts := congrArg byteSize (splitAtByte_append start xs)
    have hfront := byteSize_splitAtByte start xs
    rw [byteSize_append] at hparts
    rw [splitAtByte_append_of_ge _ ys (by omega)]
  · have hnone : ∀ cs, (splitAtByte (stop - start) cs).1 = [] := fun cs => by
      rw [Nat.sub_eq_zero_of_le (by omega)]
      exact congrArg Prod.fst (splitAtByte_byteSize [] cs)
    rw [hnone, hnone]

/-- A stretch of what follows the front of a text. -/
theorem sliceBytes_back (xs ys : List Char) (start stop : Nat) :
    sliceBytes (xs ++ ys) (byteSize xs + start) (byteSize xs + stop) = sliceBytes ys start stop := by
  have hdrop : dropBytes (byteSize xs + start) (xs ++ ys) = dropBytes start ys := by
    induction xs with
    | nil => exact congrArg (dropBytes · ys) (Nat.zero_add start)
    | cons c cs ih =>
        have hsize : byteSize (c :: cs) = c.utf8Size + byteSize cs := rfl
        rw [hsize, List.cons_append, dropBytes, if_pos (by omega), Nat.add_assoc,
          Nat.add_sub_cancel_left, ih]
  unfold sliceBytes
  rw [hdrop, Nat.add_sub_add_left]

theorem sliceBytes_of_le {start stop : Nat} (cs : List Char) (h : stop ≤ start) :
    sliceBytes cs start stop = [] := by
  unfold sliceBytes
  rw [Nat.sub_eq_zero_of_le h]
  exact congrArg Prod.fst (splitAtByte_byteSize [] _)

/-! ### Cursors -/

namespace Cursor

/-- The cursor stands in the text: what lies before it is as long as its offset says. -/
def IsIn (text : List Char) (c : Cursor) : Prop :=
  ∃ before, text = before ++ c.rest ∧ c.pos.byte = byteSize before

variable {text : List Char} {c c' : Cursor}

theorem isIn_ofString (source : String) : (ofString source).IsIn source.toList :=
  ⟨[], rfl, rfl⟩

theorem byte_after (p : Position) (x : Char) : (p.after x).byte = p.byte + x.utf8Size := by
  unfold Position.after
  split
  · rename_i hline
    subst hline
    rfl
  · rfl

theorem rest_advance (n : Nat) (c : Cursor) : (c.advance n).rest = c.rest.drop n := by
  induction n generalizing c with
  | zero => rfl
  | succ n ih =>
      obtain ⟨_ | ⟨x, xs⟩, p⟩ := c
      · rfl
      · exact ih ⟨xs, p.after x⟩

theorem byte_le_advance (n : Nat) (c : Cursor) : c.pos.byte ≤ (c.advance n).pos.byte := by
  induction n generalizing c with
  | zero => exact Nat.le_refl _
  | succ n ih =>
      obtain ⟨_ | ⟨x, xs⟩, p⟩ := c
      · exact Nat.le_refl _
      · have hstep := ih ⟨xs, p.after x⟩
        rw [byte_after] at hstep
        exact Nat.le_trans (Nat.le_add_right _ _) hstep

theorem IsIn.advance (h : c.IsIn text) (n : Nat) : (c.advance n).IsIn text := by
  induction n generalizing c with
  | zero => exact h
  | succ n ih =>
      obtain ⟨_ | ⟨x, xs⟩, p⟩ := c
      · exact h
      · obtain ⟨before, htext, hbyte⟩ := h
        refine ih ⟨before ++ [x], by simpa using htext, ?_⟩
        rw [byte_after, byteSize_append, hbyte]
        rfl

theorem IsIn.length_le (h : c.IsIn text) : c.rest.length ≤ text.length := by
  obtain ⟨before, rfl, -⟩ := h
  simp

theorem IsIn.rest_eq (h : c.IsIn text) : c.rest = dropBytes c.pos.byte text := by
  obtain ⟨before, rfl, hbyte⟩ := h
  rw [hbyte, dropBytes_byteSize]

/-- A cursor that stands behind another one is as far on as what lies between them is long. -/
theorem IsIn.byte_eq {between : List Char} (h : c.IsIn text) (h' : c'.IsIn text)
    (hrest : c.rest = between ++ c'.rest) : c'.pos.byte = c.pos.byte + byteSize between := by
  obtain ⟨before, htext, hbyte⟩ := h
  obtain ⟨before', htext', hbyte'⟩ := h'
  have hbefore : before' = before ++ between := by
    rw [htext, hrest, ← List.append_assoc] at htext'
    exact (List.append_cancel_right htext').symm
  rw [hbyte', hbefore, byteSize_append, hbyte]

/-- Of two cursors in a text, the one with the smaller offset has the more before it. -/
theorem IsIn.exists_between (h : c.IsIn text) (h' : c'.IsIn text) (hle : c.pos.byte ≤ c'.pos.byte) :
    ∃ before between, text = before ++ between ++ c'.rest ∧ c.rest = between ++ c'.rest ∧
      c.pos.byte = byteSize before ∧ c'.pos.byte = byteSize (before ++ between) := by
  obtain ⟨before, rfl, hbyte⟩ := h
  obtain ⟨before', htext, hbyte'⟩ := h'
  rcases List.append_eq_append_iff.mp htext with ⟨between, rfl, hrest⟩ | ⟨between, rfl, hrest⟩
  · exact ⟨before, between, by rw [hrest, List.append_assoc], hrest, hbyte, hbyte'⟩
  · have hsize : byteSize between = 0 := by
      rw [byteSize_append] at hbyte
      omega
    have hnil : between = [] := by
      cases between with
      | nil => rfl
      | cons x xs => exact absurd hsize (Nat.ne_of_gt (byteSize_pos (List.cons_ne_nil x xs)))
    subst hnil
    refine ⟨before', [], ?_, ?_, ?_, ?_⟩
    · simpa using htext
    · simpa using hrest.symm
    · simpa using hbyte
    · simpa using hbyte'

end Cursor

end Plumbline
