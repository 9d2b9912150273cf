/-
Failures are counted line by line.

The end of what a test command writes is looked at as one text: its last lines, last first, joined by
line ends.  A line end is neither a digit nor a blank nor part of a word, so it closes every word and no
count reaches over it (`counts_append_newLine`).  Hence the counts of a joined text are those of its
lines, one after the other (`counts_intercalate`), and their sum is the same in whatever order the lines
stand.
-/
import Mathlib.Algebra.GroupWithZero.Nat
import Plumbline.Remedy.TestRun
import Plumbline.Proofs.Text.Slice

namespace Plumbline

namespace FailureCount

theorem not_isWordChar_newLine : isWordChar '\n' = false := by decide

theorem not_isDecimalDigit_newLine : isDecimalDigit '\n' = false := by decide

theorem counts_cons (inWord : Bool) (c : Char) (cs : List Char) :
    counts inWord (c :: cs) =
      (if inWord then [] else (countAt? (c :: cs)).toList) ++ counts (isWordChar c) cs := by
  rw [counts]
  by_cases h : inWord = true
  · simp [h]
  · simp [h]

/-! ### Counts next to a line end -/

/-- A line end behind a text changes nothing about the word it starts with. -/
theorem startsWithWord_append_newLine {word : List Char} (h : '\n' ∉ word) (cs more : List Char) :
    startsWithWord word (cs ++ '\n' :: more) = startsWithWord word cs := by
  by_cases hword : word <+: cs
  · obtain ⟨rest, rfl⟩ := hword
    have hstrip : Text.stripPrefix? word (word ++ rest) = some rest :=
      Text.stripPrefix?_eq_some_iff.mpr rfl
    have hstrip' : Text.stripPrefix? word (word ++ rest ++ '\n' :: more) =
        some (rest ++ '\n' :: more) :=
      Text.stripPrefix?_eq_some_iff.mpr (List.append_assoc ..)
    unfold startsWithWord
    rw [hstrip, hstrip']
    cases rest with
    | nil => exact Bool.not_eq_true' _ ▸ not_isWordChar_newLine
    | cons c rest => rfl
  · have hword' : ¬ word <+: cs ++ '\n' :: more := by
      intro hlong
      rcases List.prefix_or_prefix_of_prefix hlong (List.prefix_append cs ('\n' :: more)) with
        hshort | ⟨rest, rfl⟩
      · exact hword hshort
      · -- The word goes on where the text has ended, and the next character is the line end.
        cases rest with
        | nil => exact hword (by simp)
        | cons c rest =>
            obtain rfl : c = '\n' :=
              (List.cons_prefix_cons.mp ((List.prefix_append_right_inj cs).mp hlong)).1
            exact h (by simp)
    unfold startsWithWord
    rw [Text.stripPrefix?_eq_none_iff.mpr hword, Text.stripPrefix?_eq_none_iff.mpr hword']

/-- **A count does not reach over a line end.** -/
theorem countAt?_append_newLine (cs more : List Char) :
    countAt? (cs ++ '\n' :: more) = countAt? cs := by
  have htake : (cs ++ '\n' :: more).takeWhile isDecimalDigit = cs.takeWhile isDecimalDigit := by
    rw [List.takeWhile_append, List.takeWhile_cons_of_neg (by simp [not_isDecimalDigit_newLine])]
    split
    · rename_i hall
      rw [List.append_nil]
      exact ((List.takeWhile_prefix _).eq_of_length hall).symm
    · rfl
  have hfails : ∀ rest, failureWords.any (startsWithWord · (rest ++ '\n' :: more)) =
      failureWords.any (startsWithWord · rest) := by
    intro rest
    rw [Bool.eq_iff_iff, List.any_eq_true, List.any_eq_true]
    refine exists_congr fun word => and_congr_right fun hmem => ?_
    have hword : ∀ word ∈ failureWords, '\n' ∉ word := by decide
    rw [startsWithWord_append_newLine (hword word hmem)]
  unfold countAt?
  rw [htake, List.dropWhile_append]
  cases hrest : cs.dropWhile isDecimalDigit with
  | nil =>
      rw [List.dropWhile_cons_of_neg (by simp [not_isDecimalDigit_newLine])]
      rfl
  | cons c rest =>
      by_cases hblank : c = ' '
      · subst hblank
        simp [hfails]
      · simp [hblank]

/-- **The counts of two texts with a line end between them are those of the one and of the other.** -/
theorem counts_append_newLine (inWord : Bool) (cs more : List Char) :
    counts inWord (cs ++ '\n' :: more) = counts inWord cs ++ counts false more := by
  induction cs generalizing inWord with
  | nil =>
      have hnone : countAt? ('\n' :: more) = none := countAt?_append_newLine [] more
      rw [List.nil_append, counts_cons, hnone, not_isWordChar_newLine]
      by_cases h : inWord = true
      · simp [h, counts]
      · simp [h, counts]
  | cons c cs ih =>
      have hcount : countAt? (c :: (cs ++ '\n' :: more)) = countAt? (c :: cs) :=
        countAt?_append_newLine (c :: cs) more
      rw [List.cons_append, counts_cons, counts_cons, hcount, ih, List.append_assoc]

/-- The counts of joined lines are those of the lines. -/
theorem counts_intercalate (lines : List (List Char)) :
    counts false (['\n'].intercalate lines) = lines.flatMap (counts false) := by
  induction lines with
  | nil => rfl
  | cons line rest ih =>
      by_cases hrest : rest = []
      · subst hrest
        simp
      · have happ := Text.intercalate_append (List.cons_ne_nil line []) hrest '\n'
        rw [List.singleton_append, List.intercalate_singleton] at happ
        rw [happ, counts_append_newLine, ih, List.flatMap_cons]

theorem total?_eq (cs : List Char) :
    total? cs = if counts false cs = [] then none else some (counts false cs).sum := by
  unfold total?
  cases counts false cs with
  | nil => rfl
  | cons n ns => simp [List.sum]

/-- The sum of the totals of some lines, if a line has one. -/
def sumOfTotals? (lines : List (List Char)) : Option Nat :=
  if lines.all fun line => (total? line).isNone then none
  else some (lines.filterMap total?).sum

/-- Adding up line by line is adding up all counts. -/
theorem sumOfTotals?_eq (lines : List (List Char)) :
    sumOfTotals? lines =
      if lines.flatMap (counts false) = [] then none
      else some (lines.flatMap (counts false)).sum := by
  have hnone : ∀ line : List Char, (total? line).isNone = true ↔ counts false line = [] := by
    intro line
    rw [total?_eq]
    by_cases h : counts false line = []
    · simp [h]
    · simp [h]
  have hsum : (lines.filterMap total?).sum = (lines.flatMap (counts false)).sum := by
    induction lines with
    | nil => rfl
    | cons line rest ih =>
        rw [List.filterMap_cons, List.flatMap_cons, List.sum_append, ← ih, total?_eq]
        by_cases h : counts false line = []
        · simp [h]
        · simp [h]
  unfold sumOfTotals?
  rw [hsum]
  simp only [List.all_eq_true, hnone, List.flatMap_eq_nil_iff]

end FailureCount

namespace TestRun

open FailureCount

/-- The last lines of a text, in their order. -/
def lastLines (text : List Char) : List (List Char) :=
  (Text.lines text).drop ((Text.lines text).length - tailLength)

theorem tail_eq (text : List Char) : tail text = ['\n'].intercalate (lastLines text).reverse := by
  unfold tail lastLines
  rw [List.take_reverse]

/-- The counts in the end of a text are those of its last lines, in another order. -/
theorem counts_tail_perm (text : List Char) :
    (counts false (tail text)).Perm ((lastLines text).flatMap (counts false)) := by
  rw [tail_eq, counts_intercalate]
  exact (List.reverse_perm _).flatMap_right _

/-- **The number that is read off the end of a text is the sum over its last lines.** -/
theorem total?_tail (text : List Char) : total? (tail text) = sumOfTotals? (lastLines text) := by
  have hperm := counts_tail_perm text
  have hnil : counts false (tail text) = [] ↔ (lastLines text).flatMap (counts false) = [] := by
    rw [← List.length_eq_zero_iff, ← List.length_eq_zero_iff, hperm.length_eq]
  rw [total?_eq, sumOfTotals?_eq, hperm.sum_nat]
  simp only [hnil]

/-- **What a test command writes is counted line by line.**  The number of failures in the end of a text
is the sum of the numbers in its last lines, and there is none exactly if none of these lines has one;
the order in which the lines are read makes no difference.  So it is for both outputs of a command that
has come to its end: they have the counts of the one and of the other, and the sum over the last lines of
both decides what the run tells. -/
theorem failures_counted_by_line :
    (∀ text : List Char,
      (counts false (tail text)).Perm ((lastLines text).flatMap (counts false)) ∧
      total? (tail text) = sumOfTotals? (lastLines text)) ∧
    ∀ (code : Int) (out err : String),
      let text := (ToolRun.ended code out err).combined.toList
      counts false text = counts false out.toList ++ counts false err.toList ∧
      outcome (.ended code out err) =
        match sumOfTotals? (lastLines text) with
        | some failures => .completed failures
        | none =>
          if isGoodCode code then .completed 0
          else .unavailable
            ("test command exited with " ++ toString code ++ " without a failure summary") := by
  refine ⟨fun text => ⟨counts_tail_perm text, total?_tail text⟩, fun code out err => ⟨?_, ?_⟩⟩
  · have hlist : (ToolRun.ended code out err).combined.toList =
        out.toList ++ '\n' :: err.toList := by
      simp [ToolRun.combined, ToolRun.out, ToolRun.err]
    rw [hlist, counts_append_newLine]
  · rw [← total?_tail]
    cases htotal : total? (tail (ToolRun.ended code out err).combined.toList) with
    | none => simp only [outcome, htotal]
    | some failures => simp only [outcome, htotal]

end TestRun

end Plumbline
