/-
How a text is cut.

What the functions that cut a text answer is told here by what the pieces are put together to: a
prefix or a suffix that is taken off stood there, and the texts between separators, joined by the
separator, are the text again (`intercalate_split`).  So a text stands between two separators exactly
if the separators stand around it in the whole (`mem_dropLast_split_iff`), and what follows the last
separator is the last piece (`getLast?_split`).
-/
import Plumbline.Text.Slice

namespace Plumbline

namespace Text

variable {c : Char} {cs part front back : List Char}

/-! ### Prefixes, suffixes and parts -/

theorem stripPrefix?_eq_some_iff {rest : List Char} :
    stripPrefix? front cs = some rest ↔ cs = front ++ rest := by
  unfold stripPrefix?
  constructor
  · intro h
    split at h
    · rename_i hfront
      obtain ⟨more, rfl⟩ := List.isPrefixOf_iff_prefix.mp hfront
      simpa using h
    · cases h
  · rintro rfl
    rw [if_pos (List.isPrefixOf_iff_prefix.mpr (List.prefix_append _ _)), List.drop_left]

theorem stripPrefix?_eq_none_iff : stripPrefix? front cs = none ↔ ¬ front <+: cs := by
  rw [← List.isPrefixOf_iff_prefix]
  simp [stripPrefix?]

theorem stripSuffix?_eq_some_iff {rest : List Char} :
    stripSuffix? back cs = some rest ↔ cs = rest ++ back := by
  unfold stripSuffix?
  constructor
  · intro h
    split at h
    · rename_i hback
      obtain ⟨more, rfl⟩ := List.isSuffixOf_iff_suffix.mp hback
      simpa using h
    · cases h
  · rintro rfl
    rw [if_pos (List.isSuffixOf_iff_suffix.mpr (List.suffix_append _ _))]
    simp

theorem stripSuffix?_eq_none_iff : stripSuffix? back cs = none ↔ ¬ back <:+ cs := by
  rw [← List.isSuffixOf_iff_suffix]
  simp [stripSuffix?]

theorem contains_iff : contains part cs = true ↔ part <:+: cs := by
  induction cs with
  | nil => simp [contains]
  | cons d cs ih =>
      rw [contains, Bool.or_eq_true, ih, List.isPrefixOf_iff_prefix, List.infix_cons_iff]

/-- Nothing is taken off a text that does not start with the prefix. -/
theorem dropPrefixes_of_not_prefix (h : ¬ front <+: cs) (fuel : Nat) :
    dropPrefixes front fuel cs = cs := by
  cases fuel with
  | zero => rfl
  | succ fuel =>
      unfold dropPrefixes
      rw [stripPrefix?_eq_none_iff.mpr h]

theorem replaceChar_of_not_mem {old new : Char} (h : old ∉ cs) : replaceChar old new cs = cs := by
  induction cs with
  | nil => rfl
  | cons d cs ih =>
      rw [List.mem_cons, not_or] at h
      have hrest : replaceChar old new cs = cs := ih h.2
      unfold replaceChar at hrest ⊢
      rw [List.map_cons, if_neg (Ne.symm h.1), hrest]

/-! ### Cutting at a character -/

theorem cut?_of_not_mem (h : c ∉ cs) : cut? c cs = none := by
  have hdrop : cs.dropWhile (· != c) = [] := by
    induction cs with
    | nil => rfl
    | cons d rest ih =>
        rw [List.mem_cons, not_or] at h
        rw [List.dropWhile_cons_of_pos (by simpa using Ne.symm h.1)]
        exact ih h.2
  unfold cut?
  rw [hdrop]

theorem cut?_append_cons {a : List Char} (h : c ∉ a) (b : List Char) :
    cut? c (a ++ c :: b) = some (a, b) := by
  have hne : ∀ d ∈ a, (d != c) = true := by
    intro d hd
    rw [bne_iff_ne]
    rintro rfl
    exact h hd
  unfold cut?
  rw [List.dropWhile_append_of_pos hne, List.takeWhile_append_of_pos hne,
    List.dropWhile_cons_of_neg (by simp), List.takeWhile_cons_of_neg (by simp), List.append_nil]

theorem cutLast?_of_not_mem (h : c ∉ cs) : cutLast? c cs = none := by
  unfold cutLast?
  rw [cut?_of_not_mem (by simpa using h)]
  rfl

theorem cutLast?_append_cons {b : List Char} (h : c ∉ b) (a : List Char) :
    cutLast? c (a ++ c :: b) = some (a, b) := by
  have hreverse : (a ++ c :: b).reverse = b.reverse ++ c :: a.reverse := by simp
  unfold cutLast?
  rw [hreverse, cut?_append_cons (by simpa using h)]
  simp

/-- Every text that has `c` in it has a last one. -/
theorem exists_last_of_mem (h : c ∈ cs) : ∃ a b, cs = a ++ c :: b ∧ c ∉ b := by
  obtain ⟨b, a, hreverse, hb⟩ := List.eq_append_cons_of_mem (List.mem_reverse.mpr h)
  refine ⟨a.reverse, b.reverse, ?_, by simpa using hb⟩
  rw [← List.reverse_reverse cs, hreverse]
  simp

/-- The last `c` divides a text in one way only. -/
theorem append_cons_inj {a b a' b' : List Char} (hb : c ∉ b) (hb' : c ∉ b')
    (h : a ++ c :: b = a' ++ c :: b') : a = a' ∧ b = b' := by
  have hcut := cutLast?_append_cons hb a
  rw [h, cutLast?_append_cons hb' a'] at hcut
  simpa using hcut.symm

/-! ### Cutting at every separator -/

theorem splitBy_ne_nil (p : Char → Bool) (cs : List Char) : splitBy p cs ≠ [] := by
  induction cs with
  | nil => simp [splitBy]
  | cons c cs ih =>
      unfold splitBy
      split
      · simp
      · split <;> simp

/-- A separator cuts a text in two. -/
theorem splitBy_append_cons {p : Char → Bool} {c : Char} (hc : p c = true) (a b : List Char) :
    splitBy p (a ++ c :: b) = splitBy p a ++ splitBy p b := by
  induction a with
  | nil => simp [splitBy, hc]
  | cons x a ih =>
      simp only [List.cons_append, splitBy]
      by_cases hx : p x = true
      · simp [hx, ih]
      · rw [if_neg hx, if_neg hx, ih]
        cases ha : splitBy p a with
        | nil => exact absurd ha (splitBy_ne_nil p a)
        | cons part parts => rfl

theorem splitBy_of_forall {p : Char → Bool} {cs : List Char} (h : ∀ c ∈ cs, p c = false) :
    splitBy p cs = [cs] := by
  induction cs with
  | nil => rfl
  | cons c cs ih =>
      have hc : p c = false := h c (by simp)
      have hrest : splitBy p cs = [cs] := ih fun x hx => h x (by simp [hx])
      simp [splitBy, hc, hrest]

/-- No part of a text that was cut holds a separator. -/
theorem forall_of_mem_splitBy {p : Char → Bool} {cs part : List Char}
    (h : part ∈ splitBy p cs) : ∀ c ∈ part, p c = false := by
  induction cs generalizing part with
  | nil => simp_all [splitBy]
  | cons x cs ih =>
      unfold splitBy at h
      by_cases hx : p x = true
      · rw [if_pos hx] at h
        rcases List.mem_cons.mp h with rfl | hmem
        · simp
        · exact ih hmem
      · rw [if_neg hx] at h
        cases hs : splitBy p cs with
        | nil => exact absurd hs (splitBy_ne_nil p cs)
        | cons first rest =>
            rw [hs] at h ih
            rcases List.mem_cons.mp h with rfl | hmem
            · intro c hc
              rcases List.mem_cons.mp hc with rfl | hc'
              · simpa using hx
              · exact ih (by simp) c hc'
            · exact ih (by simp [hmem])

/-! ### Cutting at one character -/

theorem split_ne_nil (c : Char) (cs : List Char) : split c cs ≠ [] := splitBy_ne_nil _ cs

theorem split_append_cons (c : Char) (a b : List Char) :
    split c (a ++ c :: b) = split c a ++ split c b := splitBy_append_cons (by simp) a b

theorem split_of_not_mem (h : c ∉ cs) : split c cs = [cs] := by
  refine splitBy_of_forall fun d hd => ?_
  rw [beq_eq_false_iff_ne]
  rintro rfl
  exact h hd

theorem not_mem_of_mem_split (h : part ∈ split c cs) : c ∉ part := by
  intro hc
  simpa using forall_of_mem_splitBy h c hc

theorem splitBy_eq_splitOnP (p : Char → Bool) (cs : List Char) : splitBy p cs = cs.splitOnP p := by
  induction cs with
  | nil => rfl
  | cons d cs ih =>
      rw [List.splitOnP_cons_eq_if_modifyHead, ← ih, splitBy]
      split
      · rfl
      · cases hs : splitBy p cs with
        | nil => exact absurd hs (splitBy_ne_nil p cs)
        | cons part parts => rfl

/-- **The pieces, joined by the separator, are the text.** -/
theorem intercalate_split (c : Char) (cs : List Char) : [c].intercalate (split c cs) = cs := by
  unfold split
  rw [splitBy_eq_splitOnP]
  exact List.intercalate_splitOn c

theorem intercalate_append {parts more : List (List Char)} (hparts : parts ≠ []) (hmore : more ≠ [])
    (c : Char) :
    [c].intercalate (parts ++ more) = [c].intercalate parts ++ c :: [c].intercalate more := by
  induction parts with
  | nil => exact absurd rfl hparts
  | cons part rest ih =>
      cases rest with
      | nil =>
          obtain ⟨next, more, rfl⟩ := List.exists_cons_of_ne_nil hmore
          rw [List.singleton_append, List.intercalate_cons_cons, List.intercalate_singleton,
            List.append_assoc, List.singleton_append]
      | cons next rest =>
          rw [List.cons_append, List.cons_append, List.intercalate_cons_cons,
            List.intercalate_cons_cons, ← List.cons_append, ih (by simp)]
          simp only [List.append_assoc, List.cons_append]

/-- **A text is a piece other than the last exactly if a separator follows it, and it stands at the
start or a separator goes before it.** -/
theorem mem_dropLast_split_iff (h : c ∉ part) :
    part ∈ (split c cs).dropLast ↔ part ++ [c] <+: cs ∨ c :: part ++ [c] <:+: cs := by
  constructor
  · intro hmem
    obtain ⟨before, between, hsplit⟩ := List.append_of_mem hmem
    obtain ⟨last, hlast⟩ : ∃ last, split c cs = (split c cs).dropLast ++ [last] :=
      ⟨_, (List.dropLast_concat_getLast (split_ne_nil c cs)).symm⟩
    have hcs := intercalate_split c cs
    rw [hlast, hsplit, List.append_assoc, List.cons_append] at hcs
    obtain ⟨rest, hrest⟩ : ∃ rest, [c].intercalate (part :: (between ++ [last])) =
        part ++ c :: rest := by
      have happ := intercalate_append (List.cons_ne_nil part []) (List.concat_ne_nil last between) c
      exact ⟨[c].intercalate (between ++ [last]), by simpa using happ⟩
    by_cases hbefore : before = []
    · subst hbefore
      left
      exact ⟨rest, by rw [← hcs, List.nil_append, hrest]; simp⟩
    · right
      rw [intercalate_append hbefore (List.cons_ne_nil _ _), hrest] at hcs
      exact ⟨[c].intercalate before, rest, by rw [← hcs]; simp⟩
  · rintro (⟨rest, rfl⟩ | ⟨before, rest, rfl⟩)
    · rw [List.append_assoc, List.singleton_append, split_append_cons, split_of_not_mem h,
        List.singleton_append, List.dropLast_cons_of_ne_nil (split_ne_nil c rest)]
      exact List.mem_cons_self
    · have hcs : before ++ (c :: part ++ [c]) ++ rest = before ++ c :: (part ++ c :: rest) := by simp
      rw [hcs, split_append_cons, split_append_cons, split_of_not_mem h, List.singleton_append,
        List.dropLast_append_cons, List.dropLast_cons_of_ne_nil (split_ne_nil c rest)]
      exact List.mem_append_right _ List.mem_cons_self

/-- The last piece is what follows the last separator. -/
theorem getLast?_split (c : Char) (cs : List Char) :
    (split c cs).getLast? = some (afterLast c cs) := by
  unfold afterLast
  by_cases h : c ∈ cs
  · obtain ⟨a, b, rfl, hb⟩ := exists_last_of_mem h
    rw [cutLast?_append_cons hb, split_append_cons, split_of_not_mem hb]
    simp
  · rw [cutLast?_of_not_mem h, split_of_not_mem h]
    rfl

end Text

end Plumbline
