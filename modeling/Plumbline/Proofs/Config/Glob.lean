/-
What path patterns mean.

A pattern with one star between two texts is meant to accept a text that starts with the one, ends with
the other and may have anything between them.  What is tested is only the start and the end.  So the two
may share characters: such a text is accepted as well, although it is too short for both
(`matchesPath_iff_means_or_shares`).  With the two ends apart the patterns mean what they say, and a
pattern for a directory means it for every path, because its name stands between separators in the path
exactly if it is one of its segments (`Text.mem_dropLast_split_iff`).
-/
import Plumbline.Config.Glob
import Plumbline.Files.Path
import Plumbline.Proofs.Text.Slice

namespace Plumbline.Glob

variable {front back whole : List Char}

/-! ### The two ends of a text -/

/-- The text is `front`, then anything, then `back`. -/
def Encloses (front back whole : List Char) : Prop := ∃ between, whole = front ++ between ++ back

/-- The text is `front` and `back` with some characters that belong to both. -/
def Overlaps (front back whole : List Char) : Prop :=
  ∃ left shared right, shared ≠ [] ∧ front = left ++ shared ∧ back = shared ++ right ∧
    whole = left ++ shared ++ right

/-- **A text has both ends exactly if it is made of them: apart, or sharing characters.** -/
theorem hasEnds_iff :
    hasEnds front back whole = true ↔ Encloses front back whole ∨ Overlaps front back whole := by
  unfold hasEnds
  rw [Bool.and_eq_true, List.isPrefixOf_iff_prefix, List.isSuffixOf_iff_suffix]
  constructor
  · rintro ⟨⟨rest, rfl⟩, hback⟩
    by_cases hlength : back.length ≤ rest.length
    · left
      obtain ⟨between, rfl⟩ := List.suffix_of_suffix_length_le hback (List.suffix_append _ _) hlength
      exact ⟨between, (List.append_assoc ..).symm⟩
    · right
      -- What follows the front is too short for the back, which therefore begins within the front.
      obtain ⟨shared, rfl⟩ := List.suffix_of_suffix_length_le (List.suffix_append front rest) hback
        (Nat.le_of_not_le hlength)
      obtain ⟨left, hleft⟩ := hback
      rw [← List.append_assoc] at hleft
      refine ⟨left, shared, rest, ?_, (List.append_cancel_right hleft).symm, rfl, hleft.symm ▸ rfl⟩
      rintro rfl
      exact hlength (Nat.le_refl _)
  · rintro (⟨between, rfl⟩ | ⟨left, shared, right, -, rfl, rfl, rfl⟩)
    · exact ⟨⟨between ++ back, by simp⟩, List.suffix_append _ _⟩
    · exact ⟨List.prefix_append _ _, ⟨left, by simp⟩⟩

/-- A text in which the ends share characters is too short for both of them. -/
theorem Overlaps.not_encloses (h : Overlaps front back whole) : ¬ Encloses front back whole := by
  obtain ⟨left, shared, right, hne, rfl, rfl, rfl⟩ := h
  rintro ⟨between, hwhole⟩
  have hlength := congrArg List.length hwhole
  have hpos := List.length_pos_iff.mpr hne
  simp only [List.length_append] at hlength
  omega

/-! ### Patterns -/

/-- The patterns with a star whose meaning is told by their shape. -/
inductive Shape where
  /-- The paths below a directory of this name. -/
  | directory (name : String)
  /-- The paths whose last segment has these ends. -/
  | anyDepth (front back : String)
  /-- The paths that have these ends. -/
  | rooted (front back : String)
deriving Repr, DecidableEq, Inhabited

namespace Shape

/-- The pattern as it is written. -/
def text : Shape → String
  | directory name => "**/" ++ name ++ "/**"
  | anyDepth front back => "**/" ++ front ++ "*" ++ back
  | rooted front back => front ++ "*" ++ back

/-- The pattern has no other star, and no slash within a name. -/
def IsPlain : Shape → Prop
  | directory name => '*' ∉ name.toList ∧ '/' ∉ name.toList
  | anyDepth front back =>
    ('*' ∉ front.toList ∧ '/' ∉ front.toList) ∧ '*' ∉ back.toList ∧ '/' ∉ back.toList
  | rooted front back => '*' ∉ front.toList ∧ '*' ∉ back.toList

/-- The path is as the pattern says. -/
def Means (path : Path) : Shape → Prop
  | directory name => name ∈ path.segments.dropLast
  | anyDepth front back =>
    ∃ last, path.segments.getLast? = some last ∧ Encloses front.toList back.toList last.toList
  | rooted front back => Encloses front.toList back.toList path.toList

/-- The two ends of the pattern share characters in the path. -/
def Shares (path : Path) : Shape → Prop
  | directory _ => False
  | anyDepth front back =>
    ∃ last, path.segments.getLast? = some last ∧ Overlaps front.toList back.toList last.toList
  | rooted front back => Overlaps front.toList back.toList path.toList

end Shape

/-! ### Segments -/

theorem mem_dropLast_segments {name : String} {path : Path} :
    name ∈ path.segments.dropLast ↔ name.toList ∈ (Text.split '/' path.toList).dropLast := by
  unfold Path.segments
  rw [← List.map_dropLast, List.mem_map]
  constructor
  · rintro ⟨part, hpart, rfl⟩
    rwa [String.toList_ofList]
  · intro hname
    exact ⟨name.toList, hname, String.ofList_toList⟩

theorem getLast?_segments (path : Path) :
    path.segments.getLast? = some (String.ofList (Text.afterLast '/' path.toList)) := by
  unfold Path.segments
  rw [List.getLast?_map, Text.getLast?_split]
  rfl

/-! ### What a pattern accepts -/

theorem accepts_directory {name path : List Char} (hslash : '/' ∉ name) :
    accepts (['*', '*', '/'] ++ (name ++ ['/', '*', '*'])) path = true ↔
      name ∈ (Text.split '/' path).dropLast := by
  have hdepth : anyDepth? (['*', '*', '/'] ++ (name ++ ['/', '*', '*'])) =
      some (name ++ ['/', '*', '*']) := Text.stripPrefix?_eq_some_iff.mpr rfl
  have hdir : Text.stripSuffix? ['/', '*', '*'] (name ++ ['/', '*', '*']) = some name :=
    Text.stripSuffix?_eq_some_iff.mpr rfl
  unfold accepts
  rw [hdepth]
  simp only [hdir]
  unfold hasDirectory
  rw [Bool.or_eq_true, List.isPrefixOf_iff_prefix, Text.contains_iff,
    Text.mem_dropLast_split_iff hslash]

theorem accepts_anyDepth {path : List Char} (hstar : '*' ∉ front)
    (hslash : '/' ∉ front) (hslash' : '/' ∉ back) :
    accepts (['*', '*', '/'] ++ (front ++ '*' :: back)) path =
      hasEnds front back (Text.afterLast '/' path) := by
  have hdepth : anyDepth? (['*', '*', '/'] ++ (front ++ '*' :: back)) =
      some (front ++ '*' :: back) := Text.stripPrefix?_eq_some_iff.mpr rfl
  have hdir : Text.stripSuffix? ['/', '*', '*'] (front ++ '*' :: back) = none := by
    rw [Text.stripSuffix?_eq_none_iff]
    intro hsuffix
    have hmem : '/' ∈ front ++ '*' :: back := hsuffix.subset (by simp)
    simp [hslash, hslash'] at hmem
  unfold accepts
  rw [hdepth]
  simp only [hdir, Text.cut?_append_cons hstar]

theorem accepts_rooted {path : List Char} (hstar : '*' ∉ front) (hstar' : '*' ∉ back) :
    accepts (front ++ '*' :: back) path = hasEnds front back path := by
  have hdepth : anyDepth? (front ++ '*' :: back) = none := by
    unfold anyDepth?
    rw [Text.stripPrefix?_eq_none_iff]
    rintro ⟨rest, hrest⟩
    -- Two stars would be one in the front or one in the back.
    have hcount := congrArg (List.count '*') hrest
    simp [List.count_eq_zero_of_not_mem hstar, List.count_eq_zero_of_not_mem hstar'] at hcount
  unfold accepts acceptsRooted
  rw [hdepth]
  simp [Text.cut?_append_cons hstar, hstar']

/-- **A pattern accepts the paths that are as it says and those in which its two ends share
characters, and no others;** the latter are not as it says. -/
theorem matchesPath_iff_means_or_shares (shape : Shape) (h : shape.IsPlain) (path : Path) :
    (matchesPath shape.text path = true ↔ shape.Means path ∨ shape.Shares path) ∧
      (shape.Shares path → ¬ shape.Means path) := by
  unfold matchesPath
  cases shape with
  | directory name =>
      have hlist : (Shape.directory name).text.toList =
          ['*', '*', '/'] ++ (name.toList ++ ['/', '*', '*']) := by
        simp [Shape.text]
      rw [hlist, accepts_directory h.2]
      exact ⟨by simp [Shape.Means, Shape.Shares, mem_dropLast_segments], False.elim⟩
  | anyDepth front back =>
      have hlist : (Shape.anyDepth front back).text.toList =
          ['*', '*', '/'] ++ (front.toList ++ '*' :: back.toList) := by
        simp [Shape.text]
      rw [hlist, accepts_anyDepth h.1.1 h.1.2 h.2.2, hasEnds_iff]
      constructor
      · simp [Shape.Means, Shape.Shares, getLast?_segments]
      · rintro ⟨last, hlast, hoverlaps⟩ ⟨last', hlast', hencloses⟩
        obtain rfl : last = last' := Option.some.inj (hlast.symm.trans hlast')
        exact hoverlaps.not_encloses hencloses
  | rooted front back =>
      have hlist : (Shape.rooted front back).text.toList = front.toList ++ '*' :: back.toList := by
        simp [Shape.text]
      rw [hlist, accepts_rooted h.1 h.2, hasEnds_iff]
      exact ⟨Iff.rfl, Overlaps.not_encloses⟩

/-- A file whose name is too short for both ends of a pattern is taken for one that has them. -/
theorem short_name_matches :
    Shape.IsPlain (.anyDepth "test_" "_test.py") ∧
      matchesPath "**/test_*_test.py" "app/test_test.py" = true ∧
      ¬ Shape.Means "app/test_test.py" (.anyDepth "test_" "_test.py") := by
  have hplain : Shape.IsPlain (.anyDepth "test_" "_test.py") := by
    unfold Shape.IsPlain
    decide
  have hshares : Shape.Shares "app/test_test.py" (.anyDepth "test_" "_test.py") :=
    ⟨"test_test.py", by decide, "test".toList, ['_'], "test.py".toList, by decide, by decide,
      by decide, by decide⟩
  have hall := matchesPath_iff_means_or_shares _ hplain "app/test_test.py"
  exact ⟨hplain, hall.1.mpr (Or.inr hshares), hall.2 hshares⟩

end Plumbline.Glob
