/-
Normal paths.

A normal path has a name between any two slashes.  Such a path says no more than its components do:
absolute ones are told apart by their components, and joining names to one gives another one.  The
names of modules that hold no slash lead from normal paths to normal paths.
-/
import Plumbline.Proofs.Analysis.Reread

namespace Plumbline

namespace Path

/-- Names of files and directories that lead to a file. -/
def AreNames (names : List String) : Prop := ∀ s ∈ names, IsName s

theorem AreNames.areNamed {names : List String} (h : AreNames names) : AreNamed names where
  noSlash s hs := (h s hs).noSlash
  notVoid s hs := (h s hs).notVoid

theorem areNames_singleton {s : String} (h : IsName s) : AreNames [s] := by
  simpa [AreNames] using h

theorem AreNames.append {names more : List String} (h : AreNames names) (h' : AreNames more) :
    AreNames (names ++ more) :=
  fun s hs => (List.mem_append.mp hs).elim (h s) (h' s)

theorem AreNames.left {names more : List String} (h : AreNames (names ++ more)) : AreNames names :=
  fun s hs => h s (List.mem_append_left more hs)

theorem AreNames.right {names more : List String} (h : AreNames (names ++ more)) : AreNames more :=
  fun s hs => h s (List.mem_append_right names hs)

/-- A path, absolute or not, in which no segment is empty, `.` or `..`. -/
inductive IsNormal : Path → Prop where
  | absolute {names : List String} (h : AreNames names) : IsNormal (ofPlace names)
  | relative {names : List String} (hne : names ≠ []) (h : AreNames names) :
      IsNormal ("/".intercalate names)

theorem isNormal_of_isName {s : String} (h : IsName s) : IsNormal s := by
  have hnormal : IsNormal ("/".intercalate [s]) := .relative (by simp) (areNames_singleton h)
  rwa [String.intercalate_singleton] at hnormal

variable {names more : List String}

/-! ### Absolute paths -/

theorem components_ofPlace (h : AreNames names) : (ofPlace names).components = "/" :: names := by
  show (ofComponents (["/"] ++ names)).components = ["/"] ++ names
  exact components_ofComponents h.areNamed (Or.inl rfl)

theorem isAbsolute_ofPlace (names : List String) : isAbsolute (ofPlace names) = true := by
  unfold ofPlace
  rw [isAbsolute_append (by decide)]
  decide

theorem segments_ofPlace (hne : names ≠ []) (h : AreNames names) :
    segments (ofPlace names) = "" :: names := by
  have hsegs : segments ("" ++ "/" ++ "/".intercalate names) =
      segments "" ++ segments ("/".intercalate names) :=
    segments_append_slash "" ("/".intercalate names)
  rw [segments_intercalate hne h.areNamed.noSlash] at hsegs
  simpa [ofPlace, show segments "" = [""] by decide] using hsegs

/-! ### Relative paths -/

theorem isAbsolute_names (h : AreNames names) : isAbsolute ("/".intercalate names) = false := by
  cases names with
  | nil => decide
  | cons s rest =>
      have hs : IsName s := h s (by simp)
      refine isAbsolute_intercalate hs.noSlash ?_
      rintro rfl
      exact absurd hs.notVoid (by decide)

theorem components_names (hne : names ≠ []) (h : AreNames names) :
    components ("/".intercalate names) = names := by
  obtain ⟨s, rest, rfl⟩ := List.exists_cons_of_ne_nil hne
  have hdot : s ≠ "." := (h s (by simp)).ne_dot
  rw [components_eq, isAbsolute_names h, segments_intercalate hne h.areNamed.noSlash,
    h.areNamed.filter]
  simp [hdot]

theorem intercalate_append (hne : names ≠ []) (hne' : more ≠ []) :
    "/".intercalate (names ++ more) = "/".intercalate names ++ "/" ++ "/".intercalate more := by
  induction names with
  | nil => exact absurd rfl hne
  | cons s rest ih =>
      cases rest with
      | nil =>
          obtain ⟨t, more, rfl⟩ := List.exists_cons_of_ne_nil hne'
          rw [List.singleton_append, String.intercalate_cons_cons, String.intercalate_singleton]
      | cons t rest =>
          rw [List.cons_append, List.cons_append, String.intercalate_cons_cons,
            String.intercalate_cons_cons, ← List.cons_append, ih (by simp)]
          simp only [String.append_assoc]

/-- An absolute path has a slash at its end only if it is the top. -/
theorem getLast?_ofPlace (hne : names ≠ []) (h : AreNames names) :
    ((ofPlace names).toList.getLast? == some '/') = false := by
  refine beq_eq_false_iff_ne.mpr fun hslash => ?_
  obtain ⟨front, hfront⟩ := List.getLast?_eq_some_iff.mp hslash
  have hpath : ofPlace names = String.ofList front ++ "/" := by
    apply String.toList_injective
    simp [hfront]
  have hsegs : "" :: names = segments (String.ofList front) ++ [""] := by
    rw [← segments_ofPlace hne h, hpath, segments_slash]
  have hlast : names.getLast? = some "" := by
    have := congrArg List.getLast? hsegs
    rwa [List.getLast?_append, List.getLast?_singleton, Option.some_or,
      List.getLast?_cons, List.getLast?_eq_some_getLast hne, Option.getD_some,
      ← List.getLast?_eq_some_getLast hne] at this
  exact absurd (h "" (List.mem_of_getLast? hlast)).notVoid (by decide)

/-- **Names that are joined to an absolute path follow its own.** -/
theorem join_names (h : AreNames names) (hne' : more ≠ []) (h' : AreNames more) :
    join (ofPlace names) ("/".intercalate more) = ofPlace (names ++ more) := by
  have hrel := isAbsolute_names h'
  have hempty : (ofPlace names).isEmpty = false := by simp [ofPlace]
  unfold join
  rw [hrel, hempty, if_neg (by decide), if_neg (by decide)]
  cases names with
  | nil => 
      rw [if_pos (by decide)]
      rfl
  | cons s rest =>
      rw [getLast?_ofPlace (by simp) h, if_neg (by decide)]
      unfold ofPlace
      rw [intercalate_append (by simp) hne']
      simp only [String.append_assoc]

/-- A slash at the end of an absolute path makes no difference to what is joined to it. -/
theorem join_names_slash (hne : names ≠ []) (hne' : more ≠ []) (h' : AreNames more) :
    join (ofPlace names ++ "/") ("/".intercalate more) = ofPlace (names ++ more) := by
  have hslash : ((ofPlace names ++ "/").toList.getLast? == some '/') = true := by simp
  have hempty : (ofPlace names ++ "/").isEmpty = false := by simp
  unfold join
  rw [isAbsolute_names h', hempty, hslash, if_neg (by decide), if_neg (by decide),
    if_pos (by decide)]
  unfold ofPlace
  rw [intercalate_append hne hne']
  simp only [String.append_assoc]

theorem join_name (h : AreNames names) {s : String} (hs : IsName s) :
    join (ofPlace names) s = ofPlace (names ++ [s]) := by
  have := join_names h (List.cons_ne_nil s []) (areNames_singleton hs)
  rwa [String.intercalate_singleton] at this

theorem join_name_slash (hne : names ≠ []) {s : String} (hs : IsName s) :
    join (ofPlace names ++ "/") s = ofPlace (names ++ [s]) := by
  have := join_names_slash hne (List.cons_ne_nil s []) (areNames_singleton hs)
  rwa [String.intercalate_singleton] at this

/-! ### From the root of a project -/

theorem dropComponents_names (h : AreNames names) (n : Nat) :
    dropComponents n names = names.drop n := by
  induction names generalizing n with
  | nil => cases n <;> rfl
  | cons s rest ih =>
      have hs : isVoid s = false := (h s (by simp)).notVoid
      have hrest : AreNames rest := fun t ht => h t (List.mem_cons_of_mem s ht)
      cases n with
      | zero => simp [dropComponents, hs]
      | succ n => simp [dropComponents, hs, ih hrest]

theorem ofSegments_names (hne : names ≠ []) (h : AreNames names) :
    ofSegments names = "/".intercalate names := by
  obtain ⟨front, s, rfl⟩ : ∃ front s, names = front ++ [s] :=
    ⟨_, _, (List.dropLast_concat_getLast hne).symm⟩
  have hs : isVoid s = false := (h s (by simp)).notVoid
  unfold ofSegments
  rw [List.reverse_append, List.reverse_singleton, List.singleton_append,
    List.dropWhile_cons_of_neg (by simp [hs]), List.reverse_cons, List.reverse_reverse]

theorem isBelow_ofPlace (h : AreNames names) (h' : AreNames more) :
    isBelow (ofPlace more) (ofPlace names) = true ↔ names <+: more := by
  unfold isBelow
  rw [components_ofPlace h, components_ofPlace h', List.isPrefixOf_iff_prefix,
    List.cons_prefix_cons]
  simp

/-- The path of what lies below `names`, from there on. -/
theorem relativeTo?_ofPlace (h : AreNames names) (hne' : more ≠ []) (h' : AreNames more) :
    relativeTo? (ofPlace (names ++ more)) (ofPlace names) = some ("/".intercalate more) := by
  have hboth : AreNames (names ++ more) := h.append h'
  have hbelow : isBelow (ofPlace (names ++ more)) (ofPlace names) = true :=
    (isBelow_ofPlace h hboth).mpr (List.prefix_append _ _)
  have hdrop : ∀ n, dropComponents n ("" :: (names ++ more)) = dropComponents n (names ++ more) := by
    intro n
    cases n <;> simp [dropComponents, show isVoid "" = true by decide]
  unfold relativeTo?
  rw [if_pos hbelow, components_ofPlace h, segments_ofPlace (by simp [hne']) hboth]
  simp [hdrop, dropComponents_names hboth, ofSegments_names hne' h']

end Path

end Plumbline
