/-
Dotted names of modules.

A module is looked for by its dotted name, whose parts become the names of directories.  As long as no
part holds a slash, the file that is found has a normal path (`isNormal_moduleFile`).  A name that is
made from a path keeps to this, but for the root of an absolute path, which is a part of its own; and
so does a name that is made from other such names (`isDotted_intercalate`).
-/
import Plumbline.Proofs.Files.Normal

namespace Plumbline

open Plumbline.Path

/-- No part of the dotted name holds a slash, unless it is nothing but a slash. -/
def IsDotted (dotted : String) : Prop :=
  ∀ part ∈ Text.split '.' dotted.toList, '/' ∉ part ∨ part = ['/']

/-! ### Names that are put together -/

theorem split_append_dot (a b : String) :
    Text.split '.' (a ++ "." ++ b).toList = Text.split '.' a.toList ++ Text.split '.' b.toList := by
  have hlist : (a ++ "." ++ b).toList = a.toList ++ '.' :: b.toList := by simp
  rw [hlist, Text.split_append_cons]

/-- A part of a text that was cut holds nothing that the text does not. -/
theorem Text.mem_of_mem_splitBy {p : Char → Bool} {cs part : List Char} {c : Char}
    (h : part ∈ splitBy p cs) (hc : c ∈ part) : c ∈ cs := by
  induction cs generalizing part with
  | nil =>
      obtain rfl : part = [] := by simpa [splitBy] using h
      exact absurd hc List.not_mem_nil
  | cons x cs ih =>
      unfold splitBy at h
      split at h
      · rcases List.mem_cons.mp h with rfl | hmem
        · exact absurd hc List.not_mem_nil
        · exact List.mem_cons_of_mem x (ih hmem hc)
      · split at h
        · rename_i first rest hsplit
          rcases List.mem_cons.mp h with rfl | hmem
          · rcases List.mem_cons.mp hc with rfl | hc'
            · exact List.mem_cons_self
            · exact List.mem_cons_of_mem x (ih (by simp [hsplit]) hc')
          · exact List.mem_cons_of_mem x (ih (by simp [hsplit, hmem]) hc)
        · obtain rfl := List.mem_singleton.mp h
          obtain rfl := List.mem_singleton.mp hc
          exact List.mem_cons_self

theorem isDotted_of_noSlash {s : String} (h : '/' ∉ s.toList) : IsDotted s :=
  fun _ hpart => Or.inl fun hslash => h (Text.mem_of_mem_splitBy hpart hslash)

theorem isDotted_append {a b : String} (ha : IsDotted a) (hb : IsDotted b) :
    IsDotted (a ++ "." ++ b) := by
  unfold IsDotted
  rw [split_append_dot]
  exact fun part hpart => (List.mem_append.mp hpart).elim (ha part) (hb part)

theorem isDotted_intercalate {names : List String} (h : ∀ s ∈ names, IsDotted s) :
    IsDotted (".".intercalate names) := by
  induction names with
  | nil => exact isDotted_of_noSlash (by decide)
  | cons s rest ih =>
      have hrest := ih fun t ht => h t (List.mem_cons_of_mem s ht)
      cases rest with
      | nil =>
          rw [String.intercalate_singleton]
          exact h s (by simp)
      | cons t rest =>
          rw [String.intercalate_cons_cons]
          exact isDotted_append (h s (by simp)) hrest

/-- A part of a dotted name is one itself. -/
theorem isDotted_part {dotted : String} (h : IsDotted dotted) {part : List Char}
    (hpart : part ∈ Text.split '.' dotted.toList) : IsDotted (String.ofList part) := by
  rcases h part hpart with hslash | rfl
  · exact isDotted_of_noSlash (by rwa [String.toList_ofList])
  · intro part' hpart'
    have hself : Text.split '.' (String.ofList ['/']).toList = [['/']] := by decide
    rw [hself, List.mem_singleton] at hpart'
    exact Or.inr hpart'

theorem isDotted_component {p : Path} {s : String} (h : s ∈ p.components) : IsDotted s := by
  obtain ⟨lead, named, hparts, hnamed, hlead⟩ := components_shape p
  rw [hparts] at h
  rcases List.mem_append.mp h with hmem | hmem
  · have hmark : s = "/" ∨ s = "." := by
      rcases hlead with rfl | rfl | rfl
      · exact Or.inl (by simpa using hmem)
      · exact Or.inr (by simpa using hmem)
      · exact absurd hmem List.not_mem_nil
    rcases hmark with rfl | rfl
    · unfold IsDotted
      decide
    · exact isDotted_of_noSlash (by decide)
  · exact isDotted_of_noSlash (hnamed.noSlash s hmem)

/-- **The name of a module is dotted**, whatever its path. -/
theorem isDotted_moduleName (path : Path) : IsDotted (moduleName path) := by
  unfold moduleName
  refine isDotted_intercalate fun s hs => isDotted_component (p := path.withExtension "") ?_
  split at hs
  · exact List.dropLast_subset _ hs
  · exact hs

/-! ### Files of modules -/

/-- What names of modules lead to before the name of the file is added. -/
inductive IsBase : Path → Prop where
  | plain {names : List String} (h : AreNames names) : IsBase (ofPlace names)
  | slash {names : List String} (hne : names ≠ []) (h : AreNames names) : IsBase (ofPlace names ++ "/")

/-- Joining nothing adds a slash where there is none. -/
theorem isBase_join_empty {names : List String} (h : AreNames names) :
    IsBase (Path.join (ofPlace names) "") := by
  have hempty : (ofPlace names).isEmpty = false := by simp [ofPlace]
  unfold Path.join
  rw [if_neg (by decide), hempty, if_neg (by decide)]
  by_cases hnames : names = []
  · subst hnames
    rw [if_pos (by decide), String.append_empty]
    exact .plain h
  · rw [getLast?_ofPlace hnames h, if_neg (by decide), String.append_empty]
    exact .slash hnames h

theorem IsBase.join_part {base : Path} (h : IsBase base) {part : List Char}
    (hslash : '/' ∉ part ∨ part = ['/']) (hdot : '.' ∉ part) :
    IsBase (base.join (String.ofList part)) := by
  rcases hslash with hslash | rfl
  · by_cases hempty : part = []
    · subst hempty
      show IsBase (base.join "")
      cases h with
      | plain hnames => exact isBase_join_empty hnames
      | slash hne hnames =>
          rename_i names
          have hself : Path.join (ofPlace names ++ "/") "" = ofPlace names ++ "/" := by
            unfold Path.join
            rw [if_neg (by decide), if_neg (by simp), if_pos (by simp), String.append_empty]
          rw [hself]
          exact .slash hne hnames
    · have hname : IsName (String.ofList part) := by
        refine ⟨by rwa [String.toList_ofList], ?_, ?_⟩
        · unfold isVoid
          rw [Bool.or_eq_false_iff, beq_eq_false_iff_ne, beq_eq_false_iff_ne]
          refine ⟨fun heq => hempty ?_, fun heq => hdot ?_⟩
          · simpa using congrArg String.toList heq
          · have hlist : part = ['.'] := by simpa using congrArg String.toList heq
            simp [hlist]
        · intro heq
          have hlist : part = ['.', '.'] := by simpa using congrArg String.toList heq
          exact hdot (by simp [hlist])
      have hsingle : AreNames [String.ofList part] := areNames_singleton hname
      cases h with
      | plain hnames =>
          rw [join_name hnames hname]
          exact .plain (hnames.append hsingle)
      | slash hne hnames =>
          rw [join_name_slash hne hname]
          exact .plain (hnames.append hsingle)
  · have htop : base.join (String.ofList ['/']) = ofPlace [] := by
      unfold Path.join
      rw [if_pos (by decide)]
      decide
    rw [htop]
    exact .plain fun _ hs => absurd hs List.not_mem_nil

theorem IsBase.foldl_join {parts : List (List Char)} {base : Path} (h : IsBase base)
    (hslash : ∀ part ∈ parts, '/' ∉ part ∨ part = ['/']) (hdot : ∀ part ∈ parts, '.' ∉ part) :
    IsBase ((parts.map String.ofList).foldl Path.join base) := by
  induction parts generalizing base with
  | nil => exact h
  | cons part rest ih =>
      rw [List.forall_mem_cons] at hslash hdot
      rw [List.map_cons, List.foldl_cons]
      exact ih (h.join_part hslash.1 hdot.1) hslash.2 hdot.2

theorem IsBase.components {base : Path} (h : IsBase base) :
    ∃ names, AreNames names ∧ base.components = "/" :: names ∧ (names = [] → base = ofPlace []) := by
  cases h with
  | plain h => exact ⟨_, h, components_ofPlace h, fun hnames => by rw [hnames]⟩
  | slash hne h =>
      refine ⟨_, h, ?_, fun hnames => absurd hnames hne⟩
      rw [components_slash (by simp [ofPlace]), components_ofPlace h]

theorem IsBase.isNormal_withExtension {base : Path} (h : IsBase base) :
    IsNormal (base.withExtension "py") := by
  obtain ⟨names, hnames, hparts, htop⟩ := h.components
  by_cases hne : names = []
  · have hself : base.withExtension "py" = base := by
      have hnone : base.fileName? = none := by simp [fileName?, hparts, hne]
      unfold withExtension
      rw [hnone]
    rw [hself, htop hne]
    exact .absolute fun _ hs => absurd hs List.not_mem_nil
  · obtain ⟨front, name, rfl⟩ : ∃ front name, names = front ++ [name] :=
      ⟨_, _, (List.dropLast_concat_getLast hne).symm⟩
    have hname : IsName name := hnames name (by simp)
    have hfile : base.fileName? = some name := by
      unfold fileName?
      rw [hparts, ← List.cons_append, List.getLast?_concat, Option.filter_some]
      simp [hname.ne_slash, hname.ne_dot, hname.notUp]
    have hparent : base.parent? = some (ofPlace front) := by
      have hdrop : ("/" :: (front ++ [name])).dropLast = "/" :: front := by
        rw [← List.cons_append, List.dropLast_concat]
      unfold parent?
      rw [hparts]
      obtain ⟨s, rest, hcons⟩ := List.exists_cons_of_ne_nil hne
      rw [hcons] at hdrop ⊢
      show some (ofComponents ("/" :: s :: rest).dropLast) = some (ofPlace front)
      rw [hdrop]
      rfl
    unfold withExtension withFileName
    rw [hfile]
    dsimp only
    rw [hparent]
    have hext : stem name ++ "." ++ "py" = stem name ++ ".py" := by
      rw [String.append_assoc]
      rfl
    show IsNormal (Path.join (ofPlace front) (stem name ++ "." ++ "py"))
    rw [hext, join_name hnames.left (isName_withExtension hname)]
    exact .absolute (hnames.left.append (areNames_singleton (isName_withExtension hname)))

theorem IsBase.isNormal_join {base : Path} (h : IsBase base) {name : String} (hname : IsName name) :
    IsNormal (base.join name) := by
  have hsingle : AreNames [name] := areNames_singleton hname
  cases h with
  | plain h =>
      rw [join_name h hname]
      exact .absolute (h.append hsingle)
  | slash hne h =>
      rw [join_name_slash hne hname]
      exact .absolute (h.append hsingle)

/-- **The file of a module has a normal path**, if the root of the project has one. -/
theorem isNormal_moduleFile {p : Project} {names : List String} (hroot : p.root = ofPlace names)
    (hnames : AreNames names) {dotted : String} (hdotted : IsDotted dotted) {path : Path}
    (h : p.moduleFile? dotted = some path) : IsNormal path := by
  unfold Project.moduleFile? at h
  split at h
  · exact absurd h (by simp)
  · have hmem := List.mem_of_find?_eq_some h
    have hbase : IsBase (((Text.split '.' dotted.toList).map String.ofList).foldl Path.join p.root) := by
      rw [hroot]
      refine (IsBase.plain hnames).foldl_join hdotted fun part hpart hdot => ?_
      exact absurd hdot (Text.not_mem_of_mem_split hpart)
    rcases List.mem_cons.mp hmem with rfl | hmem
    · exact hbase.isNormal_withExtension
    · obtain rfl := List.mem_singleton.mp hmem
      exact hbase.isNormal_join ⟨by decide, by decide, by decide⟩

end Plumbline
