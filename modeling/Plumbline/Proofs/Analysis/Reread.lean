/-
Files that can be read again.

A module is remembered by the components of its path, so one path may find what was read under
another one.  The other way round it could fail: of two paths with the same components, only the one
that does not end in a slash names a file.  No question about a known module comes to such a path
(`rereadable_moduleFile`, `rereadable_path`), for any root of the project.
-/
import Plumbline.Proofs.Analysis.Binding
import Plumbline.Proofs.Analysis.Remember
import Plumbline.Proofs.Files.Disk

namespace Plumbline

namespace Path

/-- The last segment counts for something. -/
def EndsInName (p : Path) : Prop := p.segments.getLast?.any isVoid = false

/-- A joined path keeps its end. -/
theorem getLast?_segments_join (base p : Path) :
    (base.join p).segments.getLast? = p.segments.getLast? := by
  have hlast : ∀ front : String,
      (segments (front ++ "/" ++ p)).getLast? = (segments p).getLast? := by
    intro front
    rw [segments_append_slash, List.getLast?_append,
      List.getLast?_eq_some_getLast (segments_ne_nil p), Option.some_or]
  unfold join
  split
  · rfl
  · split
    · rfl
    · split
      · rename_i hslash
        obtain ⟨front, hfront⟩ := List.getLast?_eq_some_iff.mp (beq_iff_eq.mp hslash)
        have hbase : base = String.ofList front ++ "/" := by
          apply String.toList_injective
          simp [hfront]
        rw [hbase]
        exact hlast _
      · exact hlast base

/-- What a path that ends in a name ends in is its last component. -/
theorem EndsInName.getLast?_components {p : Path} (h : p.EndsInName) :
    ∃ front s, p.components = front ++ [s] ∧ p.segments.getLast? = some s ∧ s ≠ "/" ∧ s ≠ "." := by
  obtain ⟨front, s, hsegs⟩ : ∃ front s, p.segments = front ++ [s] :=
    ⟨_, _, (List.dropLast_concat_getLast (segments_ne_nil p)).symm⟩
  have hlast : p.segments.getLast? = some s := by simp [hsegs]
  have hvoid : isVoid s = false := by simpa [EndsInName, hlast] using h
  have hslash : '/' ∉ s.toList := noSlash_of_mem_segments (p := p) (by simp [hsegs])
  refine ⟨(if p.isAbsolute then ["/"] else if p.segments.head? == some "." then ["."] else []) ++
    front.filter (!isVoid ·), s, ?_, hlast, ?_, ?_⟩
  · rw [components_eq, hsegs, List.filter_append, List.append_assoc]
    simp [hvoid]
  · rintro rfl
    exact hslash (by decide)
  · rintro rfl
    exact absurd hvoid (by decide)

theorem segments_slash (x : Path) : segments (x ++ "/") = segments x ++ [""] := by
  have := segments_append_slash x ""
  rwa [String.append_empty] at this

/-- More segments leave the front of a path as it is. -/
theorem head?_segments_append (x : Path) (more : List String) :
    (segments x ++ more).head? = (segments x).head? := by
  obtain ⟨s, rest, hsegs⟩ := List.exists_cons_of_ne_nil (segments_ne_nil x)
  rw [hsegs]
  rfl

/-- A slash at the end of a path counts for nothing. -/
theorem components_slash {x : Path} (h : x ≠ "") : components (x ++ "/") = components x := by
  have hvoid : [""].filter (!isVoid ·) = [] := by decide
  rw [components_eq, components_eq, isAbsolute_append h, segments_slash, head?_segments_append,
    List.filter_append, hvoid, List.append_nil]

/-- What stands behind a slash adds its names. -/
theorem components_append_slash (x p : Path) :
    components (x ++ "/" ++ p) = components (x ++ "/") ++ p.segments.filter (!isVoid ·) := by
  have hne : x ++ "/" ≠ "" := by simp
  have hvoid : [""].filter (!isVoid ·) = [] := by decide
  rw [components_eq, components_eq, isAbsolute_append hne, segments_append_slash, segments_slash,
    head?_segments_append, head?_segments_append, List.filter_append, List.filter_append, hvoid,
    List.append_nil, List.append_assoc]

/-- A relative path adds its names to a base. -/
theorem components_join_of_relative {base p : Path} (h : p.isAbsolute = false) (hne : base ≠ "") :
    (base.join p).components = base.components ++ p.segments.filter (!isVoid ·) := by
  unfold join
  rw [if_neg (by simp [h]), if_neg (by simpa using hne)]
  by_cases hslash : (base.toList.getLast? == some '/') = true
  · rw [if_pos hslash]
    obtain ⟨front, hfront⟩ := List.getLast?_eq_some_iff.mp (beq_iff_eq.mp hslash)
    have hbase : base = String.ofList front ++ "/" := by
      apply String.toList_injective
      simp [hfront]
    rw [hbase, components_append_slash]
  · rw [if_neg hslash, components_append_slash, components_slash hne]

/-- To a base of nothing it adds itself. -/
theorem join_empty_left (p : Path) : join "" p = p := by
  unfold join
  rw [if_pos (by decide : ("" : String).isEmpty = true), ite_self]

/-- What a relative path adds to a base. -/
theorem exists_components_join {base p : Path} (h : p.isAbsolute = false) :
    ∃ more, (base.join p).components = base.components ++ more := by
  by_cases hne : base = ""
  · subst hne
    have hempty : components "" = [] := by decide
    exact ⟨p.components, by rw [join_empty_left, hempty, List.nil_append]⟩
  · exact ⟨_, components_join_of_relative h hne⟩

theorem isAbsolute_join {base : Path} (h : base.isAbsolute = true) (p : Path) :
    (base.join p).isAbsolute = true := by
  have hne : base ≠ "" := by
    rintro rfl
    exact absurd h (by decide)
  unfold join
  split
  · assumption
  · split
    · rename_i hempty
      exact absurd (by simpa using hempty) hne
    · split
      · rw [isAbsolute_append hne]
        exact h
      · rw [String.append_assoc, isAbsolute_append hne]
        exact h

theorem noSlash_stem {name : String} (h : '/' ∉ name.toList) : '/' ∉ (stem name).toList := by
  unfold stem
  by_cases hdot : '.' ∈ name.toList
  · obtain ⟨before, after, hname, hafter⟩ := Text.exists_last_of_mem hdot
    rw [hname, Text.cutLast?_append_cons hafter]
    dsimp only
    split
    · exact h
    · intro hslash
      exact h (by simp_all)
  · rw [Text.cutLast?_of_not_mem hdot]
    exact h

/-- A name keeps being one when it gets another extension. -/
theorem isName_withExtension {name : String} (h : IsName name) : IsName (stem name ++ ".py") := by
  have hend : (stem name ++ ".py").toList.getLast? = some 'y' := by simp
  refine ⟨?_, ?_, ?_⟩
  · simpa using noSlash_stem h.noSlash
  · unfold isVoid
    rw [Bool.or_eq_false_iff, beq_eq_false_iff_ne, beq_eq_false_iff_ne]
    refine ⟨?_, ?_⟩ <;> (intro heq; rw [heq] at hend; exact absurd hend (by decide))
  · intro heq
    rw [heq] at hend
    exact absurd hend (by decide)

theorem endsInName_join {base : Path} {name : String} (h : IsName name) :
    (base.join name).EndsInName := by
  unfold EndsInName
  rw [getLast?_segments_join, segments_of_noSlash h.noSlash]
  simpa using h.notVoid

theorem endsInName_withExtension {p : Path} {name : String} (h : p.fileName? = some name) :
    (p.withExtension "py").EndsInName := by
  obtain ⟨-, -, -, -, hname, -⟩ := components_of_fileName? h
  have hfile : IsName (stem name ++ "." ++ "py") := by
    rw [String.append_assoc]
    exact isName_withExtension hname
  unfold withExtension withFileName
  rw [h]
  cases p.parent? with
  | some dir => exact endsInName_join hfile
  | none => exact endsInName_join hfile

/-! ### Paths from the root on -/

theorem exists_append_dropComponents (n : Nat) (parts : List String) :
    ∃ front, parts = front ++ dropComponents n parts := by
  induction parts generalizing n with
  | nil => exact ⟨[], by simp [dropComponents]⟩
  | cons s rest ih =>
      cases n with
      | zero =>
          unfold dropComponents
          split
          · obtain ⟨front, hfront⟩ := ih 0
            exact ⟨s :: front, by rw [List.cons_append, ← hfront]⟩
          · exact ⟨[], rfl⟩
      | succ n =>
          unfold dropComponents
          split
          · obtain ⟨front, hfront⟩ := ih (n + 1)
            exact ⟨s :: front, by rw [List.cons_append, ← hfront]⟩
          · obtain ⟨front, hfront⟩ := ih n
            exact ⟨s :: front, by rw [List.cons_append, ← hfront]⟩

/-- Only as many names are dropped as there should be. -/
theorem length_filter_of_dropComponents {n : Nat} {parts : List String}
    (h : dropComponents n parts = []) : (parts.filter (!isVoid ·)).length ≤ n := by
  induction parts generalizing n with
  | nil => simp
  | cons s rest ih =>
      by_cases hvoid : isVoid s = true
      · have hrest : dropComponents n rest = [] := by
          cases n with
          | zero => simpa [dropComponents, hvoid] using h
          | succ n => simpa [dropComponents, hvoid] using h
        simpa [hvoid] using ih hrest
      · cases n with
        | zero => simp [dropComponents, hvoid] at h
        | succ n =>
            have hrest : dropComponents n rest = [] := by simpa [dropComponents, hvoid] using h
            simpa [hvoid] using ih hrest

/-- Nothing is left out of segments that end in a name. -/
theorem ofSegments_eq {parts : List String} {s : String} (hlast : parts.getLast? = some s)
    (hs : isVoid s = false) : ofSegments parts = "/".intercalate parts := by
  obtain ⟨front, rfl⟩ := List.getLast?_eq_some_iff.mp hlast
  unfold ofSegments
  rw [List.reverse_append, List.reverse_singleton, List.singleton_append,
    List.dropWhile_cons_of_neg (by simp [hs]), List.reverse_cons, List.reverse_reverse]

/-- The text of segments that end in a name has these segments. -/
theorem segments_ofSegments {parts : List String} {s : String}
    (hslash : ∀ s ∈ parts, '/' ∉ s.toList) (hlast : parts.getLast? = some s) (hs : isVoid s = false) :
    segments (ofSegments parts) = parts := by
  rw [ofSegments_eq hlast hs]
  refine segments_intercalate ?_ hslash
  rintro rfl
  cases hlast

/-- What components of a path stand before its names. -/
theorem components_cases (p : Path) :
    p.components = p.segments.filter (!isVoid ·) ∨
      ∃ mark, (mark = "/" ∨ mark = ".") ∧ p.components = mark :: p.segments.filter (!isVoid ·) := by
  rw [components_eq]
  split
  · exact Or.inr ⟨"/", Or.inl rfl, rfl⟩
  · split
    · exact Or.inr ⟨".", Or.inr rfl, rfl⟩
    · exact Or.inl rfl

/-- Components of a path before its names. -/
def marks (p : Path) : Nat :=
  if p.components.head?.any fun s => s == "/" || s == "." then 1 else 0

/-- A path below `base` that has no more names lies at `base`. -/
theorem components_eq_of_isBelow {p base : Path} (hbelow : p.isBelow base = true)
    (hsome : p.segments.filter (!isVoid ·) ≠ [])
    (hfew : (p.segments.filter (!isVoid ·)).length ≤ base.components.length - base.marks) :
    base.components ≠ [] ∧ p.components = base.components := by
  have hbegins : base.components <+: p.components := List.isPrefixOf_iff_prefix.mp hbelow
  have hnamed := areNamed_filter_segments p
  cases hbase : base.components with
  | nil =>
      rw [hbase] at hfew
      exact absurd (List.length_eq_zero_iff.mp (Nat.le_zero.mp (by simpa using hfew))) hsome
  | cons b rest =>
      refine ⟨by simp, ?_⟩
      unfold marks at hfew
      rw [hbase] at hbegins hfew
      rcases p.components_cases with hparts | ⟨mark, hmark, hparts⟩
      · -- Both start with a name.
        rw [hparts] at hbegins ⊢
        have hmem := hbegins.subset (List.mem_cons_self (a := b) (l := rest))
        have hslash : b ≠ "/" := by
          rintro rfl
          exact hnamed.noSlash _ hmem (by decide)
        have hdot : b ≠ "." := by
          rintro rfl
          exact absurd (hnamed.notVoid _ hmem) (by decide)
        refine (hbegins.eq_of_length_le ?_).symm
        simpa [hslash, hdot] using hfew
      · rw [hparts] at hbegins ⊢
        obtain ⟨rfl, hrest⟩ := List.cons_prefix_cons.mp hbegins
        have hlength : (p.segments.filter (!isVoid ·)).length ≤ rest.length := by
          rcases hmark with rfl | rfl
          · simpa using hfew
          · simpa using hfew
        rw [hrest.eq_of_length_le hlength]

/-- The path from `base` on is what is left when the names of `base` are dropped. -/
theorem eq_of_relativeTo? {p base q : Path} (h : p.relativeTo? base = some q) :
    p.isBelow base = true ∧
      q = ofSegments (dropComponents (base.components.length - base.marks) p.segments) := by
  unfold relativeTo? at h
  split at h
  · rename_i hbelow
    refine ⟨hbelow, ?_⟩
    rw [← Option.some.inj h]
    unfold marks
    cases base.components.head? with
    | none => rfl
    | some mark => rfl
  · cases h

/-- What is left ends as before. -/
theorem getLast?_dropComponents {n : Nat} {parts : List String} (h : dropComponents n parts ≠ []) :
    (dropComponents n parts).getLast? = parts.getLast? := by
  obtain ⟨front, hfront⟩ := exists_append_dropComponents n parts
  have hlast := congrArg List.getLast? hfront
  rw [List.getLast?_append, List.getLast?_eq_some_getLast h, Option.some_or] at hlast
  rw [hlast, List.getLast?_eq_some_getLast h]

theorem noSlash_dropComponents {p : Path} {n : Nat} :
    ∀ s ∈ dropComponents n p.segments, '/' ∉ s.toList := by
  intro s hs
  obtain ⟨front, hfront⟩ := exists_append_dropComponents n p.segments
  refine noSlash_of_mem_segments (p := p) ?_
  rw [hfront]
  exact List.mem_append_right front hs

/-- The path of a file below `base`, from there on, ends like the path itself, unless the file is
`base`. -/
theorem relativeTo?_cases {p base q : Path} (hp : p.EndsInName) (h : p.relativeTo? base = some q) :
    q.EndsInName ∨ q = "" ∧ base.components ≠ [] ∧ p.components = base.components := by
  obtain ⟨-, s, -, hlast, -⟩ := hp.getLast?_components
  have hs : isVoid s = false := by simpa [EndsInName, hlast] using hp
  obtain ⟨hbelow, rfl⟩ := eq_of_relativeTo? h
  by_cases hrest : dropComponents (base.components.length - base.marks) p.segments = []
  · right
    have hfew := length_filter_of_dropComponents hrest
    refine ⟨by rw [hrest]; decide, components_eq_of_isBelow hbelow ?_ hfew⟩
    refine List.ne_nil_of_mem (List.mem_filter.mpr ⟨List.mem_of_getLast? hlast, ?_⟩)
    simp [hs]
  · left
    have hlast' := (getLast?_dropComponents hrest).trans hlast
    unfold EndsInName
    rw [segments_ofSegments noSlash_dropComponents hlast' hs, hlast']
    simpa using hs

end Path

namespace FileTree

variable {t : FileTree} {place : Place} {text : String}

/-- What has a text is a file. -/
theorem isFile_of_readText (h : t.readText place = .ok text) : t.isFile place = true := by
  obtain ⟨bytes, hread, -⟩ := readText_eq_ok.mp h
  unfold isFile
  rw [(read_eq_ok.mp hread).2.2]
  rfl

/-- There are only directories above a directory. -/
theorem readText_above {here : Place} (h : t.notDir? here = none) :
    t.readText here.dropLast ≠ .ok text := by
  intro hread
  have hobstacle : t.obstacle? here = none := by
    cases hfound : t.obstacle? here with
    | none => rfl
    | some e => simp [notDir?, hfound] at h
  by_cases hdeep : 2 ≤ here.length
  · have habove : here.dropLast ∈ above here := by
      refine List.mem_map.mpr ⟨here.length - 1, ?_, (List.dropLast_eq_take ..).symm⟩
      rw [List.mem_range'_1]
      omega
    have hnone := List.findSome?_eq_none_iff.mp hobstacle _ habove
    simp [isFile_of_readText hread] at hnone
  · have hroot : here.dropLast = [] := by
      rw [← List.length_eq_zero_iff, List.length_dropLast]
      omega
    rw [hroot] at hread
    simp [readText, read, obstacle?, above, isDir] at hread

end FileTree

namespace Project

variable {p : Project} {path : Path} {m : Module} {text : String}

theorem absolute_eq (p : Project) (path : Path) :
    p.absolute path = path ∨ path.isAbsolute = false ∧ p.absolute path = p.root.join path := by
  unfold absolute
  split
  · exact Or.inl rfl
  · rename_i h
    simp only [Bool.or_eq_true, not_or, Bool.not_eq_true] at h
    exact Or.inr ⟨h.1, rfl⟩

theorem endsInName_absolute (h : path.EndsInName) : (p.absolute path).EndsInName := by
  rcases p.absolute_eq path with heq | ⟨-, heq⟩
  · rwa [heq]
  · unfold Path.EndsInName
    rw [heq, Path.getLast?_segments_join]
    exact h

/-- A file that is read lies where its components lead, and its path ends in its name. -/
theorem source_eq_ok : p.source path = .ok text ↔
    ∃ place, (p.key path).foldlM p.tree.step p.cwd = .ok place ∧
      p.tree.readText place = .ok text ∧ (p.absolute path).EndsInName := by
  unfold source key
  constructor
  · intro h
    obtain ⟨hloc, hread⟩ := Disk.locate_bind_eq_ok h
    exact ⟨_, (FileTree.locate_eq_ok.mp hloc).1, hread,
      FileTree.getLast?_of_locate hloc (FileTree.isFile_of_readText hread)⟩
  · rintro ⟨place, hplace, hread, hends⟩
    have hloc : p.tree.locate p.cwd (p.absolute path) = .ok place := by
      refine FileTree.locate_eq_ok.mpr ⟨hplace, ?_⟩
      have hlast : (p.absolute path).segments.getLast?.any Path.isVoid = false := hends
      rw [hlast, Bool.and_false]
    rw [hloc]
    exact hread

/-- If any path with the same components can be read, then this one can. -/
def Rereadable (p : Project) (path : Path) : Prop :=
  ∀ other m, p.key other = p.key path → p.load other = .ok m → ∃ m', p.load path = .ok m'

theorem rereadable_of_endsInName (h : path.EndsInName) : p.Rereadable path := by
  intro other m hkey hload
  obtain ⟨text, htext, -⟩ := exists_source_of_load hload
  obtain ⟨place, hplace, hread, -⟩ := source_eq_ok.mp htext
  rw [hkey] at hplace
  exact exists_load hload htext (source_eq_ok.mpr ⟨place, hplace, hread, endsInName_absolute h⟩)

/-- Nothing is read where components end in a mark. -/
theorem rereadable_of_mark
    (h : ∀ s, (p.key path).getLast? = some s → s = "/" ∨ s = "." ∨ s = "..") :
    p.Rereadable path := by
  intro other m hkey hload
  obtain ⟨text, htext, -⟩ := exists_source_of_load hload
  obtain ⟨place, hplace, hread, hends⟩ := source_eq_ok.mp htext
  obtain ⟨front, s, hparts, -, hslash, hdot⟩ := hends.getLast?_components
  have hparts' : p.key path = front ++ [s] := by
    rw [← hkey]
    exact hparts
  obtain rfl : s = ".." := by simpa [hslash, hdot] using h s (by simp [hparts'])
  -- The last step was one up, from a directory, so no file lies there.
  rw [hkey, hparts', List.foldlM_append] at hplace
  cases hhere : front.foldlM p.tree.step p.cwd with
  | error e =>
      rw [hhere] at hplace
      exact absurd hplace (by simp [bind, Except.bind])
  | ok here =>
      rw [hhere] at hplace
      have hup : (p.tree.step here ".." >>= pure) = .ok place := hplace
      rw [bind_pure] at hup
      unfold FileTree.step at hup
      simp only [show ((".." : String) == "/") = false by decide,
        show ((".." : String) == ".") = false by decide, beq_self_eq_true] at hup
      cases hdir : p.tree.notDir? here with
      | some e => simp [hdir] at hup
      | none =>
          obtain rfl : here.dropLast = place := by simpa [hdir] using hup
          exact absurd hread (FileTree.readText_above hdir)

/-- Names of modules lead from the root on, unless one of them leads elsewhere. -/
theorem isBelow_foldl_join (names : List Path) {base : Path}
    (h : base.isAbsolute = true ∨ base.isBelow p.root = true) :
    (names.foldl Path.join base).isAbsolute = true ∨
      (names.foldl Path.join base).isBelow p.root = true := by
  induction names generalizing base with
  | nil => exact h
  | cons name rest ih =>
      refine ih ?_
      by_cases habs : name.isAbsolute = true
      · have hjoin : base.join name = name := by
          unfold Path.join
          rw [if_pos habs]
        rw [hjoin]
        exact Or.inl habs
      · rcases h with hbase | hbase
        · exact Or.inl (Path.isAbsolute_join hbase name)
        · right
          obtain ⟨more, hmore⟩ : ∃ more, (base.join name).components = base.components ++ more :=
            Path.exists_components_join (by simpa using habs)
          unfold Path.isBelow at hbase ⊢
          rw [List.isPrefixOf_iff_prefix] at hbase ⊢
          rw [hmore]
          exact hbase.trans (List.prefix_append _ _)

theorem absolute_of_isBelow {base : Path}
    (h : base.isAbsolute = true ∨ base.isBelow p.root = true) : p.absolute base = base := by
  unfold absolute
  rw [if_pos (by simpa using h)]

/-- **The file of a module can be read again.** -/
theorem rereadable_moduleFile {dotted : String} (h : p.moduleFile? dotted = some path) :
    p.Rereadable path := by
  unfold moduleFile? at h
  split at h
  · exact absurd h (by simp)
  · have hmem := List.mem_of_find?_eq_some h
    generalize hbase : ((Text.split '.' dotted.toList).map String.ofList).foldl Path.join p.root =
      base at hmem
    rcases List.mem_cons.mp hmem with rfl | hmem
    · cases hname : base.fileName? with
      | some name => exact rereadable_of_endsInName (Path.endsInName_withExtension hname)
      | none =>
          have hwithin : p.absolute base = base := by
            rw [← hbase]
            refine absolute_of_isBelow (isBelow_foldl_join _ (Or.inr ?_))
            exact List.isPrefixOf_iff_prefix.mpr (List.prefix_refl _)
          have hsame : base.withExtension "py" = base := by
            unfold Path.withExtension
            rw [hname]
          rw [hsame]
          refine rereadable_of_mark fun s hs => ?_
          unfold key at hs
          rw [hwithin] at hs
          have hmark := Option.filter_eq_none_iff.mp hname s hs
          simpa [or_iff_not_imp_left] using hmark
    · obtain rfl := List.mem_singleton.mp hmem
      exact rereadable_of_endsInName (Path.endsInName_join ⟨by decide, by decide, by decide⟩)

/-- A path of nothing names the root. -/
theorem key_empty (h : p.root.components ≠ []) : p.key "" = p.root.components := by
  have hne : p.root ≠ "" := by
    rintro hroot
    exact h (by rw [hroot]; decide)
  have hbelow : Path.isBelow "" p.root = false := by
    unfold Path.isBelow
    rw [show Path.components "" = [] by decide]
    cases hroot : p.root.components with
    | nil => exact absurd hroot h
    | cons s rest => rfl
  unfold key absolute
  rw [if_neg (by simp [hbelow, show Path.isAbsolute "" = false by decide])]
  unfold Path.join
  rw [if_neg (by decide), if_neg (by simpa using hne)]
  split
  · rw [String.append_empty]
  · rw [String.append_empty, Path.components_slash hne]

/-- **A known module can be read again**, or is remembered under its path. -/
theorem rereadable_path (h : p.load path = .ok m) :
    p.Rereadable m.path ∨ p.key m.path = p.key path := by
  obtain ⟨text, htext, -⟩ := exists_source_of_load h
  obtain ⟨-, -, -, hends⟩ := source_eq_ok.mp htext
  rw [path_of_load h]
  unfold relative
  cases hrelative : (p.absolute path).relativeTo? p.root with
  | none => exact Or.inl (rereadable_of_endsInName hends)
  | some q =>
      rcases Path.relativeTo?_cases hends hrelative with hq | ⟨rfl, hroot, hsame⟩
      · exact Or.inl (rereadable_of_endsInName hq)
      · exact Or.inr ((key_empty hroot).trans hsame.symm)

end Project

end Plumbline
