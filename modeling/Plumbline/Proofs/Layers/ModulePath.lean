/-
A file and the module that it holds lie in the same layer.

A file is put into a layer by its path, and what an import names by its dotted name, which is made a
path again.  The way from the path to the dotted name drops the ending of source files and, for a
package, the name `__init__`.  The first makes no difference because the forms of paths drop the
ending as well (`moduleForm_moduleName`).  The second makes none as long as no prefix and no directory
of the configuration is called `__init__`: what such a prefix or directory says of the path of a
package, it says of the directory that the package is (`covers_package`).
-/
import Mathlib.Data.List.Find
import Plumbline.Analysis.Project
import Plumbline.Proofs.Files.Normal
import Plumbline.Proofs.Layers.Prefix

namespace Plumbline

/-! ### Paths of source files -/

/-- A name that stands for itself in paths and in dotted names. -/
structure IsPlainName (s : String) : Prop where
  nonempty : s ≠ ""
  noSlash : '/' ∉ s.toList
  noDot : '.' ∉ s.toList
  noBackslash : '\\' ∉ s.toList

/-- The relative path of a source file whose components, without the ending, are `names`. -/
structure IsSourcePath (path : Path) (names : List String) : Prop where
  written : path = "/".intercalate names ++ ".py"
  nonempty : names ≠ []
  plain : ∀ s ∈ names, IsPlainName s

theorem IsPlainName.isName {s : String} (h : IsPlainName s) : Path.IsName s := by
  refine ⟨h.noSlash, ?_, ?_⟩
  · have hdot : s ≠ "." := by
      rintro rfl
      exact h.noDot (by decide)
    simp [Path.isVoid, h.nonempty, hdot]
  · rintro rfl
    exact h.noDot (by decide)

/-- With the ending a name is still the name of a file. -/
theorem IsPlainName.isName_source {s : String} (h : IsPlainName s) : Path.IsName (s ++ ".py") := by
  have hmem : 'p' ∈ (s ++ ".py").toList := by simp
  have hne : ∀ t : String, 'p' ∉ t.toList → s ++ ".py" ≠ t := by
    rintro t ht rfl
    exact ht hmem
  refine ⟨by simp [h.noSlash], ?_, hne ".." (by decide)⟩
  simp [Path.isVoid, hne "" (by decide), hne "." (by decide)]

namespace Path

variable {names : List String}

/-- The names of a path are the only thing in it besides slashes. -/
theorem not_mem_intercalate (sep : Char) {c : Char} (hc : c ≠ sep)
    (h : ∀ s ∈ names, c ∉ s.toList) : c ∉ ((String.singleton sep).intercalate names).toList := by
  induction names with
  | nil => simp
  | cons s rest ih =>
      have hrest := ih fun t ht => h t (List.mem_cons_of_mem s ht)
      have hs : c ∉ s.toList := h s List.mem_cons_self
      cases rest with
      | nil => simpa using hs
      | cons t rest =>
          rw [String.intercalate_cons_cons, String.toList_append, String.toList_append,
            List.mem_append, List.mem_append, not_or, not_or]
          exact ⟨⟨hs, by simpa using hc⟩, hrest⟩

/-- The name without the ending is what the stem of a source file is. -/
theorem stem_source {s : String} (h : IsPlainName s) : stem (s ++ ".py") = s := by
  have hlist : (s ++ ".py").toList = s.toList ++ '.' :: ['p', 'y'] := by simp
  have hne : s.toList ≠ [] := by simpa using h.nonempty
  unfold stem
  rw [hlist, Text.cutLast?_append_cons (by decide)]
  simp [hne]

/-- **Without its ending the path of a source file has its names as components.** -/
theorem components_withoutExtension {path : Path} (h : IsSourcePath path names) :
    (path.withExtension "").components = names := by
  obtain ⟨front, s, rfl⟩ : ∃ front s, names = front ++ [s] :=
    ⟨_, _, (List.dropLast_concat_getLast h.nonempty).symm⟩
  have hfront : AreNames front := fun t ht => (h.plain t (by simp [ht])).isName
  have hs : IsPlainName s := h.plain s (by simp)
  have hall : AreNames (front ++ [s ++ ".py"]) :=
    hfront.append (areNames_singleton hs.isName_source)
  have hpath : path = "/".intercalate (front ++ [s ++ ".py"]) := by
    rw [h.written]
    by_cases hempty : front = []
    · subst hempty
      rfl
    · rw [intercalate_append hempty (by simp), intercalate_append hempty (by simp)]
      simp only [String.intercalate_singleton, String.append_assoc]
  have hparts : path.components = front ++ [s ++ ".py"] := by
    rw [hpath]
    exact components_names (by simp) hall
  have hfile : path.fileName? = some (s ++ ".py") := by
    have hname := hs.isName_source
    unfold fileName?
    rw [hparts]
    simp [hname.ne_slash, hname.ne_dot, hname.notUp]
  have hparent : path.parent? = some (ofComponents front) := by
    unfold parent?
    rw [hparts]
    split
    · rename_i heq
      simp at heq
    · rename_i heq
      have hslash : s ++ ".py" = "/" := by simpa using congrArg List.getLast? heq
      exact absurd hslash hs.isName_source.ne_slash
    · rw [List.dropLast_concat]
  have hnames : (ofComponents ([] ++ front)).components = [] ++ front :=
    components_ofComponents hfront.areNamed (Or.inr (Or.inr rfl))
  unfold withExtension withFileName
  rw [hfile, hparent]
  show ((ofComponents front).join (stem (s ++ ".py"))).components = front ++ [s]
  rw [List.nil_append] at hnames
  rw [stem_source hs, components_join hs.isName, hnames]

end Path

/-- The names that the dotted name of a module consists of. -/
def modulePart (names : List String) : List String :=
  if names.getLast? = some "__init__" then names.dropLast else names

theorem moduleName_of_isSourcePath {path : Path} {names : List String}
    (h : IsSourcePath path names) : moduleName path = ".".intercalate (modulePart names) := by
  unfold moduleName
  rw [Path.components_withoutExtension h]
  rfl

/-! ### Forms of paths -/

namespace Layer

variable {names : List String}

/-- A path of plain names, with or without something behind it, is its own form. -/
theorem pathForm_of_plain (hne : names ≠ []) (h : ∀ s ∈ names, IsPlainName s) (ending : String)
    (hending : '\\' ∉ ending.toList) :
    pathForm ("/".intercalate names ++ ending) = ("/".intercalate names ++ ending).toList := by
  have hback : '\\' ∉ ("/".intercalate names ++ ending).toList := by
    rw [String.toList_append, List.mem_append, not_or]
    exact ⟨Path.not_mem_intercalate '/' (by decide) fun s hs => (h s hs).noBackslash,
      hending⟩
  have hstart : ¬ ['.', '/'] <+: ("/".intercalate names ++ ending).toList := by
    obtain ⟨s, rest, rfl⟩ := List.exists_cons_of_ne_nil hne
    have hs : IsPlainName s := h s List.mem_cons_self
    obtain ⟨c, cs, hcs⟩ := List.exists_cons_of_ne_nil (show s.toList ≠ [] by simpa using hs.nonempty)
    have hdot : c ≠ '.' := by
      rintro rfl
      exact hs.noDot (by simp [hcs])
    have hhead : ("/".intercalate (s :: rest) ++ ending).toList.head? = some c := by
      cases rest with
      | nil => simp [hcs]
      | cons t rest => simp [String.intercalate_cons_cons, hcs]
    rintro ⟨more, hmore⟩
    rw [← hmore] at hhead
    simp at hhead
    exact hdot hhead.symm
  unfold pathForm
  rw [Text.replaceChar_of_not_mem hback]
  exact Text.dropPrefixes_of_not_prefix hstart _

theorem moduleForm_source (cs : List Char) : moduleForm (cs ++ ".py".toList) = cs := by
  have hsuffix : Text.stripSuffix? ['.', 'p', 'y'] (cs ++ ".py".toList) = some cs :=
    Text.stripSuffix?_eq_some_iff.mpr rfl
  unfold moduleForm
  rw [hsuffix]
  rfl

theorem moduleForm_of_noDot {cs : List Char} (h : '.' ∉ cs) : moduleForm cs = cs := by
  have hsuffix : Text.stripSuffix? ['.', 'p', 'y'] cs = none := by
    rw [Text.stripSuffix?_eq_none_iff]
    rintro ⟨more, rfl⟩
    exact h (by simp)
  unfold moduleForm
  rw [hsuffix]
  rfl

/-- A dotted name of plain names becomes their path. -/
theorem replaceChar_dots (h : ∀ s ∈ names, IsPlainName s) :
    Text.replaceChar '.' '/' (".".intercalate names).toList = ("/".intercalate names).toList := by
  induction names with
  | nil => rfl
  | cons s rest ih =>
      have hrest := ih fun t ht => h t (List.mem_cons_of_mem s ht)
      have hs : Text.replaceChar '.' '/' s.toList = s.toList :=
        Text.replaceChar_of_not_mem (h s List.mem_cons_self).noDot
      cases rest with
      | nil => simpa using hs
      | cons t rest =>
          rw [String.intercalate_cons_cons, String.intercalate_cons_cons, String.toList_append,
            String.toList_append, String.toList_append, String.toList_append, ← hrest]
          unfold Text.replaceChar at hs ⊢
          rw [List.map_append, List.map_append, hs]
          rfl

/-- The form by which a path of plain names is compared with prefixes and directories. -/
theorem moduleForm_of_isSourcePath {path : Path} (h : IsSourcePath path names) :
    moduleForm (pathForm path) = ("/".intercalate names).toList := by
  rw [h.written, pathForm_of_plain h.nonempty h.plain ".py" (by decide), String.toList_append,
    moduleForm_source]

/-- The form of a dotted name of plain names, made a path. -/
theorem moduleForm_of_dotted (hne : names ≠ []) (h : ∀ s ∈ names, IsPlainName s) :
    moduleForm (pathForm (String.ofList (Text.replaceChar '.' '/' (".".intercalate names).toList))) =
      ("/".intercalate names).toList := by
  have hform := pathForm_of_plain hne h "" (by simp)
  rw [String.append_empty] at hform
  rw [replaceChar_dots h, String.ofList_toList, hform]
  exact moduleForm_of_noDot
    (Path.not_mem_intercalate '/' (by decide) fun s hs => (h s hs).noDot)

/-! ### Packages -/

/-- **A prefix that does not name `__init__` covers the path of a package exactly if it covers the
directory.** -/
theorem covers_package {form dir init : List Char} (hinit : '/' ∉ init)
    (hform : init ∉ Text.split '/' form) :
    covers form (dir ++ '/' :: init) = covers form dir := by
  rw [Bool.eq_iff_iff, covers_iff, covers_iff]
  constructor
  · rintro (rfl | ⟨rest, hrest⟩)
    · rw [Text.split_append_cons, Text.split_of_not_mem hinit] at hform
      exact absurd (List.mem_append_right _ List.mem_cons_self) hform
    · by_cases hslash : '/' ∈ rest
      · -- The prefix ends at a slash before the last one, so it ends within the directory.
        obtain ⟨between, last, rfl, hlast⟩ := Text.exists_last_of_mem hslash
        have hcut : dir ++ '/' :: init = (form ++ '/' :: between) ++ '/' :: last := by
          rw [hrest]
          simp
        exact Or.inr ⟨between, (Text.append_cons_inj hinit hlast hcut).1⟩
      · exact Or.inl (Text.append_cons_inj hinit hslash hrest).1
  · rintro (rfl | ⟨rest, rfl⟩)
    · exact Or.inr ⟨init, rfl⟩
    · exact Or.inr ⟨rest ++ '/' :: init, by simp⟩

end Layer

/-! ### Layers of files and modules -/

namespace LayerConfig

/-- Neither a prefix nor a directory of the configuration is called `__init__`. -/
structure NamesNoInit (layers : LayerConfig) : Prop where
  prefixes : ∀ e ∈ layers.paths, "__init__".toList ∉ Text.split '/' (form e)
  directories : ∀ d ∈ layers.directories, d.name ≠ "__init__"

end LayerConfig

namespace LayerClassifier

open LayerConfig

/-- The layer of a path in the form in which it is compared with prefixes and directories. -/
def ofForm? (c : LayerClassifier) (module : List Char) : Option Layer :=
  ((c.prefixes.find? fun e => Layer.covers e.1 module).map (·.2)).or
    ((c.config.layers.directories.find? fun d =>
      (Text.split '/' module).contains d.name.toList).map (⟨·.layer⟩))

theorem ofPath?_eq_ofForm? (c : LayerClassifier) (path : Path) :
    c.ofPath? path = c.ofForm? (Layer.moduleForm (Layer.pathForm path)) := rfl

/-- **A package lies in the layer of its directory.** -/
theorem ofForm?_package {config : ProjectConfig} (hnames : config.layers.NamesNoInit)
    (dir : List Char) :
    (ofConfig config).ofForm? (dir ++ '/' :: "__init__".toList) = (ofConfig config).ofForm? dir := by
  have hprefixes : ∀ x ∈ (ofConfig config).prefixes,
      Layer.covers x.1 (dir ++ '/' :: "__init__".toList) = Layer.covers x.1 dir := by
    intro x hx
    obtain ⟨e, he, -, rfl⟩ := mem_normalPrefixes.mp (List.mem_mergeSort.mp hx)
    exact Layer.covers_package (by decide) (hnames.prefixes e he)
  have hdirectories : ∀ d ∈ config.layers.directories,
      (Text.split '/' (dir ++ '/' :: "__init__".toList)).contains d.name.toList =
        (Text.split '/' dir).contains d.name.toList := by
    intro d hd
    have hne : d.name.toList ≠ "__init__".toList := fun heq =>
      hnames.directories d hd (String.toList_injective heq)
    rw [Text.split_append_cons, Text.split_of_not_mem (show '/' ∉ "__init__".toList by decide)]
    simp only [List.contains_eq_mem, List.mem_append, List.mem_singleton, hne, or_false]
  unfold ofForm?
  rw [List.find?_congr hprefixes]
  congr 2
  exact List.find?_congr hdirectories

/-- **A file has the layer of the module that it holds.** -/
theorem layer_of_path_eq_layer_of_module {config : ProjectConfig}
    (hnames : config.layers.NamesNoInit) {path : Path} {names : List String}
    (h : IsSourcePath path names) (hroot : path ≠ "__init__.py") :
    (ofConfig config).ofPath? path = (ofConfig config).ofModule? (moduleName path) := by
  unfold ofModule?
  rw [ofPath?_eq_ofForm?, ofPath?_eq_ofForm?, Layer.moduleForm_of_isSourcePath h,
    moduleName_of_isSourcePath h]
  unfold modulePart
  by_cases hinit : names.getLast? = some "__init__"
  · obtain ⟨front, rfl⟩ := List.getLast?_eq_some_iff.mp hinit
    have hfront : front ≠ [] := by
      rintro rfl
      exact hroot h.written
    have hlist : ("/".intercalate (front ++ ["__init__"])).toList =
        ("/".intercalate front).toList ++ '/' :: "__init__".toList := by
      rw [Path.intercalate_append hfront (by simp), String.intercalate_singleton,
        String.toList_append, String.toList_append, List.append_assoc]
      rfl
    rw [if_pos hinit, List.dropLast_concat, Layer.moduleForm_of_dotted hfront
      fun s hs => h.plain s (List.mem_append_left _ hs), hlist, ofForm?_package hnames]
  · rw [if_neg hinit, Layer.moduleForm_of_dotted h.nonempty h.plain]

/-- A configuration with one prefix. -/
def onePrefix : ProjectConfig := { layers := { paths := [("svc.a", "Interface")] } }

/-- The file of a package that a prefix names is in the layer of the prefix, like its module. -/
theorem package_has_layer_of_prefix :
    onePrefix.layers.NamesNoInit ∧ IsSourcePath "svc/a/__init__.py" ["svc", "a", "__init__"] ∧
      moduleName "svc/a/__init__.py" = "svc.a" ∧
      (ofConfig onePrefix).ofPath? "svc/a/__init__.py" = some ⟨"Interface"⟩ ∧
      (ofConfig onePrefix).ofPath? "svc/a/__init__.py" =
        (ofConfig onePrefix).ofModule? (moduleName "svc/a/__init__.py") := by
  have hnames : onePrefix.layers.NamesNoInit := ⟨by decide +kernel, by decide⟩
  have hplain : ∀ s ∈ ["svc", "a", "__init__"], IsPlainName s := by
    intro s hs
    simp only [List.mem_cons, List.not_mem_nil, or_false] at hs
    rcases hs with rfl | rfl | rfl <;> exact ⟨by decide, by decide, by decide, by decide⟩
  have hpath : IsSourcePath "svc/a/__init__.py" ["svc", "a", "__init__"] :=
    ⟨by decide, by decide, hplain⟩
  exact ⟨hnames, hpath, by decide +kernel, by decide +kernel,
    layer_of_path_eq_layer_of_module hnames hpath (by decide)⟩

end LayerClassifier

end Plumbline
