/-
Answers that do not depend on what was asked before.

In an orderly project every file has one normal path from the root of the project, and everything that
questions come to is read under that path.  So an answer that is remembered is the answer that the
question has by itself, and every question has the same answer with it as without it
(`Project.whenever`).
-/
import Plumbline.Proofs.Analysis.Dotted

namespace Plumbline

open Plumbline.Path Query

namespace Import

/-- The names of modules in the import hold no slash, which only a comment between their parts can
bring in. -/
def isPlain (i : Import) : Bool :=
  i.fromModule.all (fun source => !source.toList.contains '/') &&
    i.names.all fun n => !n.name.toList.contains '/'

theorem noSlash_source {i : Import} (h : i.isPlain = true) {source : String}
    (hsource : i.fromModule = some source) : '/' ∉ source.toList := by
  unfold isPlain at h
  rw [hsource, Bool.and_eq_true] at h
  simpa using h.1

theorem noSlash_name {i : Import} (h : i.isPlain = true) {n : ImportedName} (hn : n ∈ i.names) :
    '/' ∉ n.name.toList := by
  unfold isPlain at h
  rw [Bool.and_eq_true, List.all_eq_true] at h
  simpa using h.2 n hn

end Import

/-- No file is a module whose imports hold slashes. -/
def FileTree.importsPlainly (t : FileTree) : Bool :=
  t.files.all fun (_, bytes) =>
    match String.fromUTF8? bytes with
    | none => true
    | some text =>
      match Module.parse text "" "" with
      | .error _ => true
      | .ok m => m.body.all fun
        | .importing i => i.isPlain
        | _ => true

namespace Project

/-- The root of the project is a directory with an absolute normal path, and the imports of its
modules hold no slashes. -/
structure IsOrderly (p : Project) : Prop where
  root : ∃ names, AreNames names ∧ p.root = ofPlace names
  notFile : p.isFile p.root = false
  imports : ∀ path m, IsNormal path → p.load path = .ok m →
    ∀ i, .importing i ∈ m.body → i.isPlain = true

/-- The answer to a question of which nothing is remembered. -/
def alone {α : Type} (p : Project) (work : Query α) : α := ((work.run p).run {}).1

/-- A module of the project, read under a normal path. -/
def Has (p : Project) (m : Module) : Prop := ∃ path, IsNormal path ∧ p.load path = .ok m

variable {p : Project} {path path' : Path} {m : Module}

/-- Whether a project is orderly can be computed. -/
theorem isOrderly_of_files {names : List String} (hroot : p.root = ofPlace names)
    (hnames : AreNames names) (hfile : p.isFile p.root = false)
    (hplain : p.tree.importsPlainly = true) : p.IsOrderly where
  root := ⟨names, hnames, hroot⟩
  notFile := hfile
  imports := by
    intro path m _ hload i hi
    obtain ⟨text, htext, hm⟩ := exists_source_of_load hload
    obtain ⟨place, -, hread, -⟩ := source_eq_ok.mp htext
    obtain ⟨bytes, hbytes, hutf⟩ := FileTree.readText_eq_ok.mp hread
    obtain ⟨front, back, hfiles, -⟩ :=
      List.lookup_eq_some_iff.mp (FileTree.read_eq_ok.mp hbytes).2.2
    have hcheck := List.all_eq_true.mp hplain (place, bytes) (by simp [hfiles])
    unfold Module.parse at hm hcheck
    simp only [hutf] at hcheck
    split at hm
    · rename_i tree hparse
      rw [hparse] at hcheck
      obtain rfl := Except.ok.inj hm
      exact List.all_eq_true.mp hcheck (.importing i) hi
    · cases hm

/-! ### One path for each file -/

theorem absolute_ofPlace (p : Project) (names : List String) :
    p.absolute (ofPlace names) = ofPlace names := by
  unfold absolute
  rw [isAbsolute_ofPlace]
  rfl

theorem absolute_names {root names : List String} (heq : p.root = ofPlace root)
    (hroot : AreNames root) (hne : names ≠ []) (hnames : AreNames names) :
    p.absolute ("/".intercalate names) = ofPlace (root ++ names) := by
  have hbelow : isBelow ("/".intercalate names) p.root = false := by
    unfold isBelow
    rw [heq, components_ofPlace hroot, components_names hne hnames]
    obtain ⟨s, rest, rfl⟩ := List.exists_cons_of_ne_nil hne
    have hs : ("/" == s) = false := beq_eq_false_iff_ne.mpr (hnames s (by simp)).ne_slash.symm
    simp [List.isPrefixOf, hs]
  unfold absolute
  rw [isAbsolute_names hnames, hbelow, heq, join_names hroot hne hnames]
  rfl

theorem IsOrderly.exists_absolute (h : p.IsOrderly) (hpath : IsNormal path) :
    ∃ names, AreNames names ∧ p.absolute path = ofPlace names := by
  obtain ⟨root, hroot, heq⟩ := h.root
  cases hpath with
  | absolute hnames => exact ⟨_, hnames, p.absolute_ofPlace _⟩
  | relative hne hnames => exact ⟨_, hroot.append hnames, absolute_names heq hroot hne hnames⟩

/-- Files that are remembered in one place have one path. -/
theorem IsOrderly.absolute_of_key (h : p.IsOrderly) (hpath : IsNormal path)
    (hpath' : IsNormal path') (hkey : p.key path = p.key path') :
    p.absolute path = p.absolute path' := by
  obtain ⟨names, hnames, heq⟩ := h.exists_absolute hpath
  obtain ⟨names', hnames', heq'⟩ := h.exists_absolute hpath'
  unfold key at hkey
  rw [heq, heq', components_ofPlace hnames, components_ofPlace hnames'] at hkey
  rw [heq, heq', (List.cons.inj hkey).2]

theorem load_congr (h : p.absolute path = p.absolute path') : p.load path = p.load path' := by
  unfold load source
  rw [h]

theorem IsOrderly.load_of_key (h : p.IsOrderly) (hpath : IsNormal path) (hpath' : IsNormal path')
    (hkey : p.key path = p.key path') : p.load path = p.load path' :=
  load_congr (h.absolute_of_key hpath hpath' hkey)

/-- The root of the project is no file. -/
theorem IsOrderly.ne_root_of_load (h : p.IsOrderly) (hload : p.load path = .ok m) :
    p.absolute path ≠ p.root := by
  intro hroot
  obtain ⟨text, htext, -⟩ := exists_source_of_load hload
  unfold source at htext
  obtain ⟨-, hread⟩ := Disk.locate_bind_eq_ok htext
  have hfile := FileTree.isFile_of_readText hread
  rw [hroot] at hfile
  exact absurd hfile (by simpa [isFile] using h.notFile)

/-- **A module is read again under its own path.** -/
theorem IsOrderly.path_of_load (h : p.IsOrderly) (hpath : IsNormal path)
    (hload : p.load path = .ok m) : IsNormal m.path ∧ p.absolute m.path = p.absolute path := by
  obtain ⟨root, hroot, hrooteq⟩ := h.root
  obtain ⟨names, hnames, heq⟩ := h.exists_absolute hpath
  have hne := h.ne_root_of_load hload
  rw [Project.path_of_load hload]
  unfold relative
  by_cases hbelow : isBelow (p.absolute path) p.root = true
  · rw [heq, hrooteq, isBelow_ofPlace hroot hnames] at hbelow
    obtain ⟨rest, rfl⟩ := hbelow
    have hrest : rest ≠ [] := by
      rintro rfl
      exact hne (by rw [heq, hrooteq, List.append_nil])
    rw [heq, hrooteq, relativeTo?_ofPlace hroot hrest hnames.right]
    exact ⟨.relative hrest hnames.right, absolute_names hrooteq hroot hrest hnames.right⟩
  · have hnone : (p.absolute path).relativeTo? p.root = none := by
      unfold relativeTo?
      rw [if_neg hbelow]
    rw [hnone, heq]
    exact ⟨.absolute hnames, p.absolute_ofPlace names⟩

theorem IsOrderly.has_of_load (h : p.IsOrderly) (hpath : IsNormal path)
    (hload : p.load path = .ok m) : IsNormal m.path ∧ p.load m.path = .ok m := by
  obtain ⟨hnormal, habs⟩ := h.path_of_load hpath hload
  exact ⟨hnormal, by rw [load_congr habs, hload]⟩

/-! ### Answers that are remembered -/

/-- Every answer that is remembered is the answer that the question has by itself. -/
structure Faithful (p : Project) (c : Cache) : Prop where
  modules : ∀ key m, c.modules.lookup key = some m →
    ∃ path, IsNormal path ∧ p.key path = key ∧ p.load path = .ok m
  declared : ∀ path qualname t, IsNormal path → c.declared.lookup (p.key path, qualname) = some t →
    t = p.alone (declaredAfresh path qualname)
  inferred : ∀ m f t, p.Has m → m.Places f →
    c.inferred.lookup (p.key m.path, f.qualname, f.span.start) = some t → t = p.alone (bodyReturn m f)

theorem faithful_empty (p : Project) : p.Faithful {} where
  modules _ _ h := nomatch h
  declared _ _ _ _ h := nomatch h
  inferred _ _ _ _ _ h := nomatch h

/-- Runs that may remember anything that is true. -/
def whenever (p : Project) : TwoRuns where
  project := p
  Sound := p.Faithful
  Follows _ _ := True
  follows_of_le _ _ := trivial
  follows_le _ _ := trivial

/-- Runs agree on a question that has one answer, whatever is remembered. -/
theorem agrees_of_answer {α : Type} {work : Query α} {P : Cache → α → Prop} (a : α)
    (hanswer : ∀ d, p.Faithful d → (p.whenever.run work d).1 = a)
    (hgrows : ∀ d, p.Faithful d → p.whenever.Grows work d) (hP : ∀ c, P c a) (c : Cache) :
    p.whenever.logic.Holds c work P := fun hc =>
  { toGrows := hgrows c hc
    answer := hanswer c hc ▸ hP _
    again := fun d hd _ => ⟨(hanswer d hd).trans (hanswer c hc).symm, hgrows d hd⟩ }

/-- On what the runs agree, every run gives the answer that the question has by itself. -/
theorem answer_of_holds {α : Type} {work : Query α} {P : Cache → α → Prop} {c d : Cache}
    (h : p.whenever.logic.Holds c work P) (hc : p.Faithful c) (hd : p.Faithful d) :
    (p.whenever.run work d).1 = p.alone work := by
  have hagain := (h hc).again
  exact ((hagain d hd trivial).1).trans (hagain {} p.faithful_empty trivial).1.symm

theorem grows_of_holds {α : Type} {work : Query α} {P : Cache → α → Prop} {c d : Cache}
    (h : p.whenever.logic.Holds c work P) (hc : p.Faithful c) (hd : p.Faithful d) :
    p.whenever.Grows work d := ((h hc).again d hd trivial).2

variable (h : p.IsOrderly)
include h

/-- Parsing gives the module that is read from the file. -/
theorem parse_whenever (hpath : IsNormal path) (c : Cache) :
    p.whenever.logic.Holds c (parse path) fun _ r => ∀ m, r = .ok m → p.Has m := by
  refine agrees_of_answer (p.load path) (fun d hd => ?_) (fun d hd => ?_) ?_ c
  · have hrun : p.whenever.run (parse path) d = _ := run_parse p path d
    cases hlook : d.modules.lookup (p.key path) with
    | some m =>
        obtain ⟨path', hpath', hkey, hload⟩ := hd.modules _ m hlook
        rw [hrun, hlook, h.load_of_key hpath hpath' hkey.symm, hload]
    | none =>
        rw [hrun, hlook]
        cases p.load path with
        | error e => rfl
        | ok m => rfl
  · refine TwoRuns.grows_parse hd fun m hload hle => ⟨fun key m' hm' => ?_, hd.declared, hd.inferred⟩
    by_cases hkey : key = p.key path
    · subst hkey
      obtain rfl : m = m' := by simpa [whenever] using hm'
      exact ⟨path, hpath, rfl, hload⟩
    · have hne : (key == p.key path) = false := beq_eq_false_iff_ne.mpr hkey
      refine hd.modules key m' ?_
      simpa [whenever, List.lookup_cons, hne] using hm'
  · exact fun _ m hload => ⟨path, hpath, hload⟩

omit h in
/-- Files that are read alike declare alike. -/
theorem declaredAfresh_congr (heq : p.absolute path = p.absolute path') (qualname : String) :
    p.alone (declaredAfresh path qualname) = p.alone (declaredAfresh path' qualname) := by
  have hparse : ((parse path).run p).run {} = ((parse path').run p).run {} := by
    rw [run_parse, run_parse, load_congr heq]
    unfold key
    rw [heq]
  unfold alone declaredAfresh
  rw [run_bind, run_bind, hparse]

theorem declaredReturn_whenever (hpath : IsNormal path) {qualname : String} {c : Cache}
    (hafresh : p.whenever.logic.Holds c (declaredAfresh path qualname) fun _ _ => True) :
    p.whenever.logic.Holds c (declaredReturn path qualname) fun _ _ => True := by
  refine TwoRuns.holds_of_sound fun hc => ?_
  refine agrees_of_answer (p.alone (declaredAfresh path qualname)) (fun d hd => ?_) (fun d hd => ?_)
    (fun _ => trivial) c
  · have hrun : p.whenever.run (declaredReturn path qualname) d = _ :=
      run_declaredReturn p path qualname d
    rw [hrun]
    cases hlook : d.declared.lookup (p.key path, qualname) with
    | some t => exact hd.declared path qualname t hpath hlook
    | none => exact answer_of_holds hafresh hc hd
  · refine TwoRuns.grows_declaredReturn hd (grows_of_holds hafresh hc hd) ?_
    rintro c' t hafter hc' -
    have ht : t = _ := congrArg Prod.fst hafter
    refine ⟨hc'.modules, fun path' qualname' t' hpath' ht' => ?_, hc'.inferred⟩
    by_cases hkey : (p.key path', qualname') = (p.key path, qualname)
    · obtain rfl : t = t' := by simpa [whenever, hkey] using ht'
      obtain ⟨hfile, rfl⟩ := Prod.mk.inj hkey
      rw [ht, answer_of_holds hafresh hc hd]
      exact declaredAfresh_congr (h.absolute_of_key hpath hpath' hfile.symm) qualname'
    · have hne : ((p.key path', qualname') == (p.key path, qualname)) = false :=
        beq_eq_false_iff_ne.mpr hkey
      refine hc'.declared path' qualname' t' hpath' ?_
      simpa only [whenever, List.lookup_cons, hne] using ht'

/-- A module and a function in it are known by where they are. -/
theorem IsOrderly.eq_of_key {m' : Module} {f f' : FunctionDef} (hm : p.Has m) (hm' : p.Has m')
    (hf : m.Places f) (hf' : m'.Places f')
    (hkey : (p.key m'.path, f'.qualname, f'.span.start) = (p.key m.path, f.qualname, f.span.start)) :
    m' = m ∧ f' = f := by
  obtain ⟨path, hpath, hload⟩ := hm
  obtain ⟨path', hpath', hload'⟩ := hm'
  obtain ⟨hnormal, hself⟩ := h.has_of_load hpath hload
  obtain ⟨hnormal', hself'⟩ := h.has_of_load hpath' hload'
  simp only [Prod.mk.injEq] at hkey
  obtain ⟨hkey, hname, hstart⟩ := hkey
  obtain rfl : m' = m := by
    rw [h.load_of_key hnormal' hnormal hkey, hself] at hself'
    exact (Except.ok.inj hself').symm
  refine ⟨rfl, ?_⟩
  unfold Module.Places at hf hf'
  rw [hname, hstart, hf] at hf'
  exact (Option.some.inj hf').symm

theorem inferReturn_whenever (hm : p.Has m) {f : FunctionDef} (hf : m.Places f) {c : Cache}
    (hbody : p.whenever.logic.Holds c (bodyReturn m f) fun _ _ => True) :
    p.whenever.logic.Holds c (inferReturn m f) fun _ _ => True := by
  refine TwoRuns.holds_of_sound fun hc => ?_
  refine agrees_of_answer (p.alone (bodyReturn m f)) (fun d hd => ?_) (fun d hd => ?_)
    (fun _ => trivial) c
  · have hrun : p.whenever.run (inferReturn m f) d = _ := run_inferReturn p m f d
    rw [hrun]
    cases hlook : d.inferred.lookup (p.key m.path, f.qualname, f.span.start) with
    | some t => exact hd.inferred m f t hm hf hlook
    | none => exact answer_of_holds hbody hc hd
  · refine TwoRuns.grows_inferReturn hd (grows_of_holds hbody hc hd) ?_
    rintro c' t hafter hc' -
    have ht : t = _ := congrArg Prod.fst hafter
    refine ⟨hc'.modules, hc'.declared, fun m' f' t' hm' hf' ht' => ?_⟩
    by_cases hkey : (p.key m'.path, f'.qualname, f'.span.start) =
        (p.key m.path, f.qualname, f.span.start)
    · obtain ⟨rfl, rfl⟩ := h.eq_of_key hm hm' hf hf' hkey
      obtain rfl : t = t' := by simpa [whenever] using ht'
      rw [ht, answer_of_holds hbody hc hd]
    · have hne : ((p.key m'.path, f'.qualname, f'.span.start) ==
          (p.key m.path, f.qualname, f.span.start)) = false := beq_eq_false_iff_ne.mpr hkey
      refine hc'.inferred m' f' t' hm' hf' ?_
      simpa only [whenever, List.lookup_cons, hne] using ht'

/-! ### Names in imports -/

omit h in
theorem isDotted_name (hm : p.Has m) : IsDotted m.name := by
  obtain ⟨path, -, hload⟩ := hm
  rw [name_of_load hload]
  exact isDotted_moduleName m.path

theorem IsOrderly.isPlain (hm : p.Has m) {i : Import} (hi : .importing i ∈ m.body) :
    i.isPlain = true := by
  obtain ⟨path, hpath, hload⟩ := hm
  exact h.imports path m hpath hload i hi

/-- **What an import takes names from has a dotted name.** -/
theorem IsOrderly.isDotted_importSource (hm : p.Has m) {i : Import} (hi : .importing i ∈ m.body)
    {source : String} (hsource : m.importSource? i = some source) : IsDotted source := by
  have hparts : ∀ s ∈ (if m.name.isEmpty then []
      else (Text.split '.' m.name.toList).map String.ofList), IsDotted s := by
    intro s hs
    split at hs
    · exact absurd hs List.not_mem_nil
    · obtain ⟨part, hpart, rfl⟩ := List.mem_map.mp hs
      exact isDotted_part (isDotted_name hm) hpart
  unfold Module.importSource? at hsource
  obtain ⟨written, hwritten, hsource⟩ := Option.bind_eq_some_iff.mp hsource
  have hplain : IsDotted written := isDotted_of_noSlash (Import.noSlash_source (h.isPlain hm hi) hwritten)
  dsimp only at hsource
  generalize (if m.name.isEmpty then [] else _) = parts at hparts hsource
  have hpackage : ∀ s ∈ (if m.path.fileName? = some "__init__.py" then parts else parts.dropLast),
      IsDotted s := by
    intro s hs
    split at hs
    · exact hparts s hs
    · exact hparts s (List.dropLast_subset _ hs)
  generalize (if m.path.fileName? = some "__init__.py" then _ else _) = package at hpackage hsource
  split at hsource
  · rwa [← Option.some.inj hsource]
  · split at hsource
    · cases hsource
    · rw [← Option.some.inj hsource]
      refine isDotted_intercalate fun s hs => ?_
      split at hs
      · exact hpackage s (List.mem_of_mem_take hs)
      · rcases List.mem_append.mp hs with hs | hs
        · exact hpackage s (List.mem_of_mem_take hs)
        · rwa [List.mem_singleton.mp hs]

omit h in
theorem noSlash_firstSegment {s : String} (hs : '/' ∉ s.toList) :
    '/' ∉ (firstSegment s).toList := by
  unfold firstSegment
  rw [String.toList_ofList]
  exact fun hmem => hs ((List.takeWhile_sublist _).subset hmem)

/-- **In an orderly project the runs agree on every question.** -/
def askedAlone (p : Project) (h : p.IsOrderly) : Reading where
  toTwoRuns := p.whenever
  Known _ := p.Has
  Fit _ := IsNormal
  Named := IsDotted
  known_later _ hm := hm
  fit_later _ hpath := hpath
  known_counts := fun ⟨_, _, hload⟩ => countsNames_of_load hload
  fit_path := fun ⟨_, hpath, hload⟩ => (h.path_of_load hpath hload).1
  fit_moduleFile hdotted hpath := by
    obtain ⟨root, hroot, heq⟩ := h.root
    exact isNormal_moduleFile heq hroot hdotted hpath
  named_source hm hi hsource := h.isDotted_importSource hm hi hsource
  named_member {c m i n source} hm hi hn hsource := by
    have hname : IsDotted n.name := isDotted_of_noSlash (Import.noSlash_name (h.isPlain hm hi) hn)
    split
    · exact hname
    · exact isDotted_append (h.isDotted_importSource hm hi hsource) hname
  named_import {c m i n} hm hi hn := by
    have hslash := Import.noSlash_name (h.isPlain hm hi) hn
    exact ⟨isDotted_of_noSlash hslash, isDotted_of_noSlash (noSlash_firstSegment hslash)⟩
  parse_holds hpath := parse_whenever h hpath _
  declaredReturn_holds hpath hafresh := declaredReturn_whenever h hpath hafresh
  inferReturn_holds hm hf hbody := inferReturn_whenever h hm hf hbody

end Project

end Plumbline
