/-
Paths that are spelled in different ways.

A module is remembered by the components of its path but keeps the path under which it was read
first.  Two paths with the same components may differ as texts, so the same file may be one module
or another, depending on who asked first.  The two differ in nothing but how their path is spelled
(`Module.SpelledAlike`), because everything that is derived from the path of a file is derived from
its components.
-/
import Plumbline.Proofs.Analysis.Reread

namespace Plumbline

namespace Path

variable {a b : Path}

/-! ### What components tell -/

/-- The names of a path are its components but for a mark in front. -/
theorem filter_segments_eq (p : Path) :
    p.segments.filter (!isVoid ·) = p.components.filter fun s => s != "/" && s != "." := by
  have hnames : (p.segments.filter (!isVoid ·)).filter (fun s => s != "/" && s != ".") =
      p.segments.filter (!isVoid ·) := by
    refine List.filter_eq_self.mpr fun s hs => ?_
    have hnamed := areNamed_filter_segments p
    have hslash : s ≠ "/" := by
      rintro rfl
      exact hnamed.noSlash _ hs (by decide)
    have hdot : s ≠ "." := by
      rintro rfl
      exact absurd (hnamed.notVoid _ hs) (by decide)
    simp [hslash, hdot]
  rcases p.components_cases with hparts | ⟨mark, hmark, hparts⟩
  · rw [hparts, hnames]
  · rw [hparts, List.filter_cons_of_neg (by rcases hmark with rfl | rfl <;> decide), hnames]

theorem filter_segments_congr (h : a.components = b.components) :
    a.segments.filter (!isVoid ·) = b.segments.filter (!isVoid ·) := by
  rw [filter_segments_eq, filter_segments_eq, h]

/-- An absolute path is one whose first component is the root. -/
theorem isAbsolute_eq (p : Path) : p.isAbsolute = (p.components.head? == some "/") := by
  rw [components_eq]
  by_cases habs : p.isAbsolute = true
  · simp [habs]
  · have hroot : (p.segments.filter (!isVoid ·)).head? ≠ some "/" := by
      intro hhead
      have hmem := List.mem_of_head? hhead
      exact (areNamed_filter_segments p).noSlash _ hmem (by decide)
    by_cases hdot : (p.segments.head? == some ".") = true
    · simp [habs, hdot]
    · simpa [habs, hdot] using hroot

theorem isAbsolute_congr (h : a.components = b.components) : a.isAbsolute = b.isAbsolute := by
  rw [isAbsolute_eq, isAbsolute_eq, h]

theorem isBelow_congr (h : a.components = b.components) (base : Path) :
    a.isBelow base = b.isBelow base := by
  unfold isBelow
  rw [h]

theorem fileName?_congr (h : a.components = b.components) : a.fileName? = b.fileName? := by
  unfold fileName?
  rw [h]

theorem parent?_congr (h : a.components = b.components) : a.parent? = b.parent? := by
  unfold parent?
  rw [h]

theorem components_join_congr (h : a.components = b.components) (base : Path) :
    (base.join a).components = (base.join b).components := by
  have habs := isAbsolute_congr h
  by_cases ha : a.isAbsolute = true
  · have hb : b.isAbsolute = true := habs ▸ ha
    unfold join
    rw [if_pos ha, if_pos hb]
    exact h
  · rw [Bool.not_eq_true] at ha
    have hb : b.isAbsolute = false := habs ▸ ha
    by_cases hne : base = ""
    · rw [hne, join_empty_left, join_empty_left, h]
    · rw [components_join_of_relative ha hne, components_join_of_relative hb hne,
        filter_segments_congr h]

/-- A path that has a file name has a directory. -/
theorem exists_parent {p : Path} {name : String} (h : p.fileName? = some name) :
    ∃ dir, p.parent? = some dir := by
  unfold parent?
  unfold fileName? at h
  split
  · rename_i hparts
    rw [hparts] at h
    cases h
  · rename_i hparts
    rw [hparts] at h
    cases h
  · exact ⟨_, rfl⟩

theorem components_withExtension_congr (h : a.components = b.components) (ext : String) :
    (a.withExtension ext).components = (b.withExtension ext).components := by
  have hfile := fileName?_congr h
  unfold withExtension
  rw [hfile]
  cases hname : b.fileName? with
  | none => exact h
  | some name =>
      obtain ⟨dir, hdir⟩ := exists_parent hname
      dsimp only
      unfold withFileName
      rw [hfile, hname, parent?_congr h, hdir]

/-! ### Paths from the root on -/

theorem filter_dropComponents (n : Nat) (parts : List String) :
    (dropComponents n parts).filter (!isVoid ·) = (parts.filter (!isVoid ·)).drop n := by
  induction parts generalizing n with
  | nil => simp [dropComponents]
  | cons s rest ih =>
      by_cases hvoid : isVoid s = true
      · cases n with
        | zero => simpa [dropComponents, hvoid] using ih 0
        | succ n => simpa [dropComponents, hvoid] using ih (n + 1)
      · cases n with
        | zero => simp [dropComponents, hvoid]
        | succ n => simpa [dropComponents, hvoid] using ih n

/-- What is left begins with a name. -/
theorem head?_dropComponents {n : Nat} {parts : List String} {s : String}
    (h : (dropComponents n parts).head? = some s) : isVoid s = false := by
  induction parts generalizing n with
  | nil => simp [dropComponents] at h
  | cons t rest ih =>
      by_cases hvoid : isVoid t = true
      · cases n with
        | zero => exact ih (n := 0) (by simpa [dropComponents, hvoid] using h)
        | succ n => exact ih (n := n + 1) (by simpa [dropComponents, hvoid] using h)
      · cases n with
        | zero =>
            obtain rfl : t = s := by simpa [dropComponents, hvoid] using h
            simpa using hvoid
        | succ n => exact ih (n := n) (by simpa [dropComponents, hvoid] using h)

/-- The path of a file from `base` on has the names of the file that come after those of `base`. -/
theorem components_relativeTo? {p base q : Path} (hp : p.EndsInName)
    (h : p.relativeTo? base = some q) :
    q.components = (p.segments.filter (!isVoid ·)).drop (base.components.length - base.marks) := by
  obtain ⟨-, s, -, hlast, -⟩ := hp.getLast?_components
  have hs : isVoid s = false := by simpa [EndsInName, hlast] using hp
  obtain ⟨-, rfl⟩ := eq_of_relativeTo? h
  rw [← filter_dropComponents]
  generalize hleft : dropComponents (base.components.length - base.marks) p.segments = left
  cases left with
  | nil => decide
  | cons t rest =>
      have hne : dropComponents (base.components.length - base.marks) p.segments ≠ [] := by
        rw [hleft]
        simp
      have hslash := noSlash_dropComponents (p := p) (n := base.components.length - base.marks)
      have hlast' := (getLast?_dropComponents hne).trans hlast
      have ht : isVoid t = false := head?_dropComponents (by rw [hleft]; rfl)
      rw [hleft] at hslash hlast'
      have hempty : t ≠ "" := by
        rintro rfl
        exact absurd ht (by decide)
      have hdot : t ≠ "." := by
        rintro rfl
        exact absurd ht (by decide)
      have hrelative : isAbsolute (ofSegments (t :: rest)) = false := by
        rw [ofSegments_eq hlast' hs]
        exact isAbsolute_intercalate (hslash t (by simp)) hempty
      rw [components_eq, hrelative, segments_ofSegments hslash hlast' hs]
      simp [hdot]

/-- Files with the same components have such paths from `base` on, if they have any. -/
theorem components_getD_relativeTo?_congr (ha : a.EndsInName) (hb : b.EndsInName)
    (h : a.components = b.components) (base : Path) :
    ((a.relativeTo? base).getD a).components = ((b.relativeTo? base).getD b).components := by
  by_cases hbelow : a.isBelow base = true
  · have hbelow' : b.isBelow base = true := isBelow_congr h base ▸ hbelow
    have hsome : ∀ p : Path, p.isBelow base = true → ∃ q, p.relativeTo? base = some q := by
      intro p hp
      unfold relativeTo?
      rw [if_pos hp]
      exact ⟨_, rfl⟩
    obtain ⟨q, hq⟩ := hsome a hbelow
    obtain ⟨r, hr⟩ := hsome b hbelow'
    rw [hq, hr, Option.getD_some, Option.getD_some, components_relativeTo? ha hq,
      components_relativeTo? hb hr, filter_segments_congr h]
  · have hbelow' : ¬ b.isBelow base = true := isBelow_congr h base ▸ hbelow
    unfold relativeTo?
    rw [if_neg hbelow, if_neg hbelow', Option.getD_none, Option.getD_none]
    exact h

end Path

/-- What a module is called depends on the components of its path. -/
theorem moduleName_congr {a b : Path} (h : a.components = b.components) :
    moduleName a = moduleName b := by
  unfold moduleName
  rw [Path.components_withExtension_congr h]

/-! ### Modules -/

/-- The modules differ in nothing but how their path is spelled. -/
structure Module.SpelledAlike (m m' : Module) : Prop where
  path : m.path.components = m'.path.components
  rest : m' = { m with path := m'.path }

namespace Module.SpelledAlike

variable {m m' : Module}

theorem refl (m : Module) : m.SpelledAlike m := ⟨rfl, rfl⟩

theorem name (h : m.SpelledAlike m') : m.name = m'.name := by rw [h.rest]

theorem body (h : m.SpelledAlike m') : m.body = m'.body := by rw [h.rest]

/-- They take names from the same modules. -/
theorem importSource? (h : m.SpelledAlike m') (i : Import) :
    m.importSource? i = m'.importSource? i := by
  unfold Module.importSource?
  rw [h.name, Path.fileName?_congr h.path]

theorem findClass? (h : m.SpelledAlike m') (name : String) :
    m.findClass? name = m'.findClass? name := by
  unfold Module.findClass?
  rw [h.body]

end Module.SpelledAlike

namespace Project

variable {p : Project} {path path' : Path} {m m' : Module}

/-- A file is remembered by the components of its path. -/
theorem key_congr (p : Project) (h : path.components = path'.components) :
    p.key path = p.key path' := by
  unfold key absolute
  rw [Path.isAbsolute_congr h, Path.isBelow_congr h]
  split
  · exact h
  · exact Path.components_join_congr h p.root

/-- **A file is one module, however its path is spelled.** -/
theorem spelledAlike_of_load (hm : p.load path = .ok m) (hm' : p.load path' = .ok m')
    (hkey : p.key path = p.key path') : m.SpelledAlike m' := by
  obtain ⟨text, htext, hparse⟩ := exists_source_of_load hm
  obtain ⟨text', htext', hparse'⟩ := exists_source_of_load hm'
  obtain ⟨place, hplace, hread, hends⟩ := source_eq_ok.mp htext
  obtain ⟨place', hplace', hread', hends'⟩ := source_eq_ok.mp htext'
  rw [hkey, hplace'] at hplace
  obtain rfl := Except.ok.inj hplace
  obtain rfl := Except.ok.inj (hread.symm.trans hread')
  have hpath : (p.relative (p.absolute path)).components =
      (p.relative (p.absolute path')).components :=
    Path.components_getD_relativeTo?_congr hends hends' hkey p.root
  refine ⟨by rw [path_of_load hm, path_of_load hm', hpath], ?_⟩
  rw [moduleName_congr hpath] at hparse
  unfold Module.parse at hparse hparse'
  cases htree : Syntax.parse text with
  | error line =>
      rw [htree] at hparse
      cases hparse
  | ok tree =>
      rw [htree] at hparse hparse'
      rw [← Except.ok.inj hparse, ← Except.ok.inj hparse']
      -- Neither the body nor the tables of a module are made from its path.
      generalize moduleName (p.relative (p.absolute path')) = name
      rfl

end Project

end Plumbline
