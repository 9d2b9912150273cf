/-
Questions that are asked again.

A question that is asked again has the same answer, whatever was asked in between: what was looked up
the first time is still remembered, and a file that could not be parsed cannot be parsed later
(`Project.askedAgain`).  This needs nothing but that what is remembered as the modules of files was
read from the files of the project.
-/
import Plumbline.Proofs.Analysis.Reread

namespace Plumbline

open Query

namespace Project

variable {p : Project} {c c' c₀ : Cache} {path : Path} {m : Module}

/-- What is remembered as modules was read from the files of the project. -/
def Remembers (p : Project) (c : Cache) : Prop :=
  ∀ key m, c.modules.lookup key = some m → ∃ path, p.key path = key ∧ p.load path = .ok m

theorem remembers_empty (p : Project) : p.Remembers {} := fun _ _ h => nomatch h

/-- The module was read from a file of the project and is remembered. -/
def Knows (p : Project) (c : Cache) (m : Module) : Prop :=
  ∃ path, c.modules.lookup (p.key path) = some m ∧ p.load path = .ok m

/-- What is remembered is known. -/
theorem Remembers.knows (h : p.Remembers c) (hm : c.modules.lookup (p.key path) = some m) :
    p.Knows c m := by
  obtain ⟨path', hkey, hload⟩ := h _ m hm
  exact ⟨path', by rw [hkey, hm], hload⟩

theorem Remembers.insert (h : p.Remembers c) (hload : p.load path = .ok m) :
    p.Remembers { c with modules := (p.key path, m) :: c.modules } := by
  intro key m' hm'
  by_cases hkey : key = p.key path
  · subst hkey
    obtain rfl : m = m' := by simpa using hm'
    exact ⟨path, rfl, hload⟩
  · have hne : (key == p.key path) = false := beq_eq_false_iff_ne.mpr hkey
    refine h key m' ?_
    simpa [List.lookup_cons, hne] using hm'

/-- A module that is parsed is known from then on. -/
theorem Remembers.parse (h : p.Remembers c) (hm : (((parse path).run p).run c).1 = .ok m) :
    p.Remembers (((parse path).run p).run c).2 ∧ p.Knows (((parse path).run p).run c).2 m := by
  rw [run_parse] at hm ⊢
  cases hlook : c.modules.lookup (p.key path) with
  | some m' =>
      rw [hlook] at hm
      obtain rfl := Except.ok.inj hm
      exact ⟨h, h.knows hlook⟩
  | none =>
      rw [hlook] at hm
      cases hload : p.load path with
      | error e =>
          rw [hload] at hm
          cases hm
      | ok m' =>
          rw [hload] at hm
          obtain rfl := Except.ok.inj hm
          exact ⟨h.insert hload, path, List.lookup_cons_self, hload⟩

/-- Runs that remember at least `c₀`, where the second begins with what the first has remembered, and
perhaps more. -/
def afterwards (p : Project) (c₀ : Cache) : TwoRuns where
  project := p
  Sound c := p.Remembers c ∧ c₀ ≤ c
  Follows c d := c ≤ d
  follows_of_le := le_trans
  follows_le := le_trans

variable {qualname : String} {f : FunctionDef}

/-- A module that was found stays so, and a file that was not read is not read later. -/
theorem parse_again (hpath : (∃ m, c.modules.lookup (p.key path) = some m) ∨ p.Rereadable path) :
    (p.afterwards c₀).logic.Holds c (parse path) fun c' r => ∀ m, r = .ok m → p.Knows c' m := by
  intro hc
  have hgrows : ∀ d, (p.afterwards c₀).Sound d → (p.afterwards c₀).Grows (parse path) d :=
    fun d hd => TwoRuns.grows_parse hd fun m hload hle => ⟨hd.1.insert hload, hd.2.trans hle⟩
  have hrun : ∀ d, (p.afterwards c₀).run (parse path) d = _ := run_parse p path
  -- What is remembered once is found again.
  have hfound : ∀ d m, d.modules.lookup (p.key path) = some m →
      (p.afterwards c₀).run (parse path) d = (.ok m, d) := by
    intro d m hd
    rw [hrun, hd]
  cases hlook : c.modules.lookup (p.key path) with
  | some m =>
      refine ⟨hgrows c hc, ?_, ?_⟩
      · rw [hfound c m hlook]
        rintro m' heq
        obtain rfl := Except.ok.inj heq
        exact hc.1.knows hlook
      · rw [hfound c m hlook]
        intro d hd hle
        exact ⟨by rw [hfound d m (hle.modules _ m hlook)], hgrows d hd⟩
  | none =>
      cases hload : p.load path with
      | error e =>
          have hc' : (p.afterwards c₀).run (parse path) c = (.error e, c) := by
            rw [hrun, hlook, hload]
          refine ⟨hgrows c hc, ?_, ?_⟩
          · rw [hc']
            exact fun m heq => nomatch heq
          · rw [hc']
            intro d hd _
            refine ⟨?_, hgrows d hd⟩
            cases hlook' : d.modules.lookup (p.key path) with
            | none => rw [hrun, hlook', hload]
            | some m =>
                obtain ⟨other, hkey, hother⟩ := hd.1 _ m hlook'
                have hread : p.Rereadable path := hpath.resolve_left (by simp [hlook])
                obtain ⟨m', hm'⟩ := hread other m hkey hother
                rw [hload] at hm'
                cases hm'
      | ok m =>
          have hc' : (p.afterwards c₀).run (parse path) c =
              (.ok m, { c with modules := (p.key path, m) :: c.modules }) := by
            rw [hrun, hlook, hload]
          have hlook' : List.lookup (p.key path) ((p.key path, m) :: c.modules) = some m := by simp
          refine ⟨hgrows c hc, ?_, ?_⟩
          · rw [hc']
            rintro m' heq
            obtain rfl := Except.ok.inj heq
            exact ⟨path, hlook', hload⟩
          · rw [hc']
            intro d hd hle
            exact ⟨by rw [hfound d m (hle.modules _ m hlook')], hgrows d hd⟩

/-- What can be looked up after the first run is the answer of the second. -/
theorem agrees_of_lookup {work : Query InferredType} (look : Cache → Option InferredType)
    (hlater : ∀ {d d' : Cache} {t}, d ≤ d' → look d = some t → look d' = some t)
    (hfound : ∀ {d t}, look d = some t → (p.afterwards c₀).run work d = (t, d))
    (hgrows : (p.afterwards c₀).Grows work c)
    (hnew : look c = none →
      look ((p.afterwards c₀).run work c).2 = some ((p.afterwards c₀).run work c).1) :
    (p.afterwards c₀).Agrees c work fun _ _ => True := by
  have hlook : look ((p.afterwards c₀).run work c).2 = some ((p.afterwards c₀).run work c).1 := by
    cases hlook : look c with
    | some t => rwa [hfound hlook]
    | none => exact hnew hlook
  refine ⟨hgrows, trivial, fun d hd hle => ?_⟩
  have hrun := hfound (hlater hle hlook)
  refine ⟨by rw [hrun], ?_, ?_⟩ <;> rw [hrun]
  exact hd

/-- What a function was found to declare stays so. -/
theorem declaredReturn_again
    (h : (p.afterwards c₀).logic.Holds c (declaredAfresh path qualname) fun _ _ => True) :
    (p.afterwards c₀).logic.Holds c (declaredReturn path qualname) fun _ _ => True := by
  intro hc
  have hrun : ∀ d, (p.afterwards c₀).run (declaredReturn path qualname) d = _ :=
    run_declaredReturn p path qualname
  refine agrees_of_lookup (fun d => d.declared.lookup (p.key path, qualname))
    (fun hle => hle.declared _ _) (fun hlook => by rw [hrun, hlook]) ?_ ?_
  · exact TwoRuns.grows_declaredReturn hc (h hc).toGrows
      fun _ _ _ hc' hle => ⟨hc'.1, hc.2.trans hle⟩
  · intro hlook
    rw [hrun, hlook]
    exact List.lookup_cons_self

/-- What a function was found to return stays so. -/
theorem inferReturn_again
    (h : (p.afterwards c₀).logic.Holds c (bodyReturn m f) fun _ _ => True) :
    (p.afterwards c₀).logic.Holds c (inferReturn m f) fun _ _ => True := by
  intro hc
  have hrun : ∀ d, (p.afterwards c₀).run (inferReturn m f) d = _ := run_inferReturn p m f
  refine agrees_of_lookup
    (fun d => d.inferred.lookup (p.key m.path, f.qualname, f.span.start))
    (fun hle => hle.inferred _ _) (fun hlook => by rw [hrun, hlook]) ?_ ?_
  · exact TwoRuns.grows_inferReturn hc (h hc).toGrows
      fun _ _ _ hc' hle => ⟨hc'.1, hc.2.trans hle⟩
  · intro hlook
    rw [hrun, hlook]
    exact List.lookup_cons_self

/-- **A question that is asked again has the same answer.** -/
def askedAgain (p : Project) (c₀ : Cache) : Reading where
  toTwoRuns := p.afterwards c₀
  Known := p.Knows
  Fit c path := (∃ m, c.modules.lookup (p.key path) = some m) ∨ p.Rereadable path
  Named _ := True
  known_later hle := fun ⟨path, hm, hload⟩ => ⟨path, hle.modules _ _ hm, hload⟩
  fit_later hle := Or.imp_left fun ⟨m, hm⟩ => ⟨m, hle.modules _ m hm⟩
  known_counts := fun ⟨_, _, hload⟩ => countsNames_of_load hload
  fit_path := by
    rintro c m ⟨path, hm, hload⟩
    rcases rereadable_path hload with hread | hkey
    · exact Or.inr hread
    · exact Or.inl ⟨m, by rw [hkey]; exact hm⟩
  fit_moduleFile _ h := Or.inr (rereadable_moduleFile h)
  named_source _ _ _ := trivial
  named_member _ _ _ _ := trivial
  named_import _ _ _ := ⟨trivial, trivial⟩
  parse_holds := parse_again
  declaredReturn_holds _ h := declaredReturn_again h
  inferReturn_holds _ _ h := inferReturn_again h

end Project

end Plumbline
