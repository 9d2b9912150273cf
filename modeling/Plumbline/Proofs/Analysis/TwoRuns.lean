/-
The same questions in two runs.

A question is answered with what earlier questions have made the project remember.  To see what
difference that makes, the same questions are asked in two runs.  `TwoRuns` says which runs are
compared: the second may begin with anything that `Follows` what the first has ended with.  A
question of the first run that `Holds` has the same answer in the second.

Every question comes down to three that look at what is remembered (`Grounds`).  So a `Reading` says
for these three why the runs agree, and which modules, paths and names may be asked about; that the
runs agree on all other questions follows.
-/
import Plumbline.Proofs.Analysis.Grounds
import Plumbline.Proofs.Module.Definitions

namespace Plumbline

open Query

/-- Runs of questions about one project. -/
structure TwoRuns where
  project : Project
  /-- What may be remembered. -/
  Sound : Cache → Prop
  /-- If the first run has ended with the one remembered, the second may begin with the other. -/
  Follows : Cache → Cache → Prop
  follows_of_le : ∀ {c c' d}, c ≤ c' → Follows c' d → Follows c d
  follows_le : ∀ {c d d'}, Follows c d → d ≤ d' → Follows c d'

namespace TwoRuns

variable {α β : Type} (V : TwoRuns)

def run (work : Query α) (c : Cache) : α × Cache := (work.run V.project).run c

/-- The run forgets nothing and remembers nothing that it may not. -/
structure Grows (work : Query α) (c : Cache) : Prop where
  le : c ≤ (V.run work c).2
  sound : V.Sound (V.run work c).2

/-- The run that begins with `c` has an answer with the property `P`, and a second run has the same
answer. -/
structure Agrees (c : Cache) (work : Query α) (P : Cache → α → Prop) : Prop extends
    V.Grows work c where
  answer : P (V.run work c).2 (V.run work c).1
  again : ∀ d, V.Sound d → V.Follows (V.run work c).2 d →
    (V.run work d).1 = (V.run work c).1 ∧ V.Grows work d

/-- **Two runs that agree step by step agree.** -/
def logic : Logic where
  Holds c work P := V.Sound c → V.Agrees c work P
  pure h hc :=
    { le := le_rfl, sound := hc, answer := h, again := fun _ hd _ => ⟨rfl, le_rfl, hd⟩ }
  bind {_ _ c work next _ _} h hnext hc := by
    have hwork := h hc
    have hrest := hnext _ _ hwork.le hwork.answer hwork.sound
    refine { le := hwork.le.trans hrest.le, sound := hrest.sound, answer := hrest.answer, again := ?_ }
    intro d hd hfollows
    obtain ⟨heq, hgrows⟩ := hwork.again d hd (V.follows_of_le hrest.le hfollows)
    obtain ⟨heq', hgrows'⟩ := hrest.again (V.run work d).2 hgrows.sound
      (V.follows_le hfollows hgrows.le)
    have hstep : V.run (work >>= next) d = V.run (next (V.run work c).1) (V.run work d).2 := by
      rw [← heq]
      rfl
    refine ⟨?_, ?_, ?_⟩
    · rw [hstep]
      exact heq'
    · rw [hstep]
      exact hgrows.le.trans hgrows'.le
    · rw [hstep]
      exact hgrows'.sound

variable {V} {c : Cache}

/-- What is said when something is remembered is said of what may be remembered. -/
theorem holds_of_sound {work : Query α} {P : Cache → α → Prop}
    (h : V.Sound c → V.logic.Holds c work P) : V.logic.Holds c work P := fun hc => h hc hc

/-- The second run has the answer of the first. -/
def Repeats (V : TwoRuns) (c : Cache) (work : Query α) (a : α) : Prop :=
  ∀ d, V.Sound d → V.Follows c d → (V.run work d).1 = a

theorem holds_repeats {work : Query α} {P : Cache → α → Prop} (h : V.logic.Holds c work P) :
    V.logic.Holds c work fun c' a => P c' a ∧ V.Repeats c' work a := by
  intro hc
  obtain ⟨hgrows, hanswer, hagain⟩ := h hc
  exact ⟨hgrows, ⟨hanswer, fun d hd hfollows => (hagain d hd hfollows).1⟩, hagain⟩

theorem read_holds : V.logic.Holds c read fun _ p => p = V.project := fun hc =>
  { le := le_rfl, sound := hc, answer := rfl, again := fun _ hd _ => ⟨rfl, le_rfl, hd⟩ }

end TwoRuns

/-- Two runs that agree on what is looked up in what is remembered. -/
structure Reading extends TwoRuns where
  /-- Modules that may be asked about. -/
  Known : Cache → Module → Prop
  /-- Paths of files that may be read. -/
  Fit : Cache → Path → Prop
  /-- Dotted names of modules that may be looked for. -/
  Named : String → Prop
  known_later : ∀ {c c' m}, c ≤ c' → Known c m → Known c' m
  fit_later : ∀ {c c' path}, c ≤ c' → Fit c path → Fit c' path
  known_counts : ∀ {c m}, Known c m → m.CountsNames
  fit_path : ∀ {c m}, Known c m → Fit c m.path
  fit_moduleFile : ∀ {c dotted path}, Named dotted → project.moduleFile? dotted = some path →
    Fit c path
  named_source : ∀ {c m i source}, Known c m → .importing i ∈ m.body →
    m.importSource? i = some source → Named source
  named_member : ∀ {c m i n source}, Known c m → .importing i ∈ m.body → n ∈ i.names →
    m.importSource? i = some source →
    Named (if source.isEmpty then n.name else source ++ "." ++ n.name)
  named_import : ∀ {c m i n}, Known c m → .importing i ∈ m.body → n ∈ i.names →
    Named n.name ∧ Named (firstSegment n.name)
  parse_holds : ∀ {c path}, Fit c path →
    toTwoRuns.logic.Holds c (parse path) fun c' r => ∀ m, r = .ok m → Known c' m
  declaredReturn_holds : ∀ {c path qualname}, Fit c path →
    toTwoRuns.logic.Holds c (declaredAfresh path qualname) (fun _ _ => True) →
    toTwoRuns.logic.Holds c (declaredReturn path qualname) fun _ _ => True
  inferReturn_holds : ∀ {c m f}, Known c m → m.Places f →
    toTwoRuns.logic.Holds c (bodyReturn m f) (fun _ _ => True) →
    toTwoRuns.logic.Holds c (inferReturn m f) fun _ _ => True

/-- What a reading says of the three questions holds of all of them.  Nothing is said of types. -/
def Reading.grounds (V : Reading) : Grounds V.logic where
  Here p := p = V.project
  Known := V.Known
  Fit := V.Fit
  Named := V.Named
  Asked := Module.Places
  Told _ _ := True
  known_later := V.known_later
  fit_later := V.fit_later
  told_later _ _ := trivial
  fit_path := V.fit_path
  fit_moduleFile hp := hp ▸ V.fit_moduleFile
  named_source := V.named_source
  named_member := V.named_member
  named_import := V.named_import
  told_unknown := trivial
  told_dynamic := trivial
  told_builtin _ := trivial
  told_composite _ _ := trivial
  told_class _ _ := trivial
  read_holds := TwoRuns.read_holds
  parse_holds := V.parse_holds
  declaredReturn_holds := V.declaredReturn_holds
  inferReturn_holds := V.inferReturn_holds

end Plumbline
