/-
What the remembering questions do.

Three questions look at what is remembered: for a module, for what a function declares to return, and
for what it returns by its body.  Each is answered from what is remembered if there is an entry for
it, and otherwise afresh, and then remembered.  The equations here say so, and in every case nothing
is forgotten.
-/
import Plumbline.Proofs.Analysis.TwoRuns

namespace Plumbline

open Query

namespace Project

/-- What a file is remembered by. -/
def key (p : Project) (path : Path) : FileKey := (p.absolute path).components

/-- The text of a file. -/
def source (p : Project) (path : Path) : Except FileError String :=
  p.tree.locate p.cwd (p.absolute path) >>= p.tree.readText

/-- The module of a file that is not remembered. -/
def load (p : Project) (path : Path) : Except ParseError Module :=
  match p.source path with
  | .error e => .error (.unreadable (p.absolute path) e)
  | .ok text =>
    match Module.parse text (p.relative (p.absolute path))
        (moduleName (p.relative (p.absolute path))) with
    | .error e => .error (.malformed e)
    | .ok m => .ok m

theorem exists_source_of_load {p : Project} {path : Path} {m : Module} (h : p.load path = .ok m) :
    ∃ text, p.source path = .ok text ∧
      Module.parse text (p.relative (p.absolute path))
        (moduleName (p.relative (p.absolute path))) = .ok m := by
  unfold load at h
  cases htext : p.source path with
  | error e =>
      rw [htext] at h
      exact absurd h (by simp)
  | ok text =>
      rw [htext] at h
      dsimp only at h
      cases hm : Module.parse text (p.relative (p.absolute path))
          (moduleName (p.relative (p.absolute path))) with
      | error e =>
          rw [hm] at h
          exact absurd h (by simp)
      | ok m' =>
          rw [hm] at h
          exact ⟨text, rfl, by rw [← Except.ok.inj h]; exact hm⟩

/-- Which module it is does not depend on the path, but whether there is one depends on the text
alone. -/
theorem exists_load {p : Project} {path path' : Path} {m : Module} {text : String}
    (h : p.load path = .ok m) (htext : p.source path = .ok text) (htext' : p.source path' = .ok text) :
    ∃ m', p.load path' = .ok m' := by
  obtain ⟨text', hsource, hm⟩ := exists_source_of_load h
  obtain rfl := Except.ok.inj (htext.symm.trans hsource)
  unfold load
  rw [htext']
  unfold Module.parse at hm ⊢
  dsimp only
  cases hparse : Syntax.parse text with
  | error line =>
      rw [hparse] at hm
      exact absurd hm (by simp)
  | ok tree => exact ⟨_, rfl⟩

/-- What is read from a file is made from its tree, under the path from the root. -/
theorem exists_tree_of_load {p : Project} {path : Path} {m : Module} (h : p.load path = .ok m) :
    ∃ text tree, m = Module.ofTree (p.relative (p.absolute path))
      (moduleName (p.relative (p.absolute path))) text tree := by
  obtain ⟨text, -, hm⟩ := exists_source_of_load h
  unfold Module.parse at hm
  split at hm
  · exact ⟨text, _, (Except.ok.inj hm).symm⟩
  · exact absurd hm (by simp)

theorem path_of_load {p : Project} {path : Path} {m : Module} (h : p.load path = .ok m) :
    m.path = p.relative (p.absolute path) := by
  obtain ⟨text, tree, rfl⟩ := exists_tree_of_load h
  rfl

theorem name_of_load {p : Project} {path : Path} {m : Module} (h : p.load path = .ok m) :
    m.name = moduleName m.path := by
  rw [path_of_load h]
  obtain ⟨text, tree, rfl⟩ := exists_tree_of_load h
  generalize moduleName (p.relative (p.absolute path)) = name
  rfl

theorem countsNames_of_load {p : Project} {path : Path} {m : Module} (h : p.load path = .ok m) :
    m.CountsNames := by
  obtain ⟨text, tree, rfl⟩ := exists_tree_of_load h
  rfl

end Project

namespace Query

variable {p : Project} {c : Cache}

theorem run_read (p : Project) (c : Cache) : ((read : Query Project).run p).run c = (p, c) := rfl

theorem run_get (p : Project) (c : Cache) : ((get : Query Cache).run p).run c = (c, c) := rfl

theorem run_parse (p : Project) (path : Path) (c : Cache) :
    ((parse path).run p).run c =
      match c.modules.lookup (p.key path) with
      | some m => (.ok m, c)
      | none =>
        match p.load path with
        | .error e => (.error e, c)
        | .ok m => (.ok m, { c with modules := (p.key path, m) :: c.modules }) := by
  unfold parse Project.load Project.source Project.key
  rw [run_bind, run_read, run_bind, run_get]
  dsimp only
  cases c.modules.lookup (p.absolute path).components with
  | some m => rfl
  | none =>
      dsimp only
      cases p.tree.locate p.cwd (p.absolute path) >>= p.tree.readText with
      | error e => rfl
      | ok text =>
          dsimp only
          cases Module.parse text (p.relative (p.absolute path))
            (moduleName (p.relative (p.absolute path))) with
          | error e => rfl
          | ok m => rfl

theorem run_declaredReturn (p : Project) (path : Path) (qualname : String) (c : Cache) :
    ((declaredReturn path qualname).run p).run c =
      match c.declared.lookup (p.key path, qualname) with
      | some t => (t, c)
      | none =>
        let r := ((declaredAfresh path qualname).run p).run c
        (r.1, { r.2 with declared := ((p.key path, qualname), r.1) :: r.2.declared }) := by
  unfold declaredReturn Project.key
  rw [run_bind, run_read, run_bind, run_get]
  dsimp only
  cases c.declared.lookup ((p.absolute path).components, qualname) with
  | some t => rfl
  | none =>
      dsimp only
      rw [declaredAfresh, run_bind, run_bind]
      cases (((parse path).run p).run c).1 with
      | error e => rfl
      | ok m => rfl

theorem run_inferReturn (p : Project) (m : Module) (f : FunctionDef) (c : Cache) :
    ((inferReturn m f).run p).run c =
      match c.inferred.lookup (p.key m.path, f.qualname, f.span.start) with
      | some t => (t, c)
      | none =>
        let r := ((bodyReturn m f).run p).run c
        (r.1, { r.2 with
          inferred := ((p.key m.path, f.qualname, f.span.start), r.1) :: r.2.inferred }) := by
  unfold inferReturn Project.key
  rw [run_bind, run_read, run_bind, run_get]
  dsimp only
  cases c.inferred.lookup ((p.absolute m.path).components, f.qualname, f.span.start) with
  | some t => rfl
  | none => rfl

end Query

/-! ### Nothing is forgotten -/

namespace TwoRuns

variable {V : TwoRuns} {c : Cache} {path : Path} {qualname : String} {m : Module} {f : FunctionDef}

theorem grows_parse (hc : V.Sound c)
    (hkeep : ∀ m, V.project.load path = .ok m →
      c ≤ { c with modules := (V.project.key path, m) :: c.modules } →
      V.Sound { c with modules := (V.project.key path, m) :: c.modules }) :
    V.Grows (parse path) c := by
  have hrun : V.run (parse path) c = _ := run_parse V.project path c
  cases hlook : c.modules.lookup (V.project.key path) with
  | some m =>
      rw [hlook] at hrun
      refine ⟨?_, ?_⟩ <;> rw [hrun]
      exact hc
  | none =>
      rw [hlook] at hrun
      cases hload : V.project.load path with
      | error e =>
          rw [hload] at hrun
          refine ⟨?_, ?_⟩ <;> rw [hrun]
          exact hc
      | ok m =>
          rw [hload] at hrun
          have hle : c ≤ { c with modules := (V.project.key path, m) :: c.modules } :=
            ⟨lookup_cons_of_new hlook (fun _ _ h => h) m, fun _ _ h => h, fun _ _ h => h⟩
          refine ⟨?_, ?_⟩ <;> rw [hrun]
          · exact hle
          · exact hkeep m hload hle

theorem grows_declaredReturn (hc : V.Sound c) (h : V.Grows (declaredAfresh path qualname) c)
    (hkeep : ∀ c' t, (t, c') = V.run (declaredAfresh path qualname) c → V.Sound c' →
      c ≤ { c' with declared := ((V.project.key path, qualname), t) :: c'.declared } →
      V.Sound { c' with declared := ((V.project.key path, qualname), t) :: c'.declared }) :
    V.Grows (declaredReturn path qualname) c := by
  have hrun : V.run (declaredReturn path qualname) c = _ :=
    run_declaredReturn V.project path qualname c
  cases hlook : c.declared.lookup (V.project.key path, qualname) with
  | some t =>
      rw [hlook] at hrun
      refine ⟨?_, ?_⟩ <;> rw [hrun]
      exact hc
  | none =>
      rw [hlook] at hrun
      have hle := lookup_cons_of_new hlook h.le.declared (V.run (declaredAfresh path qualname) c).1
      refine ⟨?_, ?_⟩ <;> rw [hrun]
      · exact ⟨h.le.modules, hle, h.le.inferred⟩
      · exact hkeep _ _ rfl h.sound ⟨h.le.modules, hle, h.le.inferred⟩

theorem grows_inferReturn (hc : V.Sound c) (h : V.Grows (bodyReturn m f) c)
    (hkeep : ∀ c' t, (t, c') = V.run (bodyReturn m f) c → V.Sound c' →
      c ≤ { c' with inferred := ((V.project.key m.path, f.qualname, f.span.start), t) :: c'.inferred } →
      V.Sound { c' with
        inferred := ((V.project.key m.path, f.qualname, f.span.start), t) :: c'.inferred }) :
    V.Grows (inferReturn m f) c := by
  have hrun : V.run (inferReturn m f) c = _ := run_inferReturn V.project m f c
  cases hlook : c.inferred.lookup (V.project.key m.path, f.qualname, f.span.start) with
  | some t =>
      rw [hlook] at hrun
      refine ⟨?_, ?_⟩ <;> rw [hrun]
      exact hc
  | none =>
      rw [hlook] at hrun
      have hle := lookup_cons_of_new hlook h.le.inferred (V.run (bodyReturn m f) c).1
      refine ⟨?_, ?_⟩ <;> rw [hrun]
      · exact ⟨h.le.modules, h.le.declared, hle⟩
      · exact hkeep _ _ rfl h.sound ⟨h.le.modules, h.le.declared, hle⟩

end TwoRuns

end Plumbline
