/-
Answers are independent of each other.

Whatever a project has been asked before, in whatever order, each question has the answer that it has
by itself, and so has each file that is evaluated.  This goes for orderly projects, in which every
file has one normal path.  In a project that is not, a question may come to a file under a path that
is spelled in another way, and the module that is remembered then keeps that path.
-/
import Plumbline.Proofs.Analysis.Alone
import Plumbline.Proofs.Rule.Targets

namespace Plumbline

open Plumbline.Path Query

/-- A question about a project. -/
inductive Question where
  | module (path : Path)
  | type (scope : Scope) (e : Expr)
  | returned (m : Module) (f : FunctionDef)
  | hint (m : Module) (text : String)
  | ancestors (m : Module) (cls : ClassDef)
  | reachable (m : Module) (t : TypeRef)

inductive Answer where
  | module (r : Except ParseError Module)
  | type (t : InferredType)
  | ancestors (chain : List Ancestor)
  | reachable (can : Bool)

namespace Question

def ask : Question → Query Answer
  | module path => Answer.module <$> parse path
  | type scope e => Answer.type <$> inferType scope e
  | returned m f => Answer.type <$> inferReturn m f
  | hint m text => Answer.type <$> resolveHint m text
  | ancestors m cls => Answer.ancestors <$> Query.ancestors m cls
  | reachable m t => Answer.reachable <$> isReachable m t

/-- The question is about a normal path, or about a module that is read from the project. -/
def IsAbout (p : Project) : Question → Prop
  | module path => IsNormal path
  | type scope _ => p.Has scope.module
  | returned m f => p.Has m ∧ m.Places f
  | hint m _ => p.Has m
  | ancestors m _ => p.Has m
  | reachable m _ => p.Has m

end Question

namespace Project

variable {p : Project} {c : Cache}

/-- Whatever is remembered, the question is answered as if nothing were, and what is remembered then
is as true as before. -/
def Alike {α : Type} (p : Project) (work : Query α) : Prop :=
  ∀ c, p.whenever.logic.Holds c work fun _ _ => True

theorem Alike.run {α : Type} {work : Query α} (h : p.Alike work) (hc : p.Faithful c) :
    ((work.run p).run c).1 = p.alone work ∧ p.Faithful ((work.run p).run c).2 :=
  ⟨answer_of_holds (h c) hc hc, (h c hc).sound⟩

theorem Alike.map {α β : Type} {work : Query α} (f : α → β) (h : p.Alike work) :
    p.Alike (f <$> work) := by
  intro c
  rw [map_eq_pure_bind]
  exact p.whenever.logic.bind (h c) fun _ _ _ _ => p.whenever.logic.pure trivial

/-- **Questions that are asked one after the other have the answers that they have alone.** -/
theorem run_mapM {α β : Type} {ask : α → Query β} {items : List α}
    (h : ∀ a ∈ items, p.Alike (ask a)) (hc : p.Faithful c) :
    (((items.mapM ask).run p).run c).1 = items.map (fun a => p.alone (ask a)) ∧
      p.Faithful (((items.mapM ask).run p).run c).2 := by
  induction items generalizing c with
  | nil => exact ⟨rfl, hc⟩
  | cons a rest ih =>
      obtain ⟨ha, hc₁⟩ := (h a (by simp)).run hc
      obtain ⟨hrest, hc₂⟩ := ih (fun a' ha' => h a' (List.mem_cons_of_mem a ha')) hc₁
      rw [List.mapM_cons, run_bind, run_bind, ha, hrest]
      exact ⟨rfl, hc₂⟩

variable (h : p.IsOrderly)
include h

theorem alike_of_isAbout {q : Question} (hq : q.IsAbout p) : p.Alike q.ask := by
  let V := p.askedAlone h
  cases q with
  | module path =>
      exact Alike.map _ fun c => V.logic.imp (V.parse_holds hq) fun _ _ _ _ => trivial
  | type scope e => exact Alike.map _ fun c => V.grounds.inferType_holds hq e
  | returned m f => exact Alike.map _ fun c => V.grounds.inferred_holds hq.1 hq.2
  | hint m text => exact Alike.map _ fun c => V.grounds.resolveHint_holds hq text
  | ancestors m cls => exact Alike.map _ fun c => V.grounds.ancestors_holds hq cls
  | reachable m t => exact Alike.map _ fun c => V.grounds.isReachable_holds hq t

/-- The evaluation of a file is a question like any other. -/
theorem alike_ofFile {registry : Registry} {rules : ProjectConfig}
    (hrules : ∀ rule ∈ registry.rules, rule ∈ Registry.catalogue rules) {path : Path}
    (hpath : IsNormal path) (config : ProjectConfig) (s : Selection) :
    p.Alike (FileEvaluation.ofFile registry config s path) := by
  let V := p.askedAlone h
  intro c
  have hparse := V.logic.imp (V.parse_holds (c := c) hpath)
    fun c' _ _ hr m hm => (V.answers fun _ _ => hr m hm).since c'
  exact V.logic.imp (FileEvaluation.ofFile_holds hrules V.repeats_lasts hparse config s)
    fun _ _ _ _ => trivial

end Project

/-- **Answers are independent of each other.**  Let an orderly project be asked anything about its
modules, one question after the other.  Each answer is the one that the question has alone; and when
files are evaluated after that, each evaluation is the one that the file has alone, whatever stands
before and behind it. -/
theorem answers_are_independent (p : Project) (h : p.IsOrderly) (questions : List Question)
    (hquestions : ∀ q ∈ questions, q.IsAbout p) (registry : Registry) (rules : ProjectConfig)
    (hrules : ∀ rule ∈ registry.rules, rule ∈ Registry.catalogue rules) (config : ProjectConfig)
    (s : Selection) (paths : List Path) (hpaths : ∀ path ∈ paths, IsNormal path) :
    let asked := ((questions.mapM Question.ask).run p).run {}
    asked.1 = questions.map (fun q => p.alone q.ask) ∧
      (((registry.evaluate config s paths).run p).run asked.2).1 =
        paths.map fun path => p.alone (FileEvaluation.ofFile registry config s path) := by
  obtain ⟨hanswers, hc⟩ := Project.run_mapM
    (fun q hq => Project.alike_of_isAbout h (hquestions q hq)) p.faithful_empty
  refine ⟨hanswers, ?_⟩
  have hfiles : ∀ path ∈ paths, p.Alike (FileEvaluation.ofFile registry config s path) :=
    fun path hpath => Project.alike_ofFile h hrules (hpaths path hpath) config s
  exact (Project.run_mapM hfiles hc).1

/-- A project in which a module takes a class from another one. -/
def twoModules : Project where
  root := "/p"
  tree :=
    { files :=
        [ (["p", "models.py"], "class User:\n    pass\n".toUTF8),
          (["p", "app.py"], "from models import User\n\n\ndef f():\n    return User()\n".toUTF8) ]
      dirs := [["p"]] }

/-- What `f` returns is asked after an annotation in its module, and both files are evaluated
afterwards. -/
theorem returned_is_independent : ∃ m f, twoModules.load "app.py" = .ok m ∧
    m.findFunction? "f" = some f ∧
    let questions := [.hint m "User", .module "models.py", .returned m f]
    let asked := ((questions.mapM Question.ask).run twoModules).run {}
    asked.1 = questions.map (fun q => twoModules.alone q.ask) ∧
      ((((Registry.ofConfig {}).evaluate {} .all ["app.py", "models.py"]).run twoModules).run
        asked.2).1 = ["app.py", "models.py"].map fun path =>
          twoModules.alone (FileEvaluation.ofFile (.ofConfig {}) {} .all path) := by
  have horderly : twoModules.IsOrderly := by
    have hroot : twoModules.root = ofPlace ["p"] := by decide
    exact Project.isOrderly_of_files hroot
      (areNames_singleton ⟨by decide, by decide, by decide⟩) (by decide +kernel) (by decide +kernel)
  have happ : IsNormal "app.py" := isNormal_of_isName ⟨by decide, by decide, by decide⟩
  have hmodels : IsNormal "models.py" := isNormal_of_isName ⟨by decide, by decide, by decide⟩
  have hfound : ((twoModules.load "app.py").toOption.bind (·.findFunction? "f")).isSome = true := by
    decide +kernel
  obtain ⟨f, hf⟩ := Option.isSome_iff_exists.mp hfound
  cases hload : twoModules.load "app.py" with
  | error e =>
      rw [hload] at hf
      cases hf
  | ok m =>
      rw [hload] at hf
      have hfunction : m.findFunction? "f" = some f := hf
      have hm : twoModules.Has m := ⟨"app.py", happ, hload⟩
      refine ⟨m, f, rfl, hfunction, ?_⟩
      refine answers_are_independent twoModules horderly _ ?_ (.ofConfig {}) {}
        (fun rule => Registry.mem_catalogue_of_mem) {} .all _ ?_
      · simp only [List.forall_mem_cons, List.not_mem_nil, false_implies, implies_true, and_true]
        exact ⟨hm, hmodels, hm, Module.places_of_findFunction? hfunction⟩
      · simp only [List.forall_mem_cons, List.not_mem_nil, false_implies, implies_true, and_true]
        exact ⟨happ, hmodels⟩

/-- A project in which a comment stands between the parts of an imported name. -/
def commentedImport : Project where
  root := "/p"
  tree :=
    { files :=
        [ (["p", "app.py"], "from pkg import (sub. # see http://x\n user)\n".toUTF8),
          (["p", "pkg", "sub", " # see http:", "x\n user", "__init__.py"],
            "class User:\n    pass\n".toUTF8) ]
      dirs :=
        [["p"], ["p", "pkg"], ["p", "pkg", "sub"], ["p", "pkg", "sub", " # see http:"],
          ["p", "pkg", "sub", " # see http:", "x\n user"]] }

/-- The path of the module that is parsed after an annotation of `app.py` has led to its file. -/
def pathAfterAnnotation : Query (Option Path) := do
  if let .ok m ← parse "app.py" then let _ ← resolveHint m "sub.User"
  pure ((← parse "pkg/sub/ # see http:/x\n user/__init__.py").toOption.map (·.path))

/-- Without plain imports the path of a module depends on who asked first. -/
example : commentedImport.alone pathAfterAnnotation =
    some "pkg/sub/ # see http://x\n user/__init__.py" := by decide +kernel

end Plumbline
