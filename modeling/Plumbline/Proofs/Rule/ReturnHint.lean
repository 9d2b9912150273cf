/-
What is planned to write a return type, and who reads it afterwards.

A fix writes the name of the type that inference found, and an import above it if the name does not
mean that type yet (`Planned`).  The plan for the annotation is the last one, so it is carried out in
the text that the others leave (`applyAll_append`).  An annotation denotes a type exactly if it says
so in the module that is read (`readReturn_eq_known_iff`).
-/
import Plumbline.Proofs.Analysis.Binding
import Plumbline.Proofs.Fix.Composition
import Plumbline.Rule.ReturnHint

namespace Plumbline

open Query

/-! ### Texts that plans leave -/

namespace Plan

/-- The name of the type stands behind the parameters of the function in `edited`, which is `text`
otherwise.  A function with an annotation keeps that. -/
def Annotated (path : Path) (qualname : String) (t : TypeRef) (text edited : String) : Prop :=
  ∃ m f, Module.parse text path "" = .ok m ∧ m.findFunction? qualname = some f ∧
    edited = if f.returns.isSome then text else
      String.ofList ((Edit.insert f.paramsSpan.stop (" -> " ++ t.name)).apply text.toList)

theorem annotated_of_applyTo {path : Path} {qualname : String} {t : TypeRef} {text edited : String}
    (h : (addReturnType qualname ⟨t⟩).applyTo path text = .ok edited) :
    Annotated path qualname t text edited := by
  obtain ⟨m, hm, ⟨hnone, rfl⟩ | ⟨e, hedit, hout, -⟩⟩ := applyTo_eq_ok h
  · cases asks_of_edit? hnone with
    | @addReturnType _ _ f hf he =>
        refine ⟨m, f, hm, hf, ?_⟩
        by_cases hreturns : f.returns.isSome = true
        · rw [if_pos hreturns]
        · rw [Edit.addReturnType, if_neg hreturns] at he
          cases he
  · cases asks_of_edit? hedit with
    | @addReturnType _ _ f hf he =>
        refine ⟨m, f, hm, hf, ?_⟩
        by_cases hreturns : f.returns.isSome = true
        · rw [Edit.addReturnType, if_pos hreturns] at he
          cases he
        · rw [Edit.addReturnType, if_neg hreturns] at he
          rw [if_neg hreturns, ← String.ofList_toList (s := edited), hout, ← Option.some.inj he]
          rfl

end Plan

/-! ### Reading the annotation -/

/-- The text of the return annotation of a function. -/
def Module.returnHint? (m : Module) (qualname : String) : Option String :=
  (m.findFunction? qualname).bind fun f => f.returns.map (·.text)

/-- What the return annotation of a function denotes. -/
def readReturn (project : Project) (cache : Cache) (m : Module) (qualname : String) :
    Option InferredType :=
  (m.returnHint? qualname).map fun hint => (((resolveHint m hint).run project).run cache).1

/-- A readable type is what an annotation denotes exactly if it says so. -/
theorem readReturn_eq_known_iff {project : Project} {cache : Cache} {m : Module}
    {qualname : String} {t : TypeRef} (ht : (InferredType.known t).IsReadable) :
    readReturn project cache m qualname = some (.known t) ↔
      ∃ hint, m.returnHint? qualname = some hint ∧
        SaysType project cache m (hintText hint) t := by
  have hresolve : ∀ hint, (((resolveHint m hint).run project).run cache).1 = .known t ↔
      SaysType project cache m (hintText hint) t := by
    intro hint
    obtain ⟨name, _ | module⟩ := t
    · exact resolveHint_eq_builtin_iff (ht _ rfl rfl)
    · exact resolveHint_eq_class_iff
  unfold readReturn
  rw [Option.map_eq_some_iff]
  constructor
  · rintro ⟨hint, hhint, hread⟩
    exact ⟨hint, hhint, (hresolve hint).mp hread⟩
  · rintro ⟨hint, hhint, hsays⟩
    exact ⟨hint, hhint, (hresolve hint).mpr hsays⟩

/-! ### What is planned -/

namespace ReturnHint

/-- What may be planned to write the type `t`: an import comes first if `t` is a class of another
module and its name is not bound to it yet. -/
inductive Planned (project : Project) (cache : Cache) (m : Module) (qualname : String)
    (t : TypeRef) : List Plan → Prop where
  | plain (h : ∀ module, t.module = some module → module = m.name ∨
      ∃ path, LastBinding project cache m t.name (.class module t.name path)) :
      Planned project cache m qualname t [.addReturnType qualname ⟨t⟩]
  | imported (module : String) (hmodule : t.module = some module) (hne : module ≠ m.name)
      (h : ¬ ∃ path, LastBinding project cache m t.name (.class module t.name path)) :
      Planned project cache m qualname t
        [.addImport module t.name, .addReturnType qualname ⟨t⟩]

theorem planned_withImport (m : Module) (qualname : String) (t : TypeRef) (project : Project)
    (cache : Cache) :
    Planned project cache m qualname t
      (((withImport m ⟨t⟩ (.addReturnType qualname ⟨t⟩)).run project).run cache).1 := by
  unfold withImport Gate.requiredImport
  rw [run_bind, run_pure]
  obtain ⟨name, _ | module⟩ := t
  · exact .plain (by simp)
  · dsimp only
    by_cases hsame : module = m.name
    · rw [if_pos hsame]
      exact .plain fun module' h => Or.inl ((Option.some.inj h).symm.trans hsame)
    · rw [if_neg hsame, run_bind]
      by_cases hreach : (((isReachable m ⟨name, some module⟩).run project).run cache).1 = true
      · rw [if_pos hreach]
        refine .plain fun module' h => Or.inr ?_
        obtain rfl := Option.some.inj h
        exact (isReachable_iff hsame).mp hreach
      · rw [if_neg hreach]
        exact .imported module rfl hsame fun h => hreach ((isReachable_iff hsame).mpr h)

/-- What a fix plans, if it plans anything. -/
theorem planned_of_fix {v : Violation} {ctx : RuleContext} {project : Project} {cache : Cache}
    {plans : List Plan} (h : (((fix v ctx).run project).run cache).1 = .ok plans)
    (hne : plans ≠ []) :
    ∃ f t, (v.target.bind fun x => ctx.module.findFunction? x.symbol) = some f ∧
      (((inferReturn ctx.module f).run project).run cache).1 = .known t ∧
      Planned project (((inferReturn ctx.module f).run project).run cache).2 ctx.module
        f.qualname t plans := by
  unfold fix at h
  split at h
  · exact absurd (Except.ok.inj h).symm hne
  · rename_i f hf
    split at h
    · exact absurd (Except.ok.inj h).symm hne
    · rw [run_bind] at h
      cases hinfer : (((inferReturn ctx.module f).run project).run cache).1 with
      | known t =>
          refine ⟨f, t, hf, hinfer, ?_⟩
          rw [hinfer] at h
          rw [← Except.ok.inj h]
          exact planned_withImport ctx.module f.qualname t project _
      | dynamic =>
          rw [hinfer] at h
          exact absurd (Except.ok.inj h).symm hne
      | unknown =>
          rw [hinfer] at h
          exact absurd (Except.ok.inj h).symm hne

theorem Planned.eq_append {project : Project} {cache : Cache} {m : Module} {qualname : String}
    {t : TypeRef} {plans : List Plan} (h : Planned project cache m qualname t plans) :
    plans = plans.dropLast ++ [.addReturnType qualname ⟨t⟩] := by
  cases h with
  | plain _ => rfl
  | imported _ _ _ _ => rfl

end ReturnHint

end Plumbline
