/-
Questions about a project, whatever the answers so far.

What is remembered from earlier questions changes how a question is answered, and the project may be
any.  Much of what the rules do does not depend on either.  `Query.Yields I` says that an answer has
a property in every project and with everything remembered that `I` allows, and that nothing else is
remembered afterwards; `Anything` allows all.  There is one lemma for each way to put questions
together.
-/
import Plumbline.Analysis.Project

namespace Plumbline.Query

/-- No condition on what is remembered. -/
def Anything : Project → Cache → Prop := fun _ _ => True

/-- In every project, and with everything remembered that `I` allows, the answer has the property
`P`, and what is remembered afterwards is as `I` says. -/
def Yields {α : Type} (I : Project → Cache → Prop) (work : Query α) (P : α → Prop) : Prop :=
  ∀ project cache, I project cache →
    P ((work.run project).run cache).1 ∧ I project ((work.run project).run cache).2

variable {α β : Type} {I : Project → Cache → Prop} {P : α → Prop} {Q : β → Prop}

theorem run_pure (a : α) (project : Project) (cache : Cache) :
    ((pure a : Query α).run project).run cache = (a, cache) := rfl

/-- The second of two questions is asked with what the first has made the project remember. -/
theorem run_bind (work : Query α) (next : α → Query β) (project : Project) (cache : Cache) :
    ((work >>= next).run project).run cache =
      ((next ((work.run project).run cache).1).run project).run ((work.run project).run cache).2 :=
  rfl

theorem yields_pure {a : α} (h : P a) : Yields I (pure a) P := fun _ _ hcache => ⟨h, hcache⟩

/-- With no condition on what is remembered, every question is answered somehow. -/
theorem yields_true (work : Query α) : Yields Anything work fun _ => True :=
  fun _ _ _ => ⟨trivial, trivial⟩

theorem yields_read : Yields I read fun _ => True := fun _ _ hcache => ⟨trivial, hcache⟩

theorem yields_get {P : Cache → Prop} (h : ∀ project cache, I project cache → P cache) :
    Yields I get P := fun project cache hcache => ⟨h project cache hcache, hcache⟩

theorem yields_set {cache : Cache} (h : ∀ project, I project cache) :
    Yields I (set cache) fun _ => True := fun project _ _ => ⟨trivial, h project⟩

theorem yields_bind {work : Query α} {next : α → Query β} (h : Yields I work P)
    (hnext : ∀ a, P a → Yields I (next a) Q) : Yields I (work >>= next) Q := by
  intro project cache hcache
  obtain ⟨hanswer, hafter⟩ := h project cache hcache
  exact hnext _ hanswer project _ hafter

theorem Yields.imp {work : Query α} {P' : α → Prop} (h : Yields I work P)
    (himp : ∀ a, P a → P' a) : Yields I work P' :=
  fun project cache hcache => ⟨himp _ (h project cache hcache).1, (h project cache hcache).2⟩

theorem yields_foldlM {f : β → α → Query β} {items : List α} {b : β} (h : Q b)
    (hstep : ∀ b, ∀ a ∈ items, Q b → Yields I (f b a) Q) : Yields I (items.foldlM f b) Q := by
  induction items generalizing b with
  | nil => exact yields_pure h
  | cons a rest ih =>
      rw [List.foldlM_cons]
      refine yields_bind (hstep b a (by simp) h) fun b' hb' => ih hb' ?_
      exact fun b'' a' ha' => hstep b'' a' (List.mem_cons_of_mem a ha')

/-- Each answer of a list of questions comes from one of them. -/
theorem yields_mapM {f : α → Query β} {R : α → β → Prop} {items : List α}
    (h : ∀ a ∈ items, Yields I (f a) (R a)) :
    Yields I (items.mapM f) fun answers => ∀ b ∈ answers, ∃ a ∈ items, R a b := by
  induction items with
  | nil => exact yields_pure (by simp)
  | cons a rest ih =>
      rw [List.mapM_cons]
      refine yields_bind (h a (by simp)) fun b hb => ?_
      refine yields_bind (ih fun a' ha' => h a' (List.mem_cons_of_mem a ha')) fun bs hbs => ?_
      refine yields_pure fun b' hb' => ?_
      rcases List.mem_cons.mp hb' with rfl | hmem
      · exact ⟨a, by simp, hb⟩
      · obtain ⟨a', ha', hR⟩ := hbs b' hmem
        exact ⟨a', List.mem_cons_of_mem a ha', hR⟩

end Plumbline.Query
