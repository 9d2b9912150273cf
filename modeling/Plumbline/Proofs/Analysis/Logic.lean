/-
Ways to speak about questions.

Questions are put together from smaller ones, and what is said about a question follows from what is
said about its parts.  That goes for one run of a question (`Query.Yields`) as well as for two runs
that are compared, so the rules for it are stated once: a `Query.Logic` knows about answers that need
no thought and about one question after another, and lists of questions follow from these.

What is said about an answer may depend on what is remembered by then.  While questions are asked,
more and more is remembered and nothing is forgotten, which orders what may be remembered.
-/
import Mathlib.Order.Basic
import Plumbline.Proofs.Analysis.Query

namespace Plumbline

/-- What `c` remembers, `d` remembers as well. -/
structure Cache.Within (c d : Cache) : Prop where
  modules : ∀ key m, c.modules.lookup key = some m → d.modules.lookup key = some m
  declared : ∀ key t, c.declared.lookup key = some t → d.declared.lookup key = some t
  inferred : ∀ key t, c.inferred.lookup key = some t → d.inferred.lookup key = some t

instance : Preorder Cache where
  le := Cache.Within
  le_refl _ := ⟨fun _ _ h => h, fun _ _ h => h, fun _ _ h => h⟩
  le_trans _ _ _ h h' :=
    ⟨fun key m hm => h'.modules key m (h.modules key m hm),
      fun key t ht => h'.declared key t (h.declared key t ht),
      fun key t ht => h'.inferred key t (h.inferred key t ht)⟩

/-- An entry in front hides nothing if there was none under its key. -/
theorem lookup_cons_of_new {α β : Type} [BEq α] [LawfulBEq α] {entries entries' : List (α × β)}
    {key : α} (hnew : entries.lookup key = none)
    (hle : ∀ k b, entries.lookup k = some b → entries'.lookup k = some b) (b : β) (k : α) (b' : β)
    (h : entries.lookup k = some b') : List.lookup k ((key, b) :: entries') = some b' := by
  have hne : (k == key) = false := by
    refine beq_eq_false_iff_ne.mpr ?_
    rintro rfl
    rw [hnew] at h
    cases h
  rw [List.lookup_cons, hne]
  exact hle k b' h

namespace Query

variable {α β : Type}

/-- A way to speak about questions: `Holds c work P` says something about `work`, asked with `c`
remembered, and `P` about its answer, by what is remembered afterwards. -/
structure Logic where
  Holds {α : Type} : Cache → Query α → (Cache → α → Prop) → Prop
  pure {α : Type} {c : Cache} {a : α} {P : Cache → α → Prop} :
    P c a → Holds c (Pure.pure a) P
  bind {α β : Type} {c : Cache} {work : Query α} {next : α → Query β} {P : Cache → α → Prop}
    {Q : Cache → β → Prop} : Holds c work P →
    (∀ c' a, c ≤ c' → P c' a → Holds c' (next a) Q) → Holds c (work >>= next) Q

namespace Logic

variable (L : Logic) {c : Cache} {P : Cache → α → Prop} {Q : Cache → β → Prop}

theorem imp {P' : Cache → α → Prop} {work : Query α} (h : L.Holds c work P)
    (himp : ∀ c' a, c ≤ c' → P c' a → P' c' a) : L.Holds c work P' := by
  rw [← bind_pure work]
  exact L.bind h fun c' a hle ha => L.pure (himp c' a hle ha)

theorem foldlM {f : β → α → Query β} {items : List α} {b : β} (h : Q c b)
    (hstep : ∀ c' b, ∀ a ∈ items, c ≤ c' → Q c' b → L.Holds c' (f b a) Q) :
    L.Holds c (items.foldlM f b) Q := by
  induction items generalizing b c with
  | nil => exact L.pure h
  | cons a rest ih =>
      rw [List.foldlM_cons]
      refine L.bind (hstep c b a (by simp) le_rfl h) fun c₁ b₁ hle hb₁ => ih hb₁ ?_
      intro c₂ b₂ a' ha' hle'
      exact hstep c₂ b₂ a' (List.mem_cons_of_mem a ha') (hle.trans hle')

/-- Each answer of a list of questions comes from one of them. -/
theorem mapM {f : α → Query β} {R : α → Cache → β → Prop} {items : List α}
    (hkeeps : ∀ a b c' c'', c' ≤ c'' → R a c' b → R a c'' b)
    (h : ∀ c', ∀ a ∈ items, c ≤ c' → L.Holds c' (f a) (R a)) :
    L.Holds c (items.mapM f) fun c' answers => ∀ b ∈ answers, ∃ a ∈ items, R a c' b := by
  induction items generalizing c with
  | nil => exact L.pure (by simp)
  | cons a rest ih =>
      have hrest : ∀ c₁, c ≤ c₁ → ∀ c', ∀ a' ∈ rest, c₁ ≤ c' → L.Holds c' (f a') (R a') :=
        fun c₁ hle c' a' ha' hle' => h c' a' (List.mem_cons_of_mem a ha') (hle.trans hle')
      rw [List.mapM_cons]
      refine L.bind (h c a (by simp) le_rfl) fun c₁ b hle hb => ?_
      refine L.bind (ih (hrest c₁ hle)) fun c₂ bs hle' hbs => L.pure fun b' hb' => ?_
      rcases List.mem_cons.mp hb' with rfl | hmem
      · exact ⟨a, by simp, hkeeps a b' c₁ c₂ hle' hb⟩
      · obtain ⟨a', ha', hR⟩ := hbs b' hmem
        exact ⟨a', List.mem_cons_of_mem a ha', hR⟩

/-- What is said about questions that are asked when at least `c₀` is remembered. -/
def since (c₀ : Cache) : Logic where
  Holds c work P := c₀ ≤ c → L.Holds c work P
  pure h _ := L.pure h
  bind h hnext hle := L.bind (h hle) fun c' a hle' ha => hnext c' a hle' ha (hle.trans hle')

end Logic

/-- What single runs yield, whatever is remembered. -/
abbrev yielding (I : Project → Cache → Prop) : Logic where
  Holds c work P := Yields I work (P c)
  pure h := yields_pure h
  bind {_ _ c _ _ _ _} h hnext := yields_bind h fun a ha => hnext c a le_rfl ha

end Query

end Plumbline
