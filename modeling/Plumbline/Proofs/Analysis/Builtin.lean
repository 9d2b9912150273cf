/-
Built-in types can be read as annotations.

Inference names a built-in type by the text of an annotation, which is either one of the known names
or was read from an annotation elsewhere.  So whatever inference says of a built-in type, its name
would be taken for that type again, up to quotes and blanks around it (`IsAnnotation`).  Answers
that are remembered must have been given like this as well (`RemembersReadable`); every question about types
keeps that.
-/
import Plumbline.Proofs.Analysis.Remember

namespace Plumbline

open Query

/-! ### Names of built-in types -/

/-- The name is the plain text of an annotation with a built-in type. -/
structure IsAnnotation (name : String) : Prop where
  notAny : (hintTokens name.toList).any isAnyMarker = false
  known : name ∈ builtinTypes ∨
    ('[' ∈ name.toList ∨ '|' ∈ name.toList) ∧ compositeType name.toList = .builtin name

/-- If the type is built in, its name is an annotation with that type. -/
def InferredType.IsReadable (t : InferredType) : Prop :=
  ∀ r, t = .known r → r.module = none → IsAnnotation r.name

namespace InferredType

theorem isReadable_unknown : IsReadable .unknown := fun _ h => nomatch h

theorem isReadable_dynamic : IsReadable .dynamic := fun _ h => nomatch h

theorem isReadable_module (name module : String) :
    IsReadable (.known { name, module := some module }) := by
  rintro r heq hnone
  obtain rfl := InferredType.known.inj heq
  exact absurd hnone (by simp)

theorem isReadable_builtin {name : String} (h : IsAnnotation name) :
    IsReadable (.builtin name) := by
  rintro r heq -
  obtain rfl := InferredType.known.inj heq
  exact h

end InferredType

theorem isAnnotation_of_mem {name : String} (h : name ∈ builtinTypes) : IsAnnotation name := by
  refine ⟨?_, Or.inl h⟩
  have : ∀ name ∈ builtinTypes, (hintTokens name.toList).any isAnyMarker = false := by
    decide +kernel
  exact this name h

theorem compositeType_eq (chars : List Char) :
    compositeType chars = .builtin (String.ofList chars) ∨ compositeType chars = .unknown := by
  unfold compositeType
  dsimp only
  split
  · exact Or.inl rfl
  · exact Or.inr rfl

theorem isReadable_composite {chars : List Char} (hany : (hintTokens chars).any isAnyMarker = false)
    (hbrackets : '[' ∈ chars ∨ '|' ∈ chars) : (compositeType chars).IsReadable := by
  rcases compositeType_eq chars with hbuiltin | hunknown
  · rw [hbuiltin]
    apply InferredType.isReadable_builtin
    refine ⟨?_, Or.inr ?_⟩
    · rwa [String.toList_ofList]
    · rw [String.toList_ofList]
      exact ⟨hbrackets, hbuiltin⟩
  · rw [hunknown]
    exact InferredType.isReadable_unknown

/-! ### What is remembered -/

/-- Every type that is remembered is readable. -/
structure Cache.IsReadable (c : Cache) : Prop where
  declared : ∀ x ∈ c.declared, x.2.IsReadable
  inferred : ∀ x ∈ c.inferred, x.2.IsReadable

theorem isReadable_lookup {α : Type} [BEq α] [LawfulBEq α] {entries : List (α × InferredType)}
    {key : α} {t : InferredType} (h : ∀ x ∈ entries, x.2.IsReadable)
    (ht : entries.lookup key = some t) : t.IsReadable := by
  obtain ⟨before, after, hsplit, -⟩ := List.lookup_eq_some_iff.mp ht
  exact h (key, t) (by simp [hsplit])

theorem Cache.isReadable_empty : Cache.IsReadable {} := ⟨by simp, by simp⟩

namespace Query

/-- Only readable types are remembered. -/
def RemembersReadable : Project → Cache → Prop := fun _ c => c.IsReadable

theorem yields_parse (path : Path) : Yields RemembersReadable (parse path) fun _ => True := by
  refine yields_bind yields_read fun project _ => ?_
  refine yields_bind (yields_get (P := Cache.IsReadable) fun _ _ h => h) fun cache hcache => ?_
  split
  · exact yields_pure trivial
  · split
    · exact yields_pure trivial
    · dsimp only
      split
      · exact yields_pure trivial
      · refine yields_bind (yields_set fun _ => ⟨hcache.declared, hcache.inferred⟩) fun _ _ => ?_
        exact yields_pure trivial

theorem yields_declaredReturn {path : Path} {qualname : String}
    (h : Yields RemembersReadable (declaredAfresh path qualname) InferredType.IsReadable) :
    Yields RemembersReadable (declaredReturn path qualname) InferredType.IsReadable := by
  intro project cache hcache
  obtain ⟨hanswer, hafter⟩ := h project cache hcache
  rw [run_declaredReturn]
  split
  · rename_i t ht
    exact ⟨isReadable_lookup hcache.declared ht, hcache⟩
  · exact ⟨hanswer, List.forall_mem_cons.mpr ⟨hanswer, hafter.declared⟩, hafter.inferred⟩

theorem yields_inferReturn_of_body {m : Module} {f : FunctionDef}
    (h : Yields RemembersReadable (bodyReturn m f) InferredType.IsReadable) :
    Yields RemembersReadable (inferReturn m f) InferredType.IsReadable := by
  intro project cache hcache
  obtain ⟨hanswer, hafter⟩ := h project cache hcache
  rw [run_inferReturn]
  split
  · rename_i t ht
    exact ⟨isReadable_lookup hcache.inferred ht, hcache⟩
  · exact ⟨hanswer, hafter.declared, List.forall_mem_cons.mpr ⟨hanswer, hafter.inferred⟩⟩

/-- Types are readable, whatever they are asked about. -/
def readable : Grounds (yielding RemembersReadable) where
  Here _ := True
  Known _ _ := True
  Fit _ _ := True
  Named _ := True
  Asked _ _ := True
  Told _ := InferredType.IsReadable
  known_later _ _ := trivial
  fit_later _ _ := trivial
  told_later _ h := h
  fit_path _ := trivial
  fit_moduleFile _ _ _ := trivial
  named_source _ _ _ := trivial
  named_member _ _ _ _ := trivial
  named_import _ _ _ := ⟨trivial, trivial⟩
  told_unknown := InferredType.isReadable_unknown
  told_dynamic := InferredType.isReadable_dynamic
  told_builtin h := InferredType.isReadable_builtin (isAnnotation_of_mem h)
  told_composite := isReadable_composite
  told_class _ _ := InferredType.isReadable_module _ _
  read_holds := yields_read
  parse_holds {_ path} _ p c hc := ⟨fun _ _ => trivial, (yields_parse path p c hc).2⟩
  declaredReturn_holds _ := yields_declaredReturn
  inferReturn_holds _ _ := yields_inferReturn_of_body

/-- **Inference yields readable types**, and remembers no others. -/
theorem yields_inferReturn (m : Module) (f : FunctionDef) :
    Yields RemembersReadable (inferReturn m f) InferredType.IsReadable :=
  readable.inferred_holds (c := {}) trivial trivial

end Query

end Plumbline
