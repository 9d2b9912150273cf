/-
Types that are answers are concrete.

Whatever is inferred or read from an annotation, a type that is known can be looked up: it is built in,
and then its text has no names in it but those of built-in types, or it is a class of a module that
was read or handed in (`TypeRef.IsConcrete`).  Answers are remembered and given again, so the same
must hold of what is remembered (`Cache.IsConcrete`), and as nothing is forgotten, it also holds later.

The names in a text are found by where they end, which is independent of how inference cuts a text
up (`IsToken`).
-/
import Mathlib.Data.List.DropRight
import Plumbline.Proofs.Analysis.Remember
import Plumbline.Proofs.Files.Paths

namespace Plumbline

open Query

/-! ### Names in a text -/

/-- A character that may stand in a name. -/
def isTokenChar (c : Char) : Bool := isLetterOrDigit c || c == '_' || c == '.'

/-- A stretch of the text that is a name, and as long as it can be. -/
structure IsToken (text token : List Char) : Prop where
  ne_nil : token ≠ []
  chars : ∀ c ∈ token, isTokenChar c = true
  longest : ∃ before after, text = before ++ token ++ after ∧
    (∀ c, before.getLast? = some c → isTokenChar c = false) ∧
    ∀ c, after.head? = some c → isTokenChar c = false

/-- What a name is cut off from comes after it. -/
theorem mem_splitBy_append {q : Char → Bool} {token after : List Char}
    (hchars : ∀ c ∈ token, q c = false) (hafter : ∀ c, after.head? = some c → q c = true) :
    token ∈ Text.splitBy q (token ++ after) := by
  cases after with
  | nil => simp [Text.splitBy_of_forall hchars]
  | cons c rest =>
      rw [Text.splitBy_append_cons (hafter c rfl), Text.splitBy_of_forall hchars]
      simp

/-- Every name in a text is found when the text is cut up. -/
theorem IsToken.mem_hintTokens {text token : List Char} (h : IsToken text token) :
    String.ofList token ∈ hintTokens text := by
  obtain ⟨before, after, rfl, hbefore, hafter⟩ := h.longest
  have hchars : ∀ c ∈ token, (!isTokenChar c) = false := fun c hc => by simp [h.chars c hc]
  have hmem : token ∈ Text.splitBy (fun c => !isTokenChar c) (token ++ after) :=
    mem_splitBy_append hchars fun c hc => by simp [hafter c hc]
  have hmem : token ∈ Text.splitBy (fun c => !isTokenChar c) (before ++ token ++ after) := by
    rcases List.eq_nil_or_concat before with rfl | ⟨start, c, rfl⟩
    · exact hmem
    · have hc : (!isTokenChar c) = true := by simp [hbefore c (by simp)]
      rw [List.append_assoc, List.concat_eq_append, List.append_assoc, List.singleton_append,
        Text.splitBy_append_cons hc]
      exact List.mem_append_right _ hmem
  exact List.mem_map_of_mem (List.mem_filter.mpr ⟨hmem, by simpa using h.ne_nil⟩)

/-- A part of a text without gaps lies in one name. -/
theorem exists_token_of_infix {text part : List Char} (hne : part ≠ [])
    (hchars : ∀ c ∈ part, isTokenChar c = true) (h : part <:+: text) :
    ∃ token, IsToken text token ∧ part <:+: token := by
  obtain ⟨before, after, rfl⟩ := h
  let left := before.rtakeWhile isTokenChar
  let right := after.takeWhile isTokenChar
  refine ⟨left ++ part ++ right, ⟨?_, ?_, ?_⟩, left, right, rfl⟩
  · simp [hne]
  · intro c hc
    rcases List.mem_append.mp hc with hc | hc
    · rcases List.mem_append.mp hc with hc | hc
      · exact List.mem_rtakeWhile_imp hc
      · exact hchars c hc
    · exact List.mem_takeWhile_imp hc
  · refine ⟨before.rdropWhile isTokenChar, after.dropWhile isTokenChar, ?_, ?_, ?_⟩
    · calc before ++ part ++ after
          = (before.rdropWhile isTokenChar ++ left) ++ part ++
              (right ++ after.dropWhile isTokenChar) := by
            rw [List.rdropWhile_append_rtakeWhile, List.takeWhile_append_dropWhile]
        _ = _ := by simp only [List.append_assoc]
    · intro c hc
      have hlast : before.rdropWhile isTokenChar ≠ [] := by
        rintro hnil
        simp [hnil] at hc
      rw [List.getLast?_eq_some_getLast hlast] at hc
      have hnot := List.rdropWhile_last_not isTokenChar before hlast
      rw [Option.some.inj hc] at hnot
      simpa using hnot
    · intro c hc
      exact by simpa [hc] using List.head?_dropWhile_not isTokenChar after

/-! ### Concrete types -/

/-- The module is one of those that were handed in, or it was read and is remembered. -/
def Cache.Shows (given : Module → Prop) (c : Cache) (m : Module) : Prop :=
  given m ∨ ∃ key, c.modules.lookup key = some m

/-- A class of this name stands at the top level of the module. -/
def Module.DefinesClass (m : Module) (name : String) : Prop :=
  ∃ head body, .classDef head body ∈ m.body ∧ head.name = name

/-- The type can be looked up: all names in it are built in, or it is a class of a module. -/
def TypeRef.IsConcrete (given : Module → Prop) (c : Cache) (t : TypeRef) : Prop :=
  match t.module with
  | none => ∀ token, IsToken t.name.toList token →
      String.ofList token ∈ builtinTypes ∨ String.ofList token = "..."
  | some module => ∃ m, c.Shows given m ∧ m.name = module ∧ m.DefinesClass t.name

/-- If the type is known, it can be looked up. -/
def InferredType.IsConcrete (given : Module → Prop) (c : Cache) (t : InferredType) : Prop :=
  ∀ r, t = .known r → r.IsConcrete given c

variable {given : Module → Prop} {c c' : Cache}

/-- The marker for any type has no place in a type that is built in. -/
theorem TypeRef.IsConcrete.no_marker {t : TypeRef} (h : t.IsConcrete given c)
    (hbuiltin : t.module = none) : ¬ "Any".toList <:+: t.name.toList := by
  intro hinfix
  have hchars : ∀ c ∈ "Any".toList, isTokenChar c = true :=
    List.all_eq_true.mp (by decide +kernel)
  obtain ⟨token, htoken, hpart⟩ := exists_token_of_infix (by decide) hchars hinfix
  unfold TypeRef.IsConcrete at h
  rw [hbuiltin] at h
  have hall : ∀ name ∈ "..." :: builtinTypes, ¬ "Any".toList <:+: name.toList := by decide +kernel
  have htext : (String.ofList token).toList = token := String.toList_ofList
  refine hall (String.ofList token) ?_ (by rwa [htext])
  rcases h token htoken with hmem | hdots
  · exact List.mem_cons_of_mem _ hmem
  · simp [hdots]

theorem Cache.Shows.later {m : Module} (hle : c ≤ c') (h : c.Shows given m) : c'.Shows given m :=
  h.imp_right fun ⟨key, hkey⟩ => ⟨key, hle.modules key m hkey⟩

theorem TypeRef.IsConcrete.later {t : TypeRef} (hle : c ≤ c') (h : t.IsConcrete given c) :
    t.IsConcrete given c' := by
  unfold TypeRef.IsConcrete at h ⊢
  split
  · rename_i hmodule
    rw [hmodule] at h
    exact h
  · rename_i module hmodule
    rw [hmodule] at h
    obtain ⟨m, hm, hname, hclass⟩ := h
    exact ⟨m, hm.later hle, hname, hclass⟩

namespace InferredType

theorem IsConcrete.later {t : InferredType} (hle : c ≤ c') (h : t.IsConcrete given c) :
    t.IsConcrete given c' := fun r hr => (h r hr).later hle

theorem isConcrete_unknown : IsConcrete given c .unknown := fun _ h => nomatch h

theorem isConcrete_dynamic : IsConcrete given c .dynamic := fun _ h => nomatch h

theorem isConcrete_builtin {name : String}
    (h : ∀ token ∈ hintTokens name.toList, token ∈ builtinTypes ∨ token = "...") :
    IsConcrete given c (.builtin name) := by
  rintro r heq
  obtain rfl := InferredType.known.inj heq
  exact fun token htoken => h _ htoken.mem_hintTokens

theorem isConcrete_class {m : Module} {head : ClassHead} {body : List Stmt} (hm : c.Shows given m)
    (h : .classDef head body ∈ m.body) :
    IsConcrete given c (.known { name := head.name, module := some m.name }) := by
  rintro r heq
  obtain rfl := InferredType.known.inj heq
  exact ⟨m, hm, rfl, head, body, h, rfl⟩

theorem isConcrete_composite (chars : List Char) : IsConcrete given c (compositeType chars) := by
  unfold compositeType
  dsimp only
  split
  · rename_i h
    apply isConcrete_builtin
    rw [String.toList_ofList]
    intro token htoken
    have hall := List.all_eq_true.mp (Bool.and_eq_true_iff.mp h).2 token htoken
    simpa using hall
  · exact isConcrete_unknown

end InferredType

theorem tokens_of_builtin {name : String} (h : name ∈ builtinTypes) :
    ∀ token ∈ hintTokens name.toList, token ∈ builtinTypes ∨ token = "..." := by
  have hall : ∀ name ∈ builtinTypes, hintTokens name.toList = [name] := by decide +kernel
  intro token htoken
  rw [hall name h, List.mem_singleton] at htoken
  exact Or.inl (htoken ▸ h)

/-! ### What is remembered -/

/-- Every type that is remembered can be looked up. -/
structure Cache.IsConcrete (given : Module → Prop) (c : Cache) : Prop where
  declared : ∀ key t, c.declared.lookup key = some t → t.IsConcrete given c
  inferred : ∀ key t, c.inferred.lookup key = some t → t.IsConcrete given c

theorem Cache.isConcrete_empty (given : Module → Prop) : Cache.IsConcrete given {} :=
  ⟨fun _ _ h => (nomatch h), fun _ _ h => (nomatch h)⟩

theorem isConcrete_lookup_cons {α : Type} [BEq α] [LawfulBEq α]
    {entries : List (α × InferredType)} {new : α} {t : InferredType} (ht : t.IsConcrete given c)
    (h : ∀ key t, entries.lookup key = some t → t.IsConcrete given c) (key : α) (u : InferredType)
    (hu : List.lookup key ((new, t) :: entries) = some u) : u.IsConcrete given c := by
  rw [List.lookup_cons] at hu
  split at hu
  · exact Option.some.inj hu ▸ ht
  · exact h key u hu

namespace Project

/-- The project is asked when only types are remembered that can be looked up.  There is no second
run to compare with. -/
def askedConcrete (p : Project) (given : Module → Prop) : TwoRuns where
  project := p
  Sound := Cache.IsConcrete given
  Follows _ _ := False
  follows_of_le _ h := h
  follows_le h _ := h

variable {p : Project}

/-- What has to be said of one run if there is no other. -/
theorem agrees_of_grows {α : Type} {work : Query α} {P : Cache → α → Prop}
    (h : (p.askedConcrete given).Grows work c)
    (hanswer : P ((p.askedConcrete given).run work c).2 ((p.askedConcrete given).run work c).1) :
    (p.askedConcrete given).Agrees c work P :=
  { h with answer := hanswer, again := fun _ _ h => h.elim }

theorem parse_shows (path : Path) :
    (p.askedConcrete given).logic.Holds c (parse path) fun c' r => ∀ m, r = .ok m →
      c'.Shows given m := by
  intro hc
  refine agrees_of_grows (TwoRuns.grows_parse hc fun m _ hle => ?_) ?_
  · exact ⟨fun key t ht => (hc.declared key t ht).later hle,
      fun key t ht => (hc.inferred key t ht).later hle⟩
  · have hrun : (p.askedConcrete given).run (parse path) c = _ := run_parse p path c
    rw [hrun]
    split
    · rename_i m hlook
      exact fun m' hm => Or.inr ⟨p.key path, by rw [hlook, Except.ok.inj hm]⟩
    · split
      · exact fun m hm => nomatch hm
      · rename_i m hload
        refine fun m' hm => Or.inr ⟨p.key path, ?_⟩
        rw [← Except.ok.inj hm]
        simp

theorem declaredReturn_concrete {path : Path} {qualname : String}
    (h : (p.askedConcrete given).logic.Holds c (declaredAfresh path qualname)
      fun c' t => t.IsConcrete given c') :
    (p.askedConcrete given).logic.Holds c (declaredReturn path qualname)
      fun c' t => t.IsConcrete given c' := by
  intro hc
  have hafresh := h hc
  refine agrees_of_grows (TwoRuns.grows_declaredReturn hc hafresh.toGrows ?_) ?_
  · intro c' t heq hc' _
    have ht : t.IsConcrete given c' := by
      have := hafresh.answer
      rwa [← heq] at this
    exact ⟨isConcrete_lookup_cons ht hc'.declared, hc'.inferred⟩
  · have hrun : (p.askedConcrete given).run (declaredReturn path qualname) c = _ :=
      run_declaredReturn p path qualname c
    rw [hrun]
    split
    · rename_i t hlook
      exact hc.declared _ t hlook
    · exact hafresh.answer

theorem inferReturn_concrete {m : Module} {f : FunctionDef}
    (h : (p.askedConcrete given).logic.Holds c (bodyReturn m f) fun c' t => t.IsConcrete given c') :
    (p.askedConcrete given).logic.Holds c (inferReturn m f) fun c' t => t.IsConcrete given c' := by
  intro hc
  have hbody := h hc
  refine agrees_of_grows (TwoRuns.grows_inferReturn hc hbody.toGrows ?_) ?_
  · intro c' t heq hc' _
    have ht : t.IsConcrete given c' := by
      have := hbody.answer
      rwa [← heq] at this
    exact ⟨hc'.declared, isConcrete_lookup_cons ht hc'.inferred⟩
  · have hrun : (p.askedConcrete given).run (inferReturn m f) c = _ := run_inferReturn p m f c
    rw [hrun]
    split
    · rename_i t hlook
      exact hc.inferred _ t hlook
    · exact hbody.answer

/-- **Only types that can be looked up are answers**, to questions about modules that were read or
handed in. -/
def concrete (p : Project) (given : Module → Prop) : Grounds (p.askedConcrete given).logic where
  Here _ := True
  Known := Cache.Shows given
  Fit _ _ := True
  Named _ := True
  Asked _ _ := True
  Told c t := t.IsConcrete given c
  known_later hle h := h.later hle
  fit_later _ _ := trivial
  told_later hle h := h.later hle
  fit_path _ := trivial
  fit_moduleFile _ _ _ := trivial
  named_source _ _ _ := trivial
  named_member _ _ _ _ := trivial
  named_import _ _ _ := ⟨trivial, trivial⟩
  told_unknown := InferredType.isConcrete_unknown
  told_dynamic := InferredType.isConcrete_dynamic
  told_builtin h := InferredType.isConcrete_builtin (tokens_of_builtin h)
  told_composite _ _ := InferredType.isConcrete_composite _
  told_class := InferredType.isConcrete_class
  read_holds := (p.askedConcrete given).logic.imp TwoRuns.read_holds fun _ _ _ _ => trivial
  parse_holds _ := parse_shows _
  declaredReturn_holds _ := declaredReturn_concrete
  inferReturn_holds _ _ := inferReturn_concrete

end Project

end Plumbline
