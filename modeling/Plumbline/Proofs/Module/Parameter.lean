/-
Parameters and what they are read from.

Every parameter of a function stands for a tree of the source.  A parameter without a type has none
written behind its name.  If it has a default as well, then its tree tells how the default is set, and
the default is the expression that its value stands for.  A function without a result type goes on with
its colon behind the parameters, and a result type of one word is read as it is written.
-/
import Plumbline.Proofs.Module.Extent
import Plumbline.Proofs.Module.Source

namespace Plumbline

open Syntax (Kind Field AllSound SetsDefault StandsAt EndsHead IsTypeName EndsName Skips)

namespace Lower

variable {source : List Char}

/-! ### Parameters -/

/-- What is known of a parameter that has a default and no type. -/
theorem param?_default {t : Syntax.Tree} {p : Param} {d : Expr} (ht : t.Sound source)
    (hp : param? source t = some p) (hhint : p.hint = none) (hdefault : p.default = some d) :
    ∃ value : Syntax.Tree, value.Sound source ∧ d = expr source value ∧
      p.name = p.nameSpan.text source ∧ SetsDefault source p.nameSpan value.span ∧
      p.nameSpan.stop ≤ value.earliest := by
  obtain ⟨k, f, s, cs⟩ := t
  unfold param? at hp
  split at hp
  case h_1 =>
    obtain rfl := Option.some.inj hp
    exact absurd hdefault (by simp)
  case h_2 =>
    obtain ⟨target, -, rfl⟩ := Option.map_eq_some_iff.mp hp
    exact absurd hdefault (by simp)
  case h_3 hk =>
    obtain rfl : k = .defaultParameter := hk
    obtain ⟨name, hname, rfl⟩ := Option.map_eq_some_iff.mp hp
    obtain ⟨value, hvalue, rfl⟩ := Option.map_eq_some_iff.mp hdefault
    obtain ⟨name', value', hname', hvalue', hsets, hbehind⟩ := ht.promises.default rfl
    obtain rfl : name = name' := Option.some.inj (hname.symm.trans hname')
    obtain rfl : value = value' := Option.some.inj (hvalue.symm.trans hvalue')
    exact ⟨value, ht.parts value (List.mem_of_find?_eq_some hvalue), rfl, rfl, hsets, hbehind⟩
  case h_4 hk =>
    -- a parameter that is called typed has a type
    obtain rfl : k = .typedDefaultParameter := hk
    obtain ⟨name, -, rfl⟩ := Option.map_eq_some_iff.mp hp
    obtain ⟨c, hc, hfield⟩ := ht.promises.typed (Or.inr rfl)
    have hnone := List.find?_eq_none.mp (Option.map_eq_none_iff.mp hhint) c hc
    exact absurd hfield (by simpa using hnone)
  case h_5 | h_6 =>
    obtain rfl := Option.some.inj hp
    exact absurd hdefault (by simp)
  case h_7 => exact absurd hp (by simp)

/-- What has a part in the role of a type has a type. -/
theorem hint?_ne_none {t : Syntax.Tree} {f : Field} (h : ∃ c ∈ t.children, c.field = some f) :
    hint? source f t ≠ none := by
  obtain ⟨c, hc, hfield⟩ := h
  intro hnone
  have hlacks := List.find?_eq_none.mp (Option.map_eq_none_iff.mp hnone) c hc
  exact absurd hfield (by simpa using hlacks)

/-- Behind byte `n` a type could stand, but none does. -/
def LacksType (source : List Char) (n : Nat) : Prop :=
  Syntax.IsPlace source n ∧ ¬ StandsAt source n [':', ' ']

/-- Behind a name that a default follows stands no type. -/
theorem lacksType_of_setsDefault {name value : Span} (h : SetsDefault source name value) :
    LacksType source name.stop := by
  obtain ⟨before, shown, gap, gap', rest, htext, -, hstop, -, hskips, -⟩ := h
  have hwhole : source = (before ++ shown) ++ (gap ++ '=' :: (gap' ++ rest)) := by simp [htext]
  refine ⟨⟨_, _, hwhole, hstop.symm⟩, ?_⟩
  rintro ⟨before', after, htext', hbyte⟩
  obtain ⟨-, hrest⟩ := append_inj_of_byteSize (hwhole.symm.trans htext') (hstop.symm.trans hbyte.symm)
  rw [hrest] at hskips
  have hequals := hskips.eq_of_counts (by decide) (by decide)
  exact absurd (List.cons.inj hequals).1 (by decide)

/-- A starred parameter ends with its name. -/
theorem stop_starred {t : Syntax.Tree} (hne : t.kind ≠ .identifier) (ht : t.IsUntyped source) :
    ((t.children.find? (·.kind = .identifier)).getD t).span.stop = t.span.stop := by
  cases hfind : t.children.find? (·.kind = .identifier) with
  | none => rfl
  | some name => exact ht.endsWithName name hne hfind

/-- **A parameter without a type has none written behind its name.** -/
theorem lacksType_of_param? {params t : Syntax.Tree} {p : Param} (hparams : params.Sound source)
    (hkind : params.kind = .parameters) (ht : t ∈ params.children) (hp : param? source t = some p)
    (hhint : p.hint = none) : LacksType source p.nameSpan.stop := by
  obtain ⟨_, _, _, cs⟩ := params
  obtain rfl := hkind
  have huntyped : t.kind.isBare = true → t.IsUntyped source := hparams.promises.untyped rfl t ht
  have hsound : t.Sound source := hparams.parts t ht
  obtain ⟨k, f, s, cs⟩ := t
  unfold param? at hp
  split at hp
  case h_1 hk =>
    obtain rfl : k = .identifier := hk
    obtain rfl := Option.some.inj hp
    exact ⟨(huntyped rfl).cut, (huntyped rfl).noType⟩
  case h_2 hk =>
    -- a parameter that is called typed has a type
    obtain rfl : k = .typedParameter := hk
    obtain ⟨target, -, rfl⟩ := Option.map_eq_some_iff.mp hp
    exact absurd hhint (hint?_ne_none (hsound.promises.typed (Or.inl rfl)))
  case h_3 hk =>
    obtain rfl : k = .defaultParameter := hk
    obtain ⟨name, hname, rfl⟩ := Option.map_eq_some_iff.mp hp
    obtain ⟨name', value, hname', -, hsets, -⟩ := hsound.promises.default rfl
    obtain rfl : name = name' := Option.some.inj (hname.symm.trans hname')
    exact lacksType_of_setsDefault hsets
  case h_4 hk =>
    obtain rfl : k = .typedDefaultParameter := hk
    obtain ⟨name, -, rfl⟩ := Option.map_eq_some_iff.mp hp
    exact absurd hhint (hint?_ne_none (hsound.promises.typed (Or.inr rfl)))
  case h_5 hk =>
    obtain rfl : k = .listSplatPattern := hk
    obtain rfl := Option.some.inj hp
    dsimp only
    rw [stop_starred (t := .node .listSplatPattern f s cs) (nofun) (huntyped rfl)]
    exact ⟨(huntyped rfl).cut, (huntyped rfl).noType⟩
  case h_6 hk =>
    obtain rfl : k = .dictionarySplatPattern := hk
    obtain rfl := Option.some.inj hp
    dsimp only
    rw [stop_starred (t := .node .dictionarySplatPattern f s cs) (nofun) (huntyped rfl)]
    exact ⟨(huntyped rfl).cut, (huntyped rfl).noType⟩
  case h_7 => exact absurd hp (by simp)

/-! ### Functions -/

/-- The parameters of a function are read from the parts of its parameter list. -/
theorem IsReadAs.exists_params {h : FunctionHead} {t : Syntax.Tree} (ht : IsReadAs source h t) :
    ∃ params, t.child? .parameters = some params ∧ params.Sound source ∧
      params.kind = .parameters ∧ h.paramsSpan = params.span ∧
      h.params = params.children.filterMap (param? source) ∧ h.returns = hint? source .returnType t := by
  obtain ⟨hsound, hkind, scope, inClass, decorators, header, hh⟩ := ht
  unfold functionHead? at hh
  obtain ⟨name, -, hh⟩ := Option.bind_eq_some_iff.mp hh
  obtain ⟨params, hparams, hh⟩ := Option.bind_eq_some_iff.mp hh
  obtain rfl := Option.some.inj hh
  refine ⟨params, hparams, hsound.children params (List.mem_of_find?_eq_some hparams), ?_, rfl, rfl,
    rfl⟩
  obtain ⟨_, _, _, cs⟩ := t
  obtain rfl := hkind
  exact (hsound.promises.function rfl params hparams).kind

/-- The head of a function says what is behind its parameters. -/
theorem IsReadAs.isHead {h : FunctionHead} {t : Syntax.Tree} (ht : IsReadAs source h t) :
    ∃ params, h.paramsSpan = params.span ∧ h.returns = hint? source .returnType t ∧
      Syntax.IsHead source t.children params := by
  obtain ⟨params, hparams, -, -, hspan, -, hreturns⟩ := ht.exists_params
  obtain ⟨hsound, hkind, -⟩ := ht
  refine ⟨params, hspan, hreturns, ?_⟩
  obtain ⟨_, _, _, cs⟩ := t
  obtain rfl := hkind
  exact hsound.promises.function rfl params hparams

/-- **A function without a result type goes on with its colon behind the parameters.** -/
theorem IsReadAs.endsHead {h : FunctionHead} {t : Syntax.Tree} (ht : IsReadAs source h t)
    (hreturns : h.returns = none) : EndsHead source h.paramsSpan.stop := by
  obtain ⟨params, hspan, heq, hhead⟩ := ht.isHead
  rw [hspan]
  exact hhead.ends.resolve_left fun h => hint?_ne_none h (heq.symm.trans hreturns)

/-- **A result type of one word is read as it is written.** -/
theorem IsReadAs.returns_text {h : FunctionHead} {t : Syntax.Tree} {hint : TypeHint}
    (ht : IsReadAs source h t) (hreturns : h.returns = some hint) {before w rest after : List Char}
    (htext : source = before ++ (" -> ".toList ++ (w ++ rest)))
    (hbyte : byteSize before = h.paramsSpan.stop) (hw : IsTypeName w) (hends : EndsName rest)
    (hskips : Skips rest (':' :: after)) (hafter : after.head? ≠ some '=') :
    hint.text = String.ofList w := by
  obtain ⟨params, hspan, heq, hhead⟩ := ht.isHead
  rw [hspan] at hbyte
  obtain ⟨c, hc, rfl⟩ := Option.map_eq_some_iff.mp (heq.symm.trans hreturns)
  exact hhead.spells c hc before w rest after htext hbyte hw hends hskips hafter

end Lower

variable {source name qualname : String} {path : Path} {m : Module} {f : FunctionDef} {p : Param}
  {d : Expr}

/-- **A default of a parameter without a type is set by an equals sign after the name.** -/
theorem param_default (hm : Module.parse source path name = .ok m)
    (hf : m.findFunction? qualname = some f) (hp : p ∈ f.params) (hhint : p.hint = none)
    (hdefault : p.default = some d) :
    ∃ value : Syntax.Tree, value.Sound source.toList ∧ d = Lower.expr source.toList value ∧
      p.name = p.nameSpan.text source.toList ∧
      SetsDefault source.toList p.nameSpan value.span ∧ p.nameSpan.stop ≤ value.earliest := by
  obtain ⟨-, t, ht⟩ := isReadFrom_findFunction? hm hf
  obtain ⟨params, -, hparams, -, -, heq, -⟩ := ht.exists_params
  rw [heq] at hp
  obtain ⟨u, hu, hread⟩ := List.mem_filterMap.mp hp
  exact Lower.param?_default (hparams.children u hu) hread hhint hdefault

/-- A parameter without a type has none written behind its name. -/
theorem param_lacksType (hm : Module.parse source path name = .ok m)
    (hf : m.findFunction? qualname = some f) (hp : p ∈ f.params) (hhint : p.hint = none) :
    Lower.LacksType source.toList p.nameSpan.stop := by
  obtain ⟨-, t, ht⟩ := isReadFrom_findFunction? hm hf
  obtain ⟨params, -, hparams, hkind, -, heq, -⟩ := ht.exists_params
  rw [heq] at hp
  obtain ⟨u, hu, hread⟩ := List.mem_filterMap.mp hp
  exact Lower.lacksType_of_param? hparams hkind hu hread hhint

/-- The head of a function without a result type ends behind its parameters. -/
theorem function_endsHead (hm : Module.parse source path name = .ok m)
    (hf : m.findFunction? qualname = some f) (hreturns : f.returns = none) :
    EndsHead source.toList f.paramsSpan.stop := by
  obtain ⟨-, t, ht⟩ := isReadFrom_findFunction? hm hf
  exact ht.endsHead hreturns

end Plumbline
