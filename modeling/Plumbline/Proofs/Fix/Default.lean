/-
What typing a parameter does to its default.

A parameter with a default is given its type by an edit that replaces all from the name to the
default.  Between the two lies one equals sign and otherwise nothing that counts, so the default is
kept as it is written.  But the edit ends where the expression starts that the default stands for,
and the sign of a number is no part of that: `x=-1` becomes `x: int = 1`, and the module is still a
module (`sign_of_default_lost`).
-/
import Plumbline.Proofs.Fix.Composition
import Plumbline.Proofs.Module.Parameter

namespace Plumbline

open Syntax (Skips SetsDefault)

theorem Edit.apply_replace (before between after : List Char) (new : String) :
    Edit.apply ⟨byteSize before, byteSize (before ++ between), new⟩ (before ++ between ++ after) =
      before ++ new.toList ++ after := by
  unfold Edit.apply
  dsimp only
  rw [dropBytes_byteSize, List.append_assoc before between, splitAtByte_byteSize]

/-- In the source the parameter stands as `before` its name, an equals sign and its default, which is
the text `shown` and has the tree `value`.  Around the sign lies nothing but blanks, comments and
joined lines. -/
structure Param.IsWritten (source : List Char) (p : Param) (value : Syntax.Tree)
    (before gap gap' shown after : List Char) : Prop where
  text : source = before ++ p.name.toList ++ gap ++ '=' :: (gap' ++ (shown ++ after))
  nameStart : p.nameSpan.start = byteSize before
  skipsTo : Skips (gap ++ '=' :: (gap' ++ (shown ++ after))) ('=' :: (gap' ++ (shown ++ after)))
  skipsFrom : Skips (gap' ++ (shown ++ after)) (shown ++ after)
  default : p.default = some (Lower.expr source value)
  valueStart : value.span.start = byteSize (before ++ p.name.toList ++ gap ++ '=' :: gap')
  valueText : value.span.text source = String.ofList shown
  /-- A default in parentheses of its own starts with one. -/
  opens : value.kind = .parenthesized → (shown ++ after).head? = some '('

namespace Param

variable {source path qualname parameter : String} {m : Module} {f : FunctionDef} {p : Param}
  {d : Expr} {value : Syntax.Tree} {before gap gap' shown after : List Char}

theorem exists_isWritten (hm : Module.parse source path "" = .ok m)
    (hf : m.findFunction? qualname = some f) (hp : f.param? parameter = some p)
    (hhint : p.hint = none) (hdefault : p.default = some d) :
    ∃ value before gap gap' shown after, value.Sound source.toList ∧
      p.IsWritten source.toList value before gap gap' shown after := by
  obtain ⟨value, hvalue, rfl, hname, hsets, -⟩ :=
    param_default hm hf (List.mem_of_find?_eq_some hp) hhint hdefault
  obtain ⟨before, name, gap, gap', rest, htext, hstart, hstop, hvalueStart, hto, hfrom⟩ := hsets
  have hnamed : p.name.toList = name := by
    rw [hname, Span.text, String.toList_ofList, hstart, hstop, htext,
      List.append_assoc (before ++ name), sliceBytes_append]
  have hrest : dropBytes value.span.start source.toList = rest := by
    have hwhole : source.toList = (before ++ name ++ gap ++ '=' :: gap') ++ rest := by simp [htext]
    rw [hvalueStart, hwhole, dropBytes_byteSize]
  let cut := splitAtByte (value.span.stop - value.span.start) rest
  have hcut : cut.1 ++ cut.2 = rest := splitAtByte_append _ rest
  refine ⟨value, before, gap, gap', cut.1, cut.2, hvalue,
    ⟨?_, hstart, ?_, ?_, hdefault, ?_, ?_, ?_⟩⟩
  · rw [hnamed, hcut, ← htext]
  · rwa [hcut]
  · rwa [hcut]
  · rwa [hnamed]
  · rw [Span.text, sliceBytes, hrest]
  · intro hparen
    obtain ⟨k, _, _, _⟩ := value
    obtain rfl : k = .parenthesized := hparen
    obtain ⟨more, hmore⟩ := hvalue.promises.group rfl
    rw [hcut, ← hrest]
    exact congrArg List.head? hmore

/-- The expression starts with the default, or behind its sign if it is a signed number. -/
theorem IsWritten.exists_sign {source : List Char}
    (h : p.IsWritten source value before gap gap' shown after) (hvalue : value.Sound source)
    (hparen : value.kind ≠ .parenthesized) :
    ∃ sign number, shown = sign ++ number ∧ (sign = [] ↔ ¬ value.IsSignedNumber) ∧
      (Lower.expr source value).span.start =
        byteSize (before ++ (p.name.toList ++ gap ++ '=' :: gap' ++ sign)) := by
  have hwhole : source = (before ++ p.name.toList ++ gap ++ '=' :: gap') ++ (shown ++ after) := by
    simp [h.text]
  by_cases hsigned : value.IsSignedNumber
  · obtain ⟨hkind, number, hnumber, hliteral⟩ := id hsigned
    have hspan : (Lower.expr source value).span = number.span :=
      Lower.span_expr_of_signed hkind hnumber hliteral
    obtain ⟨k, f, s, cs⟩ := value
    obtain rfl : k = .unary := hkind
    have hfield : number.field = some .argument := by simpa using List.find?_some hnumber
    obtain ⟨front, sign, rest, htext, hne, hstart, hnumberStart, hle⟩ :=
      hvalue.promises.sign rfl number (List.mem_of_find?_eq_some hnumber) hfield
    obtain ⟨rfl, hrest⟩ := append_inj_of_byteSize
      (hwhole.symm.trans (htext.trans (List.append_assoc _ _ _))) (h.valueStart.symm.trans hstart)
    have hreach : byteSize sign ≤ s.stop - s.start := by
      rw [byteSize_append, ← hstart] at hnumberStart
      omega
    have hshown : shown = (splitAtByte (s.stop - s.start) (sign ++ rest)).1 := by
      have hdrop : dropBytes s.start source = sign ++ rest := by
        rw [hstart, hwhole, dropBytes_byteSize, hrest]
      have hslice : sliceBytes source s.start s.stop = shown := String.ofList_injective h.valueText
      rw [sliceBytes, hdrop] at hslice
      exact hslice.symm
    rw [splitAtByte_append_of_le _ _ hreach] at hshown
    refine ⟨sign, _, hshown, iff_of_false hne (not_not_intro hsigned), ?_⟩
    rw [hspan, hnumberStart]
    simp
  · refine ⟨[], shown, rfl, by simpa using hsigned, ?_⟩
    rw [Lower.span_expr hparen hsigned, h.valueStart]
    simp

/-- The text that stands in front of a default after the edit. -/
def typedName (p : Param) (type : ApprovedType) : String := p.name ++ ": " ++ type.hint ++ " = "

theorem addParameterType_default (type : ApprovedType) (hhint : p.hint = none)
    (hdefault : p.default = some d) : Edit.addParameterType p type =
      some ⟨p.nameSpan.start, d.span.start, typedName p type⟩ := by
  unfold Edit.addParameterType
  rw [hhint, hdefault, if_neg (by decide)]
  rfl

end Param

namespace Plan

variable {source path function parameter : String} {m : Module} {f : FunctionDef} {p : Param}
  {d : Expr}

/-- **A default is kept as it is written, but for the sign of a number.**  The edit that gives a
parameter its type ends where the expression of the default starts.  Unless the default is in
parentheses of its own, the edit replaces the name, the equals sign and what counts for nothing
around that, and of the default nothing but the sign of a number, if it is a signed number.  If the
edit succeeds, then the text behind it is as before. -/
theorem default_kept_but_sign (type : ApprovedType) (hm : Module.parse source path "" = .ok m)
    (hf : m.findFunction? function = some f) (hp : f.param? parameter = some p)
    (hhint : p.hint = none) (hdefault : p.default = some d) :
    ∃ value before gap gap' shown after,
      p.IsWritten source.toList value before gap gap' shown after ∧
      (addParameterType function parameter type).edit? m source.toList =
        .ok (some ⟨byteSize before, d.span.start, p.typedName type⟩) ∧
      (value.kind ≠ .parenthesized → ∃ sign number, shown = sign ++ number ∧
        (sign = [] ↔ ¬ value.IsSignedNumber) ∧
        d.span.start = byteSize (before ++ (p.name.toList ++ gap ++ '=' :: gap' ++ sign)) ∧
        ∀ edited, (addParameterType function parameter type).applyTo path source = .ok edited →
          edited.toList = before ++ (p.typedName type).toList ++ (number ++ after)) := by
  obtain ⟨value, before, gap, gap', shown, after, hvalue, hwritten⟩ :=
    Param.exists_isWritten hm hf hp hhint hdefault
  obtain rfl : d = Lower.expr source.toList value :=
    Option.some.inj (hdefault.symm.trans hwritten.default)
  have hedit : (addParameterType function parameter type).edit? m source.toList =
      .ok (some ⟨byteSize before, (Lower.expr source.toList value).span.start,
        p.typedName type⟩) := by
    unfold edit?
    simp only [hf, hp]
    rw [Param.addParameterType_default type hhint hdefault, hwritten.nameStart]
  refine ⟨value, before, gap, gap', shown, after, hwritten, hedit, fun hparen => ?_⟩
  obtain ⟨sign, number, rfl, hsign, hstart⟩ := hwritten.exists_sign hvalue hparen
  refine ⟨sign, number, rfl, hsign, hstart, fun edited happly => ?_⟩
  have hwhole : source.toList = before ++ (p.name.toList ++ gap ++ '=' :: gap' ++ sign) ++
      (number ++ after) := by simp [hwritten.text]
  obtain ⟨m', hm', ⟨hnone, -⟩ | ⟨e, hedit', hout, -⟩⟩ := applyTo_eq_ok happly
  · obtain rfl := Except.ok.inj (hm.symm.trans hm')
    cases hedit.symm.trans hnone
  · obtain rfl := Except.ok.inj (hm.symm.trans hm')
    obtain rfl := Option.some.inj (Except.ok.inj (hedit.symm.trans hedit'))
    rw [hout, hstart, hwhole, Edit.apply_replace]

/-- A function whose parameter has a negative number as its default. -/
def signedDefault : String := "def f(x=-1):\n    pass\n"

/-- The negative number becomes a positive one. -/
theorem sign_of_default_lost :
    ∃ m f p d value before gap gap' shown after,
      Module.parse signedDefault "a.py" "" = .ok m ∧ m.findFunction? "f" = some f ∧
      f.param? "x" = some p ∧ p.hint = none ∧ p.default = some d ∧
      p.IsWritten signedDefault.toList value before gap gap' shown after ∧
      value.kind ≠ .parenthesized ∧ value.IsSignedNumber ∧
      (addParameterType "f" "x" ⟨{ name := "int" }⟩).applyTo "a.py" signedDefault =
        .ok "def f(x: int = 1):\n    pass\n" := by
  have hfound : (((Module.parse signedDefault "a.py" "").toOption.bind fun m =>
      m.findFunction? "f").bind (·.param? "x")).any (fun p => p.hint.isNone &&
        p.default.isSome && p.name == "x" && p.nameSpan.start == 6) = true := by
    decide +kernel
  have happly : (addParameterType "f" "x" ⟨{ name := "int" }⟩).applyTo "a.py" signedDefault =
      .ok "def f(x: int = 1):\n    pass\n" :=
    eq_ok_of_toOption (by decide +kernel)
  obtain ⟨p, hp, hfacts⟩ := (Option.any_eq_true _ _).mp hfound
  obtain ⟨f, hf, hp⟩ := Option.bind_eq_some_iff.mp hp
  obtain ⟨m, hm, hf⟩ := Option.bind_eq_some_iff.mp hf
  have hm := eq_ok_of_toOption hm
  simp only [Bool.and_eq_true, Option.isNone_iff_eq_none, Option.isSome_iff_exists,
    beq_iff_eq] at hfacts
  obtain ⟨⟨⟨hhint, d, hdefault⟩, hname⟩, hstart⟩ := hfacts
  obtain ⟨value, before, gap, gap', shown, after, hwritten, -, hkept⟩ :=
    default_kept_but_sign ⟨{ name := "int" }⟩ hm hf hp hhint hdefault
  obtain ⟨rfl, hback⟩ : before = "def f(".toList ∧
      gap ++ '=' :: (gap' ++ (shown ++ after)) = "=-1):\n    pass\n".toList := by
    have htext := hwritten.text
    rw [hname, List.append_assoc, List.append_assoc] at htext
    have hsize : byteSize before = byteSize "def f(".toList := by
      rw [← hwritten.nameStart, hstart]
      decide
    have hsource : signedDefault.toList = "def f(".toList ++ "x=-1):\n    pass\n".toList := by
      decide
    obtain ⟨hfront, hback⟩ := append_inj_of_byteSize (htext.symm.trans hsource) hsize
    exact ⟨hfront, (List.cons_inj_right 'x').mp hback⟩
  have hgap' : gap' ++ (shown ++ after) = "-1):\n    pass\n".toList := by
    have hskips := hwritten.skipsTo
    rw [hback] at hskips
    exact (List.cons_inj_right '=').mp (hskips.eq_of_counts (by decide) (by decide))
  have hshown : shown ++ after = "-1):\n    pass\n".toList := by
    have hskips := hwritten.skipsFrom
    rw [hgap'] at hskips
    exact hskips.eq_of_counts (by decide) (by decide)
  have hparen : value.kind ≠ .parenthesized := by
    intro hkind
    have hopens := hwritten.opens hkind
    rw [hshown] at hopens
    exact absurd hopens (by decide)
  refine ⟨m, f, p, d, value, _, gap, gap', shown, after, hm, hf, hp, hhint, hdefault, hwritten,
    hparen, ?_, happly⟩
  obtain ⟨sign, number, hsplit, hsign, -, hedited⟩ := hkept hparen
  by_contra hunsigned
  have hsame : number = shown := by rw [hsplit, hsign.mpr hunsigned, List.nil_append]
  have hafter := hedited _ happly
  rw [hsame, hshown, Param.typedName, hname] at hafter
  exact absurd hafter (by decide)

end Plan

end Plumbline
