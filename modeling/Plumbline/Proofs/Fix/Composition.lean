/-
Plans one after the other.

Each plan is resolved in the text that the plan before it has left: it asks for one edit of its own
kind or for none (`asks_of_edit?`), and what it leaves is always a module again.  So it makes no
difference where a list of plans is divided: to apply one part and then the other is to apply the list,
down to the error if one of them cannot be applied (`plans_compose`).  In particular the plans for a
file may be applied at once or one at a time.
-/
import Plumbline.Fix.Apply

namespace Plumbline

theorem eq_ok_of_toOption {ε α : Type} {x : Except ε α} {a : α} (h : x.toOption = some a) :
    x = .ok a := by
  cases x with
  | error e => exact absurd h (by simp [Except.toOption])
  | ok b => rw [Option.some.inj h]

namespace Plan

variable {path : Path} {source text edited : String} {plan : Plan}

/-! ### One plan -/

/-- What a plan asks for in `m`, which is the module of `text`: the edit `e`, or nothing. -/
inductive Asks (m : Module) (text : List Char) (e : Option Edit) : Plan → Prop where
  | addImport {source name : String} (he : Edit.addImport m text source name = e) :
      Asks m text e (.addImport source name)
  | addReturnType {function : String} {type : ApprovedType} {f : FunctionDef}
      (hf : m.findFunction? function = some f) (he : Edit.addReturnType f type = e) :
      Asks m text e (.addReturnType function type)
  | addParameterType {function parameter : String} {type : ApprovedType} {f : FunctionDef} {p : Param}
      (hf : m.findFunction? function = some f) (hp : f.param? parameter = some p)
      (he : Edit.addParameterType p type = e) : Asks m text e (.addParameterType function parameter type)
  | freezeRecord {className : String} {c : ClassDef} {d : Decorator}
      (hc : m.findClass? className = some c) (hd : c.dataclassDecorator? = some d)
      (he : Edit.freeze d.expr = e) : Asks m text e (.freezeRecord className)
  | injectComment {anchor : Anchor} {note : String} {span : Span}
      (hspan : Edit.anchorSpan? m anchor = some span)
      (he : Edit.injectComment text span.start note = e) : Asks m text e (.injectComment anchor note)

theorem asks_of_edit? {m : Module} {text : List Char} {e : Option Edit}
    (h : plan.edit? m text = .ok e) : Asks m text e plan := by
  cases plan with
  | addImport source name => exact .addImport (Except.ok.inj h)
  | addReturnType function type =>
      unfold edit? at h
      dsimp only at h
      split at h
      · cases h
      · rename_i f hf
        exact .addReturnType hf (Except.ok.inj h)
  | addParameterType function parameter type =>
      unfold edit? at h
      dsimp only at h
      split at h
      · cases h
      · rename_i f hf
        split at h
        · cases h
        · rename_i p hp
          exact .addParameterType hf hp (Except.ok.inj h)
  | freezeRecord className =>
      unfold edit? at h
      dsimp only at h
      split at h
      · cases h
      · rename_i c hc
        split at h
        · cases h
        · rename_i d hd
          exact .freezeRecord hc hd (Except.ok.inj h)
  | injectComment anchor note =>
      unfold edit? at h
      dsimp only at h
      split at h
      · cases h
      · rename_i span hspan
        exact .injectComment hspan (Except.ok.inj h)

/-- What one plan does: nothing, or the edit that it asks for. -/
theorem applyTo_eq_ok (h : plan.applyTo path text = .ok edited) :
    ∃ m, Module.parse text path "" = .ok m ∧
      (plan.edit? m text.toList = .ok none ∧ edited = text ∨
        ∃ e, plan.edit? m text.toList = .ok (some e) ∧ edited.toList = e.apply text.toList ∧
          Syntax.isValid edited = true) := by
  unfold applyTo at h
  split at h
  · exact absurd h (by simp)
  · rename_i m hm
    refine ⟨m, hm, ?_⟩
    split at h
    · exact absurd h (by simp)
    · rename_i hedit
      exact Or.inl ⟨hedit, (Except.ok.inj h).symm⟩
    · rename_i e hedit
      dsimp only at h
      split at h
      · rename_i hvalid
        obtain rfl := Except.ok.inj h
        exact Or.inr ⟨e, hedit, String.toList_ofList, hvalid⟩
      · exact absurd h (by simp)

/-- A plan leaves nothing behind that is no module. -/
theorem isValid_of_applyTo (htext : Syntax.isValid text = true)
    (h : plan.applyTo path text = .ok edited) : Syntax.isValid edited = true := by
  obtain ⟨m, -, ⟨-, rfl⟩ | ⟨e, -, -, hvalid⟩⟩ := applyTo_eq_ok h
  · exact htext
  · exact hvalid

/-! ### Plans that are satisfied -/

/-- The text is already as the plan wants it. -/
def IsSatisfied (plan : Plan) (path : Path) (text : String) : Prop :=
  ∃ m, Module.parse text path "" = .ok m ∧ plan.edit? m text.toList = .ok none

theorem applyTo_of_isSatisfied (h : plan.IsSatisfied path text) :
    plan.applyTo path text = .ok text := by
  obtain ⟨m, hparse, hedit⟩ := h
  unfold applyTo
  rw [hparse]
  dsimp only
  rw [hedit]

/-- Plans that are satisfied leave the text as it is. -/
theorem foldlM_of_isSatisfied {plans : List Plan} (h : ∀ plan ∈ plans, plan.IsSatisfied path text) :
    plans.foldlM (applyTo path) text = .ok text := by
  induction plans with
  | nil => rfl
  | cons plan rest ih =>
      have hplan : plan.applyTo path text = .ok text := applyTo_of_isSatisfied (h plan (by simp))
      rw [List.foldlM_cons, hplan]
      exact ih fun other hother => h other (List.mem_cons_of_mem plan hother)

/-! ### Lists of plans -/

theorem isValid_of_foldlM {plans : List Plan} (htext : Syntax.isValid text = true)
    (h : plans.foldlM (applyTo path) text = .ok edited) : Syntax.isValid edited = true := by
  induction plans generalizing text with
  | nil =>
      rw [← Except.ok.inj h]
      exact htext
  | cons plan rest ih =>
      rw [List.foldlM_cons] at h
      cases hplan : plan.applyTo path text with
      | error e =>
          rw [hplan] at h
          exact absurd h (by simp [bind, Except.bind])
      | ok next =>
          rw [hplan] at h
          exact ih (isValid_of_applyTo htext hplan) h

/-- In a module the plans are all that counts. -/
theorem applyAll_of_isValid (h : Syntax.isValid source = true) (plans : List Plan) :
    applyAll path source plans = plans.foldlM (applyTo path) source := by
  unfold applyAll
  rw [if_pos h]

/-- What is no module is refused, whatever the plans. -/
theorem applyAll_of_not_isValid (h : ¬ Syntax.isValid source = true) (plans : List Plan) :
    applyAll path source plans = .error (.unparsable path) := by
  unfold applyAll
  rw [if_neg h]

theorem applyAll_nil (h : Syntax.isValid source = true) : applyAll path source [] = .ok source :=
  applyAll_of_isValid h []

theorem isValid_of_applyAll {plans : List Plan} (h : applyAll path source plans = .ok edited) :
    Syntax.isValid edited = true := by
  by_cases hsource : Syntax.isValid source = true
  · rw [applyAll_of_isValid hsource] at h
    exact isValid_of_foldlM hsource h
  · rw [applyAll_of_not_isValid hsource] at h
    cases h

/-- The second part of a list of plans begins with the text that the first part has left. -/
theorem applyAll_append_eq_bind (path : Path) (source : String) (first more : List Plan) :
    applyAll path source (first ++ more) =
      applyAll path source first >>= fun text => applyAll path text more := by
  by_cases hsource : Syntax.isValid source = true
  · rw [applyAll_of_isValid hsource, applyAll_of_isValid hsource, List.foldlM_append]
    cases hfirst : first.foldlM (applyTo path) source with
    | error e => rfl
    | ok text =>
        -- The check that the second part starts with cannot fail.
        have htext : Syntax.isValid text = true := isValid_of_foldlM hsource hfirst
        exact (applyAll_of_isValid htext more).symm
  · rw [applyAll_of_not_isValid hsource, applyAll_of_not_isValid hsource]
    rfl

theorem applyTo_of_applyAll (h : applyAll path source [plan] = .ok edited) :
    plan.applyTo path source = .ok edited := by
  by_cases hsource : Syntax.isValid source = true
  · rw [applyAll_of_isValid hsource, List.foldlM_cons] at h
    simpa using h
  · rw [applyAll_of_not_isValid hsource] at h
    cases h

/-- One more plan is carried out in the text that the others leave. -/
theorem applyAll_append {before : List Plan} (h : applyAll path source (before ++ [plan]) = .ok edited) :
    ∃ text, applyAll path source before = .ok text ∧ plan.applyTo path text = .ok edited := by
  rw [applyAll_append_eq_bind] at h
  cases hbefore : applyAll path source before with
  | error e =>
      rw [hbefore] at h
      cases h
  | ok text =>
      rw [hbefore] at h
      exact ⟨text, rfl, applyTo_of_applyAll h⟩

theorem applyAll_concat {before : List Plan} (hbefore : applyAll path source before = .ok text)
    (h : plan.applyTo path text = .ok edited) :
    applyAll path source (before ++ [plan]) = .ok edited := by
  rw [applyAll_append_eq_bind, hbefore]
  show applyAll path text [plan] = _
  rw [applyAll_of_isValid (isValid_of_applyAll hbefore), List.foldlM_cons, h]
  rfl

/-- A list of plans may be divided in any number of places. -/
theorem applyAll_flatten (path : Path) (source : String) (batches : List (List Plan)) :
    applyAll path source batches.flatten =
      applyAll path source [] >>= batches.foldlM (applyAll path) := by
  induction batches generalizing source with
  | nil =>
      show applyAll path source [] = applyAll path source [] >>= pure
      rw [bind_pure]
  | cons batch rest ih =>
      rw [List.flatten_cons, applyAll_append_eq_bind]
      by_cases hsource : Syntax.isValid source = true
      · rw [applyAll_nil hsource]
        show _ = List.foldlM (applyAll path) source (batch :: rest)
        rw [List.foldlM_cons]
        cases hbatch : applyAll path source batch with
        | error e => rfl
        | ok text =>
            show applyAll path text rest.flatten = rest.foldlM (applyAll path) text
            rw [ih, applyAll_nil (isValid_of_applyAll hbatch)]
            rfl
      · rw [applyAll_of_not_isValid hsource, applyAll_of_not_isValid hsource]
        rfl

/-- **Plans compose.**  To apply a list of plans is to apply its first part and then the rest to
what that leaves, with the same text or the same error; and so it is for any number of parts.  What
plans leave is always a module, also if there are none, and plans that are all satisfied leave a
module as it is. -/
theorem plans_compose (path : Path) (source : String) (first more : List Plan) :
    applyAll path source (first ++ more) =
      (applyAll path source first >>= fun text => applyAll path text more) ∧
    (∀ batches : List (List Plan), applyAll path source batches.flatten =
      applyAll path source [] >>= batches.foldlM (applyAll path)) ∧
    (∀ plans edited, applyAll path source plans = .ok edited →
      Syntax.isValid edited = true ∧ ∃ m, Module.parse edited path "" = .ok m) ∧
    (∀ plans, Syntax.isValid source = true → (∀ plan ∈ plans, plan.IsSatisfied path source) →
      applyAll path source plans = .ok source) := by
  refine ⟨applyAll_append_eq_bind path source first more, applyAll_flatten path source, ?_, ?_⟩
  · intro plans edited h
    have hedited : Syntax.isValid edited = true := isValid_of_applyAll h
    exact ⟨hedited, Module.exists_parse hedited path ""⟩
  · intro plans hsource h
    rw [applyAll_of_isValid hsource]
    exact foldlM_of_isSatisfied h

/-- A module after an import was added. -/
def imported : String := "from os import path\nx = 1\n"

/-- An import that is planned twice is added once, whether or not the plans are applied together. -/
theorem import_planned_twice :
    applyAll "a.py" "x = 1\n" [addImport "os" "path"] = .ok imported ∧
    applyAll "a.py" imported [addImport "os" "path"] = .ok imported ∧
    applyAll "a.py" "x = 1\n" ([addImport "os" "path"] ++ [addImport "os" "path"]) = .ok imported ∧
    Syntax.isValid imported = true := by
  have hfirst : applyAll "a.py" "x = 1\n" [addImport "os" "path"] = .ok imported :=
    eq_ok_of_toOption (by decide +kernel)
  obtain ⟨hcompose, -, hvalid, -⟩ :=
    plans_compose "a.py" "x = 1\n" [addImport "os" "path"] [addImport "os" "path"]
  obtain ⟨himported, m, hm⟩ := hvalid _ _ hfirst
  have hsatisfied : (addImport "os" "path").IsSatisfied "a.py" imported := by
    have hhas : (Module.parse imported "a.py" "").toOption.all
        (Edit.hasImport · "os" "path") = true := by decide +kernel
    rw [hm] at hhas
    have hnone : Edit.addImport m imported.toList "os" "path" = none := if_pos hhas
    exact ⟨m, hm, congrArg Except.ok hnone⟩
  have hagain : applyAll "a.py" imported [addImport "os" "path"] = .ok imported :=
    (plans_compose "a.py" imported [] []).2.2.2 _ himported (by simpa using hsatisfied)
  -- From here on the text itself is of no interest.
  generalize imported = text at *
  rw [hfirst] at hcompose
  have hboth : applyAll "a.py" "x = 1\n" ([addImport "os" "path"] ++ [addImport "os" "path"]) =
      applyAll "a.py" text [addImport "os" "path"] := hcompose
  exact ⟨hfirst, hagain, hboth.trans hagain, himported⟩

end Plan

end Plumbline
