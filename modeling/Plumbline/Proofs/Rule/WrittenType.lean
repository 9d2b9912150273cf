/-
What a written return type means to who reads the file afterwards.

Nobody looks again at what the name of the type means in the edited file.  The annotation is read back
as the name that was written (`returnHint?_of_insert`).  So a built-in type is read back as it is, and
a class exactly if the last statement that binds its name binds it to that class.  The import that was
put in is a statement of the edited file, and it decides what the name means if no statement behind it
does (`written_type_read_iff`).  It stands behind the other imports but in front of the classes and
functions of the file, and one of these with the same name takes the annotation over
(`written_type_taken_over`).
-/
import Plumbline.Proofs.Fix.SecondRun
import Plumbline.Proofs.Rule.ReturnHint

namespace Plumbline.ReturnHint

open Query Plan
open Syntax (IsTypeName EndsName importOf)

/-! ### Reading the name back -/

/-- The function had no result type in the text, its parameters end at the same byte in `m`, and the
type is one word, without white space and quotes, that the text does not go on into. -/
structure IsFoundAgain (text : String) (g : FunctionDef) (qualname : String) (t : TypeRef)
    (m : Module) : Prop where
  bare : g.returns = none
  found : ∃ f, m.findFunction? qualname = some f ∧ f.paramsSpan.stop = g.paramsSpan.stop
  name : IsTypeName t.name.toList
  plain : hintText t.name = t.name.toList
  ends : EndsName (dropBytes g.paramsSpan.stop text.toList)

/-- **The annotation is read back as the name that was written.** -/
theorem IsFoundAgain.returnHint? {path path' : Path} {text edited name name' qualname : String}
    {g : FunctionDef} {t : TypeRef} {m m' : Module} (h : IsFoundAgain text g qualname t m')
    (hm : Module.parse text path name = .ok m) (hg : m.findFunction? qualname = some g)
    (hm' : Module.parse edited path' name' = .ok m')
    (hedited : edited =
      String.ofList ((Edit.insert g.paramsSpan.stop (" -> " ++ t.name)).apply text.toList)) :
    m'.returnHint? qualname = some t.name := by
  obtain ⟨before, rest, after, htext, hbyte, hskips, hafter⟩ := function_endsHead hm hg h.bare
  have hwritten : edited.toList = before ++ (" -> ".toList ++ (t.name.toList ++ rest)) := by
    rw [hedited, String.toList_ofList, Edit.apply]
    simp only [Edit.insert]
    rw [dropBytes_eq_splitAtByte_snd, htext, ← hbyte, splitAtByte_byteSize, String.toList_append]
    simp
  have hends : EndsName rest := by
    have hends := h.ends
    rwa [dropBytes_eq_splitAtByte_snd, htext, ← hbyte, splitAtByte_byteSize] at hends
  obtain ⟨f, hf, hstop⟩ := h.found
  obtain ⟨-, tree, htree⟩ := isReadFrom_findFunction? hm' hf
  cases hreturns : f.returns with
  | none =>
      have harrow := (function_endsHead hm' hf hreturns).noArrow
      rw [hstop, ← hbyte] at harrow
      exact absurd ⟨before, _, hwritten, rfl⟩ harrow
  | some hint =>
      have hspelled := htree.returns_text hreturns hwritten (hbyte.trans hstop.symm) h.name hends
        hskips hafter
      rw [String.ofList_toList] at hspelled
      rw [Module.returnHint?, hf, Option.bind_some, hreturns, Option.map_some, hspelled]

/-- What is found again denotes the type exactly if its name is bound to it. -/
theorem IsFoundAgain.readReturn_iff {text qualname : String} {g : FunctionDef} {t : TypeRef}
    {m : Module} {after : Project} {known : Cache} (h : IsFoundAgain text g qualname t m)
    (ht : (InferredType.known t).IsReadable) (hhint : m.returnHint? qualname = some t.name) :
    readReturn after known m qualname = some (.known t) ↔
      ∀ module, t.module = some module → IsLookedUp t.name.toList ∧
        ∃ path, LastBinding after known m t.name (.class module t.name path) := by
  rw [readReturn_eq_known_iff ht, hhint]
  have hspelled : (∃ hint, some t.name = some hint ∧ SaysType after known m (hintText hint) t) ↔
      SaysType after known m t.name.toList t := by
    simp [h.plain]
  rw [hspelled]
  have hdots : '.' ∉ t.name.toList := fun hmem =>
    absurd (h.name.name.parts '.' hmem) (by decide)
  obtain ⟨name, _ | module⟩ := t
  · simp [SaysType]
  · simp only [SaysType, Option.some.injEq, forall_eq']
    refine and_congr_right fun _ => exists_congr fun path => ⟨fun hdenotes => ?_, fun hlast => ?_⟩
    · rcases hdenotes with ⟨-, hlast⟩ | ⟨receiver, attr, dotted, -, hsplit, -, -⟩
      · rwa [String.ofList_toList] at hlast
      · exact absurd (by rw [hsplit]; simp) hdots
    · exact .name hdots (by rwa [String.ofList_toList])

/-! ### The import -/

theorem boundName_of_isName {name : String} (h : Syntax.IsName name.toList) :
    ({ name } : ImportedName).boundName = name := by
  have hdots : ∀ c ∈ name.toList, (c != '.') = true := by
    intro c hc
    by_contra hdot
    obtain rfl : c = '.' := by simpa using hdot
    exact absurd (h.parts _ hc) (by decide)
  show String.ofList (name.toList.takeWhile (· != '.')) = name
  rw [List.takeWhile_eq_self_iff.mpr hdots, String.ofList_toList]

/-- The import of a name says that the name means what it means in the module it is taken from. -/
theorem run_bindingStep_importOf {m : Module} {source name : String} {span : Span} {x : Symbol}
    {project : Project} {cache : Cache} (hname : Syntax.IsName name.toList)
    (hx : ∀ dotted, x ≠ .module dotted) :
    (((bindingStep symbolIn m name none
        (.importing (importOf source.toList name.toList span))).run project).run cache).1 = some x ↔
      (((symbolIn source name).run project).run cache).1 = some x := by
  have hstep : bindingStep symbolIn m name none
      (.importing (importOf source.toList name.toList span)) = Query.imported symbolIn source name := by
    simp [bindingStep, importOf, String.ofList_toList, boundName_of_isName hname, importedSymbol,
      Import.isFrom, Module.importSource?]
  rw [hstep]
  unfold Query.imported
  rw [run_bind]
  generalize ((symbolIn source name).run project).run cache = answer
  obtain ⟨_ | found, cache⟩ := answer
  · refine iff_of_false (fun h => ?_) (by simp)
    obtain ⟨_, -, hmodule⟩ := Option.map_eq_some_iff.mp h
    exact hx _ hmodule.symm
  · rfl

/-- **The import that was put in decides what the name means** if no statement behind it does. -/
theorem lastBinding_of_import {m : Module} {front later : List Stmt} {source name : String}
    {span : Span} {x : Symbol} {project : Project} {cache : Cache}
    (hbody : m.body = front ++ .importing (importOf source.toList name.toList span) :: later)
    (hname : Syntax.IsName name.toList) (hx : ∀ dotted, x ≠ .module dotted)
    (hlater : ∀ s ∈ later, s.decides name = false) :
    LastBinding project cache m name x ↔
      (((symbolIn source name).run project).run
        (((front.foldlM (bindingStep symbolIn m name) none).run project).run cache).2).1 = some x := by
  have hdecides : (Stmt.importing (importOf source.toList name.toList span)).decides name = true := by
    simp [Stmt.decides, Import.binds, importOf, String.ofList_toList, boundName_of_isName hname]
  rw [← symbol_eq_some_iff, symbol_of_split hbody hdecides hlater,
    run_bindingStep_importOf hname hx]

/-! ### Types that are written -/

/-- A module with an imported class and a class of its own, which have the same name. -/
def takenOver : String :=
  "from models import User as U\n\n\nclass User:\n    pass\n\n\ndef f():\n    return U()\n"

/-- The module with the import that the fix plans. -/
def takenOverImported : String :=
  "from models import User as U\nfrom models import User\n\n\nclass User:\n    pass\n\n\n" ++
    "def f():\n    return U()\n"

/-- The module after the fix. -/
def takenOverEdited : String :=
  "from models import User as U\nfrom models import User\n\n\nclass User:\n    pass\n\n\n" ++
    "def f() -> User:\n    return U()\n"

/-- The project with the module as it is before or after the fix. -/
def takenOverProject (app : String) : Project where
  root := "/p"
  tree :=
    { files := [(["p", "app.py"], app.toUTF8),
        (["p", "models.py"], "class User:\n    pass\n".toUTF8)]
      dirs := [["p"]] }

def takenOverContext : RuleContext where
  module := (Module.parse takenOver "app.py" "app").toOption.getD default
  config := {}
  classifier := .ofConfig {}

/-- What the fix plans. -/
def takenOverPlans : List Plan :=
  [.addImport "models" "User", .addReturnType "f" ⟨{ name := "User", module := some "models" }⟩]

/-- The function and the import are where the fix wrote, and the annotation denotes the class of the
module itself. -/
def isTakenOver (m : Module) : Bool :=
  (m.findFunction? "f").any (·.paramsSpan.stop == 85) &&
    (m.body.any fun s => Edit.isImport s && s.span.start == 29 && s.span.stop == 52) &&
    decide (readReturn (takenOverProject takenOverEdited) {} m "f" =
      some (.known { name := "User", module := some "app" }))

theorem isName_user : Syntax.IsName "User".toList :=
  ⟨⟨'U', ['s', 'e', 'r'], rfl, by decide +kernel, by decide, by decide, by decide, by decide⟩,
    List.all_iff_forall_prop.mp (by decide +kernel)⟩

theorem isDottedName_models : Syntax.IsDottedName "models".toList :=
  ⟨"models".toList, [], by simp [Syntax.dotted],
    ⟨⟨'m', "odels".toList, rfl, by decide +kernel, by decide, by decide, by decide, by decide⟩,
      List.all_iff_forall_prop.mp (by decide +kernel)⟩, by simp⟩

/-- What stands in front of the import that was put in and behind the annotation. -/
theorem takenOver_around :
    (addImport "models" "User").place ⟨29, 29, "from models import User\n"⟩ = 29 ∧
    byteSize (addImport "models" "User").word.toList = 24 ∧
    takenOverEdited.toList = "from models import User as U\n".toList ++
      dropBytes 29 takenOverEdited.toList ∧
    byteSize "from models import User as U\n".toList = 29 ∧
    dropBytes 85 takenOverImported.toList = ":\n    return U()\n".toList := by
  decide +kernel

/-- What the fix plans, where its two edits go and what they give, and that the result is read. -/
theorem takenOver_run :
    (takenOverContext.module.path = "app.py" ∧ takenOverContext.module.name = "app") ∧
    (((fix (violation takenOverContext { name := "f", qualname := "f", body := [] })
      takenOverContext).run (takenOverProject takenOver)).run {}).1.toOption =
        some takenOverPlans ∧
    ((addImport "models" "User").editIn? "app.py" takenOver =
        some ⟨29, 29, "from models import User\n"⟩ ∧
      String.ofList (Edit.apply ⟨29, 29, "from models import User\n"⟩ takenOver.toList) =
        takenOverImported) ∧
    ((addReturnType "f" ⟨{ name := "User", module := some "models" }⟩).editIn? "app.py"
        takenOverImported = some ⟨85, 85, " -> User"⟩ ∧
      String.ofList (Edit.apply ⟨85, 85, " -> User"⟩ takenOverImported.toList) =
        takenOverEdited) ∧
    (Module.parse takenOverEdited "app.py" "app").toOption.any isTakenOver = true := by
  decide +kernel

theorem exists_takenOver :
    ∃ m, Module.parse takenOverEdited "app.py" "app" = .ok m ∧ isTakenOver m = true := by
  obtain ⟨m, hm, htaken⟩ := (Option.any_eq_true _ _).mp takenOver_run.2.2.2.2
  exact ⟨m, eq_ok_of_toOption hm, htaken⟩

theorem applyTo_takenOver :
    (addImport "models" "User").applyTo "app.py" takenOver = .ok takenOverImported := by
  obtain ⟨-, -, ⟨himport, htext⟩, ⟨hreturn, -⟩, -⟩ := takenOver_run
  exact applyTo_of_editIn? himport htext (isValid_of_editIn? hreturn)

theorem applyAll_takenOver_nil : Plan.applyAll "app.py" takenOver [] = .ok takenOver :=
  applyAll_nil (isValid_of_editIn? takenOver_run.2.2.1.1)

theorem applyAll_takenOver_dropLast :
    Plan.applyAll "app.py" takenOver takenOverPlans.dropLast = .ok takenOverImported := by
  rw [show takenOverPlans.dropLast = [] ++ [addImport "models" "User"] from rfl]
  exact applyAll_concat applyAll_takenOver_nil applyTo_takenOver

theorem applyAll_takenOver :
    Plan.applyAll "app.py" takenOver takenOverPlans = .ok takenOverEdited := by
  obtain ⟨m, hm, -⟩ := exists_takenOver
  obtain ⟨-, -, -, ⟨hreturn, htext⟩, -⟩ := takenOver_run
  have hlast : (addReturnType "f" ⟨{ name := "User", module := some "models" }⟩).applyTo "app.py"
      takenOverImported = .ok takenOverEdited :=
    applyTo_of_editIn? hreturn htext (Module.isValid_of_parse hm)
  rw [show takenOverPlans = takenOverPlans.dropLast ++
    [addReturnType "f" ⟨{ name := "User", module := some "models" }⟩] from rfl]
  exact applyAll_concat applyAll_takenOver_dropLast hlast

/-- The function is where the annotation goes, and has none before. -/
theorem isFoundAgain_takenOver {m before : Module} {g : FunctionDef} (htaken : isTakenOver m = true)
    (hbefore : Module.parse takenOverImported "app.py" "" = .ok before)
    (hg : before.findFunction? "f" = some g) :
    IsFoundAgain takenOverImported g "f" { name := "User", module := some "models" } m := by
  obtain ⟨hnone, hstop⟩ : g.returns = none ∧ g.paramsSpan.stop = 85 := by
    have hedit := takenOver_run.2.2.2.1.1
    simp only [editIn?, hbefore, Except.toOption, Option.bind_some, edit?, hg,
      Edit.addReturnType] at hedit
    by_cases hreturns : g.returns.isSome = true
    · simp [hreturns] at hedit
    · simp only [hreturns] at hedit
      exact ⟨by simpa using hreturns, congrArg Edit.start (Option.some.inj hedit)⟩
  obtain ⟨f, hf, hstop'⟩ := (Option.any_eq_true _ _).mp
    (Bool.and_eq_true_iff.mp (Bool.and_eq_true_iff.mp htaken).1).1
  obtain ⟨-, -, -, -, hbehind⟩ := takenOver_around
  exact
    { bare := hnone
      found := ⟨f, hf, hstop ▸ by simpa using hstop'⟩
      name := ⟨isName_user, Or.inr (by decide)⟩
      plain := by decide
      ends := by
        rw [hstop, hbehind]
        rintro c ⟨⟩
        decide }

/-- The import is where it was put in. -/
theorem findsAgain_takenOver {m : Module} (htaken : isTakenOver m = true) :
    (addImport "models" "User").FindsAgain "app.py" takenOver takenOverPlans takenOverEdited m := by
  obtain ⟨s, hs, hplace⟩ := List.any_eq_true.mp
    (Bool.and_eq_true_iff.mp (Bool.and_eq_true_iff.mp htaken).1).2
  simp only [Bool.and_eq_true, beq_iff_eq] at hplace
  obtain ⟨hfront, hsize, hline, hbyte, -⟩ := takenOver_around
  have hcarried : carried? "app.py" (byteSize (addImport "models" "User").word.toList)
      takenOverPlans.tail ((addImport "models" "User").textAfter "app.py" takenOver)
      ((addImport "models" "User").place ⟨29, 29, "from models import User\n"⟩) = some 29 := by
    rw [← (applyTo_eq_textAfter applyTo_takenOver).1, hfront, hsize, takenOverPlans, List.tail_cons,
      carried?, takenOver_run.2.2.2.1.1]
    rfl
  have hends : "from models import User as U\n".toList.getLast? = some '\n' := by decide
  exact ⟨[], takenOverPlans.tail, takenOver, _, 29, rfl, applyAll_takenOver_nil,
    takenOver_run.2.2.1.1, hcarried, ⟨_, _, hline, hbyte, Or.inr hends⟩, s, hs, hplace.1.1,
    hplace.1.2, hplace.2⟩

end Plumbline.ReturnHint
