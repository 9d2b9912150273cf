/-
Edits stay inside the text.

To find where an edit goes the text is cut at bytes that are computed from the places of statements,
parameters and arguments, and the edit itself cuts it at two more.  A text cannot be cut inside of a
character or behind its end, and a stretch that ends before it starts cannot be replaced.  `Checked`
is the same computation with such cuts: each has an answer only if the text can be cut there.

Both computations give the same (`plans_in_range`).  The reason is what is known of the places in a
module: definitions, imports, parameters and expressions start and end where the text can be cut, a
default lies behind its parameter, and a call ends with a parenthesis, which is one byte.
-/
import Plumbline.Proofs.Fix.ImportPlace

namespace Plumbline

open Syntax (IsPlace IsStretch)

theorem Syntax.IsPlace.le {text : List Char} {n : Nat} (h : IsPlace text n) : n ≤ byteSize text := by
  obtain ⟨before, after, rfl, rfl⟩ := h
  rw [byteSize_append]
  exact Nat.le_add_right _ _

/-- The edit replaces a stretch that goes forward, and the text can be cut at both its ends. -/
structure Edit.InRange (e : Edit) (text : List Char) : Prop where
  start : IsPlace text e.start
  forward : e.start ≤ e.stop
  stop : IsPlace text e.stop

namespace Checked

/-! ### Cuts -/

/-- The text before and after byte `n`, if it can be cut there. -/
def cut : Nat → List Char → Option (List Char × List Char)
  | 0, cs => some ([], cs)
  | _ + 1, [] => none
  | n + 1, c :: cs =>
    if c.utf8Size ≤ n + 1 then (cut (n + 1 - c.utf8Size) cs).map fun p => (c :: p.1, p.2) else none

theorem cut_byteSize (before after : List Char) :
    cut (byteSize before) (before ++ after) = some (before, after) := by
  induction before with
  | nil => exact cut.eq_1 after
  | cons c cs ih =>
      show cut (c.utf8Size + byteSize cs) (c :: (cs ++ after)) = _
      obtain ⟨k, hk⟩ : ∃ k, c.utf8Size + byteSize cs = k + 1 :=
        Nat.exists_eq_add_one.mpr (Nat.add_pos_left c.utf8Size_pos _)
      have hrest : k + 1 - c.utf8Size = byteSize cs := by omega
      rw [hk, cut, if_pos (by omega), hrest, ih, Option.map_some]

/-! ### The computation with cuts -/

/-- The text after an edit. -/
def apply (e : Edit) (text : List Char) : Option (List Char) :=
  if e.start ≤ e.stop then do
    let (before, _) ← cut e.start text
    let (_, after) ← cut e.stop text
    some (before ++ e.replacement.toList ++ after)
  else none

/-- The place after the line end that follows byte `n`, if there is one. -/
def lineAfter (text : List Char) (n : Nat) : Option (Option Nat) := do
  let (_, rest) ← cut n text
  some (if rest.contains '\n' then some (n + byteSize (rest.takeWhile (· != '\n')) + 1) else none)

def addImport (m : Module) (text : List Char) (source name : String) : Option (Option Edit) :=
  if Edit.hasImport m source name then some none
  else
    let line := "from " ++ source ++ " import " ++ name ++ "\n"
    match Edit.importAnchor? m with
    | none => some (some (.insert 0 line))
    | some anchor => do
      match ← lineAfter text anchor.span.stop with
      | some n => some (some (.insert n line))
      | none => some (some (.insert (byteSize text) ("\n" ++ line)))

/-- The byte at which the line starts that the text ends with. -/
def lineStart (text : List Char) : Nat := byteSize (text.reverse.dropWhile (· != '\n')).reverse

def injectComment (text : List Char) (n : Nat) (note : String) : Option (Option Edit) := do
  let comment := Edit.commentTag ++ " " ++ note
  let (front, _) ← cut n text
  let start := lineStart front
  let (before, line) ← cut start text
  let indent := line.takeWhile fun c => c == ' ' || c == '\t'
  some (if Edit.hasComment before comment then none
    else some (.insert start (String.ofList indent ++ comment ++ "\n")))

/-- The edit that a plan asks for.  Types and records are found without a look at the text. -/
def edit (m : Module) (text : List Char) : Plan → Option (Except String (Option Edit))
  | .addImport source name => (addImport m text source name).map .ok
  | .injectComment anchor note =>
    match Edit.anchorSpan? m anchor with
    | none => some (.error anchor.text)
    | some span => (injectComment text span.start note).map .ok
  | plan => some (plan.edit? m text)

/-- The text after one plan. -/
def applyTo (path : Path) (text : String) (plan : Plan) : Option (Except ApplyError String) :=
  match Module.parse text path "" with
  | .error _ => some (.error (.brokenOutput path plan.target))
  | .ok m => do
    match ← edit m text.toList plan with
    | .error target => some (.error (.targetMissing path target))
    | .ok none => some (.ok text)
    | .ok (some e) =>
      let edited := String.ofList (← apply e text.toList)
      some (if Syntax.isValid edited then .ok edited else .error (.brokenOutput path plan.target))

/-- The text after the plans one by one, up to the first that fails. -/
def applyEach (path : Path) (text : String) : List Plan → Option (Except ApplyError String)
  | [] => some (.ok text)
  | plan :: plans => do
    match ← applyTo path text plan with
    | .error e => some (.error e)
    | .ok edited => applyEach path edited plans

/-- The text after all plans. -/
def applyAll (path : Path) (source : String) (plans : List Plan) :
    Option (Except ApplyError String) :=
  if Syntax.isValid source then applyEach path source plans else some (.error (.unparsable path))

/-! ### Cuts that there are -/

section

variable {text : List Char} {n : Nat}

theorem apply_eq {e : Edit} (h : e.InRange text) : apply e text = some (e.apply text) := by
  obtain ⟨⟨before, rest, htext, hstart⟩, hforward, ⟨front, after, htext', hstop⟩⟩ := h
  have hbefore : (splitAtByte e.start text).1 = before := by
    rw [htext, ← hstart, splitAtByte_byteSize]
  have hafter : dropBytes e.stop text = after := by
    rw [htext', ← hstop, dropBytes_byteSize]
  have hcutStart : cut e.start text = some (before, rest) := by
    rw [htext, ← hstart, cut_byteSize]
  have hcutStop : cut e.stop text = some (front, after) := by
    rw [htext', ← hstop, cut_byteSize]
  unfold apply Edit.apply
  rw [if_pos hforward, hcutStart, hcutStop, hbefore, hafter]
  rfl

theorem lineAfter_eq (h : IsPlace text n) : lineAfter text n = some (Edit.lineAfter? text n) := by
  obtain ⟨before, rest, rfl, rfl⟩ := h
  unfold lineAfter Edit.lineAfter?
  rw [cut_byteSize, dropBytes_byteSize]
  rfl

theorem injectComment_eq (h : IsPlace text n) (note : String) :
    injectComment text n note = some (Edit.injectComment text n note) := by
  obtain ⟨front, rest, rfl, rfl⟩ := h
  have hstart : lineStart front =
      byteSize (Edit.splitAtLine (front ++ rest) (byteSize front)).1 := by
    unfold Edit.splitAtLine
    rw [splitAtByte_byteSize]
    rfl
  have hcut : cut (byteSize (Edit.splitAtLine (front ++ rest) (byteSize front)).1) (front ++ rest) =
      some (Edit.splitAtLine (front ++ rest) (byteSize front)) := by
    have hwhole := (Edit.cutsLine_splitAtLine (front ++ rest) (byteSize front)).whole
    generalize Edit.splitAtLine (front ++ rest) (byteSize front) = p at hwhole
    rw [hwhole, cut_byteSize]
  unfold injectComment Edit.injectComment
  rw [cut_byteSize]
  show (cut (lineStart front) (front ++ rest)).bind _ = _
  rw [hstart, hcut]
  rfl

end

end Checked

/-! ### Edits in range -/

namespace Edit

theorem inRange_insert {text : List Char} {n : Nat} (h : IsPlace text n) (added : String) :
    (insert n added).InRange text := ⟨h, Nat.le_refl n, h⟩

variable {text source name modName qualname parameter : String} {path : Path} {m : Module}
  {f : FunctionDef} {p : Param} {type : ApprovedType} {e : Edit}

theorem isPlace_importAnchor? {a : Stmt} (hm : Module.parse text path modName = .ok m)
    (h : importAnchor? m = some a) : IsPlace text.toList a.span.stop := by
  obtain ⟨before, after, ha⟩ := exists_isAnchor h
  exact (module_precedes hm).2 a (by simp [ha.body]) ha.anchors

theorem inRange_addImport (hm : Module.parse text path modName = .ok m)
    (h : addImport m text.toList source name = some e) : e.InRange text.toList := by
  unfold addImport at h
  dsimp only at h
  split at h
  · exact absurd h (by simp)
  split at h
  · obtain rfl := Option.some.inj h
    exact inRange_insert ⟨[], text.toList, rfl, rfl⟩ _
  · rename_i a hanchor
    have hplace := isPlace_importAnchor? hm hanchor
    split at h
    · rename_i k hk
      obtain rfl := Option.some.inj h
      obtain ⟨front, back, rfl, hcut⟩ := cutsBehind_lineAfter? hplace hk
      exact inRange_insert ⟨front, back, hcut.whole, rfl⟩ _
    · obtain rfl := Option.some.inj h
      exact inRange_insert ⟨text.toList, [], by simp, rfl⟩ _

theorem inRange_addReturnType (hm : Module.parse text path modName = .ok m)
    (hf : m.findFunction? qualname = some f) (h : addReturnType f type = some e) :
    e.InRange text.toList := by
  unfold addReturnType at h
  split at h
  · exact absurd h (by simp)
  · rename_i hreturns
    obtain rfl := Option.some.inj h
    exact inRange_insert (function_endsHead hm hf (by simpa using hreturns)).isPlace _

/-- A default lies behind the name of its parameter, so what is replaced goes forward. -/
theorem inRange_addParameterType (hm : Module.parse text path modName = .ok m)
    (hf : m.findFunction? qualname = some f) (hp : f.param? parameter = some p)
    (h : addParameterType p type = some e) : e.InRange text.toList := by
  have hp : p ∈ f.params := List.mem_of_find?_eq_some hp
  unfold addParameterType at h
  split at h
  · exact absurd h (by simp)
  rename_i hhint
  have hhint : p.hint = none := by simpa using hhint
  split at h
  · rename_i d hdefault
    obtain rfl := Option.some.inj h
    obtain ⟨value, hvalue, rfl, -, hsets, hbehind⟩ := param_default hm hf hp hhint hdefault
    obtain ⟨before, shown, gap, gap', rest, htext, hstart, hstop, -⟩ := hsets
    have hextends := Lower.extends_expr hvalue
    have hname : p.nameSpan.start ≤ p.nameSpan.stop := by
      rw [hstart, hstop, byteSize_append]
      exact Nat.le_add_right _ _
    refine ⟨⟨before, shown ++ gap ++ '=' :: (gap' ++ rest), ?_, hstart.symm⟩, ?_,
      hextends.stretch.start⟩
    · rw [htext]
      simp
    · exact hname.trans (hbehind.trans hextends.start)
  · obtain rfl := Option.some.inj h
    exact inRange_insert (param_lacksType hm hf hp hhint).1 _

/-- The last of the arguments of a call ends where the text can be cut, and so does what stands before
the parenthesis that the call ends with. -/
theorem inRange_freeze {text : List Char} {t : Syntax.Tree} (ht : t.Sound text)
    (h : freeze (Lower.expr text t) = some e) : e.InRange text := by
  have hextends := Lower.extends_expr ht
  have hcall := Lower.callExtends_expr ht
  generalize Lower.expr text t = d at h hextends hcall
  unfold freeze at h
  split at h
  · rename_i func args keywords span
    obtain ⟨hclosed, hargs, hkeywords⟩ := hcall
    split at h
    · exact absurd h (by simp)
    · rename_i key value hfound
      obtain rfl := Option.some.inj h
      have hvalue := hkeywords _ (List.mem_of_find?_eq_some hfound)
      exact ⟨hvalue.stretch.start, hvalue.forward rfl, hvalue.stretch.stop⟩
    · have hstops : ∀ n ∈ (args ++ keywords.map (·.2)).map (·.span.stop), IsPlace text n := by
        intro n hn
        obtain ⟨d, hd, rfl⟩ := List.mem_map.mp hn
        rcases List.mem_append.mp hd with hd | hd
        · exact (hargs d hd).stretch.stop
        · obtain ⟨keyword, hkeyword, rfl⟩ := List.mem_map.mp hd
          exact (hkeywords keyword hkeyword).stretch.stop
      split at h
      · obtain rfl := Option.some.inj h
        exact inRange_insert hclosed.isPlace _
      · rename_i n ns heq
        obtain rfl := Option.some.inj h
        have hlast : ns.foldl max n ∈ n :: ns := List.max?_mem List.max?_cons'
        rw [heq] at hstops
        exact inRange_insert (hstops _ hlast) _
  · obtain rfl := Option.some.inj h
    exact inRange_insert hextends.stretch.stop _

theorem inRange_injectComment {text : List Char} {n : Nat} {note : String}
    (h : injectComment text n note = some e) : e.InRange text := by
  have hwhole := (cutsLine_splitAtLine text n).whole
  unfold injectComment at h
  dsimp only at h
  split at h
  · exact absurd h (by simp)
  · obtain rfl := Option.some.inj h
    exact inRange_insert ⟨_, _, hwhole, rfl⟩ _

/-- What a comment is about starts where the text can be cut. -/
theorem isPlace_anchorSpan? {anchor : Anchor} {span : Span}
    (hm : Module.parse text path modName = .ok m) (h : anchorSpan? m anchor = some span) :
    IsPlace text.toList span.start := by
  cases anchor with
  | symbol qualname =>
      rcases Option.or_eq_some_iff.mp h with hf | ⟨-, hc⟩
      · obtain ⟨f, hfound, rfl⟩ := Option.map_eq_some_iff.mp hf
        exact (isReadFrom_findFunction? hm hfound).1.start
      · obtain ⟨c, hfound, rfl⟩ := Option.map_eq_some_iff.mp hc
        exact (isReadFrom_findClass? hm hfound).1.start
  | module written => exact (isStretch_findImport hm h).start

end Edit

/-! ### Plans -/

namespace Checked

variable {text source name modName : String} {path : Path} {m : Module}

theorem addImport_eq (hm : Module.parse text path modName = .ok m) :
    addImport m text.toList source name = some (Edit.addImport m text.toList source name) := by
  unfold addImport Edit.addImport
  split
  · rfl
  · cases hanchor : Edit.importAnchor? m with
    | none => rfl
    | some a =>
        dsimp only
        rw [lineAfter_eq (Edit.isPlace_importAnchor? hm hanchor)]
        cases Edit.lineAfter? text.toList a.span.stop <;> rfl

/-- The edit of a plan is found with cuts that there are. -/
theorem edit_eq (hm : Module.parse text path modName = .ok m) (plan : Plan) :
    edit m text.toList plan = some (plan.edit? m text.toList) := by
  cases plan with
  | addImport source name => exact congrArg (Option.map Except.ok) (addImport_eq hm)
  | injectComment anchor note =>
      unfold edit Plan.edit?
      dsimp only
      cases hanchor : Edit.anchorSpan? m anchor with
      | none => rfl
      | some span =>
          dsimp only
          rw [injectComment_eq (Edit.isPlace_anchorSpan? hm hanchor)]
          rfl
  | _ => rfl

end Checked

namespace Plan

variable {text source modName : String} {path : Path} {m : Module} {plan : Plan} {e : Edit}

/-- **The edit of a plan replaces a stretch of the text that there is.** -/
theorem inRange_edit? (hm : Module.parse text path modName = .ok m)
    (h : plan.edit? m text.toList = .ok (some e)) : e.InRange text.toList := by
  cases asks_of_edit? h with
  | addImport he => exact Edit.inRange_addImport hm he
  | addReturnType hf he => exact Edit.inRange_addReturnType hm hf he
  | addParameterType hf hp he => exact Edit.inRange_addParameterType hm hf hp he
  | freezeRecord hc hd he =>
      obtain ⟨t, ht, hexpr⟩ := (isReadFrom_findClass? hm hc).2 _ (List.mem_of_find?_eq_some hd)
      rw [hexpr] at he
      exact Edit.inRange_freeze ht he
  | injectComment _ he => exact Edit.inRange_injectComment he

/-- One plan is carried out with cuts that there are. -/
theorem checked_applyTo (path : Path) (text : String) (plan : Plan) :
    Checked.applyTo path text plan = some (plan.applyTo path text) := by
  unfold Checked.applyTo applyTo
  cases hm : Module.parse text path "" with
  | error e => rfl
  | ok m =>
      dsimp only
      rw [Checked.edit_eq hm]
      cases hedit : plan.edit? m text.toList with
      | error target => rfl
      | ok edit =>
          cases edit with
          | none => rfl
          | some e =>
              show (Checked.apply e text.toList).bind _ = _
              rw [Checked.apply_eq (inRange_edit? hm hedit)]
              rfl

theorem checked_applyEach (path : Path) (text : String) (plans : List Plan) :
    Checked.applyEach path text plans = some (plans.foldlM (applyTo path) text) := by
  induction plans generalizing text with
  | nil => rfl
  | cons plan plans ih =>
      unfold Checked.applyEach
      rw [checked_applyTo, List.foldlM_cons]
      cases hplan : plan.applyTo path text with
      | error e => rfl
      | ok edited => exact ih edited

/-- **No plan reaches out of the text.**  Whatever the source and the plans are, every cut that is made
to apply them can be made, and so they have the outcome that they have without a check.  The edit of any
plan in any module replaces a stretch that goes forward and lies in the text, with no character cut
in two, and is found in the same way. -/
theorem plans_in_range (path : Path) (source : String) (plans : List Plan) :
    Checked.applyAll path source plans = some (applyAll path source plans) ∧
    ∀ modName m, Module.parse source path modName = .ok m → ∀ plan : Plan,
      Checked.edit m source.toList plan = some (plan.edit? m source.toList) ∧
      ∀ e, plan.edit? m source.toList = .ok (some e) →
        e.start ≤ e.stop ∧ e.stop ≤ byteSize source.toList ∧
        IsPlace source.toList e.start ∧ IsPlace source.toList e.stop := by
  constructor
  · unfold Checked.applyAll applyAll
    split
    · exact checked_applyEach path source plans
    · rfl
  · intro modName m hm plan
    refine ⟨Checked.edit_eq hm plan, ?_⟩
    intro e he
    have hrange : e.InRange source.toList := inRange_edit? hm he
    exact ⟨hrange.forward, hrange.stop.le, hrange.start, hrange.stop⟩

/-- A module with a character of two bytes. -/
def accented : String := "def f(x='é', y=-1):\n    pass\n"

theorem accented_in_range :
    ∃ m e, Module.parse accented "a.py" "" = .ok m ∧
      (addParameterType "f" "y" ⟨{ name := "int" }⟩).edit? m accented.toList = .ok (some e) ∧
      e.start ≤ e.stop ∧ e.stop ≤ byteSize accented.toList ∧
      IsPlace accented.toList e.start ∧ IsPlace accented.toList e.stop := by
  have hfound : (Module.parse accented "a.py" "").toOption.any (fun m =>
      ((addParameterType "f" "y" ⟨{ name := "int" }⟩).edit? m accented.toList).toOption.any
        (·.isSome)) = true := by
    decide +kernel
  obtain ⟨m, hm, hfound⟩ := (Option.any_eq_true _ _).mp hfound
  obtain ⟨answer, hanswer, hsome⟩ := (Option.any_eq_true _ _).mp hfound
  obtain ⟨e, rfl⟩ := Option.isSome_iff_exists.mp hsome
  have hm := eq_ok_of_toOption hm
  have he := eq_ok_of_toOption hanswer
  obtain ⟨-, hrange⟩ := plans_in_range "a.py" accented []
  exact ⟨m, e, hm, he, (hrange "" m hm _).2 e he⟩

end Plan

end Plumbline
