/-
What the plans write, and where it stands in the end.

Each kind of plan puts a word of its own into the text, which is the same whatever the text is
(`standsAt_place`).  An edit that neither touches the word nor what is inside of it leaves it where it
is, or moves it by what is put in above it (`StandsAt.carry`), and so do all the plans that follow in
a list (`standsAt_carried`).
-/
import Mathlib.Data.List.Infix
import Plumbline.Proofs.Fix.InRange

namespace Plumbline

open Syntax (IsPlace StandsAt)

/-- Of two ways to divide a text, the one that divides it later has more in its first part. -/
theorem exists_of_byteSize_le {a b c d : List Char} (h : a ++ b = c ++ d)
    (hle : byteSize a ≤ byteSize c) : ∃ between, c = a ++ between ∧ b = between ++ d := by
  rcases List.append_eq_append_iff.mp h with ⟨w, hc, hb⟩ | ⟨w, rfl, hd⟩
  · exact ⟨w, hc, hb⟩
  · have hnil : w = [] := by
      by_contra hne
      have hpos := byteSize_pos hne
      rw [byteSize_append] at hle
      omega
    subst hnil
    exact ⟨[], by simp, by simpa using hd.symm⟩

/-! ### What an edit leaves as it is -/

/-- Where a stretch of `size` bytes at byte `n` stands after the edit, if the edit leaves it as it
is. -/
def Edit.carry? (e : Edit) (size n : Nat) : Option Nat :=
  if e.stop ≤ n then some (e.start + byteSize e.replacement.toList + (n - e.stop))
  else if n + size ≤ e.start then some n
  else none

/-- **An edit elsewhere moves a word or leaves it where it is.** -/
theorem Syntax.StandsAt.carry {text word : List Char} {n n' : Nat} {e : Edit}
    (h : StandsAt text n word) (he : e.InRange text) (hn : e.carry? (byteSize word) n = some n') :
    StandsAt (e.apply text) n' word := by
  obtain ⟨before, after, htext, rfl⟩ := h
  obtain ⟨⟨front, rest, hfront, hstart⟩, -, ⟨whole, back, hwhole, hstop⟩⟩ := he
  have happly : e.apply text = front ++ e.replacement.toList ++ back := by
    unfold Edit.apply
    rw [dropBytes_eq_splitAtByte_snd, ← hstop, hwhole, splitAtByte_byteSize, ← hwhole, ← hstart,
      hfront, splitAtByte_byteSize]
  rw [happly]
  unfold Edit.carry? at hn
  split at hn
  · rename_i hle
    obtain ⟨between, hbefore, hback⟩ :=
      exists_of_byteSize_le (hwhole.symm.trans htext) (hstop.trans_le hle)
    refine ⟨front ++ e.replacement.toList ++ between, after, by simp [hback], ?_⟩
    rw [← Option.some.inj hn, hbefore, ← hstart, ← hstop]
    simp only [byteSize_append]
    omega
  · split at hn
    · rename_i hle
      obtain ⟨between, hbetween, -⟩ := exists_of_byteSize_le (a := before ++ word) (c := front)
        (by rw [List.append_assoc, ← htext, hfront]) (by rw [byteSize_append, hstart]; exact hle)
      exact ⟨before, between ++ e.replacement.toList ++ back, by simp [hbetween], Option.some.inj hn⟩
    · exact absurd hn (by simp)

theorem Module.isValid_of_parse {path : Path} {text name : String} {m : Module}
    (h : Module.parse text path name = .ok m) : Syntax.isValid text = true := by
  unfold Module.parse at h
  unfold Syntax.isValid
  cases hparse : Syntax.parse text with
  | ok tree => rfl
  | error line =>
      rw [hparse] at h
      exact nomatch h

namespace Plan

variable {path : Path} {text out : String} {m : Module} {plan : Plan} {e : Edit}

/-! ### The word of a plan -/

/-- What the plan puts into a text. -/
def word : Plan → String
  | addImport source name => "from " ++ source ++ " import " ++ name ++ "\n"
  | addReturnType _ type => " -> " ++ type.hint
  | addParameterType _ _ type => ": " ++ type.hint
  | freezeRecord _ => "True"
  | injectComment _ note => Edit.commentOf note ++ "\n"

/-- Where the word of the plan stands after the edit, which has it once. -/
def place (plan : Plan) (e : Edit) : Nat :=
  let added := e.replacement.toList
  e.start + byteSize (added.take (added.tails.findIdx plan.word.toList.isPrefixOf))

/-- An edit that has the word puts it at its place. -/
theorem standsAt_of_infix {text : List Char} (he : e.InRange text)
    (h : plan.word.toList <:+: e.replacement.toList) :
    StandsAt (e.apply text) (plan.place e) plan.word.toList := by
  obtain ⟨before, after, hadded⟩ := h
  let i := e.replacement.toList.tails.findIdx plan.word.toList.isPrefixOf
  have hi : i < e.replacement.toList.tails.length := by
    refine List.findIdx_lt_length_of_exists ⟨plan.word.toList ++ after, ?_, ?_⟩
    · rw [List.mem_tails, ← hadded, List.append_assoc]
      exact List.suffix_append _ _
    · exact List.isPrefixOf_iff_prefix.mpr (List.prefix_append _ _)
  have hprefix : plan.word.toList <+: e.replacement.toList.drop i := by
    have hfound : plan.word.toList.isPrefixOf (e.replacement.toList.tails[i]) = true :=
      List.findIdx_getElem
    rw [List.getElem_tails] at hfound
    exact List.isPrefixOf_iff_prefix.mp hfound
  obtain ⟨more, hmore⟩ := hprefix
  obtain ⟨front, rest, hfront, hstart⟩ := he.start
  refine ⟨front ++ e.replacement.toList.take i, more ++ dropBytes e.stop text, ?_, ?_⟩
  · have hcut : (splitAtByte e.start text).1 = front := by
      rw [hfront, ← hstart, splitAtByte_byteSize]
    unfold Edit.apply
    rw [hcut, List.append_assoc, List.append_assoc, ← List.append_assoc plan.word.toList, hmore,
      ← List.append_assoc (e.replacement.toList.take i), List.take_append_drop]
  · rw [byteSize_append, hstart]
    rfl

/-! Each kind of edit has the word of its plans in it. -/

theorem infix_addImport {text : List Char} {source name : String}
    (h : Edit.addImport m text source name = some e) :
    (addImport source name).word.toList <:+: e.replacement.toList := by
  unfold Edit.addImport at h
  dsimp only at h
  split at h
  · exact absurd h (by simp)
  split at h
  · obtain rfl := Option.some.inj h
    exact List.infix_rfl
  · split at h
    · obtain rfl := Option.some.inj h
      exact List.infix_rfl
    · obtain rfl := Option.some.inj h
      exact ⟨['\n'], [], by simp [word, Edit.insert]⟩

theorem infix_addReturnType {function : String} {type : ApprovedType} {f : FunctionDef}
    (h : Edit.addReturnType f type = some e) :
    (addReturnType function type).word.toList <:+: e.replacement.toList := by
  unfold Edit.addReturnType at h
  split at h
  · exact absurd h (by simp)
  · obtain rfl := Option.some.inj h
    exact List.infix_rfl

theorem infix_addParameterType {function parameter : String} {type : ApprovedType} {p : Param}
    (h : Edit.addParameterType p type = some e) :
    (addParameterType function parameter type).word.toList <:+: e.replacement.toList := by
  unfold Edit.addParameterType at h
  split at h
  · exact absurd h (by simp)
  split at h
  · obtain rfl := Option.some.inj h
    exact ⟨p.name.toList, " = ".toList, by simp [word]⟩
  · obtain rfl := Option.some.inj h
    exact List.infix_rfl

theorem infix_freeze {className : String} {d : Expr} (h : Edit.freeze d = some e) :
    (freezeRecord className).word.toList <:+: e.replacement.toList := by
  unfold Edit.freeze at h
  split at h
  · split at h
    · exact absurd h (by simp)
    · obtain rfl := Option.some.inj h
      exact List.infix_rfl
    · split at h
      · obtain rfl := Option.some.inj h
        exact ⟨"frozen=".toList, [], by simp [word, Edit.insert]⟩
      · obtain rfl := Option.some.inj h
        exact ⟨", frozen=".toList, [], by simp [word, Edit.insert]⟩
  · obtain rfl := Option.some.inj h
    exact ⟨"(frozen=".toList, [')'], by simp [word, Edit.insert]⟩

theorem infix_injectComment {text : List Char} {n : Nat} {anchor : Anchor} {note : String}
    (h : Edit.injectComment text n note = some e) :
    (injectComment anchor note).word.toList <:+: e.replacement.toList := by
  unfold Edit.injectComment at h
  dsimp only at h
  split at h
  · exact absurd h (by simp)
  · obtain rfl := Option.some.inj h
    exact ⟨_, [], by simp [word, Edit.commentOf, Edit.insert]; rfl⟩

/-- **Every edit of a plan has the word of the plan in it.** -/
theorem word_infix_edit {text : List Char} (h : plan.edit? m text = .ok (some e)) :
    plan.word.toList <:+: e.replacement.toList := by
  cases asks_of_edit? h with
  | addImport he => exact infix_addImport he
  | addReturnType _ he => exact infix_addReturnType he
  | addParameterType _ _ he => exact infix_addParameterType he
  | freezeRecord _ _ he => exact infix_freeze he
  | injectComment _ he => exact infix_injectComment he

/-- **What a plan writes stands in the text after its edit.** -/
theorem standsAt_place (hm : Module.parse text path "" = .ok m)
    (h : plan.edit? m text.toList = .ok (some e)) :
    StandsAt (e.apply text.toList) (plan.place e) plan.word.toList :=
  standsAt_of_infix (inRange_edit? hm h) (word_infix_edit h)

/-! ### The plans that follow -/

/-- The edit that the plan makes in a text. -/
def editIn? (path : Path) (text : String) (plan : Plan) : Option Edit :=
  (Module.parse text path "").toOption.bind fun m => (plan.edit? m text.toList).toOption.join

/-- The text after the edit of the plan. -/
def textAfter (path : Path) (text : String) (plan : Plan) : String :=
  ((plan.editIn? path text).map fun e => String.ofList (e.apply text.toList)).getD text

/-- Where a stretch of `size` bytes at byte `n` of a text stands after the plans, if all of them leave
it as it is. -/
def carried? (path : Path) (size : Nat) : List Plan → String → Nat → Option Nat
  | [], _, n => some n
  | plan :: plans, text, n =>
    ((plan.editIn? path text).elim (some n) fun e => e.carry? size n).bind
      (carried? path size plans (plan.textAfter path text))

/-- What a plan does to a text is its edit. -/
theorem applyTo_eq_textAfter (h : plan.applyTo path text = .ok out) :
    out = plan.textAfter path text ∧ ∀ e, plan.editIn? path text = some e → e.InRange text.toList := by
  obtain ⟨m, hm, ⟨hnone, rfl⟩ | ⟨e, hedit, hout, -⟩⟩ := applyTo_eq_ok h
  · have hin : plan.editIn? path out = none := by simp [editIn?, hm, hnone, Except.toOption]
    rw [textAfter, hin]
    exact ⟨rfl, by simp⟩
  · have hin : plan.editIn? path text = some e := by simp [editIn?, hm, hedit, Except.toOption]
    rw [textAfter, hin]
    refine ⟨?_, fun e' he' => Option.some.inj he' ▸ inRange_edit? hm hedit⟩
    exact String.toList_inj.mp (by simpa using hout)

theorem isValid_of_editIn? (h : plan.editIn? path text = some e) : Syntax.isValid text = true := by
  obtain ⟨m, hm, -⟩ := Option.bind_eq_some_iff.mp h
  exact Module.isValid_of_parse (eq_ok_of_toOption hm)

/-- The edit is what the plan does, if a module is left. -/
theorem applyTo_of_editIn? (h : plan.editIn? path text = some e)
    (hout : String.ofList (e.apply text.toList) = out) (hvalid : Syntax.isValid out = true) :
    plan.applyTo path text = .ok out := by
  obtain ⟨m, hm, hin⟩ := Option.bind_eq_some_iff.mp h
  unfold applyTo
  rw [eq_ok_of_toOption hm]
  dsimp only
  rw [eq_ok_of_toOption (Option.join_eq_some_iff.mp hin)]
  dsimp only
  rw [hout, if_pos hvalid]

/-- One plan leaves a word as it is, or moves it. -/
theorem standsAt_textAfter {word : List Char} {n n' : Nat} (h : plan.applyTo path text = .ok out)
    (hword : StandsAt text.toList n word)
    (hn : (plan.editIn? path text).elim (some n) (fun e => e.carry? (byteSize word) n) = some n') :
    StandsAt out.toList n' word := by
  obtain ⟨rfl, hrange⟩ := applyTo_eq_textAfter h
  unfold textAfter
  cases he : plan.editIn? path text with
  | none =>
      rw [he] at hn
      exact Option.some.inj hn ▸ hword
  | some e =>
      rw [he] at hn
      rw [Option.map_some, Option.getD_some, String.toList_ofList]
      exact hword.carry (hrange e he) hn

/-- **What stands in a text stands there after the plans that leave it as it is.** -/
theorem standsAt_carried {plans : List Plan} {word : List Char} {n n' : Nat}
    (h : plans.foldlM (applyTo path) text = .ok out) (hword : StandsAt text.toList n word)
    (hn : carried? path (byteSize word) plans text n = some n') : StandsAt out.toList n' word := by
  induction plans generalizing text n with
  | nil =>
      obtain rfl : text = out := Except.ok.inj h
      obtain rfl : n = n' := Option.some.inj hn
      exact hword
  | cons plan plans ih =>
      rw [List.foldlM_cons] at h
      cases hplan : plan.applyTo path text with
      | error error =>
          rw [hplan] at h
          exact nomatch h
      | ok next =>
          rw [hplan] at h
          obtain ⟨between, hbetween, hrest⟩ := Option.bind_eq_some_iff.mp hn
          rw [← (applyTo_eq_textAfter hplan).1] at hrest
          exact ih h (standsAt_textAfter hplan hword hbetween) hrest

end Plan

end Plumbline
