/-
Where a new import goes.

The line is put in behind the line end that follows the last import, or else a docstring or comments
in front.  So it comes after all imports and after the docstring, and before the definitions that are
followed by no import, because a definition starts a line of its own.  What is put in is read again as
the import that it looks like, unless another statement goes over the place.
-/
import Plumbline.Proofs.Fix.CommentBlock
import Plumbline.Proofs.Fix.Composition
import Plumbline.Proofs.Module.Places
import Plumbline.Proofs.Syntax.WrittenImport

namespace Plumbline

open Syntax (BreaksBetween IsPlace importText)

namespace Edit

/-! ### The end of a line -/

/-- The text is cut behind the line end that follows byte `n`; if none follows, then at its end, and
`sep` is a line end for it. -/
structure CutsBehind (text : List Char) (n : Nat) (front sep back : List Char) : Prop where
  whole : text = front ++ back
  endsLine : Text.EndsLine (front ++ sep)
  added : sep = [] ∨ sep = ['\n'] ∧ back = []
  after : n ≤ byteSize front
  /-- No line end is left over that stands between `n` and the cut. -/
  before : ∀ stop, BreaksBetween text n stop → byteSize front ≤ stop

/-- A line end behind a first part stands in the rest. -/
theorem exists_of_newLine {before rest front after : List Char}
    (h : before ++ rest = front ++ '\n' :: after) (hle : byteSize before ≤ byteSize front) :
    ∃ line, front = before ++ line ∧ rest = line ++ '\n' :: after := by
  rcases List.append_eq_append_iff.mp h with ⟨line, rfl, hrest⟩ | ⟨w, rfl, hrest⟩
  · exact ⟨line, rfl, hrest⟩
  · have hnil : w = [] := by
      by_contra hne
      have := byteSize_pos hne
      rw [byteSize_append] at hle
      omega
    subst hnil
    exact ⟨[], by simp, hrest.symm⟩

/-- The first line end comes before any other. -/
theorem byteSize_le_of_newLine {line back other after : List Char} (hline : '\n' ∉ line)
    (h : line ++ '\n' :: back = other ++ '\n' :: after) : byteSize line ≤ byteSize other := by
  rcases List.append_eq_append_iff.mp h with ⟨w, rfl, -⟩ | ⟨w, rfl, hrest⟩
  · rw [byteSize_append]
    exact Nat.le_add_right _ _
  · cases w with
    | nil => simp
    | cons c w =>
        obtain ⟨rfl, -⟩ := List.cons.inj hrest
        exact absurd (by simp) hline

/-- The text from byte `n` on has a line end, and what is cut off ends with the first. -/
theorem cutsBehind_lineAfter? {text : List Char} {n k : Nat} (hn : IsPlace text n)
    (h : lineAfter? text n = some k) :
    ∃ front back, byteSize front = k ∧ CutsBehind text n front [] back := by
  obtain ⟨before, rest, rfl, rfl⟩ := hn
  unfold lineAfter? at h
  dsimp only at h
  rw [dropBytes_byteSize] at h
  split at h
  · rename_i hmem
    obtain ⟨line, back, rfl, hline⟩ := List.eq_append_cons_of_mem (List.contains_iff_mem.mp hmem)
    have htake : (line ++ '\n' :: back).takeWhile (· != '\n') = line := by
      have hall : ∀ c ∈ line, (c != '\n') = true := by
        intro c hc
        rw [bne_iff_ne]
        rintro rfl
        exact hline hc
      rw [List.takeWhile_append_of_pos hall]
      simp
    have hsize : byteSize (before ++ line ++ ['\n']) = byteSize before + byteSize line + 1 := by
      rw [byteSize_append, byteSize_append]
      rfl
    rw [htake] at h
    refine ⟨before ++ line ++ ['\n'], back, by rw [hsize]; exact Option.some.inj h, by simp, ?_,
      Or.inl rfl, ?_, ?_⟩
    · rw [List.append_nil]
      exact Text.endsLine_append_newLine _
    · rw [hsize, Nat.add_assoc]
      exact Nat.le_add_right _ _
    · rintro stop ⟨front, after, htext, hle, hlt⟩
      obtain ⟨other, rfl, hother⟩ := exists_of_newLine htext hle
      have hfirst := byteSize_le_of_newLine hline hother
      rw [byteSize_append] at hlt
      omega
  · exact absurd h (by simp)

theorem cutsBehind_end {text : List Char} {n : Nat} (hn : IsPlace text n)
    (h : lineAfter? text n = none) : CutsBehind text n text ['\n'] [] := by
  obtain ⟨before, rest, rfl, rfl⟩ := hn
  unfold lineAfter? at h
  dsimp only at h
  rw [dropBytes_byteSize] at h
  have hnone : '\n' ∉ rest := by simpa using h
  refine ⟨by simp, Text.endsLine_append_newLine _, Or.inr ⟨rfl, rfl⟩, ?_, ?_⟩
  · rw [byteSize_append]
    exact Nat.le_add_right _ _
  · rintro stop ⟨front, after, htext, hle, hlt⟩
    obtain ⟨line, -, rfl⟩ := exists_of_newLine htext hle
    exact absurd (by simp) hnone

/-! ### The statement that an import follows -/

/-- Byte `k` lies where a new import of the module may stand. -/
structure ImportPlace (m : Module) (k : Nat) : Prop where
  /-- It comes after every import, those from `__future__` among them. -/
  imports : ∀ s ∈ m.body, isImport s = true → s.span.stop ≤ k
  /-- It comes after the docstring, with or without comments in front.  (Where there are comments in
  front and no imports at all, it goes below the comments.) -/
  docstring : ∀ comments d after, m.body = comments ++ d :: after →
    (∀ c ∈ comments, c.isComment = true) → d.isDocstring = true →
    (comments = [] ∨ ∃ s ∈ m.body, isImport s = true) → d.span.stop ≤ k
  /-- It comes before every definition that no import follows. -/
  definitions : ∀ before d after, m.body = before ++ d :: after → d.definition?.isSome = true →
    (∀ s ∈ after, isImport s = false) → k ≤ d.span.start

/-- What is known of the statement that a new import follows. -/
structure IsAnchor (m : Module) (before : List Stmt) (a : Stmt) (after : List Stmt) : Prop where
  body : m.body = before ++ a :: after
  anchors : a.anchors = true
  last : ∀ s ∈ after, isImport s = false
  /-- If it is no import, then it stands in front or below comments. -/
  none : isImport a = false → (∀ s ∈ m.body, isImport s = false) ∧
    (before = [] ∨ ∀ c ∈ before, c.isComment = true)

/-- The last import. -/
theorem isAnchor_of_find? {m : Module} {a : Stmt} (h : m.body.reverse.find? isImport = some a) :
    ∃ before after, IsAnchor m before a after := by
  obtain ⟨himport, after, before, hbody, hafter⟩ := List.find?_eq_some_iff_append.mp h
  refine ⟨before.reverse, after.reverse, ?_, by simp [Stmt.anchors, himport], fun s hs => ?_,
    fun hnone => absurd himport (by simp [hnone])⟩
  · rw [← List.reverse_reverse m.body, hbody]
    simp
  · simpa using hafter s (List.mem_reverse.mp hs)

/-- Without imports, a docstring in front or the last of the comments in front. -/
theorem isAnchor_of_front {m : Module} {a : Stmt} (hnone : ∀ s ∈ m.body, isImport s = false)
    (h : (match m.body with
      | first :: _ =>
        if first.isDocstring then some first else (m.body.takeWhile (·.isComment)).getLast?
      | [] => none) = some a) : ∃ before after, IsAnchor m before a after := by
  split at h
  · rename_i first rest hbody
    split at h
    · rename_i hdocstring
      obtain rfl := Option.some.inj h
      exact ⟨[], rest, hbody, by simp [Stmt.anchors, hdocstring],
        fun s hs => hnone s (by simp [hbody, hs]), fun _ => ⟨hnone, Or.inl rfl⟩⟩
    · obtain ⟨before, htake⟩ := List.getLast?_eq_some_iff.mp h
      have hwhole : m.body = before ++ a :: m.body.dropWhile (·.isComment) := by
        have happend := List.takeWhile_append_dropWhile (p := (·.isComment)) (l := m.body)
        rw [htake] at happend
        simpa using happend.symm
      have hcomments : ∀ c ∈ before ++ [a], c.isComment = true :=
        fun c hc => List.mem_takeWhile_imp (htake ▸ hc)
      refine ⟨before, _, hwhole, by simp [Stmt.anchors, hcomments a], fun s hs => hnone s ?_,
        fun _ => ⟨hnone, Or.inr fun c hc => hcomments c (by simp [hc])⟩⟩
      rw [hwhole]
      simp [hs]
  · exact absurd h (by simp)

theorem exists_isAnchor {m : Module} {a : Stmt} (h : importAnchor? m = some a) :
    ∃ before after, IsAnchor m before a after := by
  unfold importAnchor? at h
  cases hlast : m.body.reverse.find? isImport with
  | some b =>
      rw [hlast, Option.some_or] at h
      exact isAnchor_of_find? (h ▸ hlast)
  | none =>
      rw [hlast, Option.none_or] at h
      refine isAnchor_of_front (fun s hs => ?_) h
      simpa using List.find?_eq_none.mp hlast s (List.mem_reverse.mpr hs)

/-- Nothing is in front that a new import would follow. -/
theorem importAnchor?_eq_none {m : Module} (h : importAnchor? m = none) :
    (∀ s ∈ m.body, isImport s = false) ∧
      ∀ first rest, m.body = first :: rest → first.isDocstring = false := by
  unfold importAnchor? at h
  obtain ⟨hlast, hfront⟩ := Option.or_eq_none_iff.mp h
  refine ⟨fun s hs => ?_, fun first rest hbody => ?_⟩
  · simpa using List.find?_eq_none.mp hlast s (List.mem_reverse.mpr hs)
  · rw [hbody] at hfront
    dsimp only at hfront
    split at hfront
    · exact absurd hfront (by simp)
    · rename_i hdocstring
      simpa using hdocstring

/-- Two places in a list are the same, or one comes before the other. -/
theorem split_cases {α : Type} {x y b c : List α} {a d : α} (h : x ++ a :: y = b ++ d :: c) :
    (a ∈ b ∧ d ∈ y) ∨ (x = b ∧ a = d ∧ y = c) ∨ (d ∈ x ∧ a ∈ c) := by
  rcases List.append_eq_append_iff.mp h with ⟨w, rfl, hrest⟩ | ⟨w, rfl, hrest⟩
  · cases w with
    | nil =>
        obtain ⟨rfl, rfl⟩ := List.cons.inj hrest
        exact Or.inr (Or.inl ⟨by simp, rfl, rfl⟩)
    | cons e w =>
        obtain ⟨rfl, rfl⟩ := List.cons.inj hrest
        exact Or.inl ⟨by simp, by simp⟩
  · cases w with
    | nil =>
        obtain ⟨rfl, rfl⟩ := List.cons.inj hrest
        exact Or.inr (Or.inl ⟨by simp, rfl, rfl⟩)
    | cons e w =>
        obtain ⟨rfl, rfl⟩ := List.cons.inj hrest
        exact Or.inr (Or.inr ⟨by simp, by simp⟩)

/-- A comment is nothing else. -/
theorem isComment_only {s : Stmt} (h : s.isComment = true) :
    isImport s = false ∧ s.isDocstring = false ∧ s.definition? = none := by
  cases s <;> first | exact ⟨rfl, rfl, rfl⟩ | exact absurd h (by simp [Stmt.isComment])

theorem definition?_of_anchors {s : Stmt} (h : s.anchors = true) : s.definition? = none := by
  cases s <;> first | rfl |
    exact absurd h (by simp [Stmt.anchors, isImport, Stmt.isComment, Stmt.isDocstring])

/-- **Behind the line end that follows the anchor, a new import may stand.** -/
theorem IsAnchor.importPlace {m : Module} {a : Stmt} {text front sep back : List Char}
    {before after : List Stmt} (h : IsAnchor m before a after)
    (horder : m.body.Pairwise (Precedes text))
    (hcut : CutsBehind text a.span.stop front sep back) : ImportPlace m (byteSize front) := by
  rw [h.body] at horder
  obtain ⟨-, hafter, hbefore⟩ := List.pairwise_append.mp horder
  have hfirst : ∀ s ∈ before, Precedes text s a := fun s hs => hbefore s hs a (by simp)
  have hnext : ∀ s ∈ after, Precedes text a s := (List.pairwise_cons.mp hafter).1
  refine ⟨?_, ?_, ?_⟩
  · intro s hs himport
    cases ha : isImport a with
    | false => exact absurd himport (by simp [(h.none ha).1 s hs])
    | true =>
        rw [h.body] at hs
        rcases List.mem_append.mp hs with hs | hs
        · have hs' : s.anchors = true := by simp [Stmt.anchors, himport]
          exact ((hfirst s hs).before hs' ha).trans hcut.after
        · rcases List.mem_cons.mp hs with rfl | hs
          · exact hcut.after
          · exact absurd himport (by simp [h.last s hs])
  · intro comments d rest hbody hcomments hdocstring hone
    have hd : d.anchors = true := by simp [Stmt.anchors, hdocstring]
    rcases split_cases (h.body.symm.trans hbody) with ⟨ha, -⟩ | ⟨-, rfl, -⟩ | ⟨hmem, -⟩
    · obtain ⟨hnone, -⟩ := isComment_only (hcomments a ha)
      rcases hone with rfl | ⟨s, hs, himport⟩
      · exact absurd ha List.not_mem_nil
      · exact absurd himport (by simp [(h.none hnone).1 s hs])
    · exact hcut.after
    · cases ha : isImport a with
      | true => exact ((hfirst d hmem).before hd ha).trans hcut.after
      | false =>
          obtain ⟨-, rfl | hall⟩ := h.none ha
          · exact absurd hmem List.not_mem_nil
          · exact absurd hdocstring (by simp [isComment_only (hall d hmem)])
  · intro b d rest hbody hdefinition hrest
    rcases split_cases (h.body.symm.trans hbody) with ⟨-, hmem⟩ | ⟨-, rfl, -⟩ | ⟨hmem, ha⟩
    · exact hcut.before _ ((hnext d hmem).apart h.anchors hdefinition)
    · exact absurd hdefinition (by simp [definition?_of_anchors h.anchors])
    · obtain ⟨-, rfl | hall⟩ := h.none (hrest a ha)
      · exact absurd hmem List.not_mem_nil
      · exact absurd hdefinition (by simp [isComment_only (hall d hmem)])

/-! ### The line -/

theorem importLine_eq (source name : String) :
    ("from " ++ source ++ " import " ++ name ++ "\n").toList =
      importText source.toList name.toList ++ ['\n'] := by
  simp only [String.toList_append]
  rfl

/-- What adding an import does to the text of a module. -/
structure AddsImport (m : Module) (text : List Char) (source name : String)
    (front sep back : List Char) (e : Edit) : Prop where
  whole : text = front ++ back
  endsLine : Text.EndsLine (front ++ sep)
  added : sep = [] ∨ sep = ['\n'] ∧ back = []
  place : ImportPlace m (byteSize front)
  edited : e.apply text =
    front ++ sep ++ (importText source.toList name.toList ++ '\n' :: back)

variable {path : Path} {source name text modName : String} {m : Module} {e : Edit}

theorem addsImport_insert {front sep back : List Char} (hwhole : text.toList = front ++ back)
    (hends : Text.EndsLine (front ++ sep)) (hadded : sep = [] ∨ sep = ['\n'] ∧ back = [])
    (hplace : ImportPlace m (byteSize front)) {added : String}
    (hline : added.toList = sep ++ ("from " ++ source ++ " import " ++ name ++ "\n").toList) :
    AddsImport m text.toList source name front sep back (insert (byteSize front) added) := by
  refine ⟨hwhole, hends, hadded, hplace, ?_⟩
  rw [hwhole, apply_insert, hline, importLine_eq]
  simp

/-- **A new import is a line of its own at a place where it may stand.** -/
theorem exists_addsImport (hm : Module.parse text path modName = .ok m)
    (h : addImport m text.toList source name = some e) :
    ∃ front sep back, AddsImport m text.toList source name front sep back e := by
  obtain ⟨horder, hplaces⟩ := module_precedes hm
  unfold addImport at h
  dsimp only at h
  split at h
  · exact absurd h (by simp)
  split at h
  · rename_i hanchor
    obtain rfl := Option.some.inj h
    obtain ⟨hnone, hfront⟩ := importAnchor?_eq_none hanchor
    have hadds : ImportPlace m (byteSize []) → AddsImport m text.toList source name [] [] text.toList _ :=
      fun hplace => addsImport_insert rfl (Or.inl rfl) (Or.inl rfl) hplace rfl
    refine ⟨[], [], text.toList, hadds ?_⟩
    refine ⟨fun s hs himport => ?_, fun comments d rest hbody _ hdocstring hone => ?_,
      fun _ _ _ _ _ _ => Nat.zero_le _⟩
    · exact absurd himport (by simp [hnone s hs])
    · rcases hone with rfl | ⟨s, hs, himport⟩
      · exact absurd hdocstring (by simp [hfront d rest hbody])
      · exact absurd himport (by simp [hnone s hs])
  · rename_i a hanchor
    obtain ⟨before, after, ha⟩ := exists_isAnchor hanchor
    have hplace : IsPlace text.toList a.span.stop := hplaces a (by simp [ha.body]) ha.anchors
    split at h
    · rename_i k hk
      obtain rfl := Option.some.inj h
      obtain ⟨front, back, rfl, hcut⟩ := cutsBehind_lineAfter? hplace hk
      exact ⟨front, [], back, addsImport_insert hcut.whole hcut.endsLine hcut.added
        (ha.importPlace horder hcut) rfl⟩
    · rename_i hend
      obtain rfl := Option.some.inj h
      have hcut := cutsBehind_end hplace hend
      exact ⟨text.toList, ['\n'], [], addsImport_insert hcut.whole hcut.endsLine hcut.added
        (ha.importPlace horder hcut) (String.toList_append ..)⟩

end Edit

namespace Plan

open Edit Syntax

variable {path : Path} {source out M n : String}

theorem importLine_of_endsLine {text front back : List Char} {M n : List Char}
    (hM : IsDottedName M) (hn : IsName n) (htext : text = front ++ (importText M n ++ '\n' :: back))
    (hends : Text.EndsLine front) : ImportLine text M n back (byteSize front) := by
  refine ⟨hM, hn, ⟨front, htext, rfl, hends⟩, ?_⟩
  rw [importText_eq]
  exact ⟨'f', _, List.cons_append .., by decide, by decide, by decide, by decide⟩

/-- What is written as an import of one name is such an import of the module, if no statement takes
the line in. -/
theorem import_read (path : Path) {text : String} {tree : Tree} {back : List Char} {at_ : Nat}
    (hline : ImportLine text.toList M.toList n.toList back at_) (htree : Syntax.parse text = .ok tree) :
    (∃ before i after, (Module.ofTree path "" text tree).body = before ++ .importing i :: after ∧
      i = importOf M.toList n.toList i.span ∧ i.span.start = at_ ∧
      i.span.stop = at_ + byteSize (importText M.toList n.toList)) ∨
    ∃ t ∈ tree.children, TakesIn M.toList n.toList at_ t := by
  obtain ⟨t, ht, hwritten | htaken⟩ := importLine_parse hline htree
  · left
    obtain ⟨pre, post, hchildren⟩ := List.append_of_mem ht
    refine ⟨pre.filterMap (Lower.stmt? text.toList [] false), importOf M.toList n.toList t.span,
      post.filterMap (Lower.stmt? text.toList [] false), ?_, rfl, hwritten.start, hwritten.stop⟩
    show Lower.stmts text.toList [] false tree.children = _
    rw [hchildren, Lower.stmts_eq, List.filterMap_append,
      List.filterMap_cons_some (Lower.stmt?_of_simple? hwritten.lowered)]
  · exact Or.inr ⟨t, ht, htaken⟩

/-- **Where an added import goes.**  If a plan for an import changes a file, it puts in the line of the
import, and a line end in front where the text had none, and nothing else is different.  The line
stands below every import and, if the module starts with its docstring or has imports, below the
docstring, and it stands above every definition that no import follows.  If module and name are names,
the module that is read from the new text has the import as a statement just there, unless a statement
that starts before the line or ends behind it takes the line in. -/
theorem import_placed (h : applyAll path source [.addImport M n] = .ok out) (hnew : out ≠ source) :
    ∃ m m' tree front sep back,
      Module.parse source path "" = .ok m ∧ Module.parse out path "" = .ok m' ∧
      Syntax.parse out = .ok tree ∧
      source.toList = front ++ back ∧
      out.toList = front ++ sep ++ (importText M.toList n.toList ++ '\n' :: back) ∧
      (sep = [] ∨ sep = ['\n'] ∧ back = []) ∧
      ImportPlace m (byteSize front) ∧
      (IsDottedName M.toList → IsName n.toList →
        (∃ before i after, m'.body = before ++ .importing i :: after ∧
          i = importOf M.toList n.toList i.span ∧ i.span.start = byteSize (front ++ sep) ∧
          i.span.stop = byteSize (front ++ sep) + byteSize (importText M.toList n.toList)) ∨
        ∃ t ∈ tree.children, TakesIn M.toList n.toList (byteSize (front ++ sep)) t) := by
  obtain ⟨m, hm, ⟨-, hsame⟩ | ⟨e, hedit, hout, hvalid⟩⟩ := applyTo_eq_ok (applyTo_of_applyAll h)
  · exact absurd hsame hnew
  obtain ⟨front, sep, back, hadds⟩ := exists_addsImport hm (Except.ok.inj hedit)
  obtain ⟨tree, htree⟩ := Syntax.exists_parse hvalid
  have hm' := Module.parse_of_tree htree path ""
  have hout' := hout.trans hadds.edited
  refine ⟨m, _, tree, front, sep, back, hm, hm', htree, hadds.whole, hout', hadds.added,
    hadds.place, ?_⟩
  intro hM hn
  exact import_read path (importLine_of_endsLine hM hn hout' hadds.endsLine) htree

/-- A module with a docstring, an import from `__future__` and a class. -/
def documented : String := "\"\"\"d\"\"\"\nfrom __future__ import x\n\n\nclass A:\n    pass\n"

/-- Behind the import from `__future__` and before the class. -/
theorem import_placed_before_class :
    IsDottedName "os".toList ∧ IsName "path".toList ∧
    ∃ out m m' tree front sep,
      applyAll "a.py" documented [.addImport "os" "path"] = .ok out ∧ out ≠ documented ∧
      Module.parse documented "a.py" "" = .ok m ∧ Module.parse out "a.py" "" = .ok m' ∧
      Syntax.parse out = .ok tree ∧ ImportPlace m (byteSize front) ∧
      ((∃ before i after, m'.body = before ++ .importing i :: after ∧
          i = importOf "os".toList "path".toList i.span ∧
          i.span.start = byteSize (front ++ sep)) ∨
        ∃ t ∈ tree.children, TakesIn "os".toList "path".toList (byteSize (front ++ sep)) t) := by
  have hos : IsName "os".toList :=
    ⟨⟨'o', ['s'], rfl, by decide +kernel, by decide, by decide, by decide, by decide⟩,
      List.all_iff_forall_prop.mp (by decide +kernel)⟩
  have hpath : IsName "path".toList :=
    ⟨⟨'p', ['a', 't', 'h'], rfl, by decide +kernel, by decide, by decide, by decide, by decide⟩,
      List.all_iff_forall_prop.mp (by decide +kernel)⟩
  have hdotted : IsDottedName "os".toList := ⟨_, [], by simp [dotted], hos, by simp⟩
  obtain ⟨out, happly, hnew⟩ : ∃ out,
      applyAll "a.py" documented [.addImport "os" "path"] = .ok out ∧ out ≠ documented := by
    refine ⟨"\"\"\"d\"\"\"\nfrom __future__ import x\nfrom os import path\n\n\nclass A:\n    pass\n",
      eq_ok_of_toOption (by decide +kernel), by decide⟩
  obtain ⟨m, m', tree, front, sep, -, hm, hm', htree, -, -, -, hplace, hread⟩ :=
    import_placed happly hnew
  refine ⟨hdotted, hpath, out, m, m', tree, front, sep, happly, hnew, hm, hm', htree, hplace, ?_⟩
  refine (hread hdotted hpath).imp_left ?_
  rintro ⟨before, i, after, hbody, hi, hstart, -⟩
  exact ⟨before, i, after, hbody, hi, hstart⟩

/-- A module that imports below a definition. -/
def lateImport : String := "import sys\n\n\ndef f():\n    pass\n\n\nimport os\n"

/-- Is this a plain import, a definition, a plain import and an import from `os`? -/
def isLateImport : List Stmt → Bool
  | [.importing sys, f, .importing os, .importing i] =>
    sys.fromModule.isNone && f.definition?.isSome && os.fromModule.isNone &&
      i.fromModule == some "os"
  | _ => false

/-- A new import goes below the last one, and so behind a definition that stands above that. -/
theorem import_behind_definition :
    applyAll "a.py" lateImport [.addImport "os" "path"] =
      .ok (lateImport ++ "from os import path\n") ∧
    ∃ m sys f os i, Module.parse (lateImport ++ "from os import path\n") "a.py" "" = .ok m ∧
      m.body = [.importing sys, f, .importing os, .importing i] ∧
      sys.fromModule = none ∧ f.definition?.isSome = true ∧ os.fromModule = none ∧
      i.fromModule = some "os" := by
  refine ⟨eq_ok_of_toOption (by decide +kernel), ?_⟩
  have hbody : (Module.parse (lateImport ++ "from os import path\n") "a.py" "").toOption.any
      (fun m => isLateImport m.body) = true := by decide +kernel
  obtain ⟨m, hm, hbody⟩ := (Option.any_eq_true _ _).mp hbody
  have hm := eq_ok_of_toOption hm
  unfold isLateImport at hbody
  split at hbody
  · rename_i sys f os i hlist
    simp only [Bool.and_eq_true, Option.isNone_iff_eq_none, beq_iff_eq] at hbody
    obtain ⟨⟨⟨hsys, hf⟩, hos⟩, hi⟩ := hbody
    exact ⟨m, sys, f, os, i, hm, hlist, hsys, hf, hos, hi⟩
  · exact absurd hbody (by simp)

end Plan

end Plumbline
