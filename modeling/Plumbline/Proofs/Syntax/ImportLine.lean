/-
Reading `from M import n`.

Where such a line is known to stand, each of its words is the token ahead when the one before has
been taken.  Behind the last of them the line ends, and the statement ends there as well, unless a
joined line takes it on over the line end (`fromStatement_reads`).
-/
import Plumbline.Module.Lower
import Plumbline.Proofs.Syntax.Statement

namespace Plumbline.Syntax

open Plumbline.Syntax.Parser

variable {text : List Char} {s s' : State}

/-! ### Taking known words -/

theorem Token.isWritten_of_isMark {t : Token} {word : String} (h : t.isMark word = true) :
    t.isWritten = true := by
  cases t <;> first | rfl | exact absurd h (by simp [isMark])

theorem Token.isWritten_of_isIdentifier {t : Token} (h : t.isIdentifier = true) :
    t.isWritten = true := by
  cases t <;> first | rfl | exact absurd h (by simp [isIdentifier])

theorem State.Behind.clean {rest : List Char} (h : s.Behind text rest) :
    State.Behind text { s with extras := [] } rest :=
  ⟨(stays_extras s h.fits _ _ rfl).1, h.cursor⟩

/-- Behind a line end, what is written next stands on a later line. -/
theorem State.Behind.past_lineEnd {rest : List Char} (h : s.Behind text ('\n' :: rest))
    (hwritten : s.token.isWritten = true) : s.last.byte + 1 ≤ s.ahead.start.byte := by
  obtain ⟨c, hc, hpos, hrest⟩ := h.cursor
  have hbreaks : BreaksLine c.rest := ⟨[], c.rest, rfl, by simp, Or.inr (by rw [hrest]; rfl)⟩
  obtain ⟨before, after, -, hle, hlt⟩ := hbreaks.between hc h.fits.front
    (hpos ▸ h.fits.last_le_start) (h.fits.startsWord hwritten)
  have hstart : s.ahead.front.pos.byte = s.ahead.start.byte := rfl
  omega

theorem mark_behind {word : String} {e : Expect} {cs : List Tree} {rest : List Char}
    (hs : s.Fits text) (h : mark word e s = .done cs s')
    (hfront : s.ahead.front.rest = word.toList ++ rest) : s'.Behind text rest := by
  have hstop : s.ahead.stop.rest = rest := by
    have hspelled := hs.spelled word (mark_eq_done h).1
    exact (List.append_cancel_left (hfront.symm.trans hspelled)).symm
  obtain ⟨_, _, hpeek, h⟩ := bind_eq_done h
  cases hpeek
  rcases ite_eq_done h with ⟨-, h⟩ | ⟨-, h⟩
  · obtain ⟨_, _, hextras, h⟩ := bind_eq_done h
    cases hextras
    obtain ⟨_, _, hshift, h⟩ := bind_eq_done h
    obtain ⟨-, rfl⟩ := pure_eq_done h
    exact ((stays_extras s hs _ _ rfl).1.behind_shift hstop hshift).1
  · exact absurd h (by simp [fail])

/-- A word that is not what is written next cannot be taken. -/
theorem State.Behind.not_isMark {word : String} {rest next : List Char} {c d : Char}
    {more : List Char} (h : s.Behind text rest) (hskips : Skips rest (c :: next)) (hc : Counts c)
    (hword : word.toList = d :: more) (hne : d ≠ c) : s.token.isMark word = false := by
  by_contra hmark
  have hmark : s.token.isMark word = true := by simpa using hmark
  have hfront := h.rest_eq hskips ⟨c, next, rfl, hc⟩ (Token.isWritten_of_isMark hmark)
  rw [h.fits.spelled word hmark, hword] at hfront
  exact hne (List.cons.inj hfront).1

theorem identifier_behind {e : Expect} {t : Tree} {gap w rest : List Char}
    (h : s.Behind text gap) (hgap : Skips gap (w ++ rest)) (hw : IsName w) (hends : EndsName rest)
    (hdone : Grammar.identifier e s = .done t s') :
    s'.Behind text rest ∧ s.ahead.front.rest = w ++ rest := by
  obtain ⟨_, _, hpeek, hdone⟩ := bind_eq_done hdone
  cases hpeek
  rcases ite_eq_done hdone with ⟨hname, hdone⟩ | ⟨-, hdone⟩
  · have hfront := h.rest_eq hgap hw.startsWord (Token.isWritten_of_isIdentifier hname)
    obtain ⟨-, hstop⟩ := h.fits.token_of_isName hw hends hfront
    cases hdone
    exact ⟨(h.fits.behind_shift hstop rfl).1, hfront⟩
  · exact absurd hdone (by simp [fail])

/-! ### Dotted names -/

/-- Names after a first one, each with its dot. -/
def dotted (ps : List (List Char)) : List Char := ps.flatMap ('.' :: ·)

/-- A text that is read as names with dots between them. -/
def IsDottedName (w : List Char) : Prop :=
  ∃ p ps, w = p ++ dotted ps ∧ IsName p ∧ ∀ q ∈ ps, IsName q

theorem endsName_dotted (ps : List (List Char)) {rest : List Char} (h : EndsName rest) :
    EndsName (dotted ps ++ rest) := by
  cases ps with
  | nil => exact h
  | cons p ps =>
      intro c hc
      obtain rfl : '.' = c := by simpa [dotted] using hc
      decide +kernel

theorem counts_dot : Counts '.' := ⟨by decide, by decide, by decide, by decide⟩

/-- As many parts of a dotted name are taken as the reader takes, from the first on. -/
theorem dottedName_behind {e : Expect} {t : Tree} {gap p rest next : List Char} {c : Char}
    {ps : List (List Char)} (h : s.Behind text gap)
    (hgap : Skips gap (p ++ (dotted ps ++ rest))) (hp : IsName p)
    (hps : ∀ q ∈ ps, IsName q) (hends : EndsName rest) (hskips : Skips rest (c :: next))
    (hc : Counts c) (hdot : c ≠ '.') (hdone : Grammar.dottedName e s = .done t s') :
    ∃ qs, (∀ q ∈ qs, IsName q) ∧ s'.Behind text (dotted qs ++ rest) ∧
      s.ahead.front.rest = p ++ (dotted ps ++ rest) ∧ t.kind = .dottedName ∧
      t.span = .between s.ahead.start s'.last := by
  obtain ⟨kind, cs, hparts, rfl⟩ := build_eq_done hdone
  obtain ⟨cs, s', hparts, hrest⟩ := bind_eq_done hparts
  obtain ⟨heq, rfl⟩ := pure_eq_done hrest
  cases heq
  obtain ⟨first, s₁, hfirst, hloop⟩ := bind_eq_done hparts
  obtain ⟨t, hname, rfl⟩ := part_eq_done hfirst
  obtain ⟨hbehind, hfront⟩ := identifier_behind h.clean hgap hp (endsName_dotted ps hends) hname
  refine (loop_eq_done (I := fun _ s => ∃ qs, (∀ q ∈ qs, IsName q) ∧
    s.Behind text (dotted qs ++ rest)) ?_ ⟨ps, hps, hbehind⟩ hloop).imp
      fun qs hqs => ⟨hqs.1, hqs.2, hfront, rfl, rfl⟩
  rintro acc s₂ ⟨qs, hqs, hbehind⟩ o s₃ hstep
  obtain ⟨dot, s₄, hmark, hrest⟩ := bind_eq_done hstep
  rcases mark?_eq_done hmark with ⟨-, rfl, rfl⟩ | ⟨dot, rfl, hdot'⟩
  · obtain ⟨rfl, rfl⟩ := pure_eq_done hrest
    exact ⟨qs, hqs, hbehind⟩
  cases qs with
  | nil =>
      have hnot : s₂.token.isMark "." = false := hbehind.not_isMark hskips hc rfl hdot.symm
      exact absurd (mark_eq_done hdot').1 (by simp [hnot])
  | cons q qs =>
      obtain ⟨hq, hqs⟩ := List.forall_mem_cons.mp hqs
      have hfront := hbehind.rest_eq (.done _) ⟨'.', _, rfl, counts_dot⟩
        (Token.isWritten_of_isMark (mark_eq_done hdot').1)
      have hbehind₄ : s₄.Behind text (q ++ (dotted qs ++ rest)) :=
        mark_behind hbehind.fits hdot' (by rw [hfront]; simp [dotted])
      obtain ⟨ts, s₅, hpart, hpure⟩ := bind_eq_done hrest
      obtain ⟨rfl, rfl⟩ := pure_eq_done hpure
      obtain ⟨t, hname, rfl⟩ := part_eq_done hpart
      exact ⟨qs, hqs,
        (identifier_behind hbehind₄.clean (.done _) hq (endsName_dotted qs hends) hname).1⟩

/-! ### Going on over a line end -/

/-- The reader answers `a` and does nothing, or it takes the token ahead, which is written. -/
def Idles {α : Type} (text : List Char) (a : α) (p : Parser α) : Prop :=
  ∀ s, s.Fits text → ∀ b s', p s = .done b s' → s.Leads text s' ∧
    ((b = a ∧ s' = s) ∨ (s.token.isWritten = true ∧ s.ahead.start.byte ≤ s'.last.byte))

namespace Idles

variable {α β : Type} {a : α} {b : β} {p : Parser α} {f : α → Parser β}

theorem pure : Idles text a (Pure.pure a) := by
  intro s hs b s' h
  obtain ⟨rfl, rfl⟩ := pure_eq_done h
  exact ⟨hs.leads, Or.inl ⟨rfl, rfl⟩⟩

theorem bind (hp : Idles text a p) (hidle : Idles text b (f a))
    (hmore : ∀ a, Keeps text (fun _ => True) (f a)) : Idles text b (p >>= f) := by
  intro s hs c s'' h
  obtain ⟨a', s', hdone, hrest⟩ := bind_eq_done h
  obtain ⟨hleads, ⟨rfl, rfl⟩ | ⟨hwritten, htaken⟩⟩ := hp s hs a' s' hdone
  · exact hidle s' hs c s'' hrest
  · obtain ⟨hleads', -⟩ := hmore a' s' hleads.fits c s'' hrest
    exact ⟨hleads.trans hleads', Or.inr ⟨hwritten, Nat.le_trans htaken hleads'.forward⟩⟩

theorem mark? (word : String) (e : Expect) : Idles text none (Parser.mark? word e) := by
  intro s hs o s' h
  rcases mark?_eq_done h with ⟨-, rfl, rfl⟩ | ⟨cs, rfl, hmark⟩
  · exact ⟨hs.leads, Or.inl ⟨rfl, rfl⟩⟩
  · obtain ⟨hleads, htaken, -⟩ := Takes.mark word e s hs cs s' hmark
    exact ⟨hleads, Or.inr ⟨Token.isWritten_of_isMark (mark_eq_done hmark).1, htaken⟩⟩

/-- What is done only for a word ahead takes it. -/
theorem ofMark (word : String) {q : Parser α} (hp : Takes text (fun _ => True) p)
    (hq : Idles text a q) : Idles text a (peek >>= fun t => if t.isMark word then p else q) := by
  intro s hs b s' h
  obtain ⟨_, _, hpeek, h⟩ := bind_eq_done h
  cases hpeek
  rcases ite_eq_done h with ⟨hword, h⟩ | ⟨-, h⟩
  · obtain ⟨hleads, htaken, -⟩ := hp s hs b s' h
    exact ⟨hleads, Or.inr ⟨Token.isWritten_of_isMark hword, htaken⟩⟩
  · exact hq s hs b s' h

theorem loop {step : α → Parser (Option α)} (hidle : Idles text none (step a))
    (hmore : ∀ a, Keeps text (fun _ => True) (step a)) : Idles text a (Parser.loop step a) := by
  have hkeeps : ∀ fuel a, Keeps text (fun _ => True) (loopFor step fuel a) := by
    intro fuel
    induction fuel with
    | zero => exact fun _ => .pure trivial
    | succ fuel ih =>
        refine fun a => (hmore a).bind fun o _ => ?_
        cases o with
        | none => exact .pure trivial
        | some b => exact ih b
  suffices hfor : ∀ fuel, Idles text a (loopFor step fuel a) from fun s hs => hfor _ s hs
  intro fuel
  cases fuel with
  | zero => exact pure
  | succ fuel =>
      refine bind hidle pure fun o => ?_
      cases o with
      | none => exact .pure trivial
      | some b => exact hkeeps fuel b

theorem keeps_afterComma {item : Parser Tree} (more : Token → Bool)
    (hitem : Keeps text (Tree.Sound text) item) (acc : List Tree) (o : Option (List Tree)) :
    Keeps text (fun _ => True) (match o with
      | none => Pure.pure none
      | some comma => do
        if more (← peek) then Pure.pure (some (acc ++ comma ++ (← Parser.part item), true))
        else Pure.pure (some (acc ++ comma, false))) := by
  cases o with
  | none => exact .pure trivial
  | some comma =>
      exact .after stays_peek fun _ _ => .ite (hitem.part.bind fun _ _ => .pure trivial)
        (.pure trivial)

theorem moreItems {item : Parser Tree} (e : Expect) (more : Token → Bool)
    (hitem : Keeps text (Tree.Sound text) item) : Idles text [] (Parser.moreItems e more item) := by
  refine bind (loop ?_ ?_) pure fun _ => .pure trivial
  · exact bind (mark? "," e) pure (keeps_afterComma more hitem [])
  · rintro ⟨acc, goesOn⟩
    exact .ite (.pure trivial)
      ((Keeps.mark? "," e).bind fun o _ => keeps_afterComma more hitem acc o)

end Idles

/-! ### The line end -/

/-- The reader has gone on over the line end that `back` follows. -/
def State.Past (text back : List Char) (s : State) : Prop :=
  byteSize text ≤ s.last.byte + byteSize back

theorem State.Past.mono {back : List Char} (h : s.Past text back) (hleads : s.Leads text s') :
    s'.Past text back :=
  Nat.le_trans h (Nat.add_le_add_right hleads.forward _)

/-- At a line end, a reader that may do nothing does nothing or goes on over it. -/
theorem Idles.at_lineEnd {α : Type} {a b : α} {p : Parser α} {back : List Char}
    (hp : Idles text a p) (h : s.Behind text ('\n' :: back)) (hdone : p s = .done b s') :
    s.Leads text s' ∧ (s'.Past text back ∨ (b = a ∧ s' = s)) := by
  obtain ⟨hleads, hidle | ⟨hwritten, htaken⟩⟩ := hp s h.fits b s' hdone
  · exact ⟨hleads, Or.inr hidle⟩
  · obtain ⟨c, ⟨before, rfl, hbyte⟩, hpos, hrest⟩ := h.cursor
    have hline := h.past_lineEnd hwritten
    have hsize : byteSize ('\n' :: back) = 1 + byteSize back := rfl
    refine ⟨hleads, Or.inl ?_⟩
    rw [State.Past, byteSize_append, hrest]
    omega

theorem State.Behind.text_eq {w rest : List Char} (h : s'.Behind text rest) (hs : s.Fits text)
    (hfront : s.ahead.front.rest = w ++ rest) :
    (Span.between s.ahead.start s'.last).text text = String.ofList w := by
  obtain ⟨c, hc, hpos, hrest⟩ := h.cursor
  exact text_between hs.front hc hfront hrest rfl hpos.symm

/-! ### The imported name -/

theorem keeps_afterDot (e : Expect) (acc : List Tree) (o : Option (List Tree)) :
    Keeps text (fun _ => True) (match o with
      | some dot => do pure (some (acc ++ dot ++ (← part (Grammar.identifier e))))
      | none => pure none) := by
  cases o with
  | none => exact .pure trivial
  | some dot => exact (Grammar.reads_identifier e).keeps.part.bind fun _ _ => .pure trivial

theorem idles_moreNames (e : Expect) (first : List Tree) :
    Idles text first (loop (fun acc => do
      match ← mark? "." .operand with
      | some dot => pure (some (acc ++ dot ++ (← part (Grammar.identifier e))))
      | none => pure none) first) :=
  .loop (.bind (.mark? _ _) .pure (keeps_afterDot e _))
    fun acc => (Keeps.mark? _ _).bind fun o _ => keeps_afterDot e acc o

/-- The part for an import of one name by its own name. -/
structure NamesOne (text n : List Char) (t : Tree) : Prop where
  kind : t.kind = .dottedName
  field : t.field = some .name
  text_eq : t.span.text text = String.ofList n

section

variable {gap n back : List Char} {e : Expect} {t : Tree} (h : s.Behind text gap)
  (hgap : Skips gap (n ++ '\n' :: back)) (hn : IsName n)
include h hgap hn

theorem dottedName_at_lineEnd (hdone : Grammar.dottedName e s = .done t s') : s.Leads text s' ∧
      (s'.Past text back ∨ (s'.Behind text ('\n' :: back) ∧ t.kind = .dottedName ∧
        t.span.text text = String.ofList n)) := by
  have hleads := (Grammar.keeps_dottedName e s h.fits t s' hdone).1
  obtain ⟨kind, cs, hparts, rfl⟩ := build_eq_done hdone
  obtain ⟨cs, s₂, hparts, hpure⟩ := bind_eq_done hparts
  obtain ⟨heq, rfl⟩ := pure_eq_done hpure
  cases heq
  obtain ⟨first, s₁, hfirst, hloop⟩ := bind_eq_done hparts
  obtain ⟨t, hname, rfl⟩ := part_eq_done hfirst
  have hends : EndsName ('\n' :: back) := by
    intro c hc
    obtain rfl : '\n' = c := by simpa using hc
    decide +kernel
  obtain ⟨hbehind, hfront⟩ := identifier_behind h.clean hgap hn hends hname
  refine ⟨hleads, ((idles_moreNames e _).at_lineEnd hbehind hloop).2.imp_right ?_⟩
  rintro ⟨-, rfl⟩
  exact ⟨hbehind, rfl, hbehind.text_eq h.fits hfront⟩

theorem importItem_at_lineEnd (hdone : Grammar.importItem e s = .done t s') : s.Leads text s' ∧
      (s'.Past text back ∨ (s'.Behind text ('\n' :: back) ∧ NamesOne text n t)) := by
  have hleads := (Grammar.keeps_importItem e s h.fits t s' hdone).1
  obtain ⟨name, s₁, hname, hrest⟩ := bind_eq_done hdone
  have hsound := (Grammar.keeps_dottedName e s h.fits name s₁ hname).2
  have halias : Takes text (fun _ => True) (do
      let item ← extend .aliasedImport (name.withField .name) do
        pure ((← mark "as" .operand) ++ (← partAs .asName (Grammar.identifier e)))
      pure (item.withField .name)) := by
    intro s hs t s' h
    obtain ⟨item, s₂, hextend, hpure⟩ := bind_eq_done h
    obtain ⟨-, rfl⟩ := pure_eq_done hpure
    obtain ⟨k, _, hparts, -⟩ := buildFrom_eq_done hextend
    obtain ⟨cs, s₃, halias, hpure⟩ := bind_eq_done hparts
    obtain ⟨-, rfl⟩ := pure_eq_done hpure
    obtain ⟨hleads, htaken, -⟩ := (Takes.mark "as" _).bind (fun _ hhead =>
      .behind hhead.sound ((Grammar.reads_identifier e).keeps.partAs .asName)) s hs cs s₃ halias
    exact ⟨hleads, htaken, trivial⟩
  obtain ⟨hleads₁, hpast | ⟨hbehind, hkind, htext⟩⟩ := dottedName_at_lineEnd h hgap hn hname
  · have hidle := Idles.ofMark "as" halias (.pure (a := name.withField .name))
    obtain ⟨hleads₂, -⟩ := hidle s₁ hleads₁.fits t s' hrest
    exact ⟨hleads, Or.inl (hpast.mono hleads₂)⟩
  · refine ⟨hleads, ((Idles.ofMark "as" halias .pure).at_lineEnd hbehind hrest).2.imp_right ?_⟩
    rintro ⟨rfl, rfl⟩
    refine ⟨hbehind, ?_, Tree.field_withField _ _, ?_⟩
    · cases name
      exact hkind
    · rw [Tree.span_withField, htext]

theorem importList_at_lineEnd {cs : List Tree} (hdone : Grammar.importList e s = .done cs s') :
    s'.Past text back ∨ (s'.Behind text ('\n' :: back) ∧
      ∃ before t, AllExtra text before ∧ NamesOne text n t ∧ cs = before ++ [t]) := by
  obtain ⟨first, s₁, hfirst, hrest⟩ := bind_eq_done hdone
  obtain ⟨more, s₂, hmore, hpure⟩ := bind_eq_done hrest
  obtain ⟨rfl, rfl⟩ := pure_eq_done hpure
  obtain ⟨t, hitem, rfl⟩ := part_eq_done hfirst
  have hidle := Idles.moreItems e Token.isIdentifier (@Grammar.keeps_importItem text e)
  obtain ⟨hleads₁, hpast | ⟨hbehind, hone⟩⟩ := importItem_at_lineEnd h.clean hgap hn hitem
  · exact Or.inl (hpast.mono (hidle s₁ hleads₁.fits more s₂ hmore).1)
  · refine (hidle.at_lineEnd hbehind hmore).2.imp_right ?_
    rintro ⟨rfl, rfl⟩
    exact ⟨hbehind, s.extras, t, h.fits.extras, hone, by simp⟩

theorem fromList_at_lineEnd {cs : List Tree} (hdone : Grammar.fromList s = .done cs s') :
    s'.Past text back ∨ (s'.Behind text ('\n' :: back) ∧
      ∃ before t, AllExtra text before ∧ NamesOne text n t ∧ cs = before ++ [t]) := by
  obtain ⟨c, rest, rfl, hstart, hc⟩ := hn.starts
  have hparen : '(' ≠ c := by
    rintro rfl
    exact absurd hstart (by decide +kernel)
  obtain ⟨o, s₁, hmark, hrest⟩ := bind_eq_done hdone
  rcases mark?_eq_done hmark with ⟨-, rfl, rfl⟩ | ⟨head, rfl, htaken⟩
  · exact importList_at_lineEnd h hgap hn hrest
  · have hnot : s.token.isMark "(" = false := h.not_isMark hgap hc rfl hparen
    exact absurd (mark_eq_done htaken).1 (by simp [hnot])

end

/-! ### The statement -/

/-- The word `import` ends the name before it. -/
theorem import_behind {qs : List (List Char)} {rest : List Char} {cs : List Tree}
    (h : s.Behind text (dotted qs ++ " import ".toList ++ rest))
    (hdone : mark "import" .operand s = .done cs s') :
    qs = [] ∧ s'.Behind text (' ' :: rest) := by
  have hmark := (mark_eq_done hdone).1
  cases qs with
  | nil =>
      have hskips : Skips (" import ".toList ++ rest) ("import ".toList ++ rest) :=
        .blank (Or.inl (by decide)) (.done _)
      have hi : Counts 'i' := ⟨by decide, by decide, by decide, by decide⟩
      have hfront := h.rest_eq hskips ⟨'i', _, rfl, hi⟩ (Token.isWritten_of_isMark hmark)
      exact ⟨rfl, mark_behind h.fits hdone hfront⟩
  | cons q qs =>
      have hnot : s.token.isMark "import" = false :=
        h.not_isMark (.done _) counts_dot rfl (by decide)
      exact absurd hmark (by simp [hnot])

/-- The text of a statement that imports `n` from `M`. -/
def importText (M n : List Char) : List Char := "from ".toList ++ M ++ " import ".toList ++ n

theorem importText_eq (M n : List Char) :
    importText M n = "from".toList ++ (' ' :: (M ++ (" import ".toList ++ n))) := by
  show "from ".toList ++ M ++ " import ".toList ++ n = _
  simp

/-- What such a statement means. -/
def importOf (M n : List Char) (span : Span) : Import :=
  { fromModule := some (String.ofList M), names := [{ name := String.ofList n }], span }

theorem AllExtra.filter_field {cs : List Tree} (h : AllExtra text cs) (f : Field) :
    cs.filter (fun c => c.field == some f) = [] :=
  List.filter_eq_nil_iff.mpr fun t ht => by simp [(h t ht).field]

theorem AllExtra.any_wildcard {cs : List Tree} (h : AllExtra text cs) :
    cs.any (fun c => decide (c.kind = .wildcardImport)) = false := by
  refine List.any_eq_false.mpr fun t ht => ?_
  obtain ⟨k, span, rfl | rfl, -, rfl⟩ := h t ht <;> simp [Tree.leaf, Tree.kind]

theorem lower_importFrom {M n : List Char} {head before word before' : List Tree} {m t : Tree}
    {span : Span} (hhead : AllExtra text head) (hbefore : AllExtra text before) (hword : AllExtra text word)
    (hbefore' : AllExtra text before') (hm : m.field = some .moduleName)
    (hkind : m.kind ≠ .wildcardImport) (hM : m.span.text text = String.ofList M)
    (hdot : M.head? ≠ some '.') (ht : NamesOne text n t) :
    Lower.simple? text (.node .importFrom none span
      (head ++ (before ++ [m]) ++ word ++ (before' ++ [t]))) =
        some (.importing (importOf M n span)) := by
  have hfind : ∀ {cs : List Tree}, AllExtra text cs → cs.find? (fun c => c.field == some .moduleName) =
      none := fun h => List.find?_eq_none.mpr fun t ht => by simp [(h t ht).field]
  have hmodule : Tree.child? (.node .importFrom none span
      (head ++ (before ++ [m]) ++ word ++ (before' ++ [t]))) .moduleName = some m := by
    simp [Tree.child?, Tree.children, List.find?_append, hfind hhead, hfind hbefore, hm]
  have hnames : Tree.childrenWith (.node .importFrom none span
      (head ++ (before ++ [m]) ++ word ++ (before' ++ [t]))) .name = [t] := by
    simp [Tree.childrenWith, Tree.children, hhead.filter_field, hbefore.filter_field,
      hword.filter_field, hbefore'.filter_field, hm, ht.field]
  have hwildcard : (head ++ (before ++ [m]) ++ word ++ (before' ++ [t])).any
      (fun c => decide (c.kind = .wildcardImport)) = false := by
    simp only [List.any_append, hhead.any_wildcard, hbefore.any_wildcard, hword.any_wildcard,
      hbefore'.any_wildcard]
    simp [hkind, ht.kind]
  have htake : M.takeWhile (· == '.') = [] := by
    cases M with
    | nil => rfl
    | cons c cs => simp_all
  have hdrop : M.dropWhile (· == '.') = M := by
    cases M with
    | nil => rfl
    | cons c cs => simp_all
  show some (Stmt.importing (Lower.fromImport text _)) = _
  rw [Lower.fromImport, hmodule]
  simp only [hM, String.toList_ofList, htake, hdrop, List.length_nil, Lower.importedNames, hnames]
  rw [Tree.children, hwildcard]
  simp only [List.filterMap_cons, List.filterMap_nil, Lower.importedName?, ht.kind, ht.text_eq]
  rfl

theorem lower_futureImport {n : List Char} {head future word before' : List Tree} {t : Tree}
    {span : Span} (hhead : AllExtra text head) (hfuture : AllExtra text future) (hword : AllExtra text word)
    (hbefore' : AllExtra text before') (ht : NamesOne text n t) :
    Lower.simple? text (.node .futureImport none span
      (head ++ future ++ word ++ (before' ++ [t]))) =
        some (.importing (importOf "__future__".toList n span)) := by
  have hnames : Tree.childrenWith (.node .futureImport none span
      (head ++ future ++ word ++ (before' ++ [t]))) .name = [t] := by
    simp [Tree.childrenWith, Tree.children, hhead.filter_field, hfuture.filter_field,
      hword.filter_field, hbefore'.filter_field, ht.field]
  show some (Stmt.importing (Lower.futureImport text _)) = _
  rw [Lower.futureImport, Lower.importedNames, hnames]
  simp only [List.filterMap_cons, List.filterMap_nil, Lower.importedName?, ht.kind, ht.text_eq]
  rfl

section

variable {n p back : List Char} {ps : List (List Char)} {head cs : List Tree} {kind : Kind}
  (hn : IsName n) (hp : IsName p)
include hn hp

/-- The word `__future__` and what follows it. -/
theorem futureNames_at_lineEnd
    (h : s.Behind text (' ' :: (p ++ (dotted ps ++ " import ".toList ++ (n ++ '\n' :: back)))))
    (hends : EndsName (dotted ps ++ " import ".toList ++ (n ++ '\n' :: back)))
    (hhead : AllExtra text head) (hfuture : s.token.isMark "__future__" = true)
    (hdone : (do
      let future ← mark "__future__" .operand
      let word ← mark "import" .operand
      pure (Kind.futureImport, head ++ future ++ word ++ (← Grammar.fromList)) :
        Parser (Kind × List Tree)) s = .done (kind, cs) s') :
    s'.Past text back ∨ (s'.Behind text ('\n' :: back) ∧ ∀ span,
      Lower.simple? text (.node kind none span cs) =
        some (.importing (importOf (p ++ dotted ps) n span))) := by
  obtain ⟨future, s₁, hmark, hrest⟩ := bind_eq_done hdone
  obtain ⟨word, s₂, hword, hrest⟩ := bind_eq_done hrest
  obtain ⟨names, s₃, hlist, hpure⟩ := bind_eq_done hrest
  obtain ⟨heq, rfl⟩ := pure_eq_done hpure
  cases heq
  have hahead := h.rest_eq (.blank (Or.inl (by decide)) (.done _)) hp.startsWord
    (Token.isWritten_of_isMark hfuture)
  obtain ⟨htoken, -⟩ := h.fits.token_of_isName hp hends hahead
  obtain rfl : p = "__future__".toList := by
    rw [htoken] at hfuture
    have hp : String.ofList p = "__future__" := by simpa [Token.isMark] using hfuture
    rw [← hp, String.toList_ofList]
  have h₁ := mark_behind h.fits hmark hahead
  obtain ⟨rfl, h₂⟩ := import_behind h₁ hword
  refine (fromList_at_lineEnd h₂ (.blank (Or.inl (by decide)) (.done _)) hn hlist).imp_right ?_
  rintro ⟨h₃, before', t, hbefore', hone, rfl⟩
  have hfuture' : AllExtra text future := (mark_eq_done hmark).2.1 ▸ h.fits.extras
  have hword' : AllExtra text word := (mark_eq_done hword).2.1 ▸ h₁.fits.extras
  exact ⟨h₃, fun span => lower_futureImport hhead hfuture' hword' hbefore' hone⟩

/-- The name of any other module and what follows it. -/
theorem moduleNames_at_lineEnd (hps : ∀ q ∈ ps, IsName q)
    (h : s.Behind text (' ' :: (p ++ (dotted ps ++ (" import ".toList ++ (n ++ '\n' :: back))))))
    (hends : EndsName (" import ".toList ++ (n ++ '\n' :: back)))
    (hhead : AllExtra text head)
    (hdone : (do
      let source ← partAs .moduleName <|
        if Grammar.isOneOf s.token [".", "..."] then Grammar.relativeImport
        else Grammar.dottedName .operand
      let word ← mark "import" .operand
      let names ←
        if (← peek).isMark "*" then part (leaf .wildcardImport .lineEnd) else Grammar.fromList
      pure (Kind.importFrom, head ++ source ++ word ++ names) :
        Parser (Kind × List Tree)) s = .done (kind, cs) s') :
    s'.Past text back ∨ (s'.Behind text ('\n' :: back) ∧ ∀ span,
      Lower.simple? text (.node kind none span cs) =
        some (.importing (importOf (p ++ dotted ps) n span))) := by
  have hgap : Skips (' ' :: (p ++ (dotted ps ++ (" import ".toList ++ (n ++ '\n' :: back)))))
      (p ++ (dotted ps ++ (" import ".toList ++ (n ++ '\n' :: back)))) :=
    .blank (Or.inl (by decide)) (.done _)
  have hgap' : Skips (' ' :: (n ++ '\n' :: back)) (n ++ '\n' :: back) :=
    .blank (Or.inl (by decide)) (.done _)
  obtain ⟨source, s₁, hsource, hrest⟩ := bind_eq_done hdone
  obtain ⟨word, s₂, hword, hrest⟩ := bind_eq_done hrest
  obtain ⟨m, hname, rfl⟩ := partAs_eq_done hsource
  have hdot : p.head? ≠ some '.' := by
    obtain ⟨c, w, rfl, hstart, -⟩ := hp.starts
    intro heq
    obtain rfl : c = '.' := by simpa using heq
    exact absurd hstart (by decide +kernel)
  have hdots : Grammar.isOneOf s.token [".", "..."] = false := by
    obtain ⟨c, w, rfl, -, hc⟩ := hp.starts
    have hne : '.' ≠ c := fun heq => hdot (by rw [heq]; rfl)
    have hone : s.token.isMark "." = false := h.not_isMark hgap hc rfl hne
    have hthree : s.token.isMark "..." = false := h.not_isMark hgap hc rfl hne
    simp [Grammar.isOneOf, hone, hthree]
  rw [hdots] at hname
  have himport : Skips (" import ".toList ++ (n ++ '\n' :: back))
      ('i' :: ("mport ".toList ++ (n ++ '\n' :: back))) := .blank (Or.inl (by decide)) (.done _)
  have hi : Counts 'i' := ⟨by decide, by decide, by decide, by decide⟩
  obtain ⟨qs, -, h₁, hahead, hkind, hspan⟩ :=
    dottedName_behind h.clean hgap hp hps hends himport hi (by decide) hname
  obtain ⟨rfl, h₂⟩ := import_behind (List.append_assoc (dotted qs) _ _ ▸ h₁) hword
  have hM : m.span.text text = String.ofList (p ++ dotted ps) := by
    rw [hspan]
    exact h₁.text_eq h.clean.fits (hahead.trans (List.append_assoc p _ _).symm)
  obtain ⟨_, _, hpeek, hrest⟩ := bind_eq_done hrest
  cases hpeek
  rcases ite_eq_done hrest with ⟨hstar, -⟩ | ⟨-, hrest⟩
  · obtain ⟨c, w, rfl, hstart, hc⟩ := hn.starts
    have hne : '*' ≠ c := by
      rintro rfl
      exact absurd hstart (by decide +kernel)
    have hnot : s₂.token.isMark "*" = false := h₂.not_isMark hgap' hc rfl hne
    exact absurd hstar (by simp [hnot])
  obtain ⟨names, s₃, hlist, hpure⟩ := bind_eq_done hrest
  obtain ⟨heq, rfl⟩ := pure_eq_done hpure
  cases heq
  refine (fromList_at_lineEnd h₂ hgap' hn hlist).imp_right ?_
  rintro ⟨h₃, before', t, hbefore', hone, rfl⟩
  have hword' : AllExtra text word := (mark_eq_done hword).2.1 ▸ h₁.fits.extras
  refine ⟨h₃, fun span => lower_importFrom hhead h.fits.extras hword' hbefore'
    (Tree.field_withField _ _) ?_ ?_ ?_ hone⟩
  · cases m
    exact fun hwildcard => absurd (hkind.symm.trans hwildcard) (by decide)
  · rw [Tree.span_withField, hM]
  · cases p with
    | nil => exact absurd hp.starts (by simp)
    | cons => exact hdot

end

/-- **A statement that is written as an import of one name is that import**, or the reader goes on
over the end of its line. -/
theorem fromStatement_at_lineEnd {M n back : List Char} {t : Tree} (hs : s.Fits text)
    (hM : IsDottedName M) (hn : IsName n)
    (hfront : s.ahead.front.rest = importText M n ++ '\n' :: back)
    (hdone : Grammar.fromStatement s = .done t s') :
    s'.Past text back ∨ (s'.Behind text ('\n' :: back) ∧
      Lower.simple? text t = some (.importing (importOf M n t.span))) := by
  obtain ⟨p, ps, rfl, hp, hps⟩ := hM
  obtain ⟨kind, cs, hparts, rfl⟩ := build_eq_done hdone
  obtain ⟨head, s₁, hfrom, hrest⟩ := bind_eq_done hparts
  have hhead : AllExtra text head := (mark_eq_done hfrom).2.1 ▸ hs.extras
  have hends : EndsName (" import ".toList ++ (n ++ '\n' :: back)) := by
    intro c hc
    obtain rfl : ' ' = c := by simpa using hc
    decide +kernel
  have h₁ : s₁.Behind text
      (' ' :: (p ++ (dotted ps ++ (" import ".toList ++ (n ++ '\n' :: back))))) := by
    refine mark_behind hs hfrom (hfront.trans ?_)
    simp only [importText_eq, List.append_assoc, List.cons_append]
  obtain ⟨_, _, hpeek, hrest⟩ := bind_eq_done hrest
  cases hpeek
  rcases ite_eq_done hrest with ⟨hfuture, hrest⟩ | ⟨-, hrest⟩
  · rw [← List.append_assoc (dotted ps)] at h₁
    refine (futureNames_at_lineEnd hn hp h₁ ?_ hhead hfuture hrest).imp_right fun h => ⟨h.1, h.2 _⟩
    rw [List.append_assoc]
    exact endsName_dotted ps hends
  · exact (moduleNames_at_lineEnd hn hp hps h₁ hends hhead hrest).imp_right fun h => ⟨h.1, h.2 _⟩

end Plumbline.Syntax
