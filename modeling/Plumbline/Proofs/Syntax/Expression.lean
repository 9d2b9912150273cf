/-
Readers of expressions.

Every reader of an expression takes a stretch of tokens, and its tree lies from the first of them to
the last.  So an expression starts where the reader stood, which is what tells where a default
starts that follows an equals sign.
-/
import Plumbline.Proofs.Syntax.Word

namespace Plumbline.Syntax

open Plumbline.Syntax.Parser

/-- The reader goes on inside of a string, from `c` to another cursor.  The string is no token of
the state, which therefore need not fit. -/
def Within {α : Type} (text : List Char) (c : Cursor) (P : α → Prop)
    (p : Parser (α × Cursor)) : Prop :=
  ∀ s, s.size = text.length → ∀ a c' s', p s = .done (a, c') s' →
    P a ∧ c'.IsIn text ∧ c.pos.byte ≤ c'.pos.byte ∧ s'.size = text.length

namespace Within

variable {α β : Type} {text : List Char} {c c' : Cursor} {P : α → Prop} {Q : β → Prop}

theorem fail : Within text c P (Parser.fail : Parser (α × Cursor)) :=
  fun _ _ _ _ _ h => absurd h (by simp [Parser.fail])

theorem pure {a : α} (ha : P a) (hc' : c'.IsIn text) (hle : c.pos.byte ≤ c'.pos.byte) :
    Within text c P (Pure.pure (a, c')) := by
  intro s hs a' c'' s' h
  obtain ⟨heq, rfl⟩ := pure_eq_done h
  cases heq
  exact ⟨ha, hc', hle, hs⟩

theorem bind {p : Parser (α × Cursor)} {f : α × Cursor → Parser (β × Cursor)}
    (hp : Within text c P p) (hf : ∀ a c', P a → c'.IsIn text → Within text c' Q (f (a, c'))) :
    Within text c Q (p >>= f) := by
  intro s hs b c'' s'' h
  obtain ⟨⟨a, c'⟩, s', hdone, hrest⟩ := bind_eq_done h
  obtain ⟨ha, hc', hle, hs'⟩ := hp s hs a c' s' hdone
  obtain ⟨hb, hc'', hle', hs''⟩ := hf a c' ha hc' s' hs' b c'' s'' hrest
  exact ⟨hb, hc'', Nat.le_trans hle hle', hs''⟩

theorem advance {p : Parser (α × Cursor)} (n : Nat) (h : Within text (c.advance n) P p) :
    Within text c P p := by
  intro s hs a c' s' hdone
  obtain ⟨ha, hc', hle, hs'⟩ := h s hs a c' s' hdone
  exact ⟨ha, hc', Nat.le_trans (Cursor.byte_le_advance n c) hle, hs'⟩

end Within

/-- What is said of the readers of nested constructs. -/
structure Knot.Keeps (text : List Char) (k : Knot) : Prop where
  expression : ∀ l p, Reads text (k.expression l p)
  atom : ∀ p, Reads text (k.atom p)
  arithmetic : ∀ n p, Reads text (k.arithmetic n p)
  type : ∀ b p, Parser.Keeps text (Tree.Sound text) (k.type b p)
  embedded : ∀ c, c.IsIn text → Within text c (Tree.Sound text) (k.embedded c)
  assigned : Parser.Keeps text (Tree.Sound text) k.assigned
  statement : Parser.Keeps text (AllSound text) k.statement
  casePattern : ∀ p, Parser.Keeps text (Tree.Sound text) (k.casePattern p)
  words : k.TakesWords

namespace Grammar

variable {text : List Char} {k : Knot}

theorem isVariable_of_isIdentifier {t : Token} (h : t.isIdentifier = true) : t.isVariable = true := by
  cases t with
  | name word =>
      have hreserved : (!reservedWords.contains word) = true := h
      simp only [Token.isVariable, hreserved, Bool.true_or]
  | _ => exact absurd h (by simp [Token.isIdentifier])

/-- No constant is the name of a variable. -/
theorem spells_of_isVariable {t : Token} (h : t.isVariable = true) :
    ∃ word, t = .name word ∧ Kind.identifier.spells word = true := by
  cases t with
  | name word =>
      refine ⟨word, rfl, ?_⟩
      by_contra hconstant
      have hmem : word ∈ constantWords := by simpa [Kind.spells] using hconstant
      have hnot : ∀ w ∈ constantWords, (Token.name w).isVariable = false := by decide
      rw [hnot word hmem] at h
      exact Bool.noConfusion h
  | _ => exact absurd h (by simp [Token.isVariable])

theorem reads_asPattern {p : Parser Tree} (h : Reads text p) : Reads text (asPattern p) := by
  refine h.bind fun t ht => ?_
  split
  · rename_i u hu
    obtain ⟨hsound, hspan⟩ := Tree.sound_toPattern? ht hu
    exact .replace hsound ⟨congrArg Span.start hspan, congrArg Span.stop hspan⟩
      (Tree.earliest_le_of_start (Tree.isGroup_toPattern? hu) (congrArg Span.start hspan))
  · exact .fail

theorem reads_identifier (e : Expect) : Reads text (identifier e) := by
  intro s hs t s' h
  obtain ⟨_, _, hpeek, h⟩ := bind_eq_done h
  cases hpeek
  rcases ite_eq_done h with ⟨hname, h⟩ | ⟨-, h⟩
  · obtain ⟨word, hword, hspells⟩ := spells_of_isVariable (isVariable_of_isIdentifier hname)
    exact Reads.of_word hs hword rfl hspells h
  · exact absurd h (by simp [fail])

theorem reads_variableName (e : Expect) : Reads text (variableName e) := by
  intro s hs t s' h
  obtain ⟨_, _, hpeek, h⟩ := bind_eq_done h
  cases hpeek
  rcases ite_eq_done h with ⟨hname, h⟩ | ⟨-, h⟩
  · obtain ⟨word, hword, hspells⟩ := spells_of_isVariable hname
    exact Reads.of_word hs hword rfl hspells h
  · exact absurd h (by simp [fail])

section

variable (hk : k.Keeps text)
include hk

theorem reads_inner : Reads text (inner k) := hk.expression _ _

/-! ### Strings -/

theorem within_stringPieces (q : Quote) (fuel : Nat) {c : Cursor} {trees : List Tree}
    (hc : c.IsIn text) (htrees : AllSound text trees) :
    Within text c (AllSound text) (stringPieces k q fuel c trees) := by
  induction fuel generalizing c trees with
  | zero => exact .fail
  | succ fuel ih =>
      unfold stringPieces
      split
      · exact .advance _ (ih (hc.advance _) htrees)
      · exact .advance _ (.pure (allSound_reverse.mpr htrees) (hc.advance _) (Nat.le_refl _))
      · refine .advance _ ((hk.embedded _ (hc.advance _)).bind fun t rest ht hrest => ?_)
        exact ih hrest (allSound_cons.mpr ⟨ht, htrees⟩)
      · exact .fail

theorem reads_string (e : Expect) : Reads text (string k e) := by
  intro s hs t s' h
  unfold string at h
  split at h
  · dsimp only at h
    split at h
    · rename_i trees rest s'' hpieces
      cases h
      obtain ⟨htrees, hrest, hle, -⟩ :=
        within_stringPieces hk _ _ hs.stop_isIn allSound_nil _ (by exact hs.size) _ _ _ hpieces
      have htaken : s.ahead.start.byte ≤ rest.pos.byte := Nat.le_trans hs.start_le_stop hle
      have hstretch : IsStretch text (.between s.ahead.start rest.pos) :=
        ⟨isPlace_of_isIn hs.front, isPlace_of_isIn hrest⟩
      refine ⟨⟨State.fits_resume e hrest rfl (.done _) hrest hs.size, ?_⟩, ?_,
        Tree.sound_plain rfl hstretch htrees, rfl, ?_, ?_⟩
      · rw [State.last_resume]
        exact Nat.le_trans hs.last_le_start htaken
      · rwa [State.last_resume]
      · rw [State.last_resume]
        rfl
      · rw [Tree.earliest_node rfl]
        exact hs.last_le_start
    · exact absurd h (by simp)
  · exact absurd h (by simp)

theorem reads_strings (e : Expect) : Reads text (strings k e) := by
  refine (reads_string hk e).bind fun first hfirst => .after stays_peek fun t _ => ?_
  split
  · refine .extendSame rfl (.loop (fun acc hacc => .after stays_peek fun t _ => ?_) allSound_nil)
    split
    · exact .goOnBehind hacc (reads_string hk e).keeps.part
    · exact .stop
  · exact .pure rfl

theorem within_formatPieces (fuel : Nat) {c : Cursor} {trees : List Tree}
    (hc : c.IsIn text) (htrees : AllSound text trees) :
    Within text c (AllSound text) (formatPieces k fuel c trees) := by
  induction fuel generalizing c trees with
  | zero => exact .fail
  | succ fuel ih =>
      have hpast : ∀ n, Within text c (AllSound text) (formatPieces k fuel (c.advance n) trees) :=
        fun n => .advance n (ih (hc.advance n) htrees)
      unfold formatPieces
      split
      · exact .pure (allSound_reverse.mpr htrees) hc (Nat.le_refl _)
      · refine (hk.embedded c hc).bind fun t rest ht hrest => ?_
        exact ih hrest (allSound_cons.mpr ⟨ht, htrees⟩)
      · exact .fail
      · split
        · exact hpast _
        · split
          · exact .fail
          · exact hpast 1

/-! ### Lists of expressions -/

theorem reads_yieldExpression (p : Place) : Reads text (yieldExpression k p) := by
  have hvalue := (hk.expression .conditional p).keeps
  refine .node rfl ((Takes.mark _ _).bind fun head hhead => .after stays_peek fun t _ => ?_)
  have hhead : AllSound text head := hhead.sound
  refine .ite ?_ ?_
  · exact (Keeps.mark _ _).bind fun _ hfrom => .behind (allSound_append.mpr ⟨hhead, hfrom⟩) hvalue.part
  · refine .ite (hvalue.part.bind fun first hfirst => ?_) (.pure hhead)
    exact .behind (allSound_append.mpr ⟨hhead, hfirst⟩) (hvalue.moreItems _ _)

/-- A list of expressions holds a string that it starts with. -/
theorem continues_expressionsAfter (p : Place) (first : Tree) :
    Continues text first id (expressionsAfter k p first) := by
  refine .after stays_peek fun _ _ => .ite ?_ (.pure rfl)
  intro s hs hfirst _ hstop t s' h
  obtain ⟨kind, cs, hparts, rfl⟩ := buildFrom_eq_done h
  obtain ⟨items, s₁, hitems, hrest⟩ := bind_eq_done hparts
  obtain ⟨heq, rfl⟩ := pure_eq_done hrest
  cases heq
  have hitem := hk.expression .conditional p
  obtain ⟨hleads, hsound⟩ := Keeps.moreItems _ _ hitem.keeps s hs items _ hitems
  obtain ⟨-, hheld⟩ := hitem.moreItems_held _ _ hs hitems
  have hstretch : IsStretch text ⟨first.span.start, s₁.last.byte, first.span.line, first.span.column⟩ :=
    ⟨hfirst.stretch.start, hleads.fits.isPlace_last⟩
  refine ⟨hleads, .node (hstretch.isPlaced rfl) (promises_of_held rfl fun c hc _ => ?_)
    (allSound_cons.mpr ⟨hfirst, hsound⟩), rfl, rfl, Tree.earliest_le_of_start rfl rfl⟩
  rcases List.mem_cons.mp (List.mem_of_find?_eq_some hc) with rfl | hmem
  · rw [hstop]
    exact hs.endsWithin hleads.forward
  · exact hheld c hmem

theorem reads_expressions (p : Place) : Reads text (expressions k p) :=
  (hk.expression .conditional p).bind fun first _ => continues_expressionsAfter hk p first

/-! ### Targets of loops -/

theorem reads_place (p : Place) : Reads text (place k p) :=
  (hk.atom p).bind fun _ _ => .ite (.pure rfl) .fail

theorem reads_target (p : Place) : Reads text (target k p) := by
  refine .after stays_peek fun _ _ =>
    .ite (reads_asPattern (.splat ?_)) (reads_asPattern (hk.atom p))
  exact .after stays_extras fun before hbefore => .bound hbefore.sound (reads_place hk p)

theorem reads_targets (p : Place) : Reads text (targets k p) :=
  (reads_target hk p).bind fun _ _ => .after stays_peek fun _ _ => .ite
    (.extendSame rfl (Keeps.moreItems _ _ (reads_target hk p).keeps)) (.pure rfl)

/-! ### Parameters and anonymous functions -/

/-- The type of a parameter behind its colon. -/
theorem keeps_hint (p : Place) :
    Keeps text (fun cs => AllSound text cs ∧ ∃ c ∈ cs, c.field = some .type)
      (do pure ((← mark ":" .operand) ++ (← partAs .type (k.type true p)))) :=
  (Keeps.mark _ _).bind fun _ hcolon => ((hk.type true p).partAs_field .type).bind
    fun _ ⟨hhint, c, hc, hfield⟩ => .pure ⟨by simp [hcolon, hhint], c, by simp [hc], hfield⟩

theorem keeps_starredParameter (typed : Bool) (word : String) {kind : Kind} (e : Expect) (p : Place)
    (hkind : kind.isPlain = true) :
    Keeps text (Tree.Sound text) (starredParameter k typed word kind e p) := by
  have hsplat : Keeps text (AllSound text)
      (do let star ← mark word e; pure (star ++ (← part (place k p)))) :=
    .append (.mark _ _) (reads_place hk p).keeps.part
  refine (Keeps.node hkind hsplat).bind fun splat hsplat => .after stays_peek fun _ _ =>
    .ite (.buildFrom hsplat.stretch.start (.bind (keeps_hint hk p) fun cs ⟨hcs, htype⟩ => .pure ?_))
      (.pure hsplat)
  obtain ⟨c, hc, hfield⟩ := htype
  exact ⟨rfl, fun _ => promises_of_typed (Or.inl rfl) ⟨c, by simp [hc], hfield⟩,
    allSound_cons.mpr ⟨hsplat, hcs⟩⟩

theorem keeps_defaultValue (p : Place) : Keeps text (AllSound text) (defaultValue k p) :=
  .append (.mark _ _) ((hk.expression .conditional p).keeps.partAs _)

/-- A default that is read after the name `first` is set by the equals sign between them, and lies
behind the name. -/
theorem defaultValue_sets {p : Place} {first : Tree} {s s' : State} {cs : List Tree}
    (hs : s.Fits text) (hfirst : first.Ends text s) (h : defaultValue k p s = .done cs s') :
    ∃ value, cs.find? (fun c => c.field == some .value) = some value ∧
      SetsDefault text first.span value.span ∧ first.span.stop ≤ value.earliest := by
  obtain ⟨before, s₁, hmark, h⟩ := bind_eq_done h
  obtain ⟨parts, s₂, hpart, h⟩ := bind_eq_done h
  obtain ⟨rfl, rfl⟩ := pure_eq_done h
  obtain ⟨hword, rfl, hlast⟩ := mark_eq_done hmark
  have hleads₁ : s.Leads text s₁ := ((Takes.mark _ _) s hs _ s₁ hmark).1
  have hs₁ : s₁.Fits text := hleads₁.fits
  obtain ⟨value, hvalue, rfl⟩ := partAs_eq_done hpart
  obtain ⟨-, -, -, hstart, -, hbehind⟩ :=
    hk.expression .conditional p _ (stays_extras s₁ hs₁ _ _ rfl).1 _ _ hvalue
  refine ⟨value.withField .value, ?_, ?_, ?_⟩
  · -- what stands in front of the default has no part to play
    have hnone : ∀ cs : List Tree, AllExtra text cs →
        cs.find? (fun c => c.field == some .value) = none :=
      fun cs hcs => List.find?_eq_none.mpr fun c hc => by simp [(hcs c hc).field]
    simp [List.find?_append, hnone _ hs.extras, hnone _ hs₁.extras]
  · rw [Tree.span_withField]
    -- the name ends where the equals sign is looked for, and that ends where the default is
    obtain ⟨c₀, hc₀, hfirstStart, hle⟩ := hfirst.start
    obtain ⟨c₁, hc₁, hpos₁, hskips₁⟩ := hs.after
    obtain ⟨c₂, hc₂, hpos₂, hskips₂⟩ := hs₁.after
    have hequals : s.ahead.front.rest = '=' :: c₂.rest := by
      rw [hs.spelled "=" hword, hs.stop_isIn.rest_eq, hc₂.rest_eq, hpos₂, hlast]
      rfl
    rw [hequals] at hskips₁
    obtain ⟨gap, hgap⟩ := hskips₁.exists_append
    obtain ⟨gap', hgap'⟩ := hskips₂.exists_append
    obtain ⟨before, shown, htext, -, hbefore, hshown⟩ :=
      hc₀.exists_between hc₁ (by rwa [hfirstStart, hpos₁])
    have hbehind : c₁.rest = (gap ++ '=' :: gap') ++ s₁.ahead.front.rest := by simp [hgap, hgap']
    have hvalueAt := hc₁.byte_eq hs₁.front hbehind
    rw [hgap, hgap'] at hskips₁ htext
    rw [hgap'] at hskips₂
    refine ⟨before, shown, gap, gap', s₁.ahead.front.rest, ?_, ?_, ?_, ?_, hskips₁, hskips₂⟩
    · simpa using htext
    · rw [← hfirstStart, hbefore]
    · rw [hfirst.stop, ← hpos₁, hshown]
    · rw [hstart]
      show s₁.ahead.front.pos.byte = _
      rw [hvalueAt, hshown, ← byteSize_append, List.append_assoc (before ++ shown)]
  · rw [hfirst.stop, Tree.earliest_withField]
    exact hleads₁.forward.trans hbehind

theorem keepsAfter_defaultParameter (p : Place) (first : Tree) :
    KeepsAfter text first (Tree.Sound text)
      (extend .defaultParameter (first.withField .name) (defaultValue k p)) := by
  intro s hs hfirst hends t s' h
  obtain ⟨kind, cs, hparts, rfl⟩ := buildFrom_eq_done h
  obtain ⟨ds, s'', hdefault, hrest⟩ := bind_eq_done hparts
  obtain ⟨heq, rfl⟩ := pure_eq_done hrest
  cases heq
  obtain ⟨hleads, hds⟩ := keeps_defaultValue hk p s hs ds s'' hdefault
  obtain ⟨value, hvalue, hsets, hbehind⟩ := defaultValue_sets hk hs hends hdefault
  have hstretch : IsStretch text ⟨(first.withField .name).span.start, s''.last.byte,
      (first.withField .name).span.line, (first.withField .name).span.column⟩ :=
    ⟨(hfirst.withField .name).stretch.start, hleads.fits.isPlace_last⟩
  refine ⟨hleads, .node (hstretch.isPlaced rfl) ⟨fun _ => ⟨first.withField .name, value, ?_, ?_, ?_, ?_⟩,
    fun h => absurd h (by decide), nofun, nofun, nofun, nofun, nofun, nofun, nofun,
    isGiven_of_not_hasRoles rfl _⟩
    (allSound_cons.mpr ⟨hfirst.withField _, hds⟩)⟩
  · simp
  · simpa using hvalue
  · rwa [Tree.span_withField]
  · rwa [Tree.span_withField]

theorem keeps_parameter (typed : Bool) (p : Place) :
    Keeps text (Tree.Sound text) (parameter k typed p) := by
  refine .after stays_peek fun t _ => .ite
    (.orElse (keeps_starredParameter hk _ _ _ _ rfl) (.leaf rfl))
    (.ite (keeps_starredParameter hk _ _ _ _ rfl) (.ite (.leaf rfl) ?_))
  refine .ite ((reads_asPattern (hk.atom p)).bindAfter fun first hfirst => ?_)
    ((reads_identifier _).bindAfter fun first hfirst => ?_)
  -- a pattern and a name go on in the same way
  all_goals
    refine .ite .fail_bind (.after stays_peek fun next _ =>
      .ite (keepsAfter_defaultParameter hk p first)
        (.of_keeps (.ite (.buildFrom hfirst.stretch.start ?_) (.pure hfirst))))
    refine (Keeps.mark _ _).bind fun colon hcolon =>
      ((hk.type true p).partAs_field .type).bind fun hint ⟨hhint, c, hc, htype⟩ =>
        .after stays_peek fun _ _ => .ite ?_ ?_
    · refine (keeps_defaultValue hk p).bind fun value hvalue => .pure ⟨rfl, fun _ => ?_, ?_⟩
      · exact promises_of_typed (Or.inr rfl) ⟨c, by simp [hc], htype⟩
      · simp [hfirst.withField .name, hcolon, hhint, hvalue]
    · exact .pure ⟨rfl, fun _ => promises_of_typed (Or.inl rfl) ⟨c, by simp [hc], htype⟩,
        by simp [*]⟩

omit hk in
/-- A name that no colon follows. -/
theorem isUntyped_of_last {t : Tree} {s : State} (hs : s.Fits text)
    (hnext : ¬ s.token.isMark ":" = true) (hstop : t.span.stop = s.last.byte)
    (hname : ∀ name, t.kind ≠ .identifier →
      t.children.find? (·.kind = .identifier) = some name → name.span.stop = t.span.stop) :
    t.IsUntyped text where
  cut := hstop ▸ (hs.endsWithin (Nat.le_refl _)).2
  noType := fun hat => hnext (hs.isMark_of_colon (hstop ▸ hat))
  endsWithName := hname

/-- What stars collect is not typed only if no type follows. -/
theorem isUntyped_of_starredParameter {word : String} {kind : Kind} {e : Expect} {p : Place}
    {s s' : State} {t : Tree} (hs : s.Fits text)
    (h : starredParameter k true word kind e p s = .done t s') (hbare : t.kind.isBare = true) :
    t.IsUntyped text := by
  obtain ⟨splat, s₁, hsplat, h⟩ := bind_eq_done h
  obtain ⟨_, _, hpeek, h⟩ := bind_eq_done h
  cases hpeek
  rcases ite_eq_done h with ⟨-, htyped⟩ | ⟨hnext, h⟩
  · have hkind := Answers.extend (· = .typedParameter) rfl s₁ t s' htyped
    exact absurd hbare (by rw [hkind]; decide)
  obtain ⟨rfl, rfl⟩ := pure_eq_done h
  obtain ⟨_, cs, hparts, rfl⟩ := build_eq_done hsplat
  obtain ⟨_, _, hparts, h⟩ := bind_eq_done hparts
  cases h
  obtain ⟨star, s₂, hstar, h⟩ := bind_eq_done hparts
  obtain ⟨hleads, -, hextra⟩ := Takes.mark word e s hs star s₂ hstar
  obtain ⟨_, _, hpart, h⟩ := bind_eq_done h
  cases h
  obtain ⟨name, hname, rfl⟩ := part_eq_done hpart
  obtain ⟨hleads', -, -, -, hstop, -⟩ :=
    reads_place hk p _ (stays_extras s₂ hleads.fits _ _ rfl).1 name _ hname
  refine isUntyped_of_last hleads'.fits (fun hmark => hnext ⟨rfl, hmark⟩) rfl fun found _ hfind => ?_
  have hnot : ∀ c, IsExtra text c → ¬ decide (c.kind = .identifier) = true := by
    rintro c ⟨k, s, hk, -, rfl⟩
    rcases hk with rfl | rfl <;> simp [Tree.leaf, Tree.kind]
  have hskip : (star ++ (s₂.extras ++ [name])).find? (fun c => decide (c.kind = .identifier)) =
      [name].find? fun c => decide (c.kind = .identifier) := by
    rw [List.find?_append, List.find?_append,
      List.find?_eq_none.mpr fun c hc => hnot c (hextra c hc),
      List.find?_eq_none.mpr fun c hc => hnot c (hleads.fits.extras c hc)]
    rfl
  rw [Tree.children, hskip] at hfind
  obtain rfl := List.mem_singleton.mp (List.mem_of_find?_eq_some hfind)
  exact hstop

/-- **A parameter that could have a type has none only if none follows.** -/
theorem isUntyped_of_parameter {p : Place} {s s' : State} {t : Tree} (hs : s.Fits text)
    (h : parameter k true p s = .done t s') (hbare : t.kind.isBare = true) : t.IsUntyped text := by
  have hnot : ∀ {kind : Kind}, kind.isBare = false → t.kind ≠ kind := by
    rintro _ hkind rfl
    rw [hkind] at hbare
    exact Bool.noConfusion hbare
  obtain ⟨_, _, hpeek, h⟩ := bind_eq_done h
  cases hpeek
  rcases ite_eq_done h with ⟨-, h⟩ | ⟨-, h⟩
  · rcases orElse_eq_done h with h | ⟨reach, h⟩
    · exact isUntyped_of_starredParameter hk hs h hbare
    · exact absurd (Answers.leaf (· = .keywordSeparator) rfl _ t s' h) (hnot rfl)
  rcases ite_eq_done h with ⟨-, h⟩ | ⟨-, h⟩
  · exact isUntyped_of_starredParameter hk hs h hbare
  rcases ite_eq_done h with ⟨-, h⟩ | ⟨-, h⟩
  · exact absurd (Answers.leaf (· = .positionalSeparator) rfl _ t s' h) (hnot rfl)
  have hends : ∀ {q : Parser Tree}, Reads text q → ∀ {first s₁}, q s = .done first s₁ →
      s₁.Fits text ∧ first.span.stop = s₁.last.byte := by
    intro q hq first s₁ hfirst
    obtain ⟨hleads, -, -, -, hstop, -⟩ := hq s hs first s₁ hfirst
    exact ⟨hleads.fits, hstop⟩
  -- a pattern and a name go on in the same way
  rcases ite_eq_done h with ⟨-, h⟩ | ⟨-, h⟩
  all_goals
    obtain ⟨first, s₁, hfirst, h⟩ := bind_eq_done h
    obtain ⟨hs₁, hstop⟩ : s₁.Fits text ∧ first.span.stop = s₁.last.byte := by
      first
      | exact hends (reads_asPattern (hk.atom p)) hfirst
      | exact hends (reads_identifier _) hfirst
    rcases ite_eq_done h with ⟨-, h⟩ | ⟨hfirst, h⟩
    · obtain ⟨_, _, hfail, -⟩ := bind_eq_done h
      exact absurd hfail (by simp [fail])
    obtain ⟨_, _, hpeek, h⟩ := bind_eq_done h
    cases hpeek
    rcases ite_eq_done h with ⟨-, h⟩ | ⟨-, h⟩
    · exact absurd (Answers.extend (· = .defaultParameter) rfl s₁ t s' h) (hnot rfl)
    rcases ite_eq_done h with ⟨-, h⟩ | ⟨hnext, h⟩
    · obtain ⟨kind, cs, hparts, rfl⟩ := buildFrom_eq_done h
      have hkind : kind.isBare = false :=
        Answers.bind (P := fun x : Kind × List Tree => x.1.isBare = false) (fun _ => .bind fun _ =>
          .bind fun _ => .ite (.bind fun _ => .pure rfl) (.pure rfl)) s₁ (kind, cs) s' hparts
      exact absurd rfl (hnot hkind)
    · obtain ⟨rfl, rfl⟩ := pure_eq_done h
      have hname : first.kind = .identifier := by
        have hkinds : ¬ first.kind = .identifier → first.kind = .tuplePattern := by
          simpa using hfirst
        exact not_not.mp (mt hkinds (hnot rfl))
      exact isUntyped_of_last hs₁ (fun hmark => hnext ⟨rfl, hmark, hname⟩) hstop
        fun _ hne => absurd hname hne

theorem reads_lambda (level : Level) (p : Place) : Reads text (lambda k level p) := by
  have hparameter := keeps_parameter hk false .header
  refine .node rfl ((Takes.mark _ _).bind fun head hhead => .after stays_peek fun _ _ => ?_)
  have hbody : ∀ parameters, AllSound text parameters → Keeps text (AllSound text) (do
      let colon ← mark ":" .operand
      pure (head ++ parameters ++ colon ++ (← partAs .body (k.expression level p)))) :=
    fun parameters hparameters => (Keeps.mark _ _).bind fun colon hcolon =>
      .behind (by simp [hhead.sound, hparameters, hcolon]) ((hk.expression level p).keeps.partAs _)
  refine .ite (.bind (.pure allSound_nil) hbody) (.bind (.partAs _ (.node rfl ?_)) hbody)
  exact .append hparameter.part (hparameter.moreItems _ _)

/-! ### Comprehensions -/

theorem keeps_iterated : Keeps text (Tree.Sound text) (iterated k) := (hk.expression _ _).keeps

theorem keeps_forInClause : Keeps text (Tree.Sound text) (forInClause k) := by
  refine .node rfl ((Keeps.mark? _ _).bind fun async hasync =>
    (Keeps.mark _ _).bind fun head hhead => ?_)
  refine ((reads_targets hk .header).keeps.partAs _).bind fun left hleft =>
    (Keeps.mark _ _).bind fun within hwithin => ?_
  exact ((keeps_iterated hk).partAs _).bind fun right hright =>
    .behind (by simp [*]) ((keeps_iterated hk).moreItems _ _)

theorem keeps_ifClause (level : Level) (p : Place) :
    Keeps text (Tree.Sound text) (ifClause k level p) :=
  .node rfl (.append (.mark _ _) (hk.expression level p).keeps.part)

theorem keeps_clauses : Keeps text (AllSound text) (clauses k) := by
  refine (keeps_forInClause hk).part.bind fun first hfirst =>
    .loop (fun acc hacc => .after stays_peek fun t _ => .ite ?_ (.ite ?_ .stop)) hfirst
  · exact .goOnBehind hacc (keeps_forInClause hk).part
  · exact .goOnBehind hacc (keeps_ifClause hk _ _).part

/-! ### Items of brackets -/

theorem reads_unpacking : Reads text (unpacking k) :=
  .splat (.after stays_extras fun _ hbefore => .after stays_peek fun _ _ =>
    .ite .fail_bind (.bound hbefore.sound (reads_inner hk)))

theorem reads_item {groupKind : Kind} (hkind : groupKind.isGroup = true) :
    Reads text (item k groupKind) := by
  refine (reads_inner hk).bind fun t ht => .ite ?_ (.pure rfl)
  split
  · rename_i g hg
    obtain ⟨hsound, hspan, -⟩ := Tree.sound_wholeGroup? hkind ht hg
    exact .replace hsound ⟨congrArg Span.start hspan, congrArg Span.stop hspan⟩
      (Nat.le_of_eq (ht.earliest_wholeGroup? hkind hg).symm)
  · exact .fail

theorem reads_element : Reads text (element k) :=
  .after stays_peek fun _ _ => .ite (reads_yieldExpression hk _)
    (.ite (reads_unpacking hk) (reads_item hk rfl))

/-- The first item of a display ends with the last token or, if its star binds to less than it could,
before. -/
theorem firstElement_isItem {s s' : State} {t : Tree} (hs : s.Fits text)
    (h : firstElement k s = .done t s') :
    s.Leads text s' ∧ t.Sound text ∧ s.ahead.start.byte ≤ s'.last.byte ∧
      IsItem s.last.byte s'.last.byte t := by
  obtain ⟨u, s₁, hu, h⟩ := bind_eq_done h
  have hforward := (reads_element hk).forward hs hu
  obtain ⟨hleads, htaken, hsound, hstart, hstop, hbehind⟩ := reads_element hk s hs u s₁ hu
  have hitem : IsItem s.last.byte s₁.last.byte u := ⟨hbehind, hforward, Nat.le_of_eq hstop⟩
  obtain ⟨_, _, hpeek, h⟩ := bind_eq_done h
  cases hpeek
  split at h
  · obtain ⟨rfl, rfl⟩ := pure_eq_done h
    cases hg : u.wholeGroup? .parenthesizedSplat with
    | none => exact ⟨hleads, hsound, htaken, hitem⟩
    | some g =>
        obtain ⟨hgroup, hspan, -⟩ := Tree.sound_wholeGroup? rfl hsound hg
        refine ⟨hleads, hgroup, htaken, ⟨?_, ?_, ?_⟩⟩
        · show s.last.byte ≤ g.earliest
          rw [hsound.earliest_wholeGroup? rfl hg]
          exact hbehind
        · show g.span.start ≤ g.span.stop
          rwa [hspan]
        · show g.span.stop ≤ s₁.last.byte
          rw [hspan]
          exact hitem.stop
  · obtain ⟨rfl, rfl⟩ := pure_eq_done h
    cases hv : u.tightened? with
    | none => exact ⟨hleads, hsound, htaken, hitem⟩
    | some v =>
        obtain ⟨hv', hstart', hlies⟩ := hsound.tightened? hv
        refine ⟨hleads, hv', htaken, ⟨?_, hlies.forward, hlies.stop.trans hitem.stop⟩⟩
        have hgroup : v.kind.isGroup = false := by
          by_contra hgroup
          have htext := Kind.isText_of_isGroup (by simpa using hgroup)
          simp [Tree.isText_tightened? hv] at htext
        exact hbehind.trans (Tree.earliest_le_of_start hgroup hstart')

theorem keeps_firstElement : Keeps text (Tree.Sound text) (firstElement k) := by
  intro s hs t s' h
  obtain ⟨hleads, hsound, -⟩ := firstElement_isItem hk hs h
  exact ⟨hleads, hsound⟩

/-! ### Brackets -/

theorem keeps_display {kinds : Kind → Bool} {closer : String} {comprehension many single : Kind}
    {item : Parser Tree} {e : Expect} {before : List Tree}
    (hitem : Keeps text (Tree.Sound text) item) (hbefore : AllSound text before)
    (hcomprehension : kinds comprehension = true) (hmany : kinds many = true)
    (hsingle : kinds single = true) :
    Keeps text (AreParts text kinds)
      (display k closer comprehension many single item e before) := by
  refine .after stays_peek fun t _ => .ite ?_ (.ite ?_ ?_)
  · exact (keeps_clauses hk).bind fun _ _ => (Keeps.mark _ _).bind fun _ _ =>
      .ofKind hcomprehension (by simp [*])
  · exact (hitem.itemsUntil _ _).bind fun _ _ => .ofKind hmany (by simp [*])
  · exact (Keeps.mark _ _).bind fun _ _ => .ofKind hsingle (by simp [*])

omit hk in
/-- A single item is all that there is in a group, but for the comments around it. -/
theorem display_single {closer : String} {comprehension many single : Kind} {item : Parser Tree}
    {e : Expect} {before cs : List Tree} {kind : Kind} {s s' : State}
    (h : display k closer comprehension many single item e before s = .done (kind, cs) s')
    (hcomprehension : comprehension.isGroup = false) (hmany : many.isGroup = false)
    (hkind : kind.isGroup = true) : ∃ closing, mark closer e s = .done closing s' ∧
      cs = before ++ closing := by
  have hnot : ∀ {k' : Kind}, k'.isGroup = false → k' ≠ kind := by
    rintro k' hk' rfl
    rw [hk'] at hkind
    exact Bool.noConfusion hkind
  obtain ⟨_, _, hpeek, h⟩ := bind_eq_done h
  cases hpeek
  split at h
  · obtain ⟨loops, _, -, h⟩ := bind_eq_done h
    obtain ⟨closing, _, -, h⟩ := bind_eq_done h
    exact absurd (congrArg Prod.fst (pure_eq_done h).1) (hnot hcomprehension)
  · split at h
    · obtain ⟨items, _, -, h⟩ := bind_eq_done h
      exact absurd (congrArg Prod.fst (pure_eq_done h).1) (hnot hmany)
    · obtain ⟨closing, _, hclosing, h⟩ := bind_eq_done h
      obtain ⟨heq, rfl⟩ := pure_eq_done h
      cases heq
      exact ⟨closing, hclosing, rfl⟩

theorem reads_parentheses (p : Place) : Reads text (parentheses k p) := by
  refine .bind (.buildGroup (fun head hhead => .after stays_peek fun _ _ => .ite ?_ ?_) ?_)
    fun t ht => .after stays_atTextEnd fun _ _ => .ite ?_ (.pure rfl)
  · exact (Keeps.mark _ _).bind fun _ _ => .ofKind rfl (by simp [*])
  · refine (keeps_firstElement hk).part.bind fun first hfirst =>
      keeps_display hk (reads_element hk).keeps (by simp [*]) rfl rfl ?_
    split <;> decide
  · intro lo head s hs hlo hhead kind cs s' h hgroup
    obtain ⟨_, _, hpeek, h⟩ := bind_eq_done h
    cases hpeek
    split at h
    · obtain ⟨_, _, -, h⟩ := bind_eq_done h
      cases (pure_eq_done h).1
      exact absurd hgroup (by decide)
    · obtain ⟨first, s₁, hfirst, h⟩ := bind_eq_done h
      obtain ⟨t, ht, rfl⟩ := part_eq_done hfirst
      obtain ⟨hleads₁, -, htaken, hitem⟩ :=
        firstElement_isItem hk (stays_extras s hs _ _ rfl).1 ht
      obtain ⟨closing, hclosing, rfl⟩ := display_single h rfl rfl hgroup
      obtain ⟨hleads₂, htaken₂, -⟩ := Takes.mark ")" p.after s₁ hleads₁.fits closing s' hclosing
      obtain ⟨-, rfl, -⟩ := mark_eq_done hclosing
      have hforward : s.last.byte ≤ s₁.last.byte := hleads₁.forward
      refine (AreItems.append ?_ (AreItems.append ?_ ?_)).append ?_
      · exact hhead.mono (Nat.le_refl _) (hforward.trans hleads₂.forward)
      · exact (hs.areItems_extras htaken).mono hlo hleads₂.forward
      · intro c hc
        obtain rfl := List.mem_singleton.mp hc
        exact hitem.mono hlo hleads₂.forward
      · exact (hleads₁.fits.areItems_extras htaken₂).mono (hlo.trans hforward) (Nat.le_refl _)
  · cases hu : t.asTuple? with
    | none => exact .pure rfl
    | some u =>
        obtain ⟨hsound, hspan⟩ := ht.asTuple? hu
        exact .replace hsound ⟨congrArg Span.start hspan, congrArg Span.stop hspan⟩
          (Nat.le_of_eq (ht.earliest_asTuple? hu).symm)

theorem reads_list (p : Place) : Reads text (list k p) := by
  refine .build ((Takes.mark _ _).bind fun head hhead => .after stays_peek fun _ _ => .ite ?_ ?_)
  · exact (Keeps.mark _ _).bind fun _ hcloser => .ofKind rfl (by simp [hhead.sound, hcloser])
  · exact (keeps_firstElement hk).part.bind fun first hfirst =>
      keeps_display hk (reads_element hk).keeps (by simp [hhead.sound, hfirst]) rfl rfl rfl

theorem keeps_pairAfter {key : Tree} (hkey : key.Sound text) :
    Keeps text (Tree.Sound text) (pairAfter k key) :=
  .extend rfl (.append (.mark _ _) ((reads_inner hk).keeps.partAs _)) hkey

theorem reads_dictionarySplat : Reads text (node .dictionarySplat do
    pure ((← mark "**" .operand) ++ (← part (inner k)))) :=
  .node rfl ((Takes.mark _ _).bind fun _ hstars =>
    .behind hstars.sound (reads_inner hk).keeps.part)

theorem keeps_dictionaryItem : Keeps text (Tree.Sound text) (dictionaryItem k) :=
  .after stays_peek fun _ _ => .ite (reads_dictionarySplat hk).keeps
    ((hk.expression _ _).keeps.bind fun _ hkey => keeps_pairAfter hk hkey)

theorem reads_braced (p : Place) : Reads text (braced k p) := by
  refine .build ((Takes.mark _ _).bind fun head hhead => ?_)
  have hhead : AllSound text head := hhead.sound
  refine .after stays_peek fun _ _ => .ite ?_ (.ite ?_ (.ite ?_ ?_))
  · exact (Keeps.mark _ _).bind fun _ _ => .ofKind rfl (by simp [*])
  · exact (Keeps.mark _ _).bind fun _ _ => (Keeps.mark _ _).bind fun _ _ =>
      .ofKind rfl (by simp [*])
  · exact (keeps_dictionaryItem hk).part.bind fun _ _ =>
      ((keeps_dictionaryItem hk).itemsUntil _ _).bind fun _ _ => .ofKind rfl (by simp [*])
  · refine .after stays_extras fun before hbefore =>
      (keeps_firstElement hk).bind fun first hfirst => ?_
    have hbefore : AllSound text before := hbefore.sound
    refine .after stays_peek fun _ _ =>
      .ite ?_ (keeps_display hk (reads_element hk).keeps (by simp [*]) rfl rfl rfl)
    exact (keeps_pairAfter hk hfirst).bind fun pair hpair =>
      keeps_display hk (keeps_dictionaryItem hk) (by simp [*]) rfl rfl rfl

/-! ### Calls, items and attributes -/

/-- The value of a keyword goes forward. -/
theorem continues_keywordArgument (value : Tree) : Continues text value id
    (extend .keywordArgument (value.withField .name) do
      pure ((← mark "=" .operand) ++ (← partAs .value (inner k)))) := by
  intro s hs hvalue _ _ t s' h
  obtain ⟨kind, cs, hparts, rfl⟩ := buildFrom_eq_done h
  obtain ⟨ds, s₁, hread, hpure⟩ := bind_eq_done hparts
  obtain ⟨heq, rfl⟩ := pure_eq_done hpure
  cases heq
  obtain ⟨hleads, hds⟩ := Keeps.append (.mark _ _) ((reads_inner hk).keeps.partAs _) s hs ds s₁ hread
  obtain ⟨equals, s₂, hmark, hrest⟩ := bind_eq_done hread
  obtain ⟨hleads₂, -, hequals⟩ := Takes.mark "=" .operand s hs equals s₂ hmark
  obtain ⟨parts, s₃, hpart, hpure⟩ := bind_eq_done hrest
  obtain ⟨rfl, rfl⟩ := pure_eq_done hpure
  obtain ⟨v, hv, rfl⟩ := partAs_eq_done hpart
  have hforward : v.span.start ≤ v.span.stop :=
    (reads_inner hk).forward (stays_extras s₂ hleads₂.fits _ _ rfl).1 hv
  have hfront : ∀ c ∈ value.withField .name :: (equals ++ s₂.extras), c.field ≠ some .value := by
    refine List.forall_mem_cons.mpr ⟨by simp, List.forall_mem_append.mpr ⟨?_, ?_⟩⟩
    · exact fun c hc => (hequals c hc).field_ne _
    · exact fun c hc => (hleads₂.fits.extras c hc).field_ne _
  have hfind : (value.withField .name :: (equals ++ (s₂.extras ++ [v.withField .value]))).find?
      (fun c => c.field == some .value) = some (v.withField .value) := by
    rw [← List.append_assoc, ← List.cons_append]
    exact find?_field hfront v _
  have hname : (value.withField .name).Sound text := hvalue.withField _
  have hstart : (value.withField .name).span.start = value.span.start := by
    rw [Tree.span_withField]
  have hstretch : IsStretch text ⟨(value.withField .name).span.start, s₃.last.byte,
      (value.withField .name).span.line, (value.withField .name).span.column⟩ :=
    ⟨hname.stretch.start, hleads.fits.isPlace_last⟩
  refine ⟨hleads, .node ⟨hstretch, fun c hc => ?_, nofun, nofun⟩ (promises_of_holder (Or.inr rfl))
    (allSound_cons.mpr ⟨hname, hds⟩), hstart, rfl, Tree.earliest_le_of_start rfl hstart⟩
  obtain rfl := Option.some.inj (hfind.symm.trans hc)
  rwa [Tree.span_withField]

theorem reads_argument : Reads text (argument k) := by
  refine .after stays_peek fun _ _ => .ite (reads_unpacking hk) (.ite (reads_dictionarySplat hk) ?_)
  exact (reads_item hk rfl).bind fun value _ => .after stays_peek fun _ _ =>
    .ite (continues_keywordArgument hk value) (.pure rfl)

theorem keeps_arguments (p : Place) : Keeps text (Tree.Sound text) (arguments k p) := by
  refine .build ((Keeps.mark _ _).bind fun head hhead =>
    .after stays_peek fun _ _ => .ite ?_ (.ite ?_ ?_))
  · exact (Keeps.mark _ _).bind fun _ _ => .ofKind rfl (by simp [*])
  · exact (Keeps.mark _ _).bind fun _ _ => (Keeps.mark _ _).bind fun _ _ =>
      .ofKind rfl (by simp [*])
  · refine .after stays_extras fun before hbefore => (reads_argument hk).keeps.bind fun first hfirst =>
      .after stays_peek fun t _ => keeps_display hk (reads_argument hk).keeps ?_ rfl rfl rfl
    have htight : (first.tightened?.getD first).Sound text :=
      hfirst.getD fun u hu => (hfirst.tightened? hu).1
    simp only [allSound_append, allSound_cons, allSound_nil, and_true]
    refine ⟨⟨hhead, hbefore.sound⟩, ?_⟩
    split
    · exact htight
    · exact hfirst

theorem keeps_callArguments (p : Place) : Keeps text (Tree.Sound text) (callArguments k p) :=
  (keeps_arguments hk p).bind fun _ ht => .after stays_atTextEnd fun _ _ =>
    .ite (.pure ht.withFirstGroupWhole) (.pure ht)

theorem closes_display {comprehension many single : Kind} {item : Parser Tree} {e : Expect}
    {before : List Tree} (hitem : Keeps text (Tree.Sound text) item) :
    Closes text (display k ")" comprehension many single item e before) :=
  .after stays_peek fun _ _ => .ite (.bind (keeps_clauses hk) fun _ _ => (Closes.mark e).map)
    (.ite (Closes.itemsUntil e hitem).map (Closes.mark e).map)

/-- **The arguments of a call end with a parenthesis.** -/
theorem closes_callArguments (p : Place) : Closes text (callArguments k p) := by
  have harguments : Closes text (arguments k p) := by
    refine .build (.bind (Keeps.mark _ _) fun head _ => .after stays_peek fun _ _ => .ite ?_ (.ite ?_ ?_))
    · exact (Closes.mark _).map
    · exact .bind (Keeps.mark _ _) fun _ _ => (Closes.mark _).map
    · exact .after stays_extras fun _ _ => .bind (reads_argument hk).keeps fun _ _ =>
        .after stays_peek fun _ _ => closes_display hk (reads_argument hk).keeps
  refine harguments.followed fun t s u s' h => ?_
  obtain ⟨_, _, hend, h⟩ := bind_eq_done h
  cases hend
  split at h
  all_goals rw [(pure_eq_done h).2]

theorem keeps_sliceBound : Keeps text (AllSound text) (sliceBound k) :=
  .after stays_peek fun _ _ => .ite (reads_inner hk).keeps.part (.pure allSound_nil)

theorem keeps_sliceTail : Keeps text (AllSound text) (sliceTail k) := by
  refine (Keeps.mark _ _).bind fun colon hcolon => (keeps_sliceBound hk).bind fun stop hstop =>
    (Keeps.mark? _ _).bind fun second hsecond => ?_
  cases second with
  | none => exact .pure (allSound_append.mpr ⟨hcolon, hstop⟩)
  | some second =>
      exact .behind (allSound_append.mpr ⟨allSound_append.mpr ⟨hcolon, hstop⟩, hsecond⟩)
        (keeps_sliceBound hk)

theorem keeps_subscriptItem : Keeps text (Tree.Sound text) (subscriptItem k) :=
  .after stays_peek fun _ _ => .ite (.node rfl (keeps_sliceTail hk))
    ((reads_inner hk).keeps.bind fun _ hfirst => .after stays_peek fun _ _ =>
      .ite (.extend rfl (keeps_sliceTail hk) hfirst) (.pure hfirst))

theorem continues_trailer? (p : Place) (t : Tree) :
    Continues text t (·.getD t) (trailer? k p t) := by
  refine .after stays_peek fun ahead _ => .ite (.some (.extendAs rfl .object ?_))
    (.ite (.some ?_) (.ite (.some (.extendAs rfl .value ?_)) .none))
  · exact .append (.mark _ _) ((reads_identifier _).keeps.partAs _)
  · exact .extendOf rfl ((keeps_callArguments hk p).partAs _)
      (fun _ => (closes_callArguments hk p).partAs _) (fun ht => ht.withField _)
      (Tree.span_withField _ t)
  · exact .append₃ (.mark _ _) (keeps_subscriptItem hk).part ((keeps_subscriptItem hk).itemsUntil _ _)

theorem continues_trailers (p : Place) (first : Tree) :
    Continues text first id (trailers k p first) :=
  .loop (fun t _ => continues_trailer? hk p t) first

theorem reads_bareAtom (p : Place) : Reads text (bareAtom k p) := by
  intro s hs t s' h
  obtain ⟨_, _, hpeek, h⟩ := bind_eq_done h
  cases hpeek
  cases htoken : s.token with
  | name word =>
      have hname : Reads text (if word = "await" then do
          if startsOperand (← peekSecond p.after) then fail else variableName p.after
          else variableName p.after) :=
        .ite (.after (stays_peekSecond _) fun _ _ => .ite .fail (reads_variableName _))
          (reads_variableName _)
      rw [htoken] at h
      rcases ite_eq_done h with ⟨rfl, h⟩ | ⟨-, h⟩
      · exact Reads.of_word hs htoken rfl rfl h
      rcases ite_eq_done h with ⟨rfl, h⟩ | ⟨-, h⟩
      · exact Reads.of_word hs htoken rfl rfl h
      rcases ite_eq_done h with ⟨rfl, h⟩ | ⟨-, h⟩
      · exact Reads.of_word hs htoken rfl rfl h
      exact hname s hs t s' h
  | integer | float =>
      rw [htoken] at h
      exact Reads.leaf rfl s hs t s' h
  | quote q =>
      rw [htoken] at h
      exact reads_strings hk p.after s hs t s' h
  | op word =>
      rw [htoken] at h
      exact Reads.ite (reads_parentheses hk p) (.ite (reads_list hk p) (.ite (reads_braced hk p)
        (.ite (.leaf rfl) .fail))) s hs t s' h
  | _ =>
      rw [htoken] at h
      exact Reads.fail s hs t s' h

theorem reads_starred (p : Place) (depth : Nat) : Reads text (starred k p depth) := by
  induction depth with
  | zero => exact .fail
  | succ depth ih =>
      refine .splat (.after stays_extras fun before hbefore => .after stays_peek fun _ _ =>
        .ite .fail_bind ?_)
      · have hplace : ∀ first, Continues text first id (do
            let t ← loop (fun t => if isPlace t then pure none else trailer? k p t) first
            if isPlace t then pure t else fail) :=
          fun first => .bind (.loop (fun t _ => .ite .none (continues_trailer? hk p t)) first)
            fun _ _ => .ite (.pure rfl) .fail
        have htarget : Reads text (do
            let first ← if (← peek).isStar then starred k p depth else bareAtom k p
            let t ← loop (fun t => if isPlace t then pure none else trailer? k p t) first
            if isPlace t then pure t else fail) :=
          .after stays_peek fun _ _ => .ite (ih.bind fun first _ => hplace first)
            ((reads_bareAtom hk p).bind fun first _ => hplace first)
        exact .bound hbefore.sound htarget

theorem reads_atom (p : Place) : Reads text (atom k p) := by
  refine .after stays_peek fun _ _ => .ite (.after stays_stepLimit fun depth _ => ?_) ?_
  · exact (reads_starred hk p depth).bind fun first _ => continues_trailers hk p first
  · exact (reads_bareAtom hk p).bind fun first _ => continues_trailers hk p first

/-! ### Operators -/

theorem reads_starOperand (p : Place) : Reads text (starOperand k p) := by
  refine (hk.atom p).bind fun t ht => .after stays_atTextEnd fun ends _ => ?_
  split
  · rename_i hplace
    cases hu : t.loosened? with
    | none => exact .pure rfl
    | some u =>
        obtain ⟨hsound, hstart, -⟩ := ht.loosened? hu
        have hgroup : u.kind.isGroup = false := by rw [Tree.kind_loosened? hu]; rfl
        exact .replace hsound ⟨hstart, Tree.loosened?_stop hplace.1 hu⟩
          (Tree.earliest_le_of_start hgroup hstart)
  · exact .pure rfl

/-- A sign, which is not empty, stands in front of its operand. -/
theorem reads_signed {p : Place} {s s' : State} {t : Tree} (hs : s.Fits text)
    (hsign : isOneOf s.token ["+", "-", "~"] = true)
    (h : node .unary (do
      let before ← extras
      shift .operand
      pure (before ++ (← partAs .argument (k.arithmetic powerStrength p)))) s = .done t s') :
    s.Leads text s' ∧ s.ahead.start.byte ≤ s'.last.byte ∧ t.Sound text ∧
      t.span.start = s.ahead.start.byte ∧ t.span.stop = s'.last.byte ∧
      s.last.byte ≤ t.earliest := by
  have hoperand := hk.arithmetic powerStrength p
  obtain ⟨kind, cs, hparts, rfl⟩ := build_eq_done h
  obtain ⟨ds, _, hparts, hrest⟩ := bind_eq_done hparts
  obtain ⟨heq, rfl⟩ := pure_eq_done hrest
  cases heq
  obtain ⟨_, _, hextras, hparts⟩ := bind_eq_done hparts
  cases hextras
  obtain ⟨_, s₁, hshift, hparts⟩ := bind_eq_done hparts
  obtain ⟨parts, _, hpart, hrest⟩ := bind_eq_done hparts
  obtain ⟨rfl, rfl⟩ := pure_eq_done hrest
  have hclean := (stays_extras s hs _ _ rfl).1
  obtain ⟨hleads₁, htaken, -⟩ := Takes.shift _ _ hclean _ _ hshift
  obtain ⟨hleads, hsound⟩ := hoperand.keeps.partAs .argument _ hleads₁.fits _ _ hpart
  obtain ⟨value, hvalue, rfl⟩ := partAs_eq_done hpart
  have hclean₁ := (stays_extras s₁ hleads₁.fits _ _ rfl).1
  have hforward := hoperand.forward hclean₁ hvalue
  obtain ⟨-, hend, -, hstart, -⟩ := hoperand _ hclean₁ _ _ hvalue
  have hlast : s₁.last = s.ahead.stop.pos := by
    cases hshift
    exact State.last_resume _ _ _
  -- the sign is a character at least, so what follows it starts later
  have hlt : s.ahead.start.byte < s₁.ahead.start.byte := by
    obtain ⟨word, hword, hmark⟩ := List.any_eq_true.mp hsign
    have hne : word.toList ≠ [] := by
      rcases (by simpa using hword : word = "+" ∨ word = "-" ∨ word = "~") with rfl | rfl | rfl <;>
        decide
    exact Nat.lt_of_lt_of_le (hs.start_lt_stop hmark hne) (hlast ▸ hleads₁.fits.last_le_start)
  have honly : ∀ c ∈ s.extras ++ (s₁.extras ++ [value.withField .argument]),
      c.field = some .argument → c = value.withField .argument := by
    intro c hc hfield
    rcases List.mem_append.mp hc with hc | hc
    · exact absurd hfield (by simp [(hs.extras c hc).field])
    · rcases List.mem_append.mp hc with hc | hc
      · exact absurd hfield (by simp [(hleads₁.fits.extras c hc).field])
      · exact List.mem_singleton.mp hc
  have htaken : s.ahead.start.byte ≤ _ := Nat.le_trans htaken hleads.forward
  refine Reads.of_built hs ⟨hleads.fits, Nat.le_trans hleads₁.forward hleads.forward⟩ htaken rfl
    (.node ⟨hs.isStretch hleads.fits, fun c hc => ?_, nofun, nofun⟩
      ⟨nofun, fun h => absurd h (by decide), nofun, nofun, fun _ c hc hfield => ?_, nofun,
        nofun, nofun, nofun, isGiven_of_not_hasRoles rfl _⟩ (allSound_append.mpr ⟨hs.extras.sound, hsound⟩))
  · have hfield : c.field = some .argument := by simpa using List.find?_some hc
    rw [honly c (List.mem_of_find?_eq_some hc) hfield, Tree.span_withField]
    exact hforward
  · obtain rfl := honly c hc hfield
    obtain ⟨before, between, htext, -, hbefore, hbetween⟩ :=
      hs.front.exists_between hleads₁.fits.front (Nat.le_of_lt hlt)
    refine ⟨before, between, _, htext, ?_, hbefore, ?_, ?_⟩
    · rintro rfl
      rw [List.append_nil, ← hbefore] at hbetween
      exact Nat.ne_of_gt hlt hbetween
    · rw [Tree.span_withField, hstart]
      exact hbetween
    · rw [Tree.span_withField, hstart]
      exact hend

theorem reads_operand (p : Place) : Reads text (operand k p) := by
  have hrest : ∀ t : Token, Reads text (do
      if t.isStar then starOperand k p
      else if t.isMark "await" && startsOperand (← peekSecond p.after) then
        let word ← leaf .keyword p.after
        extend .await word (part (k.arithmetic powerStrength p))
      else k.atom p) := by
    refine fun t => .ite (reads_starOperand hk p) (.after (stays_peekSecond _) fun _ _ =>
      .ite (.bind (.leaf rfl) fun word _ => .extendSame rfl ?_) (hk.atom p))
    exact (hk.arithmetic _ p).keeps.part
  intro s hs t s' h
  obtain ⟨token, _, hpeek, h⟩ := bind_eq_done h
  cases hpeek
  split at h
  · rename_i hsign
    exact reads_signed hk hs hsign h
  · exact hrest _ s hs t s' h

theorem reads_arithmetic (least : Nat) (p : Place) : Reads text (arithmetic k least p) := by
  refine (reads_operand hk p).bind fun first _ => .loop (fun left _ => ?_) first
  refine .after stays_peek fun t _ => ?_
  split
  · refine .ite (.some (.extendSame rfl ?_)) .none
    exact .after stays_extras fun before hbefore => (Takes.shift _).keeps.bind fun _ _ =>
      .behind hbefore.sound (hk.arithmetic _ p).keeps.part
  · exact .none

omit hk in
theorem keeps_comparisonMark :
    Keeps text (fun o => AllSound text (o.getD [])) comparisonMark := by
  refine .after stays_peek fun t _ => .ite ?_ (.ite ?_ (.ite ?_ (.pure allSound_nil)))
  · exact .after stays_extras fun before hbefore => (Takes.shift _).keeps.bind fun _ _ =>
      .pure hbefore.sound
  · exact (Keeps.mark _ _).bind fun _ hfirst => (Keeps.mark? _ _).bind fun _ hsecond =>
      .pure (allSound_append.mpr ⟨hfirst, hsecond⟩)
  · exact (Keeps.mark _ _).bind fun _ hfirst => (Keeps.mark _ _).bind fun _ hsecond =>
      .pure (allSound_append.mpr ⟨hfirst, hsecond⟩)

theorem reads_comparison (p : Place) : Reads text (comparison k p) := by
  refine (hk.arithmetic 0 p).bind fun first _ => .after stays_peek fun _ _ =>
    .ite (.extendSame rfl (.loop (fun acc hacc => ?_) allSound_nil)) (.pure rfl)
  refine keeps_comparisonMark.bind fun o ho => ?_
  cases o with
  | none => exact .stop
  | some m => exact .goOnBehind (allSound_append.mpr ⟨hacc, ho⟩) (hk.arithmetic 0 p).keeps.part

theorem reads_clause (level : Level) (p : Place) : Reads text (clause k level p) := by
  refine .after stays_peek fun _ _ => .ite (reads_lambda hk _ p) (.ite (.node rfl ?_) ?_)
  · exact (Takes.mark _ _).bind fun head hhead =>
      .behind hhead.sound ((hk.expression .negation p).keeps.partAs _)
  · refine (reads_comparison hk p).bind fun first _ => .after stays_peek fun _ _ =>
      .ite (.extendAs rfl .name ?_) (.pure rfl)
    exact .append (.mark _ _) ((hk.expression .renamed p).keeps.partAs _)

theorem reads_expression (level : Level) (p : Place) : Reads text (expression k level p) := by
  refine (reads_clause hk level p).bind fun first _ => .loop (fun left _ => ?_) first
  refine .after stays_peek fun t _ => .ite (.some (.extendSame rfl ?_))
    (.ite (.some (.extendSame rfl ?_)) (.ite (.some (.extendSame rfl ?_))
    (.ite (.some (.extendSame rfl ?_)) .none)))
  · exact .append (.mark _ _) (hk.expression .negation p).keeps.part
  · exact .append (.mark _ _) (hk.expression .conjunction p).keeps.part
  · exact .append (.mark _ _) (.partAs _ (.node rfl (hk.expression .disjunction p).keeps.part))
  · exact .append₄ (.mark _ _) (hk.expression .conditional .header).keeps.part (.mark _ _)
      (hk.expression .conditional p).keeps.part

/-! ### Embedded expressions -/

theorem within_embedded (c : Cursor) (hc : c.IsIn text) :
    Within text c (Tree.Sound text) (embedded k c) := by
  intro s hs t c' s' h
  have hopened := hc.advance 1
  have hinside : State.Fits text (State.resume .operand (c.advance 1)
      { s with last := (c.advance 1).pos, extras := [] }) :=
    State.fits_resume _ hopened rfl (.done _) hopened hs
  unfold embedded at h
  dsimp only at h
  split at h
  · exact absurd h (by simp)
  · rename_i parts s₁ hbody
    obtain ⟨hleads, hparts⟩ : State.Leads text _ s₁ ∧ AllSound text parts := by
      refine Keeps.after stays_peek
        (fun t _ => .ite (.bind (reads_yieldExpression hk .inner).keeps.part ?_)
          (.bind (reads_expressions hk .inner).keeps.part ?_)) _ hinside _ _ hbody
      all_goals
        refine fun value hvalue => (Keeps.mark? _ _).bind fun equals hequals =>
          .after stays_peek fun _ _ => .ite ?_ ?_
        · exact .after stays_extras fun before hbefore => (Takes.shift _).keeps.bind fun _ _ =>
            .pure_bind (.pure (by simp [hbefore.sound, *]))
        · exact .pure_bind (.pure (by simp [*]))
    have hbefore : c.pos.byte ≤ s₁.ahead.start.byte := by
      have hforward := hleads.forward
      rw [State.last_resume] at hforward
      exact Nat.le_trans (Cursor.byte_le_advance 1 c)
        (Nat.le_trans hforward hleads.fits.last_le_start)
    have hsound : ∀ trees (close : Cursor), AllSound text trees → close.IsIn text →
        (Tree.node .interpolation none (.between c.pos close.pos) (parts ++ trees)).Sound text :=
      fun trees close htrees hclose => Tree.sound_plain rfl
        ⟨isPlace_of_isIn hc, isPlace_of_isIn hclose⟩ (allSound_append.mpr ⟨hparts, htrees⟩)
    split at h
    · cases h
      have hclose := hleads.fits.front.advance 1
      exact ⟨hsound _ _ hleads.fits.extras.sound hclose, hclose,
        Nat.le_trans hbefore (Cursor.byte_le_advance 1 _), hs⟩
    · split at h
      · split at h
        · rename_i trees rest s₂ hpieces
          cases h
          obtain ⟨htrees, hrest, hle, hsize⟩ := within_formatPieces hk _
            (hleads.fits.front.advance 1) allSound_nil _ (by exact hs) _ _ _ hpieces
          have hrestLe := Nat.le_trans (Cursor.byte_le_advance 1 _) hle
          exact ⟨hsound _ _ htrees (hrest.advance 1), hrest.advance 1,
            Nat.le_trans (Nat.le_trans hbefore hrestLe) (Cursor.byte_le_advance 1 _), hsize⟩
        · exact absurd h (by simp)
      · exact absurd h (by simp)

/-! ### Types -/

theorem keeps_typeParameters (p : Place) : Keeps text (Tree.Sound text) (typeParameters k p) :=
  .node rfl (.append₃ (.mark _ _) (hk.type true .inner).part ((hk.type true .inner).itemsUntil _ _))

omit hk in
theorem keeps_splatType (p : Place) : Keeps text (AllSound text) (splatType p) :=
  .after stays_extras fun _ hbefore => (Takes.shift _).keeps.bind fun _ _ =>
    .behind hbefore.sound (reads_identifier _).keeps.part

theorem keeps_bareType (p : Place) : Keeps text (AllSound text) (bareType k p) := by
  refine .after stays_peek fun t _ => .after (stays_peekSecond _) fun second _ =>
    .ite (keeps_splatType p) (.after (stays_wouldRead _ _) fun _ _ =>
      .ite (keeps_splatType p) (.ite ?_ (hk.expression .conditional p).keeps.part))
  exact .append (reads_identifier _).keeps.part (keeps_typeParameters hk p).part

theorem keeps_type (bound : Bool) (p : Place) : Keeps text (Tree.Sound text) (type k bound p) := by
  refine .node rfl ((keeps_bareType hk p).bind fun first hfirst =>
    .loop (fun acc hacc => .after stays_peek fun t _ => ?_) hfirst)
  refine .ite ?_ (.ite ?_ (.ite ?_ .stop))
  · exact (Keeps.mark _ _).bind fun _ hmark =>
      .goOnBehind (allSound_append.mpr ⟨hacc, hmark⟩) (hk.type bound p).part
  · exact (Keeps.mark _ _).bind fun _ hmark =>
      .goOnBehind (allSound_append.mpr ⟨hacc, hmark⟩) (hk.type bound p).part
  · exact (Keeps.mark _ _).bind fun _ hmark =>
      .goOnBehind (allSound_append.mpr ⟨hacc, hmark⟩) (reads_identifier _).keeps.part

end

end Grammar

end Plumbline.Syntax
