/-
Readers of statements.

Every tree that the grammar answers is sound.  The readers of nested constructs are tied into one
knot, so what is said of them is proved by induction on how deep they may nest, and the tree of a
source file is sound in that file.
-/
import Plumbline.Proofs.Syntax.Expression
import Plumbline.Syntax.Grammar

namespace Plumbline.Syntax

open Plumbline.Syntax.Parser

namespace Grammar

variable {text : List Char} {k : Knot}

/-! ### Layout marks -/

theorem keeps_lineEnd (e : Expect) : Keeps text (AllSound text) (lineEnd e) :=
  .after stays_peek fun _ _ => .ite
    (.after stays_extras fun _ hbefore => (Takes.shift _).keeps.bind fun _ _ => .pure hbefore.sound)
    .fail

/-- Which blocks are open does not matter to what is ahead. -/
theorem keeps_shiftInto (e : Expect) (widths : State → List Nat) :
    Keeps text (fun _ => True) (fun s => shift e { s with widths := widths s }) := by
  intro s hs a s' h
  have hs' : State.Fits text { s with widths := widths s } :=
    ⟨hs.front, hs.stop, hs.after, hs.spelled, hs.extras, hs.size, hs.read, hs.laid, hs.comments⟩
  obtain ⟨hleads, -⟩ := (Takes.shift e).keeps _ hs' a s' h
  exact ⟨⟨hleads.fits, hleads.forward⟩, trivial⟩

theorem keeps_openBlock (width : Nat) : Keeps text (fun _ => True) (openBlock width) :=
  keeps_shiftInto _ _

theorem keeps_closeBlock : Keeps text (AllSound text) closeBlock :=
  .after stays_peek fun _ _ => .ite
    (.after stays_extras fun _ hbefore => (keeps_shiftInto _ _).bind fun _ _ => .pure hbefore.sound)
    .fail

theorem reads_ended {p : Parser Tree} (h : Reads text p) : Reads text (ended p) :=
  h.bind fun _ _ => .after stays_peek fun _ _ => .ite (.pure rfl) .fail

section

variable (hk : k.Keeps text)
include hk

theorem keeps_lineExpression : Keeps text (Tree.Sound text) (lineExpression k) :=
  (hk.expression _ _).keeps

theorem keeps_headerExpression : Keeps text (Tree.Sound text) (headerExpression k) :=
  (hk.expression _ _).keeps

/-! ### Assignments -/

omit hk in
theorem sound_toTargets? {t u : Tree} (ht : t.Sound text) (hu : toTargets? t = some u) :
    u.Sound text := by
  obtain ⟨kind, f, s, cs⟩ := t
  unfold toTargets? at hu
  split at hu
  · obtain ⟨ds, hds, rfl⟩ := Option.map_eq_some_iff.mp hu
    exact Tree.sound_plain rfl ht.stretch (Tree.sound_toPatterns? ht.parts hds)
  · exact (Tree.sound_toPattern? ht hu).1

omit hk in
theorem ne_string_of_toTargets? {t u : Tree} (hu : toTargets? t = some u) : u.kind ≠ .string := by
  obtain ⟨kind, f, s, cs⟩ := t
  unfold toTargets? at hu
  split at hu
  · obtain ⟨ds, -, rfl⟩ := Option.map_eq_some_iff.mp hu
    exact nofun
  · exact Tree.ne_string_of_toPattern? hu

/-- What is assigned to is no string. -/
theorem keeps_assignmentTo {target : Tree} (htarget : target.Sound text)
    (hkind : target.kind ≠ .string) : Keeps text (Tree.Sound text) (assignmentTo k target) := by
  have hleft := htarget.withField .left
  have hgiven : (target.withField .left).IsGiven .assignment :=
    Tree.isGiven_withField (by simpa [Kind.gives] using hkind)
  have hright : Keeps text (AllGiven text .assignment) (partAs .right k.assigned) :=
    .partAs_any _ (fun _ => rfl) hk.assigned
  refine .after stays_peek fun t _ => .ite (.extendGiven rfl ?_ hleft hgiven)
    (.ite (.extendGiven rfl ?_ hleft hgiven) (.extend rfl ?_ hleft))
  · exact (Takes.mark _ _).keeps.bind fun equals hequals => hright.bind fun value hvalue =>
      .pure (allGiven_append.mpr ⟨hequals.given, hvalue⟩)
  · refine (Takes.mark _ _).keeps.bind fun colon hcolon =>
      (Keeps.partAs_any .assignment (fun _ => rfl) (hk.type true .line)).bind fun type htype =>
        (Keeps.mark?_extra _ _).bind fun equals hequals => ?_
    have hbefore : AllGiven text .assignment (colon ++ type) :=
      allGiven_append.mpr ⟨hcolon.given, htype⟩
    cases equals with
    | none => exact .pure hbefore
    | some equals =>
        have hequals : AllExtra text equals := hequals
        exact hright.bind fun value hvalue => .pure <|
          allGiven_append.mpr ⟨allGiven_append.mpr ⟨hbefore, hequals.given⟩, hvalue⟩
  · exact .after stays_extras fun before hbefore => (Takes.shift _).keeps.bind fun _ _ =>
      .behind hbefore.sound (hk.assigned.partAs _)

theorem keeps_assignmentOf {value : Tree} (hvalue : value.Sound text) :
    Keeps text (Tree.Sound text) (assignmentOf k value) := by
  unfold assignmentOf
  split
  · rename_i target htarget
    exact keeps_assignmentTo hk (sound_toTargets? hvalue htarget) (ne_string_of_toTargets? htarget)
  · exact .fail

omit hk in
theorem keeps_passLineEnd : Keeps text (fun _ => True) passLineEnd := by
  intro s hs a s' h
  unfold passLineEnd at h
  split at h
  · cases h
    obtain ⟨c, hc, hpos, hskips⟩ := hs.after
    have hfits : State.Fits text (State.resume .operand s.ahead.front { s with extras := [] }) :=
      State.fits_resume _ hc hpos hskips hs.front hs.size
    have hlaid := State.laid_resume (s := { s with extras := [] }) (e := .operand)
      (c := s.ahead.front) (by rw [show s.size = text.length from hs.size]; exact hs.front.length_le)
    refine ⟨⟨⟨hfits.front, hfits.stop, hfits.after, hfits.spelled, ?_, hfits.size, hfits.read, ?_,
      ?_⟩, ?_⟩, trivial⟩
    · exact List.forall_mem_append.mpr ⟨hs.extras, hfits.extras⟩
    · show AreLaid (State.last (State.resume .operand s.ahead.front { s with extras := [] })).byte _ _
      rw [State.last_resume]
      exact hs.laid.append hlaid
    · refine List.forall_mem_append.mpr ⟨fun t ht hkind => Or.inl ?_, hfits.comments⟩
      exact (hs.comments t ht hkind).resolve_right (by simp_all)
    · show s.last.byte ≤ (State.resume .operand s.ahead.front { s with extras := [] }).last.byte
      exact Nat.le_of_eq (by rw [State.last_resume])
  · cases h
    exact ⟨hs.leads, trivial⟩

theorem keeps_joinedTargets {first : Tree} (hfirst : first.Sound text) (p : Place) :
    Keeps text (fun t => t.Sound text ∧ t.kind ≠ .string) (joinedTargets k first p) := by
  unfold joinedTargets
  split
  · exact .fail
  · rename_i target htarget
    have hsound := (Tree.sound_toPattern? hfirst htarget).1
    refine keeps_passLineEnd.bind fun _ _ => .after stays_peek fun _ _ =>
      .ite ?_ (.pure ⟨hsound, Tree.ne_string_of_toPattern? htarget⟩)
    exact (Keeps.extend rfl ((reads_target hk p).keeps.moreItems _ _) hsound).and
      (.extend (· ≠ .string) nofun)

theorem keeps_assigned : Keeps text (Tree.Sound text) (assigned k) := by
  refine .after stays_peek fun _ _ => .ite (reads_yieldExpression hk _).keeps ?_
  refine (hk.expression _ _).bindAfter fun first hfirst => ?_
  have hplain : KeepsAfter text first (Tree.Sound text) (do
      let value ← expressionsAfter k .line first
      if startsAssignment (← peek) then assignmentOf k value else pure value) :=
    .bind (continues_expressionsAfter hk _ _) fun value hvalue => .after stays_peek fun _ _ =>
      .ite (keeps_assignmentOf hk hvalue) (.pure hvalue)
  refine .after stays_peek fun _ _ => .ite (.orElse (.of_keeps ?_) hplain) hplain
  exact (keeps_joinedTargets hk hfirst _).bind fun targets htargets => .after stays_peek fun _ _ =>
    .ite (keeps_assignmentTo hk htargets.1 htargets.2) (.ite (.pure htargets.1) .fail)

omit hk in
/-- An assignment is no string. -/
theorem isText_assignmentTo (target : Tree) :
    Answers (fun t => t.kind.isText = false) (assignmentTo k target) := by
  refine .bind fun _ => .ite ?_ (.ite ?_ ?_)
  all_goals exact .extend (·.isText = false) rfl

omit hk in
theorem isText_assignmentOf (value : Tree) :
    Answers (fun t => t.kind.isText = false) (assignmentOf k value) := by
  unfold assignmentOf
  split
  · exact isText_assignmentTo _
  · exact .fail

/-- Sound trees, and a string that they start with ends with the last token or before. -/
def AreHeld (text : List Char) (cs : List Tree) (s : State) : Prop :=
  AllSound text cs ∧ ∀ start, HoldsText text (.between start s.last) cs

omit hk in
theorem areHeld_singleton {t : Tree} {s : State} (ht : t.Sound text)
    (hstop : t.kind.isText = true → EndsWithin text t.span.stop s.last.byte) :
    AreHeld text [t] s := by
  refine ⟨by simp [ht], fun start c hc htext => ?_⟩
  obtain rfl := List.mem_singleton.mp (List.mem_of_find?_eq_some hc)
  exact hstop htext

/-- What the expression `first`, which has just been read, is the beginning of as a statement. -/
theorem plainExpression_held {first : Tree} {s s' : State} {cs : List Tree} (hs : s.Fits text)
    (hfirst : first.Sound text) (hforward : first.span.start ≤ first.span.stop)
    (hstop : first.span.stop = s.last.byte)
    (h : (do
      let value ← expressionsAfter k .line first
      if startsAssignment (← peek) then pure [← assignmentOf k value]
      else if value.kind = .expressionList then pure value.children
      else pure [value] : Parser (List Tree)) s = .done cs s') :
    s.Leads text s' ∧ AreHeld text cs s' := by
  obtain ⟨value, s₁, hvalue, hrest⟩ := bind_eq_done h
  obtain ⟨hleads, hsound, -, hstop', -⟩ :=
    continues_expressionsAfter hk .line first s hs hfirst hforward hstop value s₁ hvalue
  obtain ⟨_, _, hpeek, hrest⟩ := bind_eq_done hrest
  cases hpeek
  split at hrest
  · obtain ⟨t, s₂, hassign, hpure⟩ := bind_eq_done hrest
    obtain ⟨rfl, rfl⟩ := pure_eq_done hpure
    obtain ⟨hleads', ht⟩ := keeps_assignmentOf hk hsound s₁ hleads.fits t s₂ hassign
    refine ⟨hleads.trans hleads', areHeld_singleton ht fun htext => ?_⟩
    rw [isText_assignmentOf _ _ _ _ hassign] at htext
    exact Bool.noConfusion htext
  · split at hrest
    · rename_i hlist
      obtain ⟨rfl, rfl⟩ := pure_eq_done hrest
      obtain ⟨kind, f, span, ds⟩ := value
      obtain rfl : kind = .expressionList := hlist
      refine ⟨hleads, hsound.parts, fun _ c hc htext => ?_⟩
      obtain ⟨hle, hplace⟩ := hsound.promises.held rfl c hc htext
      exact ⟨hle.trans (Nat.le_of_eq hstop'), hplace⟩
    · obtain ⟨rfl, rfl⟩ := pure_eq_done hrest
      refine ⟨hleads, areHeld_singleton hsound fun _ => ?_⟩
      rw [show value.span.stop = s₁.last.byte from hstop']
      exact hleads.fits.endsWithin (Nat.le_refl _)

/-- An expression as a statement holds a string that it starts with. -/
theorem reads_expressionStatement : Reads text (expressionStatement k) := by
  intro s hs t s' h
  obtain ⟨kind, cs, hparts, rfl⟩ := build_eq_done h
  obtain ⟨cs, s', hparts, hrest⟩ := bind_eq_done hparts
  obtain ⟨heq, rfl⟩ := pure_eq_done hrest
  cases heq
  suffices hheld : s.Leads text s' ∧ s.ahead.start.byte ≤ s'.last.byte ∧ AreHeld text cs s' by
    obtain ⟨hleads, htaken, hsound, hheld⟩ := hheld
    exact Reads.of_built hs hleads htaken rfl
      (.node ((hs.isStretch hleads.fits).isPlaced rfl) (promises_of_held rfl (hheld _)) hsound)
  obtain ⟨_, _, hpeek, hparts⟩ := bind_eq_done hparts
  cases hpeek
  split at hparts
  · have hyield := reads_yieldExpression hk .line
    obtain ⟨hleads, hsound⟩ := hyield.keeps.part s hs cs s' hparts
    obtain ⟨-, hheld⟩ := hyield.part_held hs hparts
    obtain ⟨t, hdone, rfl⟩ := part_eq_done hparts
    obtain ⟨-, htaken, -⟩ := hyield _ (stays_extras s hs _ _ rfl).1 t s' hdone
    exact ⟨hleads, htaken, hsound, fun _ c hc _ => hheld c (List.mem_of_find?_eq_some hc)⟩
  · obtain ⟨first, s₁, hfirst, hrest⟩ := bind_eq_done hparts
    have hforward := (hk.expression _ _).forward hs hfirst
    obtain ⟨hleads, htaken, hsound, -, hstop, -⟩ := hk.expression _ _ s hs first s₁ hfirst
    suffices hheld : s₁.Leads text s' ∧ AreHeld text cs s' from
      ⟨hleads.trans hheld.1, Nat.le_trans htaken hheld.1.forward, hheld.2⟩
    obtain ⟨_, _, hpeek, hrest⟩ := bind_eq_done hrest
    cases hpeek
    obtain ⟨_, s₂, -, hs₂, -, hlast, hrest⟩ :=
      (stays_wouldRead _ _).bind_eq_done hleads.fits hrest
    suffices hheld : s₂.Leads text s' ∧ AreHeld text cs s' from
      ⟨hheld.1.of_last_eq hlast, hheld.2⟩
    rw [← hlast] at hstop
    split at hrest
    · rcases orElse_eq_done hrest with hjoined | ⟨reach, hplain⟩
      · obtain ⟨targets, s₃, htargets, hjoined⟩ := bind_eq_done hjoined
        obtain ⟨hleads₃, htargets⟩ := keeps_joinedTargets hk hsound _ s₂ hs₂ targets s₃ htargets
        obtain ⟨_, _, hpeek, hjoined⟩ := bind_eq_done hjoined
        cases hpeek
        split at hjoined
        · obtain ⟨t, s₄, hassign, hpure⟩ := bind_eq_done hjoined
          obtain ⟨rfl, rfl⟩ := pure_eq_done hpure
          obtain ⟨hleads₄, ht⟩ :=
            keeps_assignmentTo hk htargets.1 htargets.2 s₃ hleads₃.fits t s₄ hassign
          refine ⟨hleads₃.trans hleads₄, areHeld_singleton ht fun htext => ?_⟩
          rw [isText_assignmentTo _ _ _ _ hassign] at htext
          exact Bool.noConfusion htext
        · exact absurd hjoined (by simp [fail])
      · obtain ⟨hleads₃, hheld⟩ := plainExpression_held hk (hs₂.withReach reach) hsound hforward hstop hplain
        exact ⟨⟨hleads₃.fits, hleads₃.forward⟩, hheld⟩
    · exact plainExpression_held hk hs₂ hsound hforward hstop hrest

/-! ### Imports -/

omit hk

theorem keeps_dottedName (e : Expect) : Keeps text (Tree.Sound text) (dottedName e) := by
  have hname : Keeps text (AllSound text) (part (identifier e)) := (reads_identifier e).keeps.part
  refine .node rfl (hname.bind fun first hfirst => .loop (fun acc hacc => ?_) hfirst)
  refine (Keeps.mark? _ _).bind fun o ho => ?_
  cases o with
  | none => exact .stop
  | some dot => exact .goOnBehind (allSound_append.mpr ⟨hacc, ho⟩) hname

theorem keeps_importItem (e : Expect) : Keeps text (Tree.Sound text) (importItem e) := by
  refine (keeps_dottedName e).bind fun name hname => .after stays_peek fun _ _ =>
    .ite (.bind (.extend rfl ?_ (hname.withField _)) fun item hitem => .pure (hitem.withField _))
      ((Keeps.pure hname).bind fun item hitem => .pure (hitem.withField _))
  exact .append (.mark _ _) ((reads_identifier _).keeps.partAs _)

theorem keeps_importList (e : Expect) : Keeps text (AllSound text) (importList e) :=
  .append (keeps_importItem e).part ((keeps_importItem e).moreItems _ _)

theorem keeps_fromList : Keeps text (AllSound text) fromList := by
  refine (Keeps.mark? _ _).bind fun o ho => ?_
  cases o with
  | none => exact keeps_importList _
  | some head =>
      exact (keeps_importList _).bind fun _ hnames =>
        .behind (allSound_append.mpr ⟨ho, hnames⟩) (.mark _ _)

theorem keeps_relativeImport : Keeps text (Tree.Sound text) relativeImport := by
  refine .node rfl (.bind
    (.loop (fun acc hacc => .after stays_peek fun _ _ => .ite ?_ .stop) allSound_nil)
    fun dots hdots => .after stays_peek fun _ _ => .ite ?_ (.pure hdots))
  · exact .after stays_extras fun before hbefore => (Takes.shift _).keeps.bind fun _ _ =>
      .goOn (allSound_append.mpr ⟨hacc, hbefore.sound⟩)
  · exact .behind hdots (keeps_dottedName _).part

theorem reads_importStatement : Reads text importStatement :=
  .node rfl ((Takes.mark _ _).bind fun _ hhead => .behind hhead.sound (keeps_importList _))

theorem reads_fromStatement : Reads text fromStatement := by
  refine .build ((Takes.mark _ _).bind fun head hhead => .after stays_peek fun t _ => ?_)
  have hhead : AllSound text head := hhead.sound
  refine .ite ?_ ?_
  · exact (Keeps.mark _ _).bind fun _ _ => (Keeps.mark _ _).bind fun _ _ =>
      keeps_fromList.bind fun _ _ => .ofKind rfl (by simp [*])
  · refine (Keeps.partAs _ (.ite keeps_relativeImport (keeps_dottedName _))).bind
      fun source hsource => (Keeps.mark _ _).bind fun word hword => .after stays_peek fun _ _ =>
        .ite ?_ ?_
    · exact (Keeps.part (.leaf rfl)).bind fun _ _ => .ofKind rfl (by simp [*])
    · exact keeps_fromList.bind fun _ _ => .ofKind rfl (by simp [*])

/-! ### Other simple statements -/

include hk

theorem reads_wordStatement {kind : Kind} (word : String) (required : Bool)
    (hkind : kind.isPlain = true) : Reads text (wordStatement k kind word required) :=
  .node hkind ((Takes.mark _ _).bind fun _ hhead => .after stays_peek fun _ _ =>
    .ite (.behind hhead.sound (reads_expressions hk _).keeps.part) (.pure hhead.sound))

theorem keeps_cause {before : List Tree} (hbefore : AllSound text before) :
    Keeps text (AllSound text) (do
      match ← mark? "from" .operand with
      | some word => pure (before ++ word ++ (← part (lineExpression k)))
      | none => pure before) := by
  refine (Keeps.mark? _ _).bind fun o ho => ?_
  cases o with
  | none => exact .pure hbefore
  | some word =>
      exact .behind (allSound_append.mpr ⟨hbefore, ho⟩) (keeps_lineExpression hk).part

theorem reads_raiseStatement : Reads text (raiseStatement k) := by
  refine .node rfl ((Takes.mark _ _).bind fun head hhead => .after stays_peek fun _ _ => ?_)
  exact .ite
    ((reads_expressions hk _).keeps.part.bind fun value hvalue =>
      keeps_cause hk (allSound_append.mpr ⟨hhead.sound, hvalue⟩))
    (.bind (.pure allSound_nil) fun value hvalue =>
      keeps_cause hk (allSound_append.mpr ⟨hhead.sound, hvalue⟩))

omit hk in
theorem reads_listStatement {kind : Kind} (word : String) {item : Parser Tree}
    (hitem : Keeps text (Tree.Sound text) item) (hkind : kind.isPlain = true) :
    Reads text (listStatement kind word item) :=
  .node hkind ((Takes.mark _ _).bind fun _ hhead => hitem.part.bind fun _ hfirst =>
    .behind (allSound_append.mpr ⟨hhead.sound, hfirst⟩) hitem.furtherItems)

theorem reads_printStatement : Reads text (printStatement k) := by
  have hline := keeps_lineExpression hk
  refine .node rfl ((Takes.mark _ _).bind fun head hhead => .after stays_peek fun _ _ => ?_)
  have hhead : AllSound text head := hhead.sound
  have hmore : ∀ first, AllSound text first → Keeps text (AllSound text) (do
      let more ← moreItems .lineEnd Token.startsExpression (lineExpression k)
      pure (head ++ first ++ more)) :=
    fun _ hfirst => .behind (allSound_append.mpr ⟨hhead, hfirst⟩) (hline.moreItems _ _)
  refine .ite (.bind (.part (.node rfl ?_)) hmore) (hline.part.bind hmore)
  exact .append (.mark _ _) hline.part

theorem keeps_execScope {before : List Tree} (hbefore : AllSound text before) :
    Keeps text (AllSound text) (do
      match ← mark? "in" .operand with
      | some word =>
        let first ← part (lineExpression k)
        let more ← furtherItems (lineExpression k)
        pure (before ++ word ++ first ++ more)
      | none => pure before) := by
  have hline := keeps_lineExpression hk
  refine (Keeps.mark? _ _).bind fun o ho => ?_
  cases o with
  | none => exact .pure hbefore
  | some word =>
      have hword : AllSound text (before ++ word) := allSound_append.mpr ⟨hbefore, ho⟩
      exact hline.part.bind fun _ hfirst =>
        .behind (allSound_append.mpr ⟨hword, hfirst⟩) hline.furtherItems

theorem reads_execStatement : Reads text (execStatement k) := by
  refine .node rfl ((Takes.mark _ _).bind fun head hhead => .after stays_peek fun t _ => ?_)
  split
  · exact (reads_string hk _).keeps.part.bind fun code hcode =>
      keeps_execScope hk (allSound_append.mpr ⟨hhead.sound, hcode⟩)
  · exact (reads_identifier _).keeps.part.bind fun code hcode =>
      keeps_execScope hk (allSound_append.mpr ⟨hhead.sound, hcode⟩)

theorem reads_typeAlias : Reads text (typeAlias k) :=
  .node rfl ((Takes.mark _ _).bind fun _ hhead => (hk.type true _).part.bind fun _ hleft =>
    (Keeps.mark _ _).bind fun _ hequals =>
      .behind (by simp [hhead.sound, hleft, hequals]) (hk.type true _).part)

theorem reads_simpleStatement : Reads text (simpleStatement k) := by
  have hname : Keeps text (Tree.Sound text) (identifier .lineEnd) := (reads_identifier _).keeps
  have hexpression := reads_expressionStatement hk
  refine .after stays_peek fun t _ => .ite reads_importStatement (.ite reads_fromStatement
    (.ite (reads_wordStatement hk _ _ rfl) (.ite (reads_wordStatement hk _ _ rfl)
    (.ite (reads_raiseStatement hk) (.ite (.leaf rfl) (.ite (.leaf rfl) (.ite (.leaf rfl) ?_)))))))
  refine .ite (reads_listStatement _ hname rfl)
    (.ite (reads_listStatement _ hname rfl)
    (.ite (reads_listStatement _ (keeps_lineExpression hk) rfl) (.ite ?_ (.ite ?_ ?_))))
  · exact .after (stays_peekSecond _) fun _ _ => .ite (reads_printStatement hk)
      (.orElse (reads_ended hexpression) (reads_printStatement hk))
  · refine .after (stays_peekSecond _) fun second _ => ?_
    split
    · exact reads_execStatement hk
    · exact .ite (reads_execStatement hk) hexpression
  · exact .ite (.orElse (reads_ended (reads_typeAlias hk)) hexpression) hexpression

theorem keeps_simpleLine : Keeps text (AllSound text) (simpleLine k) := by
  have hstatement := (reads_simpleStatement hk).keeps.part
  refine hstatement.bind fun first hfirst =>
    .append (.loop (fun acc hacc => ?_) hfirst) (keeps_lineEnd _)
  refine (Keeps.mark? _ _).bind fun o ho => ?_
  cases o with
  | none => exact .stop
  | some semicolon =>
      have hbefore : AllSound text (acc ++ semicolon) := allSound_append.mpr ⟨hacc, ho⟩
      exact .after stays_peek fun _ _ => .ite (.goOn hbefore) (.goOnBehind hbefore hstatement)

/-! ### Blocks -/

theorem keeps_blockLines : Keeps text (AllSound text) (blockLines k) := by
  refine .append (.loop (fun acc hacc => .after stays_peek fun _ _ => .ite .stop ?_) allSound_nil)
    keeps_closeBlock
  exact .after stays_extras fun before hbefore =>
    .goOnBehind (allSound_append.mpr ⟨hacc, hbefore.sound⟩) hk.statement

/-- What is read as a body is a block. -/
theorem given_suite (kind : Kind) (hkind : kind.gives .body .block = true) :
    Keeps text (AllGiven text kind) (suite k) := by
  have hbody : ∀ {parts}, Keeps text (AllSound text) parts →
      Keeps text (fun t => AllGiven text kind [t.withField .body]) (node .block parts) :=
    fun hparts => ((Keeps.node rfl hparts).and (.node (· = .block) rfl)).imp fun t ht =>
      allGiven_withField ht.1 (by rw [ht.2, hkind])
  refine .after stays_extras fun before hbefore => .after stays_peek fun t _ => ?_
  have hbefore : AllGiven text kind before := hbefore.given
  split
  · exact (hbody (keeps_lineEnd _)).bind fun _ hblock => .pure (by simp [hblock, hbefore])
  · exact (keeps_openBlock _).bind fun _ _ => .after stays_extras fun lead hlead =>
      (hbody (keeps_blockLines hk)).bind fun _ hblock =>
        .pure (by simp [hblock, hlead.given, hbefore])
  · exact (hbody (keeps_simpleLine hk)).bind fun _ hblock => .pure (by simp [hblock, hbefore])

theorem given_body (kind : Kind) (hkind : kind.gives .body .block = true) :
    Keeps text (AllGiven text kind) (body k) :=
  (Takes.mark _ _).keeps.bind fun _ hcolon => (given_suite hk _ hkind).bind fun _ hsuite =>
    .pure (allGiven_append.mpr ⟨hcolon.given, hsuite⟩)

theorem keeps_body : Keeps text (AllSound text) (body k) :=
  (given_body hk .elifClause rfl).imp fun _ => AllGiven.sound

theorem keeps_wordClause? (word : String) {kind : Kind} (hkind : kind.isPlain = true) :
    Keeps text (AllSound text) (wordClause? k word kind) :=
  .after stays_peek fun _ _ => .ite (.part (.node hkind (.append (.mark _ _) (keeps_body hk))))
    (.pure allSound_nil)

theorem reads_conditionClause (word : String) {kind : Kind} {after : Parser (List Tree)}
    (hafter : Keeps text (AllSound text) after) (hkind : kind.isPlain = true) :
    Reads text (conditionClause k word kind after) :=
  .node hkind ((Takes.mark _ _).bind fun _ hhead =>
    ((keeps_headerExpression hk).partAs _).bind fun _ hcondition =>
      (keeps_body hk).bind fun _ hblock =>
        .behind (by simp [hhead.sound, hcondition, hblock]) hafter)

omit hk in
/-- Clauses that play no part. -/
theorem mayTake_clausesOf (kind : Kind) (word : String) {clause : Parser Tree}
    (hclause : Reads text clause) (hfield : Answers (fun t => t.field = none) clause) :
    MayTake text (AllGiven text kind) (clausesOf word clause) := by
  have hgiven : Takes text (AllGiven text kind) (part clause) :=
    .partOf (fun _ => IsExtra.given) ((hclause.takes.and hfield).imp fun _ ht =>
      ⟨ht.1, Tree.isGiven_of_field ht.2⟩)
  refine .loop (fun acc hacc => .afterPeek fun _ => .ite ?_ (.pure nofun)) allGiven_nil
  exact .of_takes (hgiven.bind fun _ hcs => .goOn (allGiven_append.mpr ⟨hacc, hcs⟩))

omit hk in
theorem keeps_clausesOf (word : String) {clause : Parser Tree}
    (hclause : Keeps text (Tree.Sound text) clause) :
    Keeps text (AllSound text) (clausesOf word clause) :=
  .loop (fun _ hacc => .after stays_peek fun _ _ =>
    .ite (.goOnBehind hacc hclause.part) .stop) allSound_nil

/-! ### Compound statements -/

theorem reads_ifStatement : Reads text (ifStatement k) := by
  refine reads_conditionClause hk _ (.append (keeps_clausesOf _ ?_) (keeps_wordClause? hk _ rfl)) rfl
  exact (reads_conditionClause hk _ (.pure allSound_nil) rfl).keeps

theorem reads_whileStatement : Reads text (whileStatement k) :=
  reads_conditionClause hk _ (keeps_wordClause? hk _ rfl) rfl

omit hk in
theorem given_asyncMark (kind : Kind) (hkind : ∀ k', kind.gives .async k' = true) :
    MayTake text (AllGiven text kind) asyncMark :=
  .afterPeek fun _ => .ite
    (.of_takes (.partAs_given ((Reads.leaf rfl).takes.imp fun t ht => ⟨ht, hkind t.kind⟩)))
    (.pure allGiven_nil)

omit hk in
theorem mayTake_asyncMark : MayTake text (AllSound text) asyncMark := by
  have hgiven : MayTake text (AllGiven text .forStatement) asyncMark := given_asyncMark _ fun _ => rfl
  exact hgiven.imp fun _ => AllGiven.sound

theorem reads_forStatement : Reads text (forStatement k) := by
  refine .node rfl (mayTake_asyncMark.bind fun _ _ => (Takes.mark _ _).bind fun _ hhead => ?_)
  have hhead : AllSound text _ := hhead.sound
  refine ((reads_targets hk _).keeps.partAs _).bind fun _ _ => (Keeps.mark _ _).bind fun _ _ => ?_
  exact ((reads_expressions hk _).keeps.partAs _).bind fun _ _ => (keeps_body hk).bind fun _ _ =>
    (keeps_wordClause? hk _ rfl).bind fun _ _ => .pure (by simp [*])

theorem keeps_exceptClause : Keeps text (Tree.Sound text) (exceptClause k) := by
  have hheader := keeps_headerExpression hk
  refine .node rfl ((Keeps.mark _ _).bind fun head hhead => .after stays_peek fun _ _ => ?_)
  have hvalues : ∀ star, AllSound text star → Keeps text (AllSound text) (do
      let values ←
        if (← peek).isMark ":" then pure []
        else
          let first ← partAs .value (headerExpression k)
          pure (first ++ (← furtherItems (headerExpression k)))
      pure (head ++ star ++ values ++ (← body k))) := by
    refine fun star hstar => .after stays_peek fun _ _ => .ite ?_ ?_
    · exact .pure_bind (.behind (by simp [hhead, hstar]) (keeps_body hk))
    · exact (hheader.partAs _).bind fun _ hfirst => hheader.furtherItems.bind fun _ hmore =>
        .pure_bind (.behind (by simp [hhead, hstar, hfirst, hmore]) (keeps_body hk))
  refine .ite ?_ (.bind (.pure allSound_nil) hvalues)
  exact .after stays_extras fun before hbefore => (Takes.shiftFirst _).keeps.bind fun _ _ =>
    .bind (.pure hbefore.sound) hvalues

theorem reads_tryStatement : Reads text (tryStatement k) :=
  .node rfl ((Takes.mark _ _).bind fun _ hhead => (keeps_body hk).bind fun _ _ =>
    (keeps_clausesOf _ (keeps_exceptClause hk)).bind fun _ _ =>
      (keeps_wordClause? hk _ rfl).bind fun _ _ =>
        (keeps_wordClause? hk _ rfl).bind fun _ _ => .pure (by simp [hhead.sound, *]))

theorem keeps_withItem (p : Place) : Keeps text (Tree.Sound text) (withItem k p) :=
  .node rfl ((hk.expression _ p).keeps.partAs _)

theorem keeps_withClause : Keeps text (Tree.Sound text) (withClause k) := by
  refine .orElse (.node rfl ?_) (.node rfl ?_)
  · exact (Keeps.mark _ _).bind fun _ hhead => (keeps_withItem hk _).part.bind fun _ hfirst =>
      ((keeps_withItem hk _).itemsUntil _ _).bind fun _ hitems => .after stays_peek fun _ _ =>
        .ite (.pure (by simp [hhead, hfirst, hitems])) .fail
  · exact .append (keeps_withItem hk _).part ((keeps_withItem hk _).moreItems _ _)

theorem reads_withStatement : Reads text (withStatement k) :=
  .node rfl (mayTake_asyncMark.bind fun _ hasync => (Takes.mark _ _).bind fun _ hhead =>
    (keeps_withClause hk).part.bind fun _ hitems =>
      .behind (by simp [hasync, hhead.sound, hitems]) (keeps_body hk))

/-! ### Matching -/

omit hk

theorem keeps_patternNumber (p : Place) : Keeps text (AllSound text) (patternNumber p) := by
  refine .after stays_peek fun t _ => ?_
  split
  · exact .part (.leaf rfl)
  · exact .part (.leaf rfl)
  · exact .fail

theorem keeps_patternNumbers (p : Place) : Keeps text (AllSound text) (patternNumbers p) := by
  refine (Keeps.mark? _ _).bind fun _ hsign => (keeps_patternNumber p).bind fun _ hfirst =>
    .after stays_peek fun _ _ => .ite ?_ (.pure (allSound_append.mpr ⟨hsign, hfirst⟩))
  exact .after stays_extras fun before hbefore => (Takes.shift _).keeps.bind fun _ _ =>
    .behind (by simp [hsign, hfirst, hbefore.sound]) (keeps_patternNumber p)

theorem keeps_bracketPattern (opener closer : String) {kind : Kind} {item : Parser Tree} (p : Place)
    (hitem : Keeps text (Tree.Sound text) item) (hkind : kind.isPlain = true) :
    Keeps text (Tree.Sound text) (bracketPattern opener closer kind item p) :=
  .node hkind ((Keeps.mark _ _).bind fun _ hhead => .after stays_peek fun _ _ =>
    .ite (.behind hhead (.mark _ _)) (hitem.part.bind fun _ hfirst =>
      .behind (allSound_append.mpr ⟨hhead, hfirst⟩) (hitem.itemsUntil _ _)))

theorem keeps_splatPattern (p : Place) : Keeps text (Tree.Sound text) (splatPattern p) := by
  refine .node rfl (.after stays_extras fun before hbefore => (Takes.shift _).keeps.bind fun _ _ =>
    .after stays_peek fun _ _ => .ite ?_ ?_)
  · exact .behind hbefore.sound (.part (.leaf rfl))
  · exact .behind hbefore.sound (reads_identifier _).keeps.part

/-- A constant as a pattern. -/
theorem keeps_constant {kind : Kind} {e : Expect} {word : String} {s s' : State} {cs : List Tree}
    (hs : s.Fits text) (hword : s.token = .name word) (hkind : kind.isWord = true)
    (hspells : kind.spells word = true) (h : part (leaf kind e) s = .done cs s') :
    s.Leads text s' ∧ AllSound text cs := by
  obtain ⟨t, hleaf, rfl⟩ := part_eq_done h
  have hclean : State.Fits text { s with extras := [] } := (stays_extras s hs _ _ rfl).1
  obtain ⟨hleads, -, hsound, -⟩ := Reads.of_word hclean hword hkind hspells hleaf
  exact ⟨⟨hleads.fits, hleads.forward⟩,
    Syntax.allSound_append.mpr ⟨hs.extras.sound, by simpa using hsound⟩⟩

include hk

theorem keeps_simplePattern {keyPattern : Parser Tree}
    (hkey : Keeps text (Tree.Sound text) keyPattern) (p : Place) :
    Keeps text (AllSound text) (simplePattern k keyPattern p) := by
  have hbracket : ∀ opener closer, ∀ {kind : Kind}, kind.isPlain = true → Keeps text (AllSound text)
      (part (bracketPattern opener closer kind (k.casePattern .inner) p)) :=
    fun _ _ _ hkind => (keeps_bracketPattern _ _ p (hk.casePattern _) hkind).part
  intro s hs cs s' h
  obtain ⟨_, _, hpeek, h⟩ := bind_eq_done h
  cases hpeek
  cases htoken : s.token with
  | quote q =>
      rw [htoken] at h
      exact (reads_strings hk _).keeps.part s hs cs s' h
  | integer | float =>
      rw [htoken] at h
      exact keeps_patternNumbers p s hs cs s' h
  | op word =>
      rw [htoken] at h
      exact Keeps.ite (hbracket _ _ rfl) (.ite (hbracket _ _ rfl)
        (.ite (keeps_bracketPattern _ _ p hkey rfl).part (.ite (keeps_splatPattern p).part
          (.ite (keeps_patternNumbers p) .fail)))) s hs cs s' h
  | name word =>
      rw [htoken] at h
      rcases ite_eq_done h with ⟨rfl, h⟩ | ⟨-, h⟩
      · exact keeps_constant hs htoken rfl rfl h
      rcases ite_eq_done h with ⟨rfl, h⟩ | ⟨-, h⟩
      · exact keeps_constant hs htoken rfl rfl h
      rcases ite_eq_done h with ⟨rfl, h⟩ | ⟨-, h⟩
      · exact keeps_constant hs htoken rfl rfl h
      exact Keeps.ite (.part (.leaf rfl)) ((keeps_dottedName _).part.bind fun _ hname =>
        .after stays_peek fun _ _ => .ite (.behind hname (hbracket _ _ rfl)) (.pure hname))
          s hs cs s' h
  | _ =>
      rw [htoken] at h
      exact Keeps.fail s hs cs s' h

theorem keeps_alternatives {keyPattern : Parser Tree}
    (hkey : Keeps text (Tree.Sound text) keyPattern) (p : Place) {first : List Tree}
    (hfirst : AllSound text first) :
    Keeps text (AllSound text) (alternatives k keyPattern p first) := by
  refine .loop (fun acc hacc => (Keeps.mark? _ _).bind fun o ho => ?_) hfirst
  cases o with
  | none => exact .stop
  | some bar =>
      exact .goOnBehind (allSound_append.mpr ⟨hacc, ho⟩) (keeps_simplePattern hk hkey p)

theorem keeps_unionPattern {keyPattern : Parser Tree}
    (hkey : Keeps text (Tree.Sound text) keyPattern) (p : Place) :
    Keeps text (AllSound text) (unionPattern k keyPattern p) :=
  (keeps_simplePattern hk hkey p).bind fun _ hfirst => keeps_alternatives hk hkey p hfirst

theorem keeps_keyPattern (depth : Nat) : Keeps text (Tree.Sound text) (keyPattern k depth) := by
  induction depth with
  | zero => exact .fail
  | succ depth ih =>
      refine .node rfl (.after stays_peek fun _ _ =>
        (keeps_simplePattern hk ih _).bind fun first hfirst => ?_)
      refine (keeps_alternatives hk ih _ hfirst).bind fun key hkey => .after stays_peek fun _ _ =>
        .ite (.pure hkey) ?_
      exact (Keeps.mark _ _).bind fun _ hcolon =>
        .behind (allSound_append.mpr ⟨hkey, hcolon⟩) (hk.casePattern _).part

omit hk in
theorem keeps_patternNames (p : Place) {whole : List Tree} (hwhole : AllSound text whole) :
    Keeps text (AllSound text) (loop (fun acc => do
      match ← mark? "as" .operand with
      | some word => pure (some (acc ++ word ++ (← part (identifier p.after))))
      | none => pure none) whole) := by
  refine .loop (fun acc hacc => (Keeps.mark? _ _).bind fun o ho => ?_) hwhole
  cases o with
  | none => exact .stop
  | some word =>
      exact .goOnBehind (allSound_append.mpr ⟨hacc, ho⟩) (reads_identifier _).keeps.part

theorem keeps_casePattern (p : Place) : Keeps text (Tree.Sound text) (casePattern k p) := by
  refine .node rfl (.after stays_stepLimit fun depth _ => .after stays_peek fun first _ =>
    .after (stays_peekSecond _) fun second _ => ?_)
  have hunion := keeps_unionPattern hk (keeps_keyPattern hk depth) p
  refine .ite ?_ (hunion.bind fun _ hwhole => keeps_patternNames p hwhole)
  exact (reads_identifier _).keeps.part.bind fun _ hname => (Keeps.mark _ _).bind fun _ hequals =>
    hunion.bind fun _ hpattern => .bind (.pure (by simp [hname, hequals, hpattern])) fun _ hwhole =>
      keeps_patternNames p hwhole

theorem keeps_caseClause : Keeps text (Tree.Sound text) (caseClause k) := by
  refine .node rfl ((Keeps.mark _ _).bind fun head hhead =>
    (hk.casePattern _).part.bind fun first hfirst =>
      ((hk.casePattern _).moreItems _ _).bind fun more hmore => .after stays_peek fun _ _ =>
        .ite ?_ ?_)
  · exact (keeps_ifClause hk _ _).part.bind fun _ hguard =>
      .behind (by simp [hhead, hfirst, hmore, hguard]) (keeps_body hk)
  · exact .pure_bind (.behind (by simp [hhead, hfirst, hmore]) (keeps_body hk))

theorem keeps_caseBlock : Keeps text (Tree.Sound text) (caseBlock k) := by
  refine .after stays_peek fun t _ => ?_
  split
  · exact .node rfl (keeps_lineEnd _)
  · exact .node rfl (.after stays_extras fun before hbefore => (keeps_openBlock _).bind fun _ _ =>
      (keeps_clausesOf _ (keeps_caseClause hk)).bind fun _ hcases =>
        .behind (allSound_append.mpr ⟨hbefore.sound, hcases⟩) keeps_closeBlock)
  · exact .fail

theorem reads_matchStatement : Reads text (matchStatement k) :=
  .node rfl ((Takes.mark _ _).bind fun _ hhead =>
    ((keeps_headerExpression hk).partAs _).bind fun _ _ =>
      ((keeps_headerExpression hk).moreItems _ _).bind fun _ _ => (Keeps.mark _ _).bind fun _ _ =>
        ((keeps_caseBlock hk).partAs _).bind fun _ _ => .pure (by simp [hhead.sound, *]))

/-! ### Definitions -/

theorem reads_parameters : Reads text (parameters k) := by
  have hextra : ∀ t, IsExtra text t → t.Sound text ∧ (t.kind.isBare = true → t.IsUntyped text) :=
    fun t ht => ⟨ht.sound, fun hbare => absurd ht.isBare (by simp [hbare])⟩
  have hparameter : Keeps text (fun t => t.Sound text ∧ (t.kind.isBare = true → t.IsUntyped text))
      (parameter k true .inner) := by
    intro s hs t s' h
    obtain ⟨hleads, ht⟩ := keeps_parameter hk true .inner s hs t s' h
    exact ⟨hleads, ht, isUntyped_of_parameter hk hs h⟩
  have hparts : Takes text
      (fun cs => ∀ c ∈ cs, c.Sound text ∧ (c.kind.isBare = true → c.IsUntyped text)) (do
        let head ← mark "(" .close
        if (← peek).isMark ")" then pure (head ++ (← mark ")" .operand))
        else
          let first ← part (parameter k true .inner)
          pure (head ++ first ++ (← itemsUntil ")" (parameter k true .inner) .operand))) := by
    refine (Takes.mark _ _).bind fun head hhead => .after stays_peek fun _ _ => ?_
    have hhead : ∀ c ∈ head, c.Sound text ∧ (c.kind.isBare = true → c.IsUntyped text) :=
      fun c hc => hextra c (hhead c hc)
    refine .ite ((Takes.mark _ _).keeps.bind fun close hclose => .pure ?_)
      ((hparameter.partOf hextra).bind fun first hfirst =>
        (hparameter.itemsUntilOf hextra _ _).bind fun rest hrest => .pure ?_)
    · exact List.forall_mem_append.mpr ⟨hhead, fun c hc => hextra c (hclose c hc)⟩
    · exact List.forall_mem_append.mpr ⟨List.forall_mem_append.mpr ⟨hhead, hfirst⟩, hrest⟩
  refine .nodeOf rfl (hparts.imp fun cs hcs c hc => ⟨(hcs c hc).1, isGiven_of_not_hasRoles rfl cs c hc⟩)
    fun s hs t s' h _ => ?_
  obtain ⟨_, cs, hdone, rfl⟩ := build_eq_done h
  obtain ⟨cs, _, hdone, hpure⟩ := bind_eq_done hdone
  cases hpure
  exact promises_of_parameters fun c hc => ((hparts s hs cs s' hdone).2.2 c hc).2

theorem given_typeParameters? (kind : Kind) : Keeps text (AllGiven text kind) (typeParameters? k) :=
  .after stays_peek fun _ _ => .ite (.part_given (keeps_typeParameters hk _) .field_node)
    (.pure allGiven_nil)

omit hk in
theorem keeps_continuesType : Keeps text (fun _ => True) continuesType :=
  .after stays_peek fun _ _ => .after (stays_peekSecond _) fun _ _ => .ite (.pure trivial)
    (.ite (stays_wouldRead _ _).keeps (.pure trivial))

omit hk in
theorem lacks_asyncMark {f : Field} (hf : Field.async ≠ f) :
    Keeps text (fun cs => ∀ c ∈ cs, c.field ≠ some f) asyncMark :=
  .after stays_peek fun _ _ => .ite (.partAs_lacks (.leaf rfl) hf)
    (.pure fun _ h => absurd h List.not_mem_nil)

theorem lacks_typeParameters? (f : Field) :
    Keeps text (fun cs => ∀ c ∈ cs, c.field ≠ some f) (typeParameters? k) := by
  refine .after stays_peek fun _ _ => .ite (.partOf (fun _ h => h.field_ne _) ?_)
    (.pure fun _ h => absurd h List.not_mem_nil)
  intro s hs t s' h
  obtain ⟨hleads, -⟩ := keeps_typeParameters hk _ s hs t s' h
  obtain ⟨_, cs, -, rfl⟩ := build_eq_done h
  exact ⟨hleads, nofun⟩

/-- The parts of a function that has been read.  Those in front of the parameters play other roles, and
behind the parameters comes a colon or a result type. -/
theorem functionDefinition_eq_done {s s' : State} {t : Tree} (hs : s.Fits text)
    (h : functionDefinition k s = .done t s') :
    ∃ (front : List Tree) (s₁ : State) (params : Tree) (s₂ : State) (after : List Tree),
      t.children = front ++ params.withField .parameters :: after ∧
      (∀ {f : Field}, Field.async ≠ f → Field.name ≠ f → ∀ c ∈ front, c.field ≠ some f) ∧
      s₁.Fits text ∧ parameters k { s₁ with extras := [] } = .done params s₂ ∧
      (s₂.token.isMark ":" = true ∨ ∃ arrow s₃ type s₄ rest, mark "->" .operand s₂ = .done arrow s₃ ∧
        k.type false .header { s₃ with extras := [] } = .done type s₄ ∧
        after = arrow ++ (s₃.extras ++ type.withField .returnType :: rest)) := by
  obtain ⟨_, cs, hparts, rfl⟩ := build_eq_done h
  obtain ⟨cs, _, hparts, hpure⟩ := bind_eq_done hparts
  cases hpure
  obtain ⟨async, s₁, hasync, hrest⟩ := bind_eq_done hparts
  have hlacks₁ := fun {f : Field} (hf : Field.async ≠ f) => lacks_asyncMark hf s hs async s₁ hasync
  have hs₁ := (hlacks₁ (f := .parameters) (by decide)).1.fits
  obtain ⟨head, s₂, hhead, hrest⟩ := bind_eq_done hrest
  obtain ⟨hleads₂, -, hhead⟩ := Takes.mark "def" _ s₁ hs₁ head s₂ hhead
  obtain ⟨name, s₃, hname, hrest⟩ := bind_eq_done hrest
  have hlacks₃ := fun {f : Field} (hf : Field.name ≠ f) =>
    Keeps.partAs_lacks (reads_identifier _).keeps hf s₂ hleads₂.fits name s₃ hname
  have hs₃ := (hlacks₃ (f := .parameters) (by decide)).1.fits
  obtain ⟨generics, s₄, hgenerics, hrest⟩ := bind_eq_done hrest
  have hlacks₄ := fun f => lacks_typeParameters? hk f s₃ hs₃ generics s₄ hgenerics
  have hs₄ := (hlacks₄ .parameters).1.fits
  obtain ⟨_, s₅, hparams, hrest⟩ := bind_eq_done hrest
  obtain ⟨params, hread, rfl⟩ := partAs_eq_done hparams
  let front := async ++ head ++ name ++ generics ++ s₄.extras
  have hfront : ∀ {f : Field}, Field.async ≠ f → Field.name ≠ f →
      ∀ c ∈ front, c.field ≠ some f := by
    intro f hasync hname
    simp only [front, List.forall_mem_append]
    exact ⟨⟨⟨⟨(hlacks₁ hasync).2, fun c hc => (hhead c hc).field_ne _⟩, (hlacks₃ hname).2⟩,
      (hlacks₄ f).2⟩, fun c hc => (hs₄.extras c hc).field_ne _⟩
  -- the function goes on with a colon, whether or not there is a result type
  have htail : ∀ returns s₆, (do
      let colon ← mark ":" .block
      let endless ← continuesType
      if endless && !returns.isEmpty then fail
      pure (async ++ head ++ name ++ generics ++ (s₄.extras ++ [params.withField .parameters]) ++
        returns ++ colon ++ (← suite k))) s₆ = .done cs s' →
      s₆.token.isMark ":" = true ∧
        ∃ rest, cs = front ++ params.withField .parameters :: (returns ++ rest) := by
    intro returns s₆ hrest
    obtain ⟨colon, _, hcolon, hrest⟩ := bind_eq_done hrest
    obtain ⟨_, _, -, hrest⟩ := bind_eq_done hrest
    rcases ite_eq_done hrest with ⟨-, hrest⟩ | ⟨-, hrest⟩
    · obtain ⟨_, _, hfail, -⟩ := bind_eq_done hrest
      exact absurd hfail (by simp [fail])
    obtain ⟨body, _, -, hrest⟩ := bind_eq_done hrest
    cases hrest
    exact ⟨(mark_eq_done hcolon).1, colon ++ body, by simp [front]⟩
  obtain ⟨o, s₆, harrow, hrest⟩ := bind_eq_done hrest
  rcases mark?_eq_done harrow with ⟨-, rfl, hsame⟩ | ⟨arrow, rfl, hmark⟩
  · obtain ⟨_, _, hnone, hrest⟩ := bind_eq_done hrest
    cases hnone
    obtain ⟨hcolon, rest, hcs⟩ := htail _ _ hrest
    exact ⟨front, s₄, params, s₅, _, hcs, hfront, hs₄, hread, Or.inl (hsame ▸ hcolon)⟩
  · obtain ⟨type, s₇, htype, hrest⟩ := bind_eq_done hrest
    obtain ⟨_, _, hpure, hrest⟩ := bind_eq_done hrest
    cases hpure
    obtain ⟨-, rest, hcs⟩ := htail _ _ hrest
    obtain ⟨t, ht, rfl⟩ := partAs_eq_done htype
    refine ⟨front, s₄, params, s₅, _, hcs, hfront, hs₄, hread,
      Or.inr ⟨arrow, s₆, t, s₇, rest, hmark, ht, ?_⟩⟩
    simp

/-- What is known of a function that has been read: its parameters, and what follows them. -/
theorem promises_functionDefinition {s s' : State} {t : Tree} (hs : s.Fits text)
    (h : functionDefinition k s = .done t s')
    (hroles : ∀ c ∈ t.children, c.IsGiven .functionDefinition) :
    Promises text .functionDefinition t.span t.children := by
  obtain ⟨front, s₁, params, s₂, after, hcs, hfront, hs₁, hread, hafter⟩ :=
    functionDefinition_eq_done hk hs h
  obtain ⟨hleads₂, -, -, -, hstop, -⟩ :=
    reads_parameters hk _ (stays_extras s₁ hs₁ _ _ rfl).1 params s₂ hread
  have hkind : (params.withField .parameters).kind = .parameters := by
    have hparams : params.kind = .parameters := Answers.node (· = .parameters) rfl _ params s₂ hread
    cases params with
    | node => exact hparams
  refine promises_of_function (fun found hfind => ?_) hroles
  obtain rfl : params.withField .parameters = found := by
    rw [hcs, find?_field (hfront (by decide) (by decide))] at hfind
    exact Option.some.inj hfind
  rcases hafter with hcolon | ⟨arrow, s₃, type, s₄, rest, hmark, htype, rfl⟩
  · have hends : EndsHead text (params.withField .parameters).span.stop := by
      rw [Tree.span_withField, hstop]
      exact hleads₂.fits.endsHead hcolon
    exact ⟨hkind, Or.inr hends, fun c _ => hends.spellsResult c⟩
  · have hresult : t.children.find? (fun c => c.field == some .returnType) =
        some (type.withField .returnType) := by
      obtain ⟨hleads₃, -, harrow⟩ := Takes.mark "->" _ s₂ hleads₂.fits arrow s₃ hmark
      have hbefore : ∀ c ∈ front ++ params.withField .parameters :: (arrow ++ s₃.extras),
          c.field ≠ some .returnType := by
        simp only [List.forall_mem_append, List.forall_mem_cons]
        exact ⟨hfront (by decide) (by decide), by simp,
          fun c hc => (harrow c hc).field_ne _, fun c hc => (hleads₃.fits.extras c hc).field_ne _⟩
      rw [hcs, ← find?_field hbefore type rest]
      simp
    refine ⟨hkind, Or.inl ⟨_, List.mem_of_find?_eq_some hresult, Tree.field_withField _ type⟩,
      fun c hc => ?_⟩
    obtain rfl := Option.some.inj (hresult.symm.trans hc)
    have hspells := hleads₂.fits.spellsResult hk.words hmark htype
    rw [← hstop] at hspells
    unfold SpellsResult at hspells ⊢
    rwa [Tree.span_withField, Tree.span_withField]

theorem reads_functionDefinition : Reads text (functionDefinition k) := by
  have hparams : Keeps text (AllGiven text .functionDefinition) (partAs .parameters (parameters k)) :=
    .partAs_given (((reads_parameters hk).keeps.and (.node (· = .parameters) rfl)).imp fun _ ht =>
      ⟨ht.1, by rw [ht.2]; rfl⟩)
  refine .nodeOf rfl ((given_asyncMark .functionDefinition fun _ => rfl).bind fun async hasync =>
    (Takes.mark _ _).bind fun head hhead =>
      (Keeps.partAs_any .functionDefinition (fun _ => rfl) (reads_identifier _).keeps).bind
        fun name hname => (given_typeParameters? hk .functionDefinition).bind
          fun generics hgenerics => hparams.bind fun params hparams => ?_)
    fun s hs t s' h => promises_functionDefinition hk hs h
  have hsuite : ∀ returns, AllGiven text .functionDefinition returns →
      Keeps text (AllGiven text .functionDefinition) (do
        let colon ← mark ":" .block
        let endless ← continuesType
        if endless && !returns.isEmpty then fail
        pure (async ++ head ++ name ++ generics ++ params ++ returns ++ colon ++ (← suite k))) := by
    refine fun returns hreturns => (Takes.mark _ _).keeps.bind fun colon hcolon =>
      keeps_continuesType.bind fun endless _ => .ite .fail_bind ((given_suite hk .functionDefinition rfl).bind
        fun block hblock => .pure ?_)
    simp [hasync, hhead.given, hname, hgenerics, hparams, hreturns, hcolon.given, hblock]
  refine (Keeps.mark?_extra _ _).bind fun o ho => ?_
  cases o with
  | none => exact .bind (.pure allGiven_nil) hsuite
  | some arrow =>
      have harrow : AllExtra text arrow := ho
      exact (Keeps.partAs_any .functionDefinition (fun _ => rfl) (hk.type _ _)).bind fun _ htype =>
        .bind (.pure (allGiven_append.mpr ⟨harrow.given, htype⟩)) hsuite

omit hk in
/-- The arguments of a call are no string. -/
theorem ne_string_arguments (p : Place) : Answers (fun t => t.kind ≠ .string) (arguments k p) := by
  refine .build (· ≠ .string) (.bind fun _ => .bind fun _ => .ite ?_ (.ite ?_ ?_))
  · exact .bind fun _ => .pure nofun
  · exact .bind fun _ => .bind fun _ => .pure nofun
  · refine .bind fun _ => .bind fun _ => .bind fun _ => .bind fun _ => .ite ?_ (.ite ?_ ?_)
    · exact .bind fun _ => .bind fun _ => .pure nofun
    · exact .bind fun _ => .pure nofun
    · exact .bind fun _ => .pure nofun

theorem reads_classDefinition : Reads text (classDefinition k) := by
  refine .nodeGiven rfl ((Takes.mark _ _).bind fun head hhead =>
    (Keeps.partAs_any .classDefinition (fun _ => rfl) (reads_identifier _).keeps).bind
      fun name hname => (given_typeParameters? hk .classDefinition).bind
        fun generics hgenerics => .after stays_peek fun _ _ => ?_)
  have hbody : ∀ bases, AllGiven text .classDefinition bases →
      Keeps text (AllGiven text .classDefinition) (do
        pure (head ++ name ++ generics ++ bases ++ (← body k))) :=
    fun bases hbases => (given_body hk .classDefinition rfl).bind fun block hblock =>
      .pure (by simp [hhead.given, hname, hgenerics, hbases, hblock])
  have harguments : Keeps text (AllGiven text .classDefinition)
      (partAs .superclasses (arguments k .header)) :=
    .partAs_given (((keeps_arguments hk _).and (ne_string_arguments _)).imp fun _ ht =>
      ⟨ht.1, by simpa [Kind.gives] using ht.2⟩)
  exact .ite (harguments.bind fun args hargs =>
    .ite .fail_bind (.bind (.pure hargs) hbody)) (.bind (.pure allGiven_nil) hbody)

theorem reads_decorator : Reads text (decorator k) :=
  .node rfl ((Takes.mark _ _).bind fun _ hhead => (keeps_lineExpression hk).part.bind fun _ hvalue =>
    .behind (by simp [hhead.sound, hvalue]) (keeps_lineEnd _))

theorem reads_decoratedDefinition : Reads text (decoratedDefinition k) := by
  let fits (kind : Kind) : Prop := Kind.decoratedDefinition.gives .definition kind = true
  have hdefinition : Takes text (fun t => t.Sound text ∧ fits t.kind) (do
      if (← peek).isMark "class" then classDefinition k else functionDefinition k) :=
    .after stays_peek fun _ _ => .ite ((reads_classDefinition hk).takes.and (.node fits rfl))
      ((reads_functionDefinition hk).takes.and (.node fits rfl))
  refine .nodeGiven rfl ((mayTake_clausesOf .decoratedDefinition _ (reads_decorator hk) .field_node).bind
    fun _ hdecorators => ?_)
  exact (Takes.partAs_given hdefinition).bind fun _ hcs =>
    .pure (allGiven_append.mpr ⟨hdecorators, hcs⟩)

/-! ### All statements -/

theorem keeps_statement : Keeps text (AllSound text) (statement k) := by
  have hfor := (reads_forStatement hk).keeps.part
  have hwith := (reads_withStatement hk).keeps.part
  have hdef := (reads_functionDefinition hk).keeps.part
  have hline := keeps_simpleLine hk
  refine .after stays_peek fun t _ => .ite .failAhead (.ite (reads_ifStatement hk).keeps.part
    (.ite hfor (.ite (reads_whileStatement hk).keeps.part (.ite (reads_tryStatement hk).keeps.part
    (.ite hwith (.ite hdef (.ite (reads_classDefinition hk).keeps.part
    (.ite (reads_decoratedDefinition hk).keeps.part
    (.ite (.orElse (reads_matchStatement hk).keeps.part hline) (.ite ?_ hline))))))))))
  exact .after (stays_peekSecond _) fun _ _ => .ite hdef (.ite hfor (.ite hwith hline))

theorem keeps_module : Keeps text (Tree.Sound text) (module k) := by
  refine .node rfl (.bind (.loop (fun acc hacc => .after stays_extras fun before hbefore =>
    .after stays_peek fun _ _ => .ite ?_ ?_) allSound_nil) fun body hbody =>
      .after stays_peek fun _ _ => .ite (.pure hbody) .failAhead)
  · exact .ite .stop (.goOn (allSound_append.mpr ⟨hacc, hbefore.sound⟩))
  · exact .goOnBehind (allSound_append.mpr ⟨hacc, hbefore.sound⟩) hk.statement

end

end Grammar

/-! ### The whole grammar -/

theorem Knot.keeps_tie (text : List Char) (n : Nat) : (Knot.tie n).Keeps text := by
  induction n with
  | zero =>
      exact ⟨fun _ _ => .fail, fun _ => .fail, fun _ _ => .fail, fun _ _ => .fail, fun _ _ => .fail,
        .fail, .fail, fun _ => .fail, takesWords_tie 0⟩
  | succ n ih =>
      exact ⟨Grammar.reads_expression ih, Grammar.reads_atom ih, Grammar.reads_arithmetic ih,
        Grammar.keeps_type ih, Grammar.within_embedded ih, Grammar.keeps_assigned ih,
        Grammar.keeps_statement ih, Grammar.keeps_casePattern ih, takesWords_tie (n + 1)⟩

/-- **The tree of a source file is sound in that file.** -/
theorem sound_parse {source : String} {t : Tree} (h : parse source = .ok t) :
    t.Sound source.toList := by
  unfold parse at h
  split at h
  · rename_i hdone
    cases h
    exact (Grammar.keeps_module (Knot.keeps_tie _ _) _ (State.fits_start source) _ _ hdone).2
  · exact absurd h (by simp)

end Plumbline.Syntax
