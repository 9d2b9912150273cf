/-
Statements read alike.

A statement ends with its line, and when a line has ended something has been taken as soon as a word
is ahead again.  So each round of a block takes something unless the block ends.  What opens and closes
blocks is read before the new line or behind it in both texts, because the new line holds no word.
-/
import Plumbline.Proofs.Insertion.Expression

namespace Plumbline.Syntax

namespace CommentPlace

open Grammar

variable {i : CommentPlace} {L m n : Nat} {q : Bool} {T : Token → Prop} {k k' : Knot}

/-! ### Line ends -/

/-- Where a line has ended and a word is ahead, something has been taken. -/
abbrev past {α : Type} : α → Token → Bool := fun _ => Token.isWritten

theorem length_next_lt {e : Expect} {width : Nat} {inFormat : Bool} {c : Cursor}
    (hbreak : BreaksLine c.rest) (hword : (Lexeme.next e width inFormat c).token.isWritten = true) :
    (Lexeme.next e width inFormat c).front.rest.length < c.rest.length := by
  obtain ⟨n, hfront⟩ := (Lexeme.comes_next e width inFormat c).front
  obtain ⟨x, xs, hx, hcounts⟩ := Lexeme.startsWord_of_isWritten hword
  rw [hfront, Cursor.rest_advance] at hx ⊢
  refine lt_of_le_of_ne (by rw [List.length_drop]; exact Nat.sub_le _ _) fun hsame => ?_
  obtain ⟨idle, rest, hidle, hblank, hrest⟩ := hbreak
  have hstart : c.rest = x :: xs := by
    rw [List.length_drop] at hsame
    rcases Nat.eq_zero_or_pos n with rfl | hpos
    · exact hx
    · have hnil : c.rest.length = 0 := by omega
      rw [List.length_eq_zero_iff.mp hnil, List.drop_nil] at hx
      exact absurd hx nofun
  rw [hstart] at hidle
  cases idle with
  | cons y idle =>
      obtain ⟨rfl, -⟩ := List.cons.inj hidle
      rcases hblank x (by simp) with hblank | hback
      · exact absurd hblank (by simp [hcounts.notBlank])
      · exact hcounts.notBackslash hback
  | nil =>
      rcases hrest with rfl | hhead
      · exact absurd hidle nofun
      · rw [List.nil_append] at hidle
        subst hidle
        obtain rfl : x = '\n' := Option.some.inj hhead
        exact absurd hcounts.notBlank (by decide)

/-- Where a line ends, the next word is farther on. -/
theorem length_resume_lt {e : Expect} {s : State} {c : Cursor} (hsize : c.rest.length ≤ s.size)
    (hbreak : BreaksLine c.rest) (hword : (s.resume e c).token.isWritten = true) :
    (s.resume e c).left < c.rest.length := by
  unfold State.resume State.token State.left at *
  rcases extra_or (Lexeme.next e (s.widths.headD 0) s.inFormat c).token with
    ⟨k, -, hextra⟩ | ⟨hcomment, hjoined⟩
  · have hshort := length_stop_lt (hextra.imp And.right And.right)
    rw [fill_extra hextra]
    exact (read_fill _ _ _ _ _ (by omega)).2.trans_lt hshort
  · rw [fill_done (Nat.succ_pos _) hcomment hjoined] at hword ⊢
    exact length_next_lt hbreak hword

theorem Alike.left_shift_newline {m : Nat} {s s' : State} (h : i.Alike m s s')
    (hnewline : s.token = .newline) {e : Expect} {last : Position}
    (hword : (State.resume e s.ahead.stop { s with last := last, extras := [] }).token.isWritten = true) :
    (State.resume e s.ahead.stop { s with last := last, extras := [] }).left < s.left := by
  obtain ⟨e', width, inFormat, c, hread⟩ := h.read
  have htoken : (Lexeme.next e' width inFormat c).token = .newline := by rw [← hread]; exact hnewline
  obtain ⟨hbreak, hfront, hstop⟩ := Lexeme.breaksLine_of_newline htoken
  rw [← hread] at hfront hstop
  have hleft : s.left = c.rest.length := by rw [State.left, hfront]
  rw [hstop] at hword ⊢
  rw [hleft]
  exact length_resume_lt (hleft ▸ h.left_le.1) hbreak hword

theorem agree_shiftNewline (e : Expect) (hT : ∀ t, T t → t = .newline) :
    i.Agree L true T past 0 (fun n _ _ => n = 0) (Parser.shift e) (Parser.shift e) := by
  intro m s s' halike hleft hclean ht
  have hnewline : s.token = .newline := hT _ ht
  obtain ⟨halike', hle⟩ := halike.behind (hclean rfl) (by rw [hnewline]; rfl) e
  exact .done rfl halike' rfl (hle.trans (length_stop_le halike)) (halike.left_shift_newline hnewline)

theorem agree_lineEnd (e : Expect) :
    i.Agree L q T past 0 i.AreMoved (lineEnd e) (lineEnd e) :=
  .peek fun _ _ => .ite
    (fun hnewline => .extras fun _ _ _ hbefore =>
      .thenAnswer (agree_shiftNewline e (forall_eq.mpr hnewline)) fun _ _ _ hn => by
        rw [hn, Nat.zero_add]
        exact hbefore)
    fun _ => .fail

/-! ### Blocks that open and close -/

theorem Alike.withWidths {s s' : State} (h : i.Alike m s s') {widths widths' : List Nat}
    (hwidths : widths' = widths) :
    i.Alike m { s with widths := widths } { s' with widths := widths' } := by
  obtain ⟨hahead, hlast, -, hformat, hread, hsize, hsize'⟩ := h
  refine ⟨?_, hlast, hwidths, hformat, hread, hsize, hsize'⟩
  cases hahead with
  | early h hextras => exact .early h hextras
  | late h hextras hwritten => exact .late h hextras hwritten

/-- Taking a token with other blocks open behind it. -/
theorem agree_shiftInto (e : Expect) (widths : List Nat → List Nat)
    (hquote : ∀ t, T t → opensQuote t = false) :
    i.Agree L true T (const false) 0 (fun n _ _ => n = 0)
      (fun s => Parser.shift e { s with widths := widths s.widths })
      (fun s => Parser.shift e { s with widths := widths s.widths }) := by
  intro m s s' halike hleft hclean ht
  exact Agree.shift e hquote m _ _ (halike.withWidths (congrArg widths halike.widths)) hleft hclean ht

theorem agree_openBlock (width : Nat) (hquote : ∀ t, T t → opensQuote t = false) :
    i.Agree L true T (const false) 0 (fun n _ _ => n = 0) (openBlock width) (openBlock width) :=
  agree_shiftInto .statement (width :: ·) hquote

theorem agree_closeBlock :
    i.Agree L q T (const false) 0 i.AreMoved closeBlock closeBlock :=
  .peek fun _ _ => .ite
    (fun hdedent => .extras fun _ _ _ hbefore =>
      .thenGo (agree_shiftInto .statement List.tail (forall_eq.mpr (hdedent ▸ rfl))) fun _ _ => .pure hbefore)
    fun _ => .fail

/-! ### Assignments -/

theorem Alike.prepend {s s' : State} (h : i.Alike m s s') {xs xs' : List Tree}
    (hxs : i.AreMoved 0 xs xs') :
    i.Alike m { s with extras := xs ++ s.extras } { s' with extras := xs' ++ s'.extras } := by
  obtain ⟨hahead, hlast, hwidths, hformat, hread, hsize, hsize'⟩ := h
  refine ⟨?_, hlast, hwidths, hformat, hread, hsize, hsize'⟩
  cases hahead with
  | early h hextras => exact .early h (hxs.append hextras)
  | late h hextras hwritten => exact .late h (hxs.append hextras) hwritten

/-- Above the new line whole tokens come behind the place where a line ends. -/
theorem EarlyPair.front_of_newline {l l' : Lexeme} (h : i.EarlyPair l l') (ht : l.token = .newline) :
    ∃ rest, Tokens rest ∧ i.IsEarly rest l.front l'.front := by
  cases h with
  | mark _ hrest h => exact ⟨_, hrest, h⟩
  | @word w rest _ _ =>
      have hlayout := Token.isLayout_read (w ++ rest)
      have hnewline : (Token.read (w ++ rest)).1 = .newline := ht
      rw [hnewline] at hlayout
      exact absurd hlayout (by decide)
  | literal => exact absurd ht nofun

theorem agree_passLineEnd :
    i.Agree L q T (const false) 0 (fun n _ _ => n = 0) passLineEnd passLineEnd := by
  intro m s s' halike hleft _ _
  unfold passLineEnd
  rw [halike.ahead.token]
  split
  · rename_i hnewline
    have hnewline : s.token = .newline := by simpa using hnewline
    obtain ⟨e, width, inFormat, c, hread⟩ := halike.read
    have htoken : (Lexeme.next e width inFormat c).token = .newline := by rw [← hread]; exact hnewline
    obtain ⟨-, hfront, hstop⟩ := Lexeme.breaksLine_of_newline htoken
    rw [← hread] at hfront hstop
    have hlevel : i.Abreast { s with extras := [] } { s' with extras := [] } :=
      ⟨halike.last, halike.widths, halike.inFormat, halike.size, halike.size'⟩
    cases halike.ahead with
    | early h hextras =>
        obtain ⟨rest, hrest, hearly⟩ := h.front_of_newline hnewline
        obtain ⟨hnext, hle⟩ := hlevel.resume_early .operand hrest hearly
        exact .done rfl (hnext.prepend hextras) rfl hle nofun
    | late h hextras hwritten =>
        obtain rfl : m = 0 := by
          by_contra hm
          exact absurd (hwritten (Nat.pos_of_ne_zero hm)).1 (by rw [hnewline]; decide)
        have hpast : i.start < s.ahead.front.pos.byte := by
          rw [hfront, ← hstop]
          exact h.past
        obtain ⟨hnext, hle⟩ := hlevel.resume_late .operand h.front hpast
        exact .done rfl (hnext.prepend hextras) rfl hle nofun
  · exact .done rfl halike rfl (Nat.le_refl _) nofun

theorem agree_assignmentTo (hk : i.Later L k k') {target target' : Tree}
    (htarget : i.IsMoved n target target') (hT : ∀ t, T t → startsAssignment t = true) :
    i.Agree (L + 1) q T (const false) n i.IsMoved (assignmentTo k target) (assignmentTo k' target') := by
  have hleft := htarget.withField .left
  refine .peek fun t ht => .ite (fun _ => .extend rfl hleft ?_) fun _ => .ite
    (fun _ => .extend rfl hleft ?_) fun _ => .extend rfl hleft ?_
  · exact .after (.takesMark _ _ (by decide)) fun _ _ _ hsign =>
      .thenPure (hk.assigned.partAs .right) fun _ _ _ hright => hsign.append hright
  · exact .after (.takesMark _ _ (by decide)) fun _ _ _ hcolon =>
      .bind ((hk.type true .line).partAs .type) fun _ _ _ htype =>
        .option (.mark? _ _ (by decide)) (.pure (hcolon.append htype)) fun _ _ _ hsign =>
          .thenPure (hk.assigned.partAs .right) fun _ _ _ hright =>
            ((hcolon.append htype).append hsign).append hright
  · have hspells : Spells t := spells_of_isOneOf (hT t ht) (by decide)
    exact .extras fun _ _ _ hbefore =>
      .overAfter (.takesShift _ (forall_eq.mpr hspells)) fun _ _ =>
        .thenPure (hk.assigned.partAs .right) fun _ _ _ hright => hbefore.append hright

theorem agree_assignmentOf (hk : i.Later L k k') {value value' : Tree}
    (hvalue : i.IsMoved n value value') (hT : ∀ t, T t → startsAssignment t = true) :
    i.Agree (L + 1) q T (const false) n i.IsMoved (assignmentOf k value) (assignmentOf k' value') := by
  unfold assignmentOf
  have htargets := hvalue.toTargets?
  generalize toTargets? value = o at htargets ⊢
  generalize toTargets? value' = o' at htargets ⊢
  cases htargets with
  | some h => exact agree_assignmentTo hk h hT
  | none => exact .fail

theorem agree_joinedTargets (hk : i.Operands L k k') {first first' : Tree}
    (hfirst : i.IsMoved n first first') (p : Place) :
    i.Agree L q T (const false) n i.IsMoved (joinedTargets k first p) (joinedTargets k' first' p) := by
  unfold joinedTargets
  have hpattern := hfirst.toPattern?
  generalize toPattern? first = o at hpattern ⊢
  generalize toPattern? first' = o' at hpattern ⊢
  cases hpattern with
  | none => exact .fail
  | some htarget =>
      exact .thenGo agree_passLineEnd fun _ _ => .peek fun _ _ => .ite
        (fun _ => .extend rfl htarget (.moreItems _ _ (agree_target hk p))) fun _ => .pure htarget

theorem agree_assigned (hk : i.Later L k k') (hops : i.Operands (L + 1) k k') :
    i.Agree (L + 1) true T (const false) 0 i.IsMoved (assigned k) (assigned k') := by
  refine .peek fun _ _ => .ite (fun _ => agree_yieldExpression hops _) fun _ =>
    .bind (hops.expression _ _) fun n first first' hfirst => .peek fun t _ => ?_
  have hplain : i.Agree (L + 1) false (· = t) (const false) (n + 0) i.IsMoved
      (do
        let value ← expressionsAfter k .line first
        if startsAssignment (← Parser.peek) then assignmentOf k value else pure value)
      (do
        let value ← expressionsAfter k' .line first'
        if startsAssignment (← Parser.peek) then assignmentOf k' value else pure value) :=
    .bindFrom (agree_expressionsAfter hops .line hfirst) fun _ _ _ hvalue => .peek fun _ _ => .ite
      (fun hstarts => agree_assignmentOf hk hvalue (forall_eq.mpr hstarts)) fun _ => .pure hvalue
  rw [hfirst.isFilledBracket]
  refine .ite (fun _ => .orElse ?_ hplain) fun _ => hplain
  exact .bindFrom (agree_joinedTargets hops hfirst _) fun _ targets targets' htargets => .peek
    fun _ _ => .ite (fun hstarts => agree_assignmentTo hk htargets (forall_eq.mpr hstarts)) fun _ => by
      rw [htargets.kind]
      exact .ite (fun _ => .pure htargets) fun _ => .fail

/-- An expression that starts an assignment in a statement of its own. -/
theorem agree_plainStatement (hk : i.Later L k k') {first first' : Tree}
    (hfirst : i.IsMoved n first first') :
    i.Agree L q T (const false) n i.AreMoved
      (do
        let value ← expressionsAfter k .line first
        if startsAssignment (← Parser.peek) then pure [← assignmentOf k value]
        else if value.kind = .expressionList then pure value.children
        else pure [value])
      (do
        let value ← expressionsAfter k' .line first'
        if startsAssignment (← Parser.peek) then pure [← assignmentOf k' value]
        else if value.kind = .expressionList then pure value.children
        else pure [value]) := by
  refine .bindFrom (c := 0) (agree_expressionsAfter hk.toOperands .line hfirst) fun _ value value' hvalue =>
    .peek fun _ _ => .ite (fun hstarts => ?_) fun _ => ?_
  · exact .bindFrom (c := 0) ((agree_assignmentOf hk hvalue (forall_eq.mpr hstarts)).of_le (Nat.le_succ L))
      fun _ _ _ h => .pure (.singleton h)
  · rw [hvalue.kind]
    exact .ite (fun hlist => .pure (hvalue.children (hlist ▸ nofun))) fun _ => .pure (.singleton hvalue)

theorem agree_expressionStatement (hk : i.Later L k k') :
    i.Agree L true T (const false) 0 i.IsMoved (expressionStatement k) (expressionStatement k') := by
  refine .node rfl <| .peek fun _ _ => .ite (fun _ => (agree_yieldExpression hk.toOperands _).part) fun _ =>
    .bind (hk.expression _ _) fun n first first' hfirst => .peek fun t _ =>
      .look (.wouldRead (agree_expressionsAfter hk.toOperands _ hfirst) _) fun _ _ hends => ?_
  subst hends
  rw [hfirst.isFilledBracket]
  refine .ite (fun _ => .orElse ?_ (agree_plainStatement hk hfirst)) fun _ => agree_plainStatement hk hfirst
  exact .bindFrom (agree_joinedTargets hk.toOperands hfirst _) fun _ _ _ htargets => .peek fun _ _ => .ite
    (fun hstarts => .bindFrom (c := 0)
      ((agree_assignmentTo hk htargets (forall_eq.mpr hstarts)).of_le (Nat.le_succ L))
      fun _ _ _ h => .pure (.singleton h)) fun _ => .fail

/-! ### Imports -/

theorem agree_dottedName (e : Expect) :
    i.Agree L q T (const false) 0 i.IsMoved (dottedName e) (dottedName e) :=
  .node rfl <| .bind (agree_identifier e).part fun _ _ _ hfirst => .loop (fun _ _ _ hacc =>
    .option (.mark? _ _ (by decide)) .stop fun _ _ _ hdot =>
      .thenPure (agree_identifier e).part fun _ _ _ hname => .goOn ((hacc.append hdot).append hname)) hfirst

theorem agree_importItem (e : Expect) :
    i.Agree L q T (const false) 0 i.IsMoved (importItem e) (importItem e) := by
  refine .bind (agree_dottedName e) fun _ _ _ hname => .peek fun _ _ => .ite
    (fun _ => .bindFrom (c := 0) (.extend rfl (hname.withField .name) <|
      .bind (.mark _ _) fun _ _ _ hword => .thenPure ((agree_identifier e).partAs .asName)
        fun _ _ _ halias => hword.append halias) fun _ _ _ hitem => .pure (hitem.withField .name))
    fun _ => .pure_bind (.pure (hname.withField .name))

theorem agree_importList (e : Expect) :
    i.Agree L q T (const false) 0 i.AreMoved (importList e) (importList e) :=
  .bind (agree_importItem e).part fun _ _ _ hfirst =>
    .thenPure (.moreItems _ _ (agree_importItem e)) fun _ _ _ hmore => hfirst.append hmore

theorem agree_fromList : i.Agree L q T (const false) 0 i.AreMoved fromList fromList :=
  .option (.mark? _ _ (by decide)) (agree_importList _) fun _ _ _ hhead =>
    .bind (agree_importList _) fun _ _ _ hitems => .thenPure (.mark _ _) fun _ _ _ hclose =>
      (hhead.append hitems).append hclose

theorem agree_relativeImport :
    i.Agree L q T (const false) 0 i.IsMoved relativeImport relativeImport := by
  refine .node rfl <| .bind (R := i.AreMoved) (.loop (fun _ _ _ hacc => .peek fun t _ => .ite
    (fun hdots => .extras fun _ _ _ hbefore =>
      .overNext (.takesShift _ (forall_eq.mpr (spells_of_isOneOf hdots (by decide)))) fun _ _ =>
        .pure (.goOn (hacc.append hbefore)))
    fun _ => .stop) .nil) fun _ _ _ hdots => .peek fun _ _ => .ite
      (fun _ => .thenPure (agree_dottedName _).part fun _ _ _ hname => hdots.append hname)
      fun _ => .pure hdots

theorem agree_importStatement :
    i.Agree L q T (const false) 0 i.IsMoved importStatement importStatement :=
  .node rfl <| .bind (.mark _ _) fun _ _ _ hhead =>
    .thenPure (agree_importList _) fun _ _ _ hitems => hhead.append hitems

theorem agree_fromStatement :
    i.Agree L q T (const false) 0 i.IsMoved fromStatement fromStatement := by
  refine .build <| .bind (.mark _ _) fun _ _ _ hhead => .peek fun t _ => .ite
    (fun _ => .bind (.mark _ _) fun _ _ _ hfuture => .bind (.mark _ _) fun _ _ _ hword =>
      .thenPure agree_fromList fun _ _ _ hnames =>
        .node rfl (((hhead.append hfuture).append hword).append hnames))
    fun _ => .bind (Agree.partAs .moduleName (.ite (fun _ => agree_relativeImport)
      fun _ => agree_dottedName _)) fun _ _ _ hsource => .bind (.mark _ _) fun _ _ _ hword =>
        .peek fun _ _ => .ite
          (fun hstar => .bind (Agree.part (.leaf rfl _ (forall_eq.mpr (opensQuote_of_isMark hstar)))) ?_)
          fun _ => .bind agree_fromList ?_
  all_goals
    exact fun _ _ _ hnames => .pure (.node rfl (((hhead.append hsource).append hword).append hnames))

/-! ### Other simple statements -/

theorem agree_wordStatement (hk : i.Operands L k k') {kind : Kind} (hkind : isPlain kind = true)
    (word : String) (required : Bool) :
    i.Agree L q T (const false) 0 i.IsMoved (wordStatement k kind word required)
      (wordStatement k' kind word required) :=
  .node hkind <| .bind (.mark _ _) fun _ _ _ hhead => .peek fun _ _ => .ite
    (fun _ => .thenPure (agree_expressions hk _).part fun _ _ _ hvalue => hhead.append hvalue)
    fun _ => .pure hhead

theorem agree_raiseStatement (hk : i.Operands L k k') :
    i.Agree L q T (const false) 0 i.IsMoved (raiseStatement k) (raiseStatement k') := by
  refine .node rfl <| .bind (.mark _ _) fun _ _ _ hhead => .peek fun _ _ => .ite
    (fun _ => .bind (agree_expressions hk _).part ?_) fun _ => .bind .noParts ?_
  all_goals
    exact fun _ _ _ hvalue => .option (.mark? _ _ (by decide)) (.pure (hhead.append hvalue))
      fun _ _ _ hword => .thenPure (hk.expression _ _).part fun _ _ _ hcause =>
        ((hhead.append hvalue).append hword).append hcause

theorem agree_listStatement {kind : Kind} (hkind : isPlain kind = true) (word : String)
    {item item' : Parser Tree} (hitem : i.Agree L true Any (const false) 0 i.IsMoved item item') :
    i.Agree L q T (const false) 0 i.IsMoved (listStatement kind word item)
      (listStatement kind word item') :=
  .node hkind <| .bind (.mark _ _) fun _ _ _ hhead => .bind hitem.anyToken.part fun _ _ _ hfirst =>
    .thenPure (.furtherItems hitem) fun _ _ _ hmore => (hhead.append hfirst).append hmore

theorem agree_lineExpression (hk : i.Operands L k k') :
    i.Agree L true T (const false) 0 i.IsMoved (lineExpression k) (lineExpression k') := hk.expression _ _

theorem agree_printStatement (hk : i.Operands L k k') :
    i.Agree L q T (const false) 0 i.IsMoved (printStatement k) (printStatement k') := by
  refine .node rfl <| .bind (.mark _ _) fun _ _ _ hhead => .peek fun _ _ => .ite
    (fun _ => .bind (Agree.part (.node rfl <| .bind (.mark _ _) fun _ _ _ hsign =>
      .thenPure (agree_lineExpression hk).part fun _ _ _ hvalue => hsign.append hvalue)) ?_)
    fun _ => .bind (agree_lineExpression hk).part ?_
  all_goals
    exact fun _ _ _ hfirst => .thenPure (.moreItems _ _ (agree_lineExpression hk)) fun _ _ _ hmore =>
      (hhead.append hfirst).append hmore

theorem agree_execStatement (hk : i.Later L k k') :
    i.Agree L q T (const false) 0 i.IsMoved (execStatement k) (execStatement k') := by
  refine .node rfl <| .bind (.mark _ _) fun _ _ _ hhead => .peek fun t _ => ?_
  split
  case' h_1 => refine .bind ((agree_string hk _).of_le (Nat.le_succ L)).forget.part fun _ _ _ hcode => ?_
  case' h_2 => refine .bind (agree_identifier _).part fun _ _ _ hcode => ?_
  all_goals
    exact .option (.mark? _ _ (by decide)) (.pure (hhead.append hcode)) fun _ _ _ hword =>
      .bind (agree_lineExpression hk.toOperands).part fun _ _ _ hfirst =>
        .thenPure (.furtherItems (agree_lineExpression hk.toOperands)) fun _ _ _ hmore =>
          (((hhead.append hcode).append hword).append hfirst).append hmore

theorem agree_typeAlias (hk : i.Later L k k') :
    i.Agree L q T (const false) 0 i.IsMoved (typeAlias k) (typeAlias k') :=
  .node rfl <| .bind (.mark _ _) fun _ _ _ hhead => .bind (hk.type _ _).part fun _ _ _ hleft =>
    .bind (.mark _ _) fun _ _ _ hsign => .thenPure (hk.type _ _).part fun _ _ _ hvalue =>
      ((hhead.append hleft).append hsign).append hvalue

theorem agree_ended {p p' : Parser Tree} (h : i.Agree L q T (const false) 0 i.IsMoved p p') :
    i.Agree L q T (const false) 0 i.IsMoved (ended p) (ended p') :=
  .bind h fun _ _ _ ht => .peek fun _ _ => .ite (fun _ => .pure ht) fun _ => .fail

theorem agree_simpleStatement (hk : i.Later L k k') :
    i.Agree L true T (const false) 0 i.IsMoved (simpleStatement k) (simpleStatement k') := by
  have hexpression : ∀ {T : Token → Prop}, i.Agree L true T (const false) 0 i.IsMoved
      (expressionStatement k) (expressionStatement k') := agree_expressionStatement hk
  have hword : ∀ {t : Token} {word : String} {kind : Kind}, isPlain kind = true → t.isMark word = true →
      i.Agree L true (· = t) (const false) 0 i.IsMoved (Parser.leaf kind .lineEnd)
        (Parser.leaf kind .lineEnd) := fun hkind h =>
    .leaf hkind _ (forall_eq.mpr (opensQuote_of_isMark h))
  refine .peek fun t _ => .ite (fun _ => agree_importStatement) fun _ => .ite
    (fun _ => agree_fromStatement) fun _ => .ite
    (fun _ => agree_wordStatement hk.toOperands rfl _ _) fun _ => .ite
    (fun _ => agree_wordStatement hk.toOperands rfl _ _) fun _ => .ite
    (fun _ => agree_raiseStatement hk.toOperands) fun _ => .ite (hword rfl) fun _ => .ite (hword rfl)
    fun _ => .ite (hword rfl) fun _ => .ite
    (fun _ => agree_listStatement rfl _ (agree_identifier _)) fun _ => .ite
    (fun _ => agree_listStatement rfl _ (agree_identifier _)) fun _ => .ite
    (fun _ => agree_listStatement rfl _ (agree_lineExpression hk.toOperands)) fun _ => .ite
    (fun hprint => .look (.peekSecond _) fun second second' hsecond => ?_) fun _ => .ite
    (fun hexec => .look (.peekSecond _) fun second second' hsecond => ?_) fun _ => .ite
    (fun _ => .orElse (agree_ended (agree_typeAlias hk)) hexpression) fun _ => hexpression
  · rw [hsecond (opensQuote_of_isMark hprint)]
    exact .ite (fun _ => agree_printStatement hk.toOperands) fun _ =>
      .orElse (agree_ended hexpression) (agree_printStatement hk.toOperands)
  · rw [hsecond (opensQuote_of_isMark hexec)]
    split
    · exact agree_execStatement hk
    · exact .ite (fun _ => agree_execStatement hk) fun _ => hexpression

theorem agree_simpleLine (hk : i.Later L k k') :
    i.Agree L q T past 0 i.AreMoved (simpleLine k) (simpleLine k') :=
  .bind (agree_simpleStatement hk).part fun _ _ _ hfirst => .bindFrom (R := i.AreMoved) (.loop (fun _ _ _ hacc =>
    .option (.mark? _ _ (by decide)) .stop fun _ _ _ hsemicolon => .peek fun _ _ => .ite
      (fun _ => .pure (.goOn (hacc.append hsemicolon)))
      fun _ => .thenPure (agree_simpleStatement hk).part fun _ _ _ hnext =>
        .goOn ((hacc.append hsemicolon).append hnext)) hfirst) fun _ _ _ hmore =>
    .thenAnswer (agree_lineEnd _) fun _ _ _ hend => hmore.append hend

end CommentPlace

end Plumbline.Syntax
