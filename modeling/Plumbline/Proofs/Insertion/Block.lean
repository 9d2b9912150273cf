/-
Blocks read alike.

A block ends where a line is indented less, and a module where the text ends.  Before that every round
reads a statement, and only a word can start one.  So the words left bound the rounds, besides a last
one that takes the comments before the end of a module.
-/
import Plumbline.Proofs.Insertion.Statement
import Plumbline.Proofs.Syntax.Outline

namespace Plumbline.Syntax

namespace CommentPlace

open Grammar

variable {i : CommentPlace} {L n : Nat} {q b : Bool} {T : Token → Prop} {k k' : Knot}

/-! ### Lines one after the other -/

/-- How many lines may still come. -/
def linesLeft (s : State) : Nat :=
  if s.token.isWritten = true then s.left + 1 else if s.extras = [] then 0 else 1

/-- A round that goes on has taken something as soon as a word is ahead again. -/
abbrev goesPast {α : Type} (o : Option α) (t : Token) : Bool := o.isSome && t.isWritten

namespace Agree

variable {α β : Type} {c : Nat} {R : Nat → α → α → Prop} {S : Nat → β → β → Prop} {p p' : Parser α}
  {a a' : α}

/-- Less may be told of what is taken. -/
theorem asFar {d d' : α → Token → Bool} (h : i.Agree L q T d c R p p')
    (hd : ∀ a t, d' a t = true → d a t = true) : i.Agree L q T d' c R p p' :=
  fun m s s' halike hleft hclean ht => (h m s s' halike hleft hclean ht).imp (fun _ _ _ h => h) hd

theorem endLines : i.Agree L q T goesPast c (Next c R) (Pure.pure none) (Pure.pure none) :=
  fun _ _ _ halike _ _ _ => .done .stop halike rfl (Nat.le_refl _) nofun

/-- A round goes on with what is read. -/
theorem goOnPast {m : Nat} {g g' : α → β} (hp : i.Agree L q T past 0 R p p')
    (hg : ∀ n a a', R n a a' → S (n + c) (g a) (g' a')) :
    i.Agree L q T goesPast c (Next m S) (p >>= fun a => Pure.pure (some (g a)))
      (p' >>= fun a => Pure.pure (some (g' a))) :=
  (hp.thenAnswer fun _ _ _ h => .goOn (hg _ _ _ h)).asFar fun _ _ h => (Bool.and_eq_true_iff.mp h).2

/-- A loop over lines: where no word is ahead, a round goes on only to take what waits there. -/
theorem loopLines {step step' : α → Parser (Option α)}
    (hstep : ∀ n a a', R n a a' → i.Agree L false Any goesPast n (Next n R) (step a) (step' a'))
    (hrest : ∀ a b s s₁, step a s = .done (some b) s₁ → s.token.isWritten = false →
      s.extras ≠ [] ∧ s₁.extras = [] ∧ s₁.token.isWritten = false) (ha : R c a a') :
    i.Agree L q T (const false) c R (Parser.loop step a) (Parser.loop step' a') := by
  intro m s s' halike hleft _ _
  have hsize := halike.left_le
  have hbound : ∀ s : State, linesLeft s ≤ s.left + 1 := fun s => by
    unfold linesLeft
    split
    · exact Nat.le_refl _
    · split <;> omega
  have hlines := hbound s
  refine loopFor linesLeft (@fun _ _ _ _ s _ hr h hleft => ?_) _ _ ha halike hleft (by omega) (by omega)
  have hends := hstep _ _ _ hr _ _ _ h hleft nofun trivial
  refine ⟨hends.imp (fun _ _ _ h => h) nofun, fun b s₁ hdone => ?_⟩
  by_cases hwritten : s.token.isWritten = true
  · obtain ⟨e, width, inFormat, c, hread⟩ := h.read
    have hpos : 0 < s.left := by
      obtain ⟨x, xs, hx, -⟩ := Lexeme.startsWord_of_isWritten (c := c) (by
        rw [← hread]
        exact hwritten)
      rw [State.left, hread, hx]
      exact Nat.succ_pos _
    rw [hdone] at hends
    generalize step' _ _ = o' at hends
    cases hends with
    | done _ _ _ _ hlt =>
        unfold linesLeft
        rw [if_pos hwritten]
        split
        · have hless := hlt (by simpa using ‹s₁.token.isWritten = true›)
          omega
        · split <;> omega
  · rw [Bool.not_eq_true] at hwritten
    obtain ⟨hextras, hextras₁, hword₁⟩ := hrest _ _ _ _ hdone hwritten
    unfold linesLeft
    rw [hwritten, hword₁, if_neg hextras, if_pos hextras₁, if_neg nofun, if_neg nofun]
    exact Nat.one_pos

end Agree

/-- The readers of all nested constructs agree where less than `L` is left. -/
structure Lines (i : CommentPlace) (L : Nat) (k k' : Knot) : Prop extends Later i L k k' where
  statement : ∀ {q : Bool} {T : Token → Prop},
    i.Agree L q T past 0 i.AreMoved k.statement k'.statement
  /-- No statement starts where no word is ahead. -/
  starts : ∀ {s s₁ : State} {ts : List Tree}, k.statement s = .done ts s₁ → s.token.isWritten = true

/-! ### Blocks -/

theorem agree_blockLines (hk : i.Lines L k k') :
    i.Agree L q T (const false) 0 i.AreMoved (blockLines k) (blockLines k') := by
  refine .bind (R := i.AreMoved) (.loopLines (fun _ _ _ hacc => .peek fun _ _ => .ite
    (fun _ => .endLines) fun _ => .extras fun _ _ _ hbefore => .goOnPast hk.statement fun _ _ _ hline =>
      (hacc.append hbefore).append hline) (fun acc b s s₁ hdone hword => ?_) .nil) fun _ _ _ hlines =>
    .thenPure agree_closeBlock fun _ _ _ hclose => hlines.append hclose
  obtain ⟨_, _, hpeek, hdone⟩ := Parser.bind_eq_done hdone
  cases hpeek
  rcases Parser.ite_eq_done hdone with ⟨-, hdone⟩ | ⟨-, hdone⟩
  · exact absurd (Parser.pure_eq_done hdone).1 nofun
  · obtain ⟨_, s₂, hbefore, hdone⟩ := Parser.bind_eq_done hdone
    obtain ⟨_, s₃, hstatement, -⟩ := Parser.bind_eq_done hdone
    cases hbefore
    exact absurd (hk.starts hstatement) (by simpa [State.token] using hword)

/-- The block after a header takes its line end, or opens and closes with layout marks. -/
theorem agree_suite (hk : i.Lines L k k') :
    i.Agree L q T (const false) 0 i.AreMoved (suite k) (suite k') := by
  refine .extras fun _ _ _ hbefore => .peek fun t _ => ?_
  cases t with
  | newline =>
      exact .thenPure (.node rfl (agree_lineEnd _).forget) fun _ _ _ hblock =>
        hbefore.concat (hblock.withField .body)
  | indent width =>
      refine .thenGo (agree_openBlock width (forall_eq.mpr rfl)) fun _ _ => .extras fun _ _ _ hlead => ?_
      exact .thenPure (.node rfl (agree_blockLines hk)) fun _ _ _ hblock =>
        (hbefore.append hlead).concat (hblock.withField .body)
  | _ =>
      exact .thenPure (.node rfl (agree_simpleLine hk.toLater).forget) fun _ _ _ hblock =>
        hbefore.concat (hblock.withField .body)

theorem agree_body (hk : i.Lines L k k') :
    i.Agree L q T (const false) 0 i.AreMoved (body k) (body k') :=
  .bind (.mark _ _) fun _ _ _ hcolon => .thenPure (agree_suite hk) fun _ _ _ hblock => hcolon.append hblock

/-! ### Clauses -/

theorem agree_wordClause? (hk : i.Lines L k k') (word : String) {kind : Kind}
    (hkind : isPlain kind = true) :
    i.Agree L q T (const false) 0 i.AreMoved (wordClause? k word kind) (wordClause? k' word kind) :=
  .peek fun _ _ => .ite
    (fun _ => .part <| .node hkind <| .bind (.mark _ _) fun _ _ _ hhead =>
      .thenPure (agree_body hk) fun _ _ _ hbody => hhead.append hbody)
    fun _ => .noParts

theorem agree_headerExpression (hk : i.Operands L k k') :
    i.Agree L true T (const false) 0 i.IsMoved (headerExpression k) (headerExpression k') :=
  hk.expression _ _

theorem agree_conditionClause (hk : i.Lines L k k') (word : String) (hword : word.toList ≠ [])
    {kind : Kind} (hkind : isPlain kind = true) {after after' : Parser (List Tree)}
    (hafter : i.Agree L false Any (const false) 0 i.AreMoved after after') :
    i.Agree (L + 1) q T (const true) 0 i.IsMoved (conditionClause k word kind after)
      (conditionClause k' word kind after') :=
  .node hkind <| .after (.takesMark _ _ hword) fun _ _ _ hhead =>
    .bind ((agree_headerExpression hk.toOperands).partAs .condition) fun _ _ _ hcondition =>
      .bind (agree_body hk) fun _ _ _ hbody => .thenPure hafter fun _ _ _ hrest =>
        ((hhead.append hcondition).append hbody).append hrest

theorem agree_clausesOf (word : String) {clause clause' : Parser Tree}
    (hclause : i.Agree L true Any (const true) 0 i.IsMoved clause clause') :
    i.Agree L q T (const false) 0 i.AreMoved (clausesOf word clause) (clausesOf word clause') :=
  .loop (fun _ _ _ hacc => .peek fun _ _ => .ite
    (fun _ => .next hclause.part.anyToken fun _ _ _ hnext => .pure (.goOn (hacc.append hnext)))
    fun _ => .stop) .nil

/-! ### Compound statements -/

theorem agree_ifStatement (hk : i.Lines L k k') :
    i.Agree (L + 1) q T (const true) 0 i.IsMoved (ifStatement k) (ifStatement k') :=
  agree_conditionClause hk _ (by decide) rfl <|
    .bind (agree_clausesOf _ ((agree_conditionClause hk _ (by decide) rfl .noParts).of_le (Nat.le_succ L)))
      fun _ _ _ hclauses => .thenPure (agree_wordClause? hk _ rfl) fun _ _ _ hother =>
        hclauses.append hother

theorem agree_whileStatement (hk : i.Lines L k k') :
    i.Agree (L + 1) q T (const true) 0 i.IsMoved (whileStatement k) (whileStatement k') :=
  agree_conditionClause hk _ (by decide) rfl (agree_wordClause? hk _ rfl)

theorem agree_asyncMark : i.Agree L q T (const false) 0 i.AreMoved asyncMark asyncMark :=
  .peek fun _ _ => .ite
    (fun h => .partAs .async (.leaf rfl _ (forall_eq.mpr (opensQuote_of_isMark h)))) fun _ => .noParts

theorem agree_forStatement (hk : i.Lines L k k') :
    i.Agree (L + 1) q T (const true) 0 i.IsMoved (forStatement k) (forStatement k') :=
  .node rfl <| .bind agree_asyncMark fun _ _ _ hasync =>
    .after (.takesMark _ _ (by decide)) fun _ _ _ hhead =>
    .bind ((agree_targets hk.toOperands _).partAs .left) fun _ _ _ hleft =>
    .bind (.mark _ _) fun _ _ _ hin =>
    .bind ((agree_expressions hk.toOperands _).partAs .right) fun _ _ _ hright =>
    .bind (agree_body hk) fun _ _ _ hbody =>
    .thenPure (agree_wordClause? hk _ rfl) fun _ _ _ hother =>
      (((((hasync.append hhead).append hleft).append hin).append hright).append hbody).append hother

theorem agree_exceptClause (hk : i.Lines L k k') :
    i.Agree (L + 1) q T (const true) 0 i.IsMoved (exceptClause k) (exceptClause k') := by
  have hrest : ∀ {m n : Nat} {cs ds cs' ds' : List Tree}, i.AreMoved m cs ds → i.AreMoved n cs' ds' →
      i.Agree L false Any (const false) (n + (m + 0)) i.AreMoved
        (do
          let values ←
            if (← Parser.peek).isMark ":" then pure []
            else
              let first ← Parser.partAs .value (headerExpression k)
              pure (first ++ (← Parser.furtherItems (headerExpression k)))
          pure (cs ++ cs' ++ values ++ (← body k)))
        (do
          let values ←
            if (← Parser.peek).isMark ":" then pure []
            else
              let first ← Parser.partAs .value (headerExpression k')
              pure (first ++ (← Parser.furtherItems (headerExpression k')))
          pure (ds ++ ds' ++ values ++ (← body k'))) := by
    intro m n cs ds cs' ds' hhead hstar
    have hend : ∀ {l : Nat} {vs ws : List Tree}, i.AreMoved l vs ws →
        i.Agree L false Any (const false) (l + (n + (m + 0))) i.AreMoved
          (do pure (cs ++ cs' ++ vs ++ (← body k))) (do pure (ds ++ ds' ++ ws ++ (← body k'))) :=
      fun hvalues => .thenPure (agree_body hk) fun _ _ _ hbody =>
        ((hhead.append hstar).append hvalues).append hbody
    refine .peek fun _ _ => .ite (fun _ => .bind .noParts fun _ _ _ => hend) fun _ => ?_
    refine .bind ((agree_headerExpression hk.toOperands).partAs .value) fun _ _ _ hfirst =>
      .bind (.furtherItems (agree_headerExpression hk.toOperands)) fun _ _ _ hmore => .pure_bind ?_
    rw [← Nat.add_assoc]
    exact hend (hfirst.append hmore)
  refine .node rfl <| .after (.takesMark _ _ (by decide)) fun _ _ _ hhead => .peek fun _ _ => .ite
    (fun hstar => .extras fun _ _ _ hbefore =>
      .thenGo (.drop (.shiftFirst _ (forall_eq.mpr hstar))) fun _ _ => hrest hhead hbefore)
    fun _ => .bind .noParts fun _ _ _ hnone => hrest hhead hnone

theorem agree_tryStatement (hk : i.Lines L k k') :
    i.Agree (L + 1) q T (const true) 0 i.IsMoved (tryStatement k) (tryStatement k') :=
  .node rfl <| .after (.takesMark _ _ (by decide)) fun _ _ _ hhead =>
    .bind (agree_body hk) fun _ _ _ hbody =>
    .bind (agree_clausesOf _ ((agree_exceptClause hk).of_le (Nat.le_succ L))) fun _ _ _ hhandlers =>
    .bind (agree_wordClause? hk _ rfl) fun _ _ _ hother =>
    .thenPure (agree_wordClause? hk _ rfl) fun _ _ _ hfinal =>
      (((hhead.append hbody).append hhandlers).append hother).append hfinal

theorem agree_withItem (hk : i.Operands L k k') (p : Place) :
    i.Agree L q T (const false) 0 i.IsMoved (withItem k p) (withItem k' p) :=
  .node rfl ((hk.expression _ p).partAs .value)

theorem agree_withClause (hk : i.Operands L k k') :
    i.Agree L q T (const false) 0 i.IsMoved (withClause k) (withClause k') := by
  refine .orElse (.node rfl <| .bind (.mark _ _) fun _ _ _ hhead =>
    .bind (agree_withItem hk _).part fun _ _ _ hfirst =>
    .bind (.itemsUntil _ (agree_withItem hk _) _) fun _ items items' hitems => .peek fun _ _ => ?_)
    (.node rfl <| .bind (agree_withItem hk _).part fun _ _ _ hfirst =>
      .thenPure (.moreItems _ _ (agree_withItem hk _)) fun _ _ _ hmore => hfirst.append hmore)
  rw [hitems.any (fun h => by rw [h.kind]) rfl]
  exact .ite (fun _ => .pure ((hhead.append hfirst).append hitems)) fun _ => .fail

theorem agree_withStatement (hk : i.Lines L k k') :
    i.Agree (L + 1) q T (const true) 0 i.IsMoved (withStatement k) (withStatement k') :=
  .node rfl <| .bind agree_asyncMark fun _ _ _ hasync =>
    .after (.takesMark _ _ (by decide)) fun _ _ _ hhead =>
    .bind (agree_withClause hk.toOperands).part fun _ _ _ hitems =>
    .thenPure (agree_body hk) fun _ _ _ hbody => ((hasync.append hhead).append hitems).append hbody

/-! ### Patterns -/

theorem agree_patternNumber (p : Place) :
    i.Agree L q T (const false) 0 i.IsTail (patternNumber p) (patternNumber p) := by
  refine .peek fun t _ => ?_
  cases t with
  | integer => exact .partTail (.leaf rfl _ (forall_eq.mpr rfl))
  | float => exact .partTail (.leaf rfl _ (forall_eq.mpr rfl))
  | _ => exact .fail

theorem agree_patternNumbers (p : Place) :
    i.Agree L q T (const false) 0 i.IsTail (patternNumbers p) (patternNumbers p) := by
  refine .bind (.maybe _ _ (by decide)) fun _ _ _ hsign => .bind (agree_patternNumber p)
    fun _ _ _ hfirst => .peek fun t _ => .ite
      (fun hmark => .extras fun _ _ _ hbefore =>
        .thenGo (.shift _ (forall_eq.mpr (spells_of_isOneOf hmark (by decide)).opensQuote)) fun _ _ =>
          .thenPure (agree_patternNumber p) fun _ _ _ hsecond =>
            .prepend ((hsign.append hfirst.moved).append hbefore) hsecond)
      fun _ => .pure (.prepend hsign hfirst)

theorem agree_bracketPattern (opener closer : String) (hopener : opener.toList ≠ [])
    {kind : Kind} (hkind : isPlain kind = true) {item item' : Parser Tree}
    (hitem : i.Agree L true Any (const false) 0 i.IsMoved item item') (p : Place) :
    i.Agree (L + 1) q T (const false) 0 i.IsMoved (bracketPattern opener closer kind item p)
      (bracketPattern opener closer kind item' p) :=
  .node hkind <| .after (.takesMark _ _ hopener) fun _ _ _ hhead => .peek fun _ _ => .ite
    (fun _ => .thenPure (.mark _ _) fun _ _ _ hclose => hhead.append hclose)
    fun _ => .bind hitem.anyToken.part fun _ _ _ hfirst => .thenPure (.itemsUntil _ hitem _)
      fun _ _ _ hmore => (hhead.append hfirst).append hmore

theorem agree_splatPattern (p : Place) (hquote : ∀ t, T t → opensQuote t = false) :
    i.Agree L q T (const false) 0 i.IsMoved (splatPattern p) (splatPattern p) :=
  .node rfl <| .extras fun _ _ _ hbefore => .thenGo (.shift _ hquote) fun _ _ => .peek fun _ _ => .ite
    (fun hblank => .thenPure (Agree.part (.leaf rfl _ (forall_eq.mpr (opensQuote_of_isMark hblank))))
      fun _ _ _ hname => hbefore.append hname)
    fun _ => .thenPure (agree_identifier _).part fun _ _ _ hname => hbefore.append hname

section patterns

variable {l : Nat} (hk : i.Later L k k') (hl : l ≤ L) {key key' : Parser Tree}
  (hkey : i.Agree l true Any (const false) 0 i.IsMoved key key')

include hk hl hkey

theorem agree_simplePattern (p : Place) :
    i.Agree (l + 1) q T (const false) 0 i.IsTail (simplePattern k key p) (simplePattern k' key' p) := by
  have hitem : i.Agree l true Any (const false) 0 i.IsMoved (k.casePattern .inner) (k'.casePattern .inner) :=
    (hk.casePattern _).of_le hl
  refine .peek fun t _ => ?_
  cases t with
  | quote q => exact ((agree_strings hk _).of_le (Nat.succ_le_succ hl)).forget.partTail
  | integer => exact agree_patternNumbers p
  | float => exact agree_patternNumbers p
  | op text =>
      exact .ite (fun _ => (agree_bracketPattern _ _ (by decide) rfl hitem p).partTail) fun _ => .ite
        (fun _ => (agree_bracketPattern _ _ (by decide) rfl hitem p).partTail) fun _ => .ite
        (fun _ => (agree_bracketPattern _ _ (by decide) rfl hkey p).partTail) fun _ => .ite
        (fun _ => (agree_splatPattern p (forall_eq.mpr rfl)).partTail) fun _ => .ite
        (fun _ => agree_patternNumbers p) fun _ => .fail
  | name text =>
      refine .ite (fun _ => .partTail (.leaf rfl _ (forall_eq.mpr rfl))) fun _ => .ite
        (fun _ => .partTail (.leaf rfl _ (forall_eq.mpr rfl))) fun _ => .ite
        (fun _ => .partTail (.leaf rfl _ (forall_eq.mpr rfl))) fun _ => .ite
        (fun _ => .partTail (.leaf rfl _ (forall_eq.mpr rfl))) fun _ =>
        .bind (agree_dottedName _).partTail fun _ _ _ hname => .peek fun _ _ => .ite
          (fun _ => .thenPure (agree_bracketPattern _ _ (by decide) rfl hitem p).partTail
            fun _ _ _ hparts => .prepend hname.moved hparts)
          fun _ => .pure hname
  | _ => exact .fail

/-- Alternatives have been read if there are more trees than before. -/
theorem agree_alternatives (p : Place) {first first' : List Tree} (hfirst : i.AreMoved n first first') :
    i.Agree (l + 1) q T (const false) n
      (fun n cs ds => i.AreMoved n cs ds ∧ (ds.length == first'.length) = (cs.length == first.length))
      (alternatives k key p first) (alternatives k' key' p first') := by
  have hstep : i.Agree (l + 1) q T (const false) n
      (fun n cs ds => i.AreMoved n cs ds ∧ (ds.length == first'.length) = (cs.length == first.length) ∧
        first.length ≤ cs.length ∧ first'.length ≤ ds.length)
      (alternatives k key p first) (alternatives k' key' p first') := by
    refine .loop (fun n acc acc' hacc => .option (.mark? _ _ (by decide)) .stop fun _ _ _ hbar =>
      .thenPure (agree_simplePattern hk hl hkey p) fun _ cs ds hnext => .goOn ?_)
      ⟨hfirst, by simp, Nat.le_refl _, Nat.le_refl _⟩
    obtain ⟨hmoved, -, hle, hle'⟩ := hacc
    have hpos := List.length_pos_iff.mpr hnext.ne_nil
    have hpos' := List.length_pos_iff.mpr (hnext.moved.ne_nil hnext.ne_nil)
    refine ⟨(hmoved.append hbar).append hnext.moved, ?_, ?_, ?_⟩
    · rw [beq_eq_false_iff_ne.mpr, beq_eq_false_iff_ne.mpr] <;> simp only [List.length_append] <;> omega
    · simp only [List.length_append]
      omega
    · simp only [List.length_append]
      omega
  exact hstep.imp fun _ _ _ h => ⟨h.1, h.2.1⟩

theorem agree_unionPattern (p : Place) :
    i.Agree (l + 1) q T (const false) 0 i.AreMoved (unionPattern k key p) (unionPattern k' key' p) :=
  .bind (agree_simplePattern hk hl hkey p) fun _ _ _ hfirst =>
    (agree_alternatives hk hl hkey p hfirst.moved).imp fun _ _ _ h => h.1

end patterns

/-- A dictionary pattern takes a brace before its keys, so they nest no deeper than the text is
long. -/
theorem agree_keyPattern (hk : i.Later L k k') (l depth depth' : Nat) (hdepth : l ≤ depth)
    (hdepth' : l ≤ depth') (hl : l ≤ L + 1) :
    i.Agree l true Any (const false) 0 i.IsMoved (keyPattern k depth) (keyPattern k' depth') := by
  induction l generalizing depth depth' with
  | zero => exact fun _ _ _ _ hleft => absurd hleft (Nat.not_lt_zero _)
  | succ l ih =>
      obtain ⟨depth, rfl⟩ := Nat.exists_eq_succ_of_ne_zero (Nat.ne_zero_of_lt hdepth)
      obtain ⟨depth', rfl⟩ := Nat.exists_eq_succ_of_ne_zero (Nat.ne_zero_of_lt hdepth')
      have hle : l ≤ L := Nat.le_of_succ_le_succ hl
      have hkey := ih depth depth' (Nat.le_of_succ_le_succ hdepth) (Nat.le_of_succ_le_succ hdepth')
        ((Nat.le_succ l).trans hl)
      refine .node rfl <| .peek fun _ _ => .bind (agree_simplePattern hk hle hkey _) fun _ first first'
        hfirst => .bindFrom (agree_alternatives hk hle hkey _ hfirst.moved) fun _ key key' hkeys =>
          .peek fun _ _ => ?_
      rw [hkeys.2]
      exact .ite (fun _ => .pure hkeys.1) fun _ => .after (.takesMark _ _ (by decide)) fun _ _ _ hcolon =>
        .thenPure ((hk.casePattern _).of_le hle).part fun _ _ _ hvalue =>
          (hkeys.1.append hcolon).append hvalue

theorem agree_casePattern (hk : i.Later L k k') (p : Place) :
    i.Agree (L + 1) true T (const false) 0 i.IsMoved (casePattern k p) (casePattern k' p) := by
  refine .node rfl <| .stepLimit fun l depth depth' hdepth hdepth' hl => ?_
  cases l with
  | zero => exact fun _ _ _ _ hleft => absurd hleft (Nat.not_lt_zero _)
  | succ l =>
      have hle : l ≤ L := Nat.le_of_succ_le_succ hl
      have hkey := agree_keyPattern hk l depth depth' ((Nat.le_succ l).trans hdepth)
        ((Nat.le_succ l).trans hdepth') (Nat.le_succ_of_le hle)
      refine .peek fun t _ => .look (.peekSecond _) fun second second' hsecond => ?_
      by_cases hname : t.isIdentifier = true
      case' pos =>
        rw [hsecond (opensQuote_of_isIdentifier hname)]
        refine .ite (fun _ => .bind (agree_identifier _).part fun _ _ _ hname => .bind (.mark _ _)
          fun _ _ _ hsign => .bind (agree_unionPattern hk hle hkey p) fun _ _ _ hwhole =>
            .loop (fun _ _ _ hacc => ?_) ((hname.append hsign).append hwhole))
          fun _ => .bind (agree_unionPattern hk hle hkey p) fun _ _ _ hwhole =>
            .loop (fun _ _ _ hacc => ?_) hwhole
      case' neg =>
        rw [Bool.not_eq_true] at hname
        simp only [hname, Bool.false_and, Bool.false_eq_true, if_false]
        refine .bind (agree_unionPattern hk hle hkey p) fun _ _ _ hwhole =>
          .loop (fun _ _ _ hacc => ?_) hwhole
      -- The names that a pattern is bound to are read alike after each of the three.
      all_goals
        exact .option (.mark? _ _ (by decide)) .stop fun _ _ _ hword =>
          .thenPure (agree_identifier _).part fun _ _ _ hname => .goOn ((hacc.append hword).append hname)

theorem agree_caseClause (hk : i.Lines L k k') :
    i.Agree (L + 1) q T (const true) 0 i.IsMoved (caseClause k) (caseClause k') := by
  refine .node rfl <| .after (.takesMark _ _ (by decide)) fun _ _ _ hhead =>
    .bind (hk.casePattern _).part fun _ _ _ hfirst =>
    .bind (.moreItems _ _ (hk.casePattern _)) fun _ _ _ hmore => .peek fun _ _ => .ite
      (fun _ => .bind (agree_ifClause hk.toOperands _ _).forget.part ?_) fun _ => .bind .noParts ?_
  all_goals
    exact fun _ _ _ hguard => .thenPure (agree_body hk) fun _ _ _ hbody =>
      (((hhead.append hfirst).append hmore).append hguard).append hbody

theorem agree_caseBlock (hk : i.Lines L k k') :
    i.Agree L true T (const false) 0 i.IsMoved (caseBlock k) (caseBlock k') := by
  refine .peek fun t _ => ?_
  cases t with
  | newline => exact .node rfl (agree_lineEnd _).forget
  | indent width =>
      exact .node rfl <| .extras fun _ _ _ hbefore =>
        .thenGo (agree_openBlock width (forall_eq.mpr rfl)) fun _ _ =>
          .bind (agree_clausesOf _ ((agree_caseClause hk).of_le (Nat.le_succ L))) fun _ _ _ hcases =>
            .thenPure agree_closeBlock fun _ _ _ hclose => (hbefore.append hcases).append hclose
  | _ => exact .fail

theorem agree_matchStatement (hk : i.Lines L k k') :
    i.Agree (L + 1) q T (const true) 0 i.IsMoved (matchStatement k) (matchStatement k') :=
  .node rfl <| .after (.takesMark _ _ (by decide)) fun _ _ _ hhead =>
    .bind ((agree_headerExpression hk.toOperands).partAs .subject) fun _ _ _ hfirst =>
    .bind (.moreItems _ _ (agree_headerExpression hk.toOperands)) fun _ _ _ hmore =>
    .bind (.mark _ _) fun _ _ _ hcolon =>
    .thenPure ((agree_caseBlock hk).partAs .body) fun _ _ _ hbody =>
      (((hhead.append hfirst).append hmore).append hcolon).append hbody

/-! ### Definitions -/

theorem agree_parameters (hk : i.Later L k k') :
    i.Agree L q T (const false) 0 i.IsMoved (parameters k) (parameters k') :=
  .node rfl <| .bind (.mark _ _) fun _ _ _ hhead => .peek fun _ _ => .ite
    (fun _ => .thenPure (.mark _ _) fun _ _ _ hclose => hhead.append hclose)
    fun _ => .bind (agree_parameter hk _ _).part fun _ _ _ hfirst =>
      .thenPure (.itemsUntil _ (agree_parameter hk _ _) _) fun _ _ _ hmore =>
        (hhead.append hfirst).append hmore

theorem agree_typeParameters? (hk : i.Later L k k') :
    i.Agree L q T (const false) 0 i.AreMoved (typeParameters? k) (typeParameters? k') :=
  .peek fun _ _ => .ite
    (fun _ => ((agree_typeParameters hk _).of_le (Nat.le_succ L)).forget.part) fun _ => .noParts

namespace Look

variable {α β : Type} {R : α → α → Prop} {S : β → β → Prop}

theorem pure {a a' : α} (h : R a a') : i.Look L q T R (Pure.pure a) (Pure.pure a') :=
  fun _ _ _ _ _ _ _ => ⟨a, a', rfl, rfl, h⟩

theorem bind {p p' : Parser α} {f f' : α → Parser β} (hp : i.Look L q T R p p')
    (hf : ∀ a a', R a a' → i.Look L q T S (f a) (f' a')) : i.Look L q T S (p >>= f) (p' >>= f') := by
  intro m s s' halike hleft hclean ht
  obtain ⟨a, a', hdone, hdone', hr⟩ := hp m s s' halike hleft hclean ht
  rw [Parser.bind_apply, Parser.bind_apply, hdone, hdone']
  exact hf a a' hr m s s' halike hleft hclean ht

theorem peek {f f' : Token → Parser β} (hf : ∀ t, T t → i.Look L q (· = t) S (f t) (f' t)) :
    i.Look L q T S (Parser.peek >>= f) (Parser.peek >>= f') := by
  intro m s s' halike hleft hclean ht
  have hs' : (Parser.peek >>= f') s' = f' s.token s' := by
    rw [← halike.ahead.token]
    rfl
  rw [hs']
  exact hf s.token ht m s s' halike hleft hclean rfl

theorem ite {P : Prop} [Decidable P] {p p' g g' : Parser α} (h : P → i.Look L q T R p p')
    (h' : ¬P → i.Look L q T R g g') : i.Look L q T R (if P then p else g) (if P then p' else g') := by
  split
  · exact h ‹_›
  · exact h' ‹_›

/-- Before a literal no second token matters. -/
theorem continuesType :
    i.Look L q T (fun goesOn goesOn' => goesOn' = goesOn) continuesType continuesType := by
  refine .peek fun t _ => .bind (.peekSecond _) fun second second' hsecond => ?_
  by_cases hquote : opensQuote t = true
  · have hmark : ∀ word, t.isMark word = false := fun word => by
      cases t <;> first | rfl | exact absurd hquote Bool.false_ne_true
    have hname : isGenericName t = false := by
      cases t <;> first | rfl | exact absurd hquote Bool.false_ne_true
    simp only [hmark, hname, Bool.false_and, Bool.false_eq_true, if_false]
    exact .pure rfl
  · rw [Bool.not_eq_true] at hquote
    rw [hsecond hquote]
    exact .ite (fun _ => .pure rfl) fun _ => .ite
      (fun _ => .wouldRead (agree_splatType (T := (· = t)) _ (forall_eq.mpr hquote)) _) fun _ => .pure rfl

end Look

theorem agree_functionDefinition (hk : i.Lines L k k') :
    i.Agree (L + 1) q T (const true) 0 i.IsMoved (functionDefinition k) (functionDefinition k') := by
  have hrest : ∀ {m n : Nat} {head head' returns returns' : List Tree}, i.AreMoved m head head' →
      i.AreMoved n returns returns' → returns'.isEmpty = returns.isEmpty →
      i.Agree L false Any (const false) (n + m) i.AreMoved
        (do
          let colon ← Parser.mark ":" .block
          let endless ← continuesType
          if endless && !returns.isEmpty then Parser.fail
          pure (head ++ returns ++ colon ++ (← suite k)))
        (do
          let colon ← Parser.mark ":" .block
          let endless ← continuesType
          if endless && !returns'.isEmpty then Parser.fail
          pure (head' ++ returns' ++ colon ++ (← suite k'))) := by
    intro m n head head' returns returns' hhead hreturns hempty
    rw [hempty]
    refine .bind (.mark _ _) fun _ _ _ hcolon => .look .continuesType fun _ _ hendless => ?_
    subst hendless
    exact .ite (fun _ => .fail_bind) fun _ => .thenPure (agree_suite hk) fun _ _ _ hblock =>
      ((hhead.append hreturns).append hcolon).append hblock
  refine .node rfl <| .bind agree_asyncMark fun _ _ _ hasync =>
    .after (.takesMark _ _ (by decide)) fun _ _ _ hhead =>
    .bind ((agree_identifier _).partAs .name) fun _ _ _ hname =>
    .bind (agree_typeParameters? hk.toLater) fun _ _ _ hgenerics =>
    .bind ((agree_parameters hk.toLater).partAs .parameters) fun _ _ _ hparams => ?_
  have hbefore := (((hasync.append hhead).append hname).append hgenerics).append hparams
  have hnone := hrest hbefore .nil rfl
  rw [Nat.zero_add] at hnone
  refine .option (.mark? _ _ (by decide)) hnone fun _ arrow arrow' harrow =>
    .bind ((hk.type _ _).partAsTail .returnType) fun _ type type' htype => .pure_bind ?_
  rw [← Nat.add_assoc]
  have hne : arrow ++ type ≠ [] := by simp [htype.ne_nil]
  have hreturns := harrow.append htype.moved
  have hne' : arrow' ++ type' ≠ [] := hreturns.ne_nil hne
  exact hrest hbefore hreturns
    ((List.isEmpty_eq_false_iff.mpr hne').trans (List.isEmpty_eq_false_iff.mpr hne).symm)

theorem agree_classDefinition (hk : i.Lines L k k') :
    i.Agree (L + 1) q T (const true) 0 i.IsMoved (classDefinition k) (classDefinition k') := by
  refine .node rfl <| .after (.takesMark _ _ (by decide)) fun _ _ _ hhead =>
    .bind ((agree_identifier _).partAs .name) fun _ _ _ hname =>
    .bind (agree_typeParameters? hk.toLater) fun _ _ _ hgenerics => .peek fun _ _ => .ite
      (fun _ => .bind (Agree.partAs .superclasses
        ((agree_arguments hk.toOperands _).of_le (Nat.le_succ L)).forget) fun _ args args' hargs => ?_)
      fun _ => .bind .noParts fun _ _ _ hnone => .thenPure (agree_body hk) fun _ _ _ hbody =>
        (((hhead.append hname).append hgenerics).append hnone).append hbody
  rw [hargs.any (fun h => by rw [h.kind]) rfl]
  exact .ite (fun _ => .fail_bind) fun _ => .pure_bind <| .thenPure (agree_body hk) fun _ _ _ hbody =>
    (((hhead.append hname).append hgenerics).append hargs).append hbody

theorem agree_decorator (hk : i.Operands L k k') :
    i.Agree (L + 1) q T (const true) 0 i.IsMoved (decorator k) (decorator k') :=
  .node rfl <| .after (.takesMark _ _ (by decide)) fun _ _ _ hhead =>
    .bind (agree_lineExpression hk).part fun _ _ _ hvalue =>
      .thenAnswer (agree_lineEnd _).forget fun _ _ _ hend => (hhead.append hvalue).append hend

theorem agree_decoratedDefinition (hk : i.Lines L k k') :
    i.Agree (L + 1) q T (const true) 0 i.IsMoved (decoratedDefinition k) (decoratedDefinition k') :=
  .node rfl <| .bind (agree_clausesOf _ (agree_decorator hk.toOperands)) fun _ _ _ hdecorators =>
    .thenPure (Agree.partAs .definition <| .peek fun _ _ => .ite (fun _ => agree_classDefinition hk)
      fun _ => agree_functionDefinition hk) fun _ _ _ hdefinition => hdecorators.append hdefinition

/-! ### All statements -/

theorem agree_statement (hk : i.Lines L k k') (hlater : i.Later (L + 1) k k') :
    i.Agree (L + 1) q T past 0 i.AreMoved (statement k) (statement k') := by
  have hline : ∀ {q : Bool} {T : Token → Prop}, i.Agree (L + 1) q T past 0 i.AreMoved (simpleLine k)
      (simpleLine k') := agree_simpleLine hlater
  have hfunction : ∀ {q : Bool} {T : Token → Prop}, i.Agree (L + 1) q T past 0 i.AreMoved
      (Parser.part (functionDefinition k)) (Parser.part (functionDefinition k')) :=
    (agree_functionDefinition hk).part.drop
  have hfor : ∀ {q : Bool} {T : Token → Prop}, i.Agree (L + 1) q T past 0 i.AreMoved
      (Parser.part (forStatement k)) (Parser.part (forStatement k')) := (agree_forStatement hk).part.drop
  have hwith : ∀ {q : Bool} {T : Token → Prop}, i.Agree (L + 1) q T past 0 i.AreMoved
      (Parser.part (withStatement k)) (Parser.part (withStatement k')) := (agree_withStatement hk).part.drop
  refine .peek fun t _ => .ite (fun _ => .failAhead) fun _ => .ite
    (fun _ => (agree_ifStatement hk).part.drop) fun _ => .ite (fun _ => hfor) fun _ => .ite
    (fun _ => (agree_whileStatement hk).part.drop) fun _ => .ite
    (fun _ => (agree_tryStatement hk).part.drop) fun _ => .ite (fun _ => hwith) fun _ => .ite
    (fun _ => hfunction) fun _ => .ite
    (fun _ => (agree_classDefinition hk).part.drop) fun _ => .ite
    (fun _ => (agree_decoratedDefinition hk).part.drop) fun _ => .ite
    (fun _ => .orElse (agree_matchStatement hk).part.drop hline) fun _ => .ite
    (fun hasync => .look (.peekSecond _) fun second second' hsecond => ?_) fun _ => hline
  rw [hsecond (opensQuote_of_isMark hasync)]
  exact .ite (fun _ => hfunction) fun _ => .ite (fun _ => hfor) fun _ => .ite (fun _ => hwith)
    fun _ => hline

theorem isWritten_of_statement {s s₁ : State} {ts : List Tree} (h : statement k s = .done ts s₁) :
    s.token.isWritten = true := by
  obtain ⟨_, _, hpeek, h⟩ := Parser.bind_eq_done h
  cases hpeek
  rcases Parser.ite_eq_done h with ⟨-, h⟩ | ⟨hstarts, -⟩
  · exact absurd h nofun
  · exact isWritten_of_startsStatement (by simpa using hstarts)

/-! ### Whole texts -/

/-- Where no word is ahead, a round may go on with what it has. -/
theorem Agree.goOnAtEnd {α : Type} {c m : Nat} {R : Nat → α → α → Prop} {a a' : α}
    (hT : ∀ t, T t → t.isWritten = false) (h : R c a a') :
    i.Agree L q T goesPast c (Next m R) (Pure.pure (some a)) (Pure.pure (some a')) :=
  fun _ _ _ halike _ _ ht => .done (.goOn h) halike rfl (Nat.le_refl _) fun hpast =>
    absurd (hT _ ht) (by simpa using hpast)

/-- A text is read up to its end, and comments before that are parts of the module. -/
theorem agree_module (hk : i.Lines L k k') :
    i.Agree L q T (const false) 0 i.IsMoved (Grammar.module k) (Grammar.module k') := by
  refine .node rfl <| .bind (R := i.AreMoved) (.loopLines (fun n acc acc' hacc =>
    .extrasBefore fun m before before' hbefore => .peek fun t ht => .ite (fun hend => ?_) fun _ =>
      .goOnPast hk.statement fun _ _ _ hline => (hacc.append hbefore).append hline)
    (fun acc b s s₁ hdone hword => ?_) .nil) fun _ _ _ hlines =>
    .peek fun _ _ => .ite (fun _ => .pure hlines) fun _ => .failAhead
  · obtain rfl : m = 0 := Nat.eq_zero_of_not_pos fun hm => ht.2 hm hend
    rw [hbefore.isEmpty, Nat.zero_add]
    refine .ite (fun _ => .endLines) fun _ => .goOnAtEnd (forall_eq.mpr (hend ▸ rfl)) ?_
    have hmore := hacc.append hbefore
    rwa [Nat.zero_add] at hmore
  · obtain ⟨before, s₂, hbefore, hdone⟩ := Parser.bind_eq_done hdone
    obtain ⟨_, _, hpeek, hdone⟩ := Parser.bind_eq_done hdone
    cases hbefore
    cases hpeek
    rcases Parser.ite_eq_done hdone with ⟨-, hdone⟩ | ⟨-, hdone⟩
    · rcases Parser.ite_eq_done hdone with ⟨-, hdone⟩ | ⟨hsome, hdone⟩
      · exact absurd (Parser.pure_eq_done hdone).1 nofun
      · obtain ⟨-, rfl⟩ := Parser.pure_eq_done hdone
        exact ⟨by simpa using hsome, rfl, hword⟩
    · obtain ⟨_, s₃, hstatement, -⟩ := Parser.bind_eq_done hdone
      exact absurd (hk.starts hstatement) (by simpa [State.token] using hword)

end CommentPlace

end Plumbline.Syntax
