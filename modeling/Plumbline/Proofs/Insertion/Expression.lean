/-
Expressions read alike.

The readers of expressions agree on the source and the outcome, one lemma for each of them.  Readers
of brackets and operators need less to be left for what is nested in them, because they take a mark
first.
-/
import Plumbline.Proofs.Insertion.Literal

namespace Plumbline.Syntax

namespace CommentPlace

open Grammar

variable {i : CommentPlace} {L n : Nat} {q b : Bool} {T : Token → Prop} {k k' : Knot}

/-! ### Leaves -/

theorem opensQuote_of_isIdentifier {t : Token} (h : t.isIdentifier = true) : opensQuote t = false := by
  cases t <;> first | rfl | exact absurd h Bool.false_ne_true

theorem opensQuote_of_isVariable {t : Token} (h : t.isVariable = true) : opensQuote t = false := by
  cases t <;> first | rfl | exact absurd h Bool.false_ne_true

theorem agree_identifier (e : Expect) :
    i.Agree L true T (const false) 0 i.IsMoved (identifier e) (identifier e) :=
  .peek fun _ _ => .ite
    (fun h => .leaf rfl e (forall_eq.mpr (opensQuote_of_isIdentifier h))) fun _ => .fail

theorem agree_variableName (e : Expect) :
    i.Agree L true T (const false) 0 i.IsMoved (variableName e) (variableName e) :=
  .peek fun _ _ => .ite
    (fun h => .leaf rfl e (forall_eq.mpr (opensQuote_of_isVariable h))) fun _ => .fail

theorem agree_asPattern {p p' : Parser Tree} (h : i.Agree L q T (const false) 0 i.IsMoved p p') :
    i.Agree L q T (const false) 0 i.IsMoved (asPattern p) (asPattern p') := by
  refine .bind h fun _ t t' ht => ?_
  have hpattern := ht.toPattern?
  generalize toPattern? t = o at hpattern ⊢
  generalize toPattern? t' = o' at hpattern ⊢
  cases hpattern with
  | some h => exact .pure h
  | none => exact .fail

/-! ### Strings -/

theorem agree_strings (hk : i.Later L k k') (e : Expect) :
    i.Agree (L + 1) true T (const true) 0 i.IsMoved (strings k e) (strings k' e) := by
  refine .after (agree_string hk e) fun n first first' hfirst => .peek fun t _ => ?_
  split
  · refine .extend rfl hfirst (.loop (fun m acc acc' hacc => .peek fun t _ => ?_) .nil)
    split
    · exact .next ((agree_string hk e).of_le (Nat.le_succ L)).part fun _ _ _ hnext =>
        .pure (.goOn (hacc.append hnext))
    · exact .stop
  · exact .pure hfirst

/-! ### Lists of expressions -/

theorem agree_yieldExpression (hk : i.Operands L k k') (p : Place) :
    i.Agree L q T (const false) 0 i.IsMoved (yieldExpression k p) (yieldExpression k' p) :=
  .node rfl <| .bind (.mark "yield" _) fun _ _ _ hhead => .peek fun _ _ => .ite
    (fun _ => .bind (.mark "from" _) fun _ _ _ hfrom =>
      .thenPure (hk.expression _ p).part fun _ _ _ hvalue => (hhead.append hfrom).append hvalue)
    fun _ => .ite
      (fun _ => .bind (hk.expression _ p).part fun _ _ _ hfirst =>
        .thenPure (.moreItems _ _ (hk.expression _ p)) fun _ _ _ hmore =>
          (hhead.append hfirst).append hmore)
      fun _ => .pure hhead

theorem agree_expressionsAfter (hk : i.Operands L k k') (p : Place) {first first' : Tree}
    (hfirst : i.IsMoved n first first') :
    i.Agree L q T (const false) n i.IsMoved (expressionsAfter k p first) (expressionsAfter k' p first') :=
  .peek fun _ _ => .ite
    (fun _ => .extend rfl hfirst (.moreItems _ _ (hk.expression _ p))) fun _ => .pure hfirst

theorem agree_expressions (hk : i.Operands L k k') (p : Place) :
    i.Agree L true T (const false) 0 i.IsMoved (expressions k p) (expressions k' p) :=
  .bind (hk.expression _ p) fun _ _ _ hfirst => agree_expressionsAfter hk p hfirst

/-! ### Targets of loops -/

theorem agree_place (hk : i.Operands L k k') (p : Place) :
    i.Agree L true T (const false) 0 i.IsMoved (place k p) (place k' p) := by
  refine .bind (hk.atom p) fun _ t t' ht => ?_
  rw [ht.isPlace]
  exact .ite (fun _ => .pure ht) fun _ => .fail

theorem agree_target (hk : i.Operands L k k') (p : Place) :
    i.Agree L true T (const false) 0 i.IsMoved (target k p) (target k' p) :=
  .peek fun _ _ => .ite
    (fun hstar => agree_asPattern <| .starNode <| .extras fun _ _ _ hbefore =>
      .thenGo (.drop (.shiftFirst _ (forall_eq.mpr hstar))) fun _ _ =>
        .thenPure (agree_place hk p).partTail fun _ _ _ htarget => .prepend hbefore htarget)
    fun _ => agree_asPattern (hk.atom p)

theorem agree_targets (hk : i.Operands L k k') (p : Place) :
    i.Agree L true T (const false) 0 i.IsMoved (targets k p) (targets k' p) :=
  .bind (agree_target hk p) fun _ _ _ hfirst => .peek fun _ _ => .ite
    (fun _ => .extend rfl hfirst (.moreItems _ _ (agree_target hk p))) fun _ => .pure hfirst

/-! ### Parameters and anonymous functions -/

theorem agree_starredParameter (hk : i.Later L k k') (typed : Bool) (word : String) {kind : Kind}
    (hkind : isPlain kind = true) (e : Expect) (p : Place) :
    i.Agree L q T (const false) 0 i.IsMoved (starredParameter k typed word kind e p)
      (starredParameter k' typed word kind e p) := by
  refine .bind (.node hkind <| .bind (.mark _ _) fun _ _ _ hstar =>
    .thenPure (agree_place hk.toOperands p).part fun _ _ _ hname => hstar.append hname)
    fun _ _ _ hsplat => ?_
  cases typed with
  | false => exact .peek fun _ _ => .ite (fun h => absurd h.1 Bool.false_ne_true) fun _ => .pure hsplat
  | true =>
      exact .peek fun _ _ => .ite
        (fun _ => .extend rfl hsplat <| .bind (.mark _ _) fun _ _ _ hcolon =>
          .thenPure ((hk.type true p).partAs .type) fun _ _ _ htype => hcolon.append htype)
        fun _ => .pure hsplat

theorem agree_defaultValue (hk : i.Operands L k k') (p : Place) :
    i.Agree L q T (const false) 0 i.AreMoved (defaultValue k p) (defaultValue k' p) :=
  .bind (.mark _ _) fun _ _ _ hsign =>
    .thenPure ((hk.expression _ p).partAs .value) fun _ _ _ hvalue => hsign.append hvalue

theorem agree_parameter (hk : i.Later L k k') (typed : Bool) (p : Place) :
    i.Agree L true T (const false) 0 i.IsMoved (parameter k typed p) (parameter k' typed p) := by
  refine .peek fun _ _ => .ite
    (fun hstar => .orElse (agree_starredParameter hk _ _ rfl _ _)
      (.leaf rfl _ (forall_eq.mpr (opensQuote_of_isMark hstar))))
    fun _ => .ite (fun _ => agree_starredParameter hk _ _ rfl _ _) fun _ => .ite
      (fun hslash => .leaf rfl _ (forall_eq.mpr (opensQuote_of_isMark hslash))) fun _ => .ite
        (fun _ => .bind (agree_asPattern (hk.atom p)) ?_) fun _ => .bind (agree_identifier _) ?_
  -- a pattern and a name go on in the same way
  all_goals
    intro n first first' hfirst
    dsimp only
    rw [hfirst.kind]
    refine .ite (fun _ => .fail_bind) fun _ => .peek fun _ _ => .ite
      (fun _ => .extend rfl (hfirst.withField .name) (agree_defaultValue hk.toOperands p))
      fun _ => .ite (fun _ => .buildFrom hfirst.span ?_) fun _ => .pure hfirst
    exact .bind (.mark _ _) fun _ _ _ hcolon => .bind ((hk.type true p).partAs .type)
      fun _ _ _ hhint => .peek fun _ _ => .ite
        (fun _ => .thenPure (agree_defaultValue hk.toOperands p) fun _ _ _ hvalue =>
          .node rfl (((AreMoved.cons (hfirst.withField .name) hcolon).append hhint).append hvalue))
        fun _ => .pure (.first rfl hfirst (hcolon.append hhint) (Nat.add_assoc _ _ _).symm)

theorem agree_lambda (hk : i.Later L k k') (level : Level) (p : Place) :
    i.Agree (L + 1) q T (const true) 0 i.IsMoved (lambda k level p) (lambda k' level p) := by
  refine .node rfl <| .after (.takesMark _ _ (by decide)) fun _ _ _ hhead => .peek fun _ _ => .ite
    (fun _ => .bind .noParts ?_) fun _ => .bind (Agree.partAs .parameters <| .node rfl <|
      .bind (agree_parameter hk false .header).part fun _ _ _ hfirst =>
        .thenPure (.moreItems _ _ (agree_parameter hk false .header)) fun _ _ _ hmore =>
          hfirst.append hmore) ?_
  all_goals
    exact fun _ _ _ hparameters => .bind (.mark _ _) fun _ _ _ hcolon =>
      .thenPure ((hk.expression _ p).partAs .body) fun _ _ _ hbody =>
        ((hhead.append hparameters).append hcolon).append hbody

/-! ### Comprehensions -/

theorem agree_iterated (hk : i.Operands L k k') :
    i.Agree L true T (const false) 0 i.IsMoved (iterated k) (iterated k') := hk.expression _ _

theorem agree_forInClause (hk : i.Operands L k k') :
    i.Agree L q T (const true) 0 i.IsMoved (forInClause k) (forInClause k') :=
  .node rfl <| .bind (.maybe _ _ (by decide)) fun _ _ _ hasync =>
    .next (.takesMark _ _ (by decide)) fun _ _ _ hfor =>
    .bind ((agree_targets hk .header).partAs .left) fun _ _ _ hleft =>
    .bind (.mark _ _) fun _ _ _ hin =>
    .bind ((agree_iterated hk).partAs .right) fun _ _ _ hright =>
    .thenPure (.moreItems _ _ (agree_iterated hk)) fun _ _ _ hmore =>
      ((((hasync.append hfor).append hleft).append hin).append hright).append hmore

theorem agree_ifClause (hk : i.Operands L k k') (level : Level) (p : Place) :
    i.Agree L q T (const true) 0 i.IsMoved (ifClause k level p) (ifClause k' level p) :=
  .node rfl <| .next (.takesMark _ _ (by decide)) fun _ _ _ hword =>
    .thenPure (hk.expression level p).part fun _ _ _ hcondition => hword.append hcondition

theorem agree_clauses (hk : i.Operands L k k') :
    i.Agree L q T (const false) 0 i.AreMoved (clauses k) (clauses k') :=
  .bind (agree_forInClause hk).forget.part fun _ _ _ hfirst => .loop (fun _ _ _ hacc =>
    .peek fun _ _ => .ite
      (fun _ => .next (agree_forInClause hk).part fun _ _ _ hloop => .pure (.goOn (hacc.append hloop)))
      fun _ => .ite
        (fun _ => .next (agree_ifClause hk _ _).part fun _ _ _ htest =>
          .pure (.goOn (hacc.append htest)))
        fun _ => .stop) hfirst

/-! ### Items of brackets -/

theorem agree_inner (hk : i.Operands L k k') :
    i.Agree L true T (const false) 0 i.IsMoved (inner k) (inner k') := hk.expression _ _

theorem agree_unpacking (hk : i.Operands L k k') :
    i.Agree L q T (const false) 0 i.IsMoved (unpacking k) (unpacking k') :=
  .starNode <| .extras fun _ _ _ hbefore => .peek fun _ _ => .ite (fun _ => .fail_bind) fun hstar =>
    .thenGo (.drop (.shiftFirst _ (forall_eq.mpr (by simpa using hstar)))) fun _ _ =>
      .thenPure (agree_inner hk).partTail fun _ _ _ hvalue => .prepend hbefore hvalue

theorem agree_item (hk : i.Operands L k k') {groupKind : Kind} (hgroup : isPlain groupKind = true) :
    i.Agree L true T (const false) 0 i.IsMoved (item k groupKind) (item k' groupKind) := by
  refine .bind (agree_inner hk) fun _ t t' ht => ?_
  rw [ht.leads]
  refine .ite (fun _ => ?_) fun _ => .pure ht
  have hwhole := ht.wholeGroup? groupKind hgroup
  generalize t.wholeGroup? groupKind = o at hwhole ⊢
  generalize t'.wholeGroup? groupKind = o' at hwhole ⊢
  cases hwhole with
  | some h => exact .pure h
  | none => exact .fail

theorem agree_element (hk : i.Operands L k k') :
    i.Agree L true T (const false) 0 i.IsMoved (element k) (element k') :=
  .peek fun _ _ => .ite (fun _ => agree_yieldExpression hk _) fun _ => .ite
    (fun _ => agree_unpacking hk) fun _ => agree_item hk rfl

theorem agree_firstElement (hk : i.Operands L k k') :
    i.Agree L true T (const false) 0 i.IsMoved (firstElement k) (firstElement k') :=
  .bind (agree_element hk) fun _ _ _ ht => .peek fun _ _ => .ite
    (fun _ => .pure (option_rel_getD (ht.wholeGroup? _ rfl) ht))
    fun _ => .pure (option_rel_getD ht.tightened? ht)

/-! ### Brackets -/

theorem agree_display (hk : i.Operands L k k') (closer : String) {comprehension many single : Kind}
    (hcomprehension : isPlain comprehension = true) (hmany : isPlain many = true)
    (hsingle : isPlain single = true) {item item' : Parser Tree}
    (hitem : i.Agree L true Any (const false) 0 i.IsMoved item item') (e : Expect)
    {before before' : List Tree} (hbefore : i.AreMoved n before before') :
    i.Agree L q T (const false) n i.Parts (display k closer comprehension many single item e before)
      (display k' closer comprehension many single item' e before') := by
  refine .peek fun _ _ => ?_
  rw [hbefore.all (fun h => h.isValue) rfl]
  exact .ite
    (fun _ => .bind (agree_clauses hk) fun _ _ _ hloops => .thenPure (.mark _ _) fun _ _ _ hclose =>
      .node hcomprehension ((hbefore.append hloops).append hclose))
    fun _ => .ite
      (fun _ => .thenPure (.itemsUntil _ hitem _) fun _ _ _ hitems => .node hmany (hbefore.append hitems))
      fun _ => .thenPure (.mark _ _) fun _ _ _ hclose => .node hsingle (hbefore.append hclose)

theorem agree_parentheses (hk : i.Operands L k k') (p : Place) :
    i.Agree (L + 1) q T (const true) 0 i.IsMoved (parentheses k p) (parentheses k' p) := by
  refine .next (.build <| .after (.takesMark _ _ (by decide)) fun _ _ _ hhead => .peek fun _ _ => .ite
    (fun _ => .thenPure (.mark _ _) fun _ _ _ hclose => .node rfl (hhead.append hclose))
    fun _ => .bind (agree_firstElement hk).part fun _ first first' hfirst => ?_)
    fun _ _ _ ht => .look .atTextEnd fun _ _ hends => ?_
  · rw [hfirst.all (fun h => h.isValue) rfl, hfirst.any (fun h => by rw [h.kind]) rfl]
    exact agree_display hk ")" rfl rfl (by split <;> rfl) (agree_element hk) _ (hhead.append hfirst)
  · subst hends
    exact .ite (fun _ => .pure (option_rel_getD ht.asTuple? ht)) fun _ => .pure ht

theorem agree_list (hk : i.Operands L k k') (p : Place) :
    i.Agree (L + 1) q T (const true) 0 i.IsMoved (list k p) (list k' p) :=
  .build <| .after (.takesMark _ _ (by decide)) fun _ _ _ hhead => .peek fun _ _ => .ite
    (fun _ => .thenPure (.mark _ _) fun _ _ _ hclose => .node rfl (hhead.append hclose))
    fun _ => .bind (agree_firstElement hk).part fun _ _ _ hfirst =>
      agree_display hk "]" rfl rfl rfl (agree_element hk) _ (hhead.append hfirst)

theorem agree_pairAfter (hk : i.Operands L k k') {key key' : Tree} (hkey : i.IsMoved n key key') :
    i.Agree L q T (const false) n i.IsMoved (pairAfter k key) (pairAfter k' key') :=
  .extend rfl hkey <| .bind (.mark _ _) fun _ _ _ hcolon =>
    .thenPure ((agree_inner hk).partAs .value) fun _ _ _ hvalue => hcolon.append hvalue

/-- Two stars and what they unpack. -/
theorem agree_dictionarySplat (hk : i.Operands L k k') :
    i.Agree L q T (const false) 0 i.IsMoved
      (Parser.node .dictionarySplat do
        pure ((← Parser.mark "**" .operand) ++ (← Parser.part (inner k))))
      (Parser.node .dictionarySplat do
        pure ((← Parser.mark "**" .operand) ++ (← Parser.part (inner k')))) :=
  .node rfl <| .bind (.mark _ _) fun _ _ _ hstars =>
    .thenPure (agree_inner hk).part fun _ _ _ hvalue => hstars.append hvalue

theorem agree_dictionaryItem (hk : i.Operands L k k') :
    i.Agree L true T (const false) 0 i.IsMoved (dictionaryItem k) (dictionaryItem k') :=
  .peek fun _ _ => .ite (fun _ => agree_dictionarySplat hk) fun _ =>
    .bind (hk.expression _ _) fun _ _ _ hkey => agree_pairAfter hk hkey

theorem agree_braced (hk : i.Operands L k k') (p : Place) :
    i.Agree (L + 1) q T (const true) 0 i.IsMoved (braced k p) (braced k' p) := by
  refine .build <| .after (.takesMark _ _ (by decide)) fun _ _ _ hhead => .peek fun _ _ => .ite
    (fun _ => .thenPure (.mark _ _) fun _ _ _ hclose => .node rfl (hhead.append hclose))
    fun _ => .ite
      (fun _ => .bind (.mark _ _) fun _ _ _ hcomma => .thenPure (.mark _ _) fun _ _ _ hclose =>
        .node rfl ((hhead.append hcomma).append hclose))
      fun _ => .ite
        (fun _ => .bind (agree_dictionaryItem hk).part fun _ _ _ hfirst =>
          .thenPure (.itemsUntil _ (agree_dictionaryItem hk) _) fun _ _ _ hitems =>
            .node rfl ((hhead.append hfirst).append hitems))
        fun _ => .extras fun _ _ _ hbefore => .bind (agree_firstElement hk)
          fun _ first first' hfirst => .peek fun _ _ => ?_
  rw [hfirst.isValue]
  exact .ite
    (fun _ => .bindFrom (agree_pairAfter hk hfirst) fun _ _ _ hpair =>
      agree_display hk "\x7d" rfl rfl rfl (agree_dictionaryItem hk) _ ((hhead.append hbefore).concat hpair))
    fun _ => agree_display hk "\x7d" rfl rfl rfl (agree_element hk) _ ((hhead.append hbefore).concat hfirst)

/-! ### Calls, items and attributes -/

theorem agree_argument (hk : i.Operands L k k') :
    i.Agree L true T (const false) 0 i.IsMoved (argument k) (argument k') := by
  refine .peek fun _ _ => .ite (fun _ => agree_unpacking hk) fun _ => .ite
    (fun _ => agree_dictionarySplat hk) fun _ => .bind (agree_item hk rfl) fun n value value' hvalue => ?_
  rw [hvalue.kind]
  exact .peek fun _ _ => .ite
    (fun _ => .extend rfl (hvalue.withField .name) <| .bind (.mark _ _) fun _ _ _ hsign =>
      .thenPure ((agree_inner hk).partAs .value) fun _ _ _ hright => hsign.append hright)
    fun _ => .pure hvalue

theorem agree_arguments (hk : i.Operands L k k') (p : Place) :
    i.Agree (L + 1) q T (const true) 0 i.IsMoved (arguments k p) (arguments k' p) :=
  .build <| .after (.takesMark _ _ (by decide)) fun _ _ _ hhead => .peek fun _ _ => .ite
    (fun _ => .thenPure (.mark _ _) fun _ _ _ hclose => .node rfl (hhead.append hclose))
    fun _ => .ite
      (fun _ => .bind (.mark _ _) fun _ _ _ hcomma => .thenPure (.mark _ _) fun _ _ _ hclose =>
        .node rfl ((hhead.append hcomma).append hclose))
      fun _ => .extras fun _ _ _ hbefore => .bind (agree_argument hk) fun _ _ _ hfirst =>
        .peek fun _ _ => agree_display hk ")" rfl rfl rfl (agree_argument hk) _
          ((hhead.append hbefore).concat (by
            split
            · exact option_rel_getD hfirst.tightened? hfirst
            · exact hfirst))

theorem agree_callArguments (hk : i.Operands L k k') (p : Place) :
    i.Agree (L + 1) q T (const true) 0 i.IsMoved (callArguments k p) (callArguments k' p) := by
  refine .next (agree_arguments hk p) fun _ _ _ ht => .look .atTextEnd fun _ _ hends => ?_
  subst hends
  exact .ite (fun _ => .pure ht.withFirstGroupWhole) fun _ => .pure ht

theorem agree_sliceBound (hk : i.Operands L k k') :
    i.Agree L q T (const false) 0 i.AreMoved (sliceBound k) (sliceBound k') :=
  .peek fun _ _ => .ite (fun _ => (agree_inner hk).part) fun _ => .noParts

theorem agree_sliceTail (hk : i.Operands L k k') :
    i.Agree L q T (const false) 0 i.AreMoved (sliceTail k) (sliceTail k') :=
  .bind (.mark _ _) fun _ _ _ hcolon => .bind (agree_sliceBound hk) fun _ _ _ hstop =>
    .option (.mark? _ _ (by decide)) (.pure (hcolon.append hstop)) fun _ _ _ hsecond =>
      .thenPure (agree_sliceBound hk) fun _ _ _ hstep =>
        ((hcolon.append hstop).append hsecond).append hstep

theorem agree_subscriptItem (hk : i.Operands L k k') :
    i.Agree L true T (const false) 0 i.IsMoved (subscriptItem k) (subscriptItem k') :=
  .peek fun _ _ => .ite (fun _ => .node rfl (agree_sliceTail hk)) fun _ =>
    .bind (agree_inner hk) fun _ _ _ hfirst => .peek fun _ _ => .ite
      (fun _ => .extend rfl hfirst (agree_sliceTail hk)) fun _ => .pure hfirst

theorem agree_trailer? (hk : i.Operands L k k') (p : Place) {t t' : Tree} (ht : i.IsMoved n t t') :
    i.Agree (L + 1) q T goes n (Next n i.IsMoved) (trailer? k p t) (trailer? k' p t') :=
  .peek fun _ _ => .ite
    (fun _ => .goOn <| .extend rfl (ht.withField .object) <|
      .next (.takesMark _ _ (by decide)) fun _ _ _ hdot =>
        .thenPure ((agree_identifier _).partAs .attribute) fun _ _ _ hname => hdot.append hname)
    fun _ => .ite
      (fun _ => .goOn <| .extend rfl (ht.withField .function) <|
        .partAs .arguments (agree_callArguments hk p))
      fun _ => .ite
        (fun _ => .goOn <| .extend rfl (ht.withField .value) <|
          .after (.takesMark _ _ (by decide)) fun _ _ _ hhead =>
            .bind (agree_subscriptItem hk).part fun _ _ _ hitem =>
              .thenPure (.itemsUntil _ (agree_subscriptItem hk) _) fun _ _ _ hmore =>
                (hhead.append hitem).append hmore)
        fun _ => .stop

theorem agree_trailers (hk : i.Operands L k k') (p : Place) {first first' : Tree}
    (hfirst : i.IsMoved n first first') :
    i.Agree (L + 1) q T (const false) n i.IsMoved (trailers k p first) (trailers k' p first') :=
  .loop (fun _ _ _ ht => agree_trailer? hk p ht) hfirst

theorem agree_bareAtom (hk : i.Later L k k') (p : Place) :
    i.Agree (L + 1) true T (const false) 0 i.IsMoved (bareAtom k p) (bareAtom k' p) := by
  refine .peek fun t _ => ?_
  cases t with
  | name text =>
      refine .ite (fun _ => .leaf rfl _ (forall_eq.mpr rfl)) fun _ => .ite
        (fun _ => .leaf rfl _ (forall_eq.mpr rfl)) fun _ => .ite
          (fun _ => .leaf rfl _ (forall_eq.mpr rfl)) fun _ => .ite
            (fun _ => .look (.peekSecond _) fun _ _ hsecond => ?_) fun _ => agree_variableName _
      rw [hsecond rfl]
      exact .ite (fun _ => .fail) fun _ => agree_variableName _
  | integer => exact .leaf rfl _ (forall_eq.mpr rfl)
  | float => exact .leaf rfl _ (forall_eq.mpr rfl)
  | quote q => exact (agree_strings hk _).drop
  | op text =>
      exact .ite (fun _ => (agree_parentheses hk.toOperands p).drop) fun _ => .ite
        (fun _ => (agree_list hk.toOperands p).drop) fun _ => .ite
          (fun _ => (agree_braced hk.toOperands p).drop) fun _ => .ite
            (fun _ => .leaf rfl _ (forall_eq.mpr rfl)) fun _ => .fail
  | _ => exact .fail

/-- Each star takes something, so as many stars may follow each other as there is text left. -/
theorem agree_starred (hk : i.Later L k k') (p : Place) (l depth depth' : Nat) (hdepth : l ≤ depth)
    (hdepth' : l ≤ depth') (hl : l ≤ L + 1) {T : Token → Prop} :
    i.Agree l q T (const true) 0 i.IsMoved (starred k p depth) (starred k' p depth') := by
  induction l generalizing depth depth' q T with
  | zero => exact fun _ _ _ _ hleft => absurd hleft (Nat.not_lt_zero _)
  | succ l ih =>
      obtain ⟨depth, rfl⟩ := Nat.exists_eq_succ_of_ne_zero (Nat.ne_zero_of_lt hdepth)
      obtain ⟨depth', rfl⟩ := Nat.exists_eq_succ_of_ne_zero (Nat.ne_zero_of_lt hdepth')
      have hle : l ≤ L + 1 := (Nat.le_succ l).trans hl
      have htarget : ∀ {n : Nat} {first first' : Tree}, i.IsMoved n first first' →
          i.Agree l false Any (const false) n i.IsMoved
            (Parser.loop (fun t => if isPlace t then pure none else trailer? k p t) first >>= fun t =>
              if isPlace t then pure t else Parser.fail)
            (Parser.loop (fun t => if isPlace t then pure none else trailer? k' p t) first' >>= fun t =>
              if isPlace t then pure t else Parser.fail) := by
        intro n first first' hfirst
        have hloop : i.Agree l false Any (const false) n i.IsMoved
            (Parser.loop (fun t => if isPlace t then pure none else trailer? k p t) first)
            (Parser.loop (fun t => if isPlace t then pure none else trailer? k' p t) first') :=
          .loop (fun m t t' ht => by
            rw [ht.isPlace]
            exact .ite (fun _ => .stop) fun _ => (agree_trailer? hk.toOperands p ht).of_le hle) hfirst
        refine hloop.bindFrom (c := 0) fun m t t' ht => ?_
        rw [ht.isPlace]
        exact .ite (fun _ => .pure ht) fun _ => .fail
      refine .starNode <| .extras fun _ _ _ hbefore => .peek fun _ _ => .ite (fun _ => .fail_bind)
        fun hstar => .overAfter (.shiftFirst _ (forall_eq.mpr (by simpa using hstar))) fun _ _ =>
          .thenPure (Agree.partTail ?_) fun _ _ _ htarget => .prepend hbefore htarget
      exact .peek fun _ _ => .ite
        (fun _ => .bind (ih depth depth' (Nat.le_of_succ_le_succ hdepth)
          (Nat.le_of_succ_le_succ hdepth') hle).forget fun _ _ _ hfirst => htarget hfirst)
        fun _ => .bind ((agree_bareAtom hk p).of_le hle) fun _ _ _ hfirst => htarget hfirst

theorem agree_atom (hk : i.Later L k k') (p : Place) :
    i.Agree (L + 1) true T (const false) 0 i.IsMoved (atom k p) (atom k' p) :=
  .peek fun _ _ => .ite
    (fun _ => .stepLimit fun l n n' hn hn' hl =>
      .bind (agree_starred hk p l n n' hn hn' hl).forget fun _ _ _ hfirst =>
        (agree_trailers hk.toOperands p hfirst).of_le hl)
    fun _ => .bind (agree_bareAtom hk p) fun _ _ _ hfirst => agree_trailers hk.toOperands p hfirst

/-! ### Operators -/

theorem spells_of_strength {t : Token} {n : Nat} (h : strength? t = some n) : Spells t := by
  cases t with
  | op text =>
      refine ⟨text, by simp [Token.isMark], fun hempty => ?_⟩
      obtain rfl : text = "" := String.toList_inj.mp hempty
      have hnone : strength? (.op "") = none := by decide
      exact absurd (hnone.symm.trans h) (Option.some_ne_none n).symm
  | _ => cases h

section operators

variable (hk : i.Operands L k k')

include hk

theorem agree_operand (hatom : ∀ p {T : Token → Prop},
      i.Agree (L + 1) true T (const false) 0 i.IsMoved (k.atom p) (k'.atom p)) (p : Place) :
    i.Agree (L + 1) true T (const false) 0 i.IsMoved (operand k p) (operand k' p) := by
  refine .peek fun t _ => .ite
    (fun hsign => .node rfl <| .extras fun _ _ _ hbefore =>
      .overAfter (.takesShift _ (forall_eq.mpr (spells_of_isOneOf hsign (by decide)))) fun _ _ =>
        .thenPure ((hk.arithmetic _ p).partAs .argument) fun _ _ _ hvalue => hbefore.append hvalue)
    fun _ => .ite (fun _ => .bind (hatom p) fun _ t t' ht => .look .atTextEnd fun _ _ hends => ?_)
      fun _ => .look (.peekSecond _) fun second second' hsecond => ?_
  · subst hends
    rw [ht.isPlace]
    exact .ite (fun _ => .pure (option_rel_getD ht.loosened? ht)) fun _ => .pure ht
  · by_cases hawait : t.isMark "await" = true
    · rw [hsecond (opensQuote_of_isMark hawait)]
      exact .ite
        (fun _ => .after (.takesLeaf rfl _ (forall_eq.mpr ⟨_, hawait, by decide⟩)) fun _ _ _ hword =>
          .extend rfl hword (hk.arithmetic _ p).part)
        fun _ => hatom p
    · rw [Bool.not_eq_true] at hawait
      simp only [hawait, Bool.false_and, Bool.false_eq_true, if_false]
      exact hatom p

theorem agree_arithmetic (hatom : ∀ p {T : Token → Prop},
      i.Agree (L + 1) true T (const false) 0 i.IsMoved (k.atom p) (k'.atom p)) (least : Nat)
    (p : Place) :
    i.Agree (L + 1) true T (const false) 0 i.IsMoved (arithmetic k least p) (arithmetic k' least p) := by
  refine .bind (agree_operand hk hatom p) fun _ _ _ hfirst => .loop (fun _ _ _ hleft =>
    .peek fun t _ => ?_) hfirst
  cases hstrength : strength? t with
  | none => exact .stop
  | some n =>
      exact .ite
        (fun _ => .goOn <| .extend rfl hleft <| .extras fun _ _ _ hbefore =>
          .overAfter (.takesShift _ (forall_eq.mpr (spells_of_strength hstrength))) fun _ _ =>
            .thenPure (hk.arithmetic _ p).part fun _ _ _ hright => hbefore.append hright)
        fun _ => .stop

omit hk in
theorem agree_comparisonMark :
    i.Agree L q T goes 0 (Next 0 i.AreMoved) comparisonMark comparisonMark :=
  .peek fun _ _ => .ite
    (fun hsign => .extras fun _ _ _ hbefore =>
      .overNext (.takesShift _ (forall_eq.mpr (spells_of_isOneOf hsign (by decide)))) fun _ _ =>
        .pure (.goOn hbefore))
    fun _ => .ite
      (fun _ => .next (.takesMark _ _ (by decide)) fun _ _ _ hhead =>
        .thenPure (.maybe _ _ (by decide)) fun _ _ _ hnot => .goOn (hhead.append hnot))
      fun _ => .ite
        (fun _ => .next (.takesMark _ _ (by decide)) fun _ _ _ hhead =>
          .thenPure (.mark _ _) fun _ _ _ hin => .goOn (hhead.append hin))
        fun _ => .stop

omit hk in
theorem agree_comparison (harithmetic : ∀ n p {T : Token → Prop},
      i.Agree L true T (const false) 0 i.IsMoved (k.arithmetic n p) (k'.arithmetic n p)) (p : Place) :
    i.Agree L true T (const false) 0 i.IsMoved (comparison k p) (comparison k' p) :=
  .bind (harithmetic 0 p) fun _ _ _ hfirst => .peek fun _ _ => .ite
    (fun _ => .extend rfl hfirst <| .loop (fun _ _ _ hacc =>
      .option agree_comparisonMark .stop fun _ _ _ hmark =>
        .thenPure (harithmetic 0 p).part fun _ _ _ hright => .goOn ((hacc.append hmark).append hright))
      .nil)
    fun _ => .pure hfirst

end operators

section expressions

variable (hk : i.Later L k k') (harithmetic : ∀ n p {T : Token → Prop},
  i.Agree (L + 1) true T (const false) 0 i.IsMoved (k.arithmetic n p) (k'.arithmetic n p))

include hk harithmetic

theorem agree_clause (level : Level) (p : Place) :
    i.Agree (L + 1) true T (const false) 0 i.IsMoved (clause k level p) (clause k' level p) := by
  refine .peek fun _ _ => .ite (fun _ => (agree_lambda hk _ p).drop) fun _ => .ite
    (fun _ => .node rfl <| .after (.takesMark _ _ (by decide)) fun _ _ _ hhead =>
      .thenPure ((hk.expression _ p).partAs .argument) fun _ _ _ hvalue => hhead.append hvalue)
    fun _ => .bind (agree_comparison harithmetic p) fun _ first first' hfirst => .peek fun _ _ => ?_
  rw [hfirst.kind]
  exact .ite
    (fun _ => .extend rfl (hfirst.withField .name) <|
      .after (.takesMark _ _ (by decide)) fun _ _ _ hsign =>
        .thenPure ((hk.expression _ p).partAs .value) fun _ _ _ hvalue => hsign.append hvalue)
    fun _ => .pure hfirst

theorem agree_expression (level : Level) (p : Place) :
    i.Agree (L + 1) true T (const false) 0 i.IsMoved (expression k level p) (expression k' level p) :=
  .bind (agree_clause hk harithmetic level p) fun _ _ _ hfirst => .loop (fun _ _ _ hleft =>
    .peek fun _ _ => .ite
      (fun _ => .goOn <| .extend rfl hleft <|
        .after (.takesMark _ _ (by decide)) fun _ _ _ hhead =>
          .thenPure (hk.expression _ p).part fun _ _ _ hright => hhead.append hright)
      fun _ => .ite
        (fun _ => .goOn <| .extend rfl hleft <|
          .after (.takesMark _ _ (by decide)) fun _ _ _ hhead =>
            .thenPure (hk.expression _ p).part fun _ _ _ hright => hhead.append hright)
        fun _ => .ite
          (fun _ => .goOn <| .extend rfl hleft <|
            .after (.takesMark _ _ (by decide)) fun _ _ _ hhead =>
              .thenPure (.partAs .asName (.node rfl (hk.expression _ p).part)) fun _ _ _ htarget =>
                hhead.append htarget)
          fun _ => .ite
            (fun _ => .goOn <| .extend rfl hleft <|
              .after (.takesMark _ _ (by decide)) fun _ _ _ htest =>
                .bind (hk.expression _ _).part fun _ _ _ hcondition =>
                  .bind (.mark _ _) fun _ _ _ helse =>
                    .thenPure (hk.expression _ p).part fun _ _ _ hother =>
                      ((htest.append hcondition).append helse).append hother)
            fun _ => .stop) hfirst

end expressions

/-! ### Embedded expressions -/

/-- What stands between the braces of a format string, up to its format specifier. -/
def interpolated (k : Knot) : Parser (List Tree) := do
  let value ←
    if (← Parser.peek).isMark "yield" then Parser.part (yieldExpression k .inner)
    else Parser.part (expressions k .inner)
  let equals := (← Parser.mark? "=" .close).getD []
  let conversion ←
    if (← Parser.peek) = .conversion then do
      let before ← Parser.extras
      Parser.shift .close
      pure before
    else pure []
  pure (value ++ equals ++ conversion)

/-- What is made of the parts between the braces, the first of which is at `c`. -/
def interpolation (k : Knot) (c : Cursor) (s : State) : Outcome (List Tree) → Outcome (Tree × Cursor)
  | .failed r => .failed r
  | .done parts s₁ =>
    if s₁.token.isMark "\x7d" then
      .done (.node .interpolation none (.between c.pos (s₁.ahead.front.advance 1).pos)
        (parts ++ s₁.extras), s₁.ahead.front.advance 1)
        { s with reach := s₁.reach, inFormat := s₁.inFormat }
    else if s₁.token.isMark ":" ∨ s₁.token.isMark ":=" then
      match formatPieces k (s.size + 1) (s₁.ahead.front.advance 1) []
          { s with reach := s₁.reach, inFormat := s₁.inFormat } with
      | .done (trees, rest) s₂ =>
        .done (.node .interpolation none (.between c.pos (rest.advance 1).pos) (parts ++ trees),
          rest.advance 1) s₂
      | .failed r => .failed r
    else .failed (State.farther s₁.reach s₁.last)

theorem embedded_eq (k : Knot) (c : Cursor) (s : State) : embedded k c s = interpolation k c s
    (interpolated k ({ s with last := (c.advance 1).pos, extras := [] }.resume .operand (c.advance 1))) :=
  rfl

theorem agree_interpolated (hk : i.Operands L k k') :
    i.Agree L q T (const false) 0 i.AreMoved (interpolated k) (interpolated k') := by
  refine .peek fun _ _ => .ite (fun _ => .bind (agree_yieldExpression hk _).part ?_)
    fun _ => .bind (agree_expressions hk _).part ?_
  all_goals
    exact fun _ _ _ hvalue => .bind (.maybe _ _ (by decide)) fun _ _ _ hequals => .peek fun _ _ =>
      .ite
        (fun hconversion => .extras fun _ _ _ hbefore =>
          .thenGo (.shift _ (forall_eq.mpr (hconversion ▸ rfl))) fun _ _ =>
            .pure ((hvalue.append hequals).append hbefore))
        fun _ => .bind .noParts fun _ _ _ hnone => .pure ((hvalue.append hequals).append hnone)

theorem Abreast.withLast {s s' : State} (h : i.Abreast s s') {p p' : Position}
    (hp : p' = i.moveStop p) (extras extras' : List Tree) :
    i.Abreast { s with last := p, extras := extras } { s' with last := p', extras := extras' } :=
  ⟨hp, h.widths, h.inFormat, h.size, h.size'⟩

theorem Alike.rest_ne_nil {m : Nat} {s s' : State} (h : i.Alike m s s') (hs : Spells s.token) :
    s.ahead.front.rest ≠ [] :=
  List.length_pos_iff.mp (Nat.zero_lt_of_lt (length_stop_lt_left h hs))

/-- Nothing waits to be taken behind an expression between braces, because the new line is above. -/
theorem textEnds_interpolation (hembeds : i.Embeds L k.embedded k'.embedded) {c c' : Cursor}
    {s s' : State} (hlevel : i.Abreast s s') {o o' : Outcome (List Tree)} {left : Nat}
    (hleft : left < L) (h : i.Ends 0 0 (const false) i.AreMoved left o o') :
    i.TextEnds (left + 1) (interpolation k c s o) (interpolation k' c' s' o') := by
  cases h with
  | failed => exact .failed
  | @done n m parts parts' s₁ s₁' hparts halike hcount hle hlt =>
      have hlevel₁ : i.Abreast { s with reach := s₁.reach, inFormat := s₁.inFormat }
          { s' with reach := s₁'.reach, inFormat := s₁'.inFormat } :=
        ⟨hlevel.last, hlevel.widths, halike.inFormat, hlevel.size, hlevel.size'⟩
      obtain rfl : m = 0 := by omega
      have hfront : i.IsLate s₁.ahead.front s₁'.ahead.front := by
        cases halike.ahead with
        | late h _ _ => exact h.front
      have hclose := hfront.advance 1
      have hshort := length_advance_le 1 s₁.ahead.front
      have hpast : ∀ {word : String}, s₁.token.isMark word = true → word.toList ≠ [] →
          i.start < (s₁.ahead.front.advance 1).pos.byte := fun hmark hword =>
        hfront.byte.trans_lt (byte_lt_advance Nat.one_pos (halike.rest_ne_nil ⟨_, hmark, hword⟩))
      rw [State.left] at hle
      unfold interpolation
      dsimp only
      rw [halike.ahead.token]
      split
      · rename_i hbrace
        exact .done hclose (hpast hbrace (by decide)) hlevel₁ (by omega)
      · split
        · rename_i hcolon
          have hpast₁ := hcolon.elim (hpast · (by decide)) (hpast · (by decide))
          have hlength := hclose.length_le
          have hpieces := textEnds_formatPieces hembeds (s.size + 1) (s'.size + 1) _ _ [] [] _ _ hclose
            hpast₁ (by omega) (by rw [hlevel.size]; omega)
            (by rw [hlevel.size', ← hclose.rest]; omega) hlevel₁
          generalize formatPieces k _ _ _ _ = o at hpieces ⊢
          generalize formatPieces k' _ _ _ _ = o' at hpieces ⊢
          cases hpieces with
          | failed => exact .failed
          | @done _ _ rest _ _ _ hlate hpast hlevel hlt =>
              have hadvance := length_advance_le 1 rest
              exact .done (hlate.advance 1) (hpast.trans_le (Cursor.byte_le_advance 1 rest)) hlevel
                (by omega)
        · exact .failed

theorem agree_embedded (hk : i.Operands L k k') (hembeds : i.Embeds L k.embedded k'.embedded) :
    i.Embeds (L + 1) (embedded k) (embedded k') := by
  intro c c' s s' hlate hpast hne hleft hlevel
  have hshort := length_advance_lt Nat.one_pos hne
  have hopened := hlate.advance 1
  have hpast₁ := hpast.trans_le (Cursor.byte_le_advance 1 c)
  obtain ⟨hinside, hle⟩ := (hlevel.withLast (hopened.moveStop hpast₁) [] []).resume_late .operand
    hopened hpast₁
  have hless : (State.resume .operand (c.advance 1)
      { s with last := (c.advance 1).pos, extras := [] }).left < c.rest.length := hle.trans_lt hshort
  rw [embedded_eq, embedded_eq]
  exact (textEnds_interpolation hembeds hlevel (by omega) (agree_interpolated (q := false) hk (T := Any)
    0 _ _ hinside (by omega) nofun trivial)).mono (by omega)

/-! ### Types -/

theorem agree_typeParameters (hk : i.Later L k k') (p : Place) :
    i.Agree (L + 1) q T (const true) 0 i.IsMoved (typeParameters k p) (typeParameters k' p) :=
  .node rfl <| .after (.takesMark _ _ (by decide)) fun _ _ _ hhead =>
    .bind (hk.type true _).part fun _ _ _ hfirst =>
      .thenPure (.itemsUntil _ (hk.type true _) _) fun _ _ _ hmore => (hhead.append hfirst).append hmore

theorem agree_splatType (p : Place) (hquote : ∀ t, T t → opensQuote t = false) :
    i.Agree L q T (const false) 0 i.AreMoved (splatType p) (splatType p) :=
  .extras fun _ _ _ hbefore => .thenGo (.shift _ hquote) fun _ _ =>
    .thenPure (agree_identifier _).part fun _ _ _ hname => hbefore.append hname

section types

variable (hk : i.Later L k k') (hexpression : ∀ l p {T : Token → Prop},
  i.Agree (L + 1) true T (const false) 0 i.IsMoved (k.expression l p) (k'.expression l p))

include hk hexpression

/-- Before a literal no second token matters. -/
theorem agree_bareType (p : Place) :
    i.Agree (L + 1) q T (const false) 0 i.AreMoved (bareType k p) (bareType k' p) := by
  refine .peek fun t _ => .look (.peekSecond _) fun second second' hsecond => ?_
  by_cases hquote : opensQuote t = true
  · have hmark : ∀ word, t.isMark word = false := fun word => by
      cases t <;> first | rfl | exact absurd hquote Bool.false_ne_true
    have hname : isGenericName t = false := by
      cases t <;> first | rfl | exact absurd hquote Bool.false_ne_true
    simp only [hmark, hname, Bool.false_and, Bool.false_eq_true, if_false]
    exact .look (.would _ _ _) fun _ _ _ => (hexpression _ p).part
  · rw [Bool.not_eq_true] at hquote
    rw [hsecond hquote]
    refine .ite (fun _ => agree_splatType p (forall_eq.mpr hquote)) fun _ =>
      .look (.wouldRead (agree_splatType (T := (· = t)) p (forall_eq.mpr hquote)) _)
        fun reads reads' hreads => ?_
    subst hreads
    exact .ite (fun _ => agree_splatType p (forall_eq.mpr hquote)) fun _ => .ite
      (fun _ => .bind (agree_identifier _).part fun _ _ _ hname =>
        .thenPure (agree_typeParameters hk p).forget.part fun _ _ _ hparameters => hname.append hparameters)
      fun _ => (hexpression _ p).part

theorem agree_type (bound : Bool) (p : Place) :
    i.Agree (L + 1) true T (const false) 0 i.IsMoved (type k bound p) (type k' bound p) :=
  .node rfl <| .bind (agree_bareType hk hexpression p) fun _ _ _ hfirst => .loop (fun _ _ _ hacc =>
    .peek fun _ _ => .ite
      (fun _ => .after (.takesMark _ _ (by decide)) fun _ _ _ hbar =>
        .thenPure (hk.type bound p).part fun _ _ _ hnext => .goOn ((hacc.append hbar).append hnext))
      fun _ => .ite
        (fun _ => .after (.takesMark _ _ (by decide)) fun _ _ _ hcolon =>
          .thenPure (hk.type bound p).part fun _ _ _ hnext => .goOn ((hacc.append hcolon).append hnext))
        fun _ => .ite
          (fun _ => .after (.takesMark _ _ (by decide)) fun _ _ _ hdot =>
            .thenPure (agree_identifier _).part fun _ _ _ hname => .goOn ((hacc.append hdot).append hname))
          fun _ => .stop) hfirst

end types

end CommentPlace

end Plumbline.Syntax
