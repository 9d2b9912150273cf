/-
The inside of literals.

Below the new line the pieces of a literal are the same in both texts, and above it a literal is a
whole token, so that what follows it does not matter.  Either way the readers agree on a literal.
-/
import Plumbline.Proofs.Insertion.Agree

namespace Plumbline.Syntax

/-! ### Pieces -/

namespace Quote

/-- A piece of plain text takes a character at least, and a brace stands where an embedded expression
starts. -/
def IsPiece (cs : List Char) : Piece → Prop
  | .plain n => 0 < n ∧ cs ≠ []
  | .embed n => cs.drop n ≠ []
  | _ => True

theorem scanPlain_eq_some (q : Quote) (size : Nat) (begun : Bool) (cs : List Char) {p : Piece}
    (hsize : begun = true → 0 < size) (h : q.scanPlain size begun cs = some p) :
    (∃ n, 0 < n ∧ p = .plain n) ∨ ∃ n, p = .close n := by
  have hstop : ∀ {size : Nat} {begun : Bool}, (begun = true → 0 < size) →
      (if begun = true then some (Piece.plain size) else none) = some p →
        (∃ n, 0 < n ∧ p = .plain n) ∨ ∃ n, p = .close n := by
    intro size begun hsize h
    split at h
    · cases h
      exact Or.inl ⟨_, hsize ‹_›, rfl⟩
    · exact absurd h nofun
  fun_induction scanPlain q size begun cs
  all_goals first
    | (cases h; done)
    | exact hstop hsize h
    | (rename_i ih; exact ih (fun _ => by omega) h)
    | (cases h; exact Or.inl ⟨_, by omega, rfl⟩)
    | (cases h; exact Or.inr ⟨_, rfl⟩)

theorem escapeSize_pos (cs : List Char) : 0 < escapeSize cs := by
  have hite : ∀ {p : Prop} [Decidable p] {a b : Nat}, 0 < a → 0 < b → 0 < if p then a else b :=
    fun ha hb => by split <;> assumption
  unfold escapeSize
  cases cs with
  | nil => exact Nat.one_pos
  | cons c cs =>
      refine hite (hite (Nat.succ_pos _) Nat.one_pos) <| hite (hite (Nat.succ_pos _) Nat.one_pos) <|
        hite (hite (Nat.succ_pos _) Nat.one_pos) <| hite (Nat.add_pos_left Nat.one_pos _) <|
        hite Nat.two_pos <| hite (hite (Nat.succ_pos _) Nat.one_pos) <| hite ?_ <|
        hite Nat.two_pos <| hite Nat.two_pos Nat.one_pos
      split
      · exact hite (Nat.add_pos_left (Nat.succ_pos _) _) Nat.one_pos
      · exact Nat.one_pos

theorem commentLength_pos (cs : List Char) : 0 < Token.commentLength ('#' :: cs) := by
  have hhash : '#' ≠ nul := by decide
  simp [Token.commentLength, Token.runLength, hhash]

theorem isPiece_pieceBetween (cs : List Char) : IsPiece cs (pieceBetween cs) := by
  unfold pieceBetween
  split
  · exact ⟨escapeSize_pos _, nofun⟩
  · dsimp only
    generalize Token.runLength isBlank cs = blanks
    split
    · rename_i hrest
      simp [IsPiece, hrest]
    · rename_i hrest
      refine ⟨?_, ?_⟩
      · rw [hrest]
        exact Nat.add_pos_right _ (commentLength_pos _)
      · rintro rfl
        simp at hrest
    · split
      · rename_i hjoin
        refine ⟨Nat.add_pos_right _ hjoin, ?_⟩
        rintro rfl
        simp [Token.joinLength] at hjoin
      · trivial

theorem isPiece_piece (q : Quote) (cs : List Char) : IsPiece cs (q.piece cs) := by
  have hscan : IsPiece cs ((q.scanPlain 0 false cs).getD (pieceBetween cs)) := by
    cases h : q.scanPlain 0 false cs with
    | none => exact isPiece_pieceBetween cs
    | some p =>
        have hne : cs ≠ [] := by
          rintro rfl
          simp [scanPlain] at h
        rcases scanPlain_eq_some q 0 false cs (absurd · Bool.false_ne_true) h with ⟨n, hn, rfl⟩ | ⟨n, rfl⟩
        · exact ⟨hn, hne⟩
        · trivial
  unfold piece
  split
  · exact ⟨by decide, List.cons_ne_nil _ _⟩
  · exact List.cons_ne_nil _ _
  · exact ⟨by decide, List.cons_ne_nil _ _⟩
  · trivial
  · exact hscan

end Quote

namespace CommentPlace

variable {i : CommentPlace}

/-! ### Pieces below the new line -/

/-- How two readers of a stretch of a literal end below the new line: at places that stand alike, with
less than `left` behind them. -/
inductive TextEnds (i : CommentPlace) {α : Type} (left : Nat) :
    Outcome (α × Cursor) → Outcome (α × Cursor) → Prop where
  | failed {r r' : Position} : TextEnds i left (.failed r) (.failed r')
  | done {a a' : α} {c c' : Cursor} {s s' : State} (hlate : i.IsLate c c')
      (hpast : i.start < c.pos.byte) (hlevel : i.Abreast s s') (hlt : c.rest.length < left) :
      TextEnds i left (.done (a, c) s) (.done (a', c') s')

/-- The readers of embedded expressions end alike where less than `L` is left. -/
def Embeds (i : CommentPlace) (L : Nat) (p p' : Cursor → Parser (Tree × Cursor)) : Prop :=
  ∀ (c c' : Cursor) (s s' : State), i.IsLate c c' → i.start < c.pos.byte → c.rest ≠ [] →
    c.rest.length < L → i.Abreast s s' → i.TextEnds c.rest.length (p c s) (p' c' s')

theorem TextEnds.mono {α : Type} {left left' : Nat} {o o' : Outcome (α × Cursor)}
    (h : i.TextEnds left o o') (hle : left ≤ left') : i.TextEnds left' o o' := by
  cases h with
  | failed => exact .failed
  | done hlate hpast hlevel hlt => exact .done hlate hpast hlevel (hlt.trans_le hle)

theorem TextEnds.bind {α β : Type} {left left' : Nat} {p p' : Parser (α × Cursor)}
    {f f' : α × Cursor → Parser (β × Cursor)} {s s' : State} (h : i.TextEnds left (p s) (p' s'))
    (hf : ∀ a a' c c' s₁ s₁', i.IsLate c c' → i.start < c.pos.byte → i.Abreast s₁ s₁' →
      c.rest.length < left → i.TextEnds left' (f (a, c) s₁) (f' (a', c') s₁')) :
    i.TextEnds left' ((p >>= f) s) ((p' >>= f') s') := by
  rw [Parser.bind_apply, Parser.bind_apply]
  generalize p s = o at h
  generalize p' s' = o' at h
  cases h with
  | failed => exact .failed
  | done hlate hpast hlevel hlt => exact hf _ _ _ _ _ _ hlate hpast hlevel hlt

theorem length_advance_lt {n : Nat} {c : Cursor} (hn : 0 < n) (hc : c.rest ≠ []) :
    (c.advance n).rest.length < c.rest.length := by
  rw [Cursor.rest_advance, List.length_drop]
  exact Nat.sub_lt (List.length_pos_iff.mpr hc) hn

theorem length_advance_le (n : Nat) (c : Cursor) : (c.advance n).rest.length ≤ c.rest.length := by
  rw [Cursor.rest_advance, List.length_drop]
  exact Nat.sub_le _ _

open Grammar

/-- What a reader of a format specifier does depends on the text only. -/
theorem formatPieces_cases (rest : List Char) :
    (∀ k fuel c xs, c.rest = rest → formatPieces k (fuel + 1) c xs = pure (xs.reverse, c)) ∨
    (rest ≠ [] ∧ ∀ k fuel c xs, c.rest = rest → formatPieces k (fuel + 1) c xs = do
      let (tree, after) ← k.embedded c
      formatPieces k fuel after (tree :: xs)) ∨
    (∀ k fuel c xs, c.rest = rest → formatPieces k (fuel + 1) c xs = Parser.fail) ∨
    ∃ n, 0 < n ∧ rest ≠ [] ∧ ∀ k fuel c xs, c.rest = rest →
      formatPieces k (fuel + 1) c xs = formatPieces k fuel (c.advance n) xs := by
  rcases rest with _ | ⟨d, ds⟩
  · refine Or.inr (Or.inr (Or.inl fun k fuel c xs h => ?_))
    simp only [formatPieces, h]
  by_cases hclose : d = '\x7d'
  · refine Or.inl fun k fuel c xs h => ?_
    simp only [formatPieces, h, hclose]
  by_cases hopen : d = '\x7b'
  · refine Or.inr (Or.inl ⟨nofun, fun k fuel c xs h => ?_⟩)
    simp only [formatPieces, h, hopen]
  refine Or.inr (Or.inr ?_)
  by_cases hjoin : 0 < Token.joinLength (d :: ds)
  · refine Or.inr ⟨_, hjoin, nofun, fun k fuel c xs h => ?_⟩
    simp only [formatPieces, h, if_pos hjoin]
  by_cases hnul : d = nul
  · refine Or.inl fun k fuel c xs h => ?_
    simp only [formatPieces, h, if_neg hjoin]
    split <;> simp_all
  · refine Or.inr ⟨1, Nat.one_pos, nofun, fun k fuel c xs h => ?_⟩
    simp only [formatPieces, h, if_neg hjoin]
    split <;> simp_all

section pieces

variable {L : Nat} {k k' : Knot} (hk : i.Embeds L k.embedded k'.embedded)

include hk

theorem textEnds_stringPieces (q : Quote) (fuel fuel' : Nat) (c c' : Cursor) (xs xs' : List Tree)
    (s s' : State) (h : i.IsLate c c') (hpast : i.start < c.pos.byte) (hleft : c.rest.length < L)
    (hfuel : c.rest.length < fuel) (hfuel' : c.rest.length < fuel') (hlevel : i.Abreast s s') :
    i.TextEnds (c.rest.length + 1) (stringPieces k q fuel c xs s) (stringPieces k' q fuel' c' xs' s') := by
  induction fuel generalizing fuel' c c' xs xs' s s' with
  | zero => exact absurd hfuel (Nat.not_lt_zero _)
  | succ fuel ih =>
      obtain ⟨fuel', rfl⟩ := Nat.exists_eq_succ_of_ne_zero (Nat.ne_of_gt (Nat.zero_lt_of_lt hfuel'))
      have hpiece := q.isPiece_piece c.rest
      unfold stringPieces
      rw [h.rest]
      cases hnext : q.piece c.rest with
      | plain size =>
        rw [hnext] at hpiece
        have hshort := length_advance_lt hpiece.1 hpiece.2
        exact (ih fuel' _ _ _ _ _ _ (h.advance size)
          (hpast.trans_le (Cursor.byte_le_advance size c)) (by omega) (by omega) (by omega)
          hlevel).mono (by omega)
      | close size =>
        exact .done (h.advance size) (hpast.trans_le (Cursor.byte_le_advance size c)) hlevel
          (Nat.lt_succ_of_le (length_advance_le size c))
      | embed blanks =>
        rw [hnext] at hpiece
        have hle := length_advance_le blanks c
        refine (hk _ _ _ _ (h.advance blanks) (hpast.trans_le (Cursor.byte_le_advance blanks c))
          ?_ (by omega) hlevel).bind fun a a' c₁ c₁' s₁ s₁' h₁ hpast₁ hlevel₁ hlt => ?_
        · rw [Cursor.rest_advance]
          exact hpiece
        · exact (ih fuel' _ _ _ _ _ _ h₁ hpast₁ (by omega) (by omega) (by omega) hlevel₁).mono
            (by omega)
      | broken => exact .failed

theorem textEnds_formatPieces (fuel fuel' : Nat) (c c' : Cursor) (xs xs' : List Tree)
    (s s' : State) (h : i.IsLate c c') (hpast : i.start < c.pos.byte) (hleft : c.rest.length < L)
    (hfuel : c.rest.length < fuel) (hfuel' : c.rest.length < fuel') (hlevel : i.Abreast s s') :
    i.TextEnds (c.rest.length + 1) (formatPieces k fuel c xs s) (formatPieces k' fuel' c' xs' s') := by
  induction fuel generalizing fuel' c c' xs xs' s s' with
  | zero => exact absurd hfuel (Nat.not_lt_zero _)
  | succ fuel ih =>
      obtain ⟨fuel', rfl⟩ := Nat.exists_eq_succ_of_ne_zero (Nat.ne_of_gt (Nat.zero_lt_of_lt hfuel'))
      rcases formatPieces_cases c.rest with hclose | ⟨hne, hopen⟩ | hfail | ⟨n, hn, hne, hgo⟩
      · rw [hclose k fuel c xs rfl, hclose k' fuel' c' xs' h.rest]
        exact .done h hpast hlevel (Nat.lt_succ_self _)
      · rw [hopen k fuel c xs rfl, hopen k' fuel' c' xs' h.rest]
        refine (hk _ _ _ _ h hpast hne hleft hlevel).bind
          fun a a' c₁ c₁' s₁ s₁' h₁ hpast₁ hlevel₁ hlt => ?_
        exact (ih fuel' _ _ _ _ _ _ h₁ hpast₁ (by omega) (by omega) (by omega) hlevel₁).mono
          (by omega)
      · rw [hfail k fuel c xs rfl, hfail k' fuel' c' xs' h.rest]
        exact .failed
      · rw [hgo k fuel c xs rfl, hgo k' fuel' c' xs' h.rest]
        have hshort := length_advance_lt hn hne
        exact (ih fuel' _ _ _ _ _ _ (h.advance n) (hpast.trans_le (Cursor.byte_le_advance n c))
          (by omega) (by omega) (by omega) hlevel).mono (by omega)

end pieces

/-! ### Whole literals -/

/-- Insides of literals are read to their ends where less than `L` is left. -/
def ReadsBodies (L : Nat) (k : Knot) : Prop :=
  ∀ q body, IsBody q body → ∀ rest pos s, (body ++ rest).length < L →
    (body ++ rest).length ≤ s.size → s.inFormat = q.format →
      ∃ trees s', stringPieces k q (s.size + 1) ⟨body ++ rest, pos⟩ [] s =
        .done (trees, Cursor.advance body.length ⟨body ++ rest, pos⟩) s'

/-- The readers of nested expressions agree where less than `L` is left. -/
structure Operands (i : CommentPlace) (L : Nat) (k k' : Knot) : Prop where
  expression : ∀ l p {T : Token → Prop},
    i.Agree L true T (const false) 0 i.IsMoved (k.expression l p) (k'.expression l p)
  atom : ∀ p {T : Token → Prop}, i.Agree L true T (const false) 0 i.IsMoved (k.atom p) (k'.atom p)
  arithmetic : ∀ n p {T : Token → Prop},
    i.Agree L true T (const false) 0 i.IsMoved (k.arithmetic n p) (k'.arithmetic n p)

/-- The readers of nested constructs other than statements agree where less than `L` is left. -/
structure Later (i : CommentPlace) (L : Nat) (k k' : Knot) : Prop extends Operands i L k k' where
  type : ∀ bound p {T : Token → Prop},
    i.Agree L true T (const false) 0 i.IsMoved (k.type bound p) (k'.type bound p)
  assigned : ∀ {T : Token → Prop}, i.Agree L true T (const false) 0 i.IsMoved k.assigned k'.assigned
  casePattern : ∀ p {T : Token → Prop},
    i.Agree L true T (const false) 0 i.IsMoved (k.casePattern p) (k'.casePattern p)
  embedded : i.Embeds L k.embedded k'.embedded
  bodies : ReadsBodies L k
  bodies' : ReadsBodies (L + i.line.length) k'

variable {L : Nat} {k k' : Knot}

/-- The tree of a literal has moved, whatever is embedded in it. -/
theorem isMoved_string {p p' r r' : Position} {xs xs' : List Tree} (hp : p' = i.moveStart p)
    (hr : r' = i.moveStop r) :
    i.IsMoved 0 (.node .string none (.between p r) xs) (.node .string none (.between p' r') xs') := by
  rw [hp, hr, between_move]
  exact .text

theorem Alike.length_quote {m : Nat} {s s' : State} {q : Quote} (h : i.Alike m s s')
    (hq : s.token = .quote q) : s.ahead.stop.rest.length < s.left := by
  obtain ⟨e, width, inFormat, c, hread⟩ := h.read
  rw [State.token, hread] at hq
  rw [State.left, hread]
  exact CommentPlace.length_quote hq

/-- What is read after a literal, once its pieces have been read. -/
theorem string_eq {s s₁ : State} {q : Quote} {trees : List Tree} {rest : Cursor} {k : Knot} (e : Expect)
    (hq : s.token = .quote q) (h : stringPieces k q (s.size + 1) s.ahead.stop []
      { s with last := s.ahead.stop.pos, inFormat := q.format } = .done (trees, rest) s₁) :
    string k e s = .done (.node .string none (.between s.ahead.start rest.pos) trees)
      (State.resume e rest
        { s with last := rest.pos, reach := s₁.reach, extras := [], inFormat := false }) := by
  unfold string
  rw [hq]
  dsimp only
  rw [h]

theorem string_late (hk : i.Later L k k') {s s' : State} {q : Quote} (e : Expect)
    (halike : i.Alike 0 s s') (hq : s.token = .quote q) (h : i.LatePair s.ahead s'.ahead)
    (hleft : s.left < L + 1) :
    i.Ends 0 0 (const true) i.IsMoved s.left (string k e s) (string k' e s') := by
  have hq' : s'.token = .quote q := h.token.trans hq
  have hlt := halike.length_quote hq
  have hlevel : i.Abreast { s with last := s.ahead.stop.pos, inFormat := q.format }
      { s' with last := s'.ahead.stop.pos, inFormat := q.format } :=
    ⟨h.stop.moveStop h.past, halike.widths, rfl, halike.size, halike.size'⟩
  obtain ⟨hsize, hsize'⟩ := halike.left_le
  have hends := textEnds_stringPieces hk.embedded q (s.size + 1) (s'.size + 1) _ _ [] [] _ _ h.stop
    h.past (by omega) (by omega) (by omega) hlevel
  generalize hpieces : stringPieces k q _ _ _ _ = o at hends
  generalize hpieces' : stringPieces k' q _ _ _ _ = o' at hends
  cases hends with
  | failed =>
      have hfail : ∀ k (s : State) r, s.token = .quote q →
          stringPieces k q (s.size + 1) s.ahead.stop []
            { s with last := s.ahead.stop.pos, inFormat := q.format } = .failed r →
          string k e s = .failed r := by
        intro k s r hq h
        unfold string
        rw [hq]
        dsimp only
        rw [h]
      rw [hfail k s _ hq hpieces, hfail k' s' _ hq' hpieces']
      exact .failed
  | @done xs xs' rest rest' s₁ s₁' hlate hpast hlevel₁ hshort =>
      rw [string_eq e hq hpieces, string_eq e hq' hpieces']
      have hclosed : i.Abreast
          { s with last := rest.pos, reach := s₁.reach, extras := [], inFormat := false }
          { s' with last := rest'.pos, reach := s₁'.reach, extras := [], inFormat := false } :=
        ⟨hlate.moveStop hpast, halike.widths, rfl, halike.size, halike.size'⟩
      obtain ⟨hnext, hle⟩ := hclosed.resume_late e hlate hpast
      refine .done (isMoved_string h.start (hlate.moveStop hpast)) hnext rfl ?_ fun _ => ?_
      · exact hle.trans (by omega)
      · exact hle.trans_lt (by omega)

/-- A literal that is opened above the new line is closed above it. -/
theorem EarlyPair.exists_body {l l' : Lexeme} {q : Quote} (h : i.EarlyPair l l')
    (hq : l.token = .quote q) :
    ∃ body rest, IsBody q body ∧ Tokens rest ∧ i.IsEarly (body ++ rest) l.stop l'.stop := by
  cases h with
  | mark ht _ _ =>
      obtain rfl := hq
      exact absurd ht Bool.false_ne_true
  | word => exact absurd hq (read_ne_quote _ q)
  | @literal w rest q' n c c' hw hquote hrest h =>
      obtain ⟨q₀, opening, body, rfl, -, hat, hbody⟩ := hw
      obtain ⟨rfl, rfl⟩ : q' = q₀ ∧ n = opening.length := by
        have hsame := (hquote []).symm.trans (hat [])
        simpa using hsame
      obtain rfl : q' = q := by simpa using hq
      rw [List.append_assoc] at h
      exact ⟨body, rest, hbody, hrest, h.advance⟩

theorem string_early (hk : i.Later L k k') {s s' : State} {q : Quote} (e : Expect)
    (halike : i.Alike 1 s s') (hq : s.token = .quote q) (h : i.EarlyPair s.ahead s'.ahead)
    (hleft : s.left < L + 1) :
    i.Ends 1 0 (const true) i.IsMoved s.left (string k e s) (string k' e s') := by
  have hq' : s'.token = .quote q := h.token.trans hq
  have hlt := halike.length_quote hq
  have hstart := h.start
  obtain ⟨hsize, hsize'⟩ := halike.left_le
  obtain ⟨body, rest, hbody, hrest, hstop⟩ := h.exists_body hq
  have hlength := congrArg List.length hstop.rest
  have hlength' := congrArg List.length hstop.rest'
  simp only [List.length_append] at hlength hlength'
  have hbound := hstop.length_le
  have hread : ∀ {k : Knot} {M : Nat} {s : State} {back : List Char}, ReadsBodies M k →
      s.ahead.stop.rest = body ++ (rest ++ back) → (body ++ (rest ++ back)).length < M →
      (body ++ (rest ++ back)).length ≤ s.size → ∃ trees s₁,
        stringPieces k q (s.size + 1) s.ahead.stop []
            { s with last := s.ahead.stop.pos, inFormat := q.format } =
          .done (trees, s.ahead.stop.advance body.length) s₁ := by
    intro k M s back hk hback hM hsize
    obtain ⟨trees, s₁, hdone⟩ := hk q body hbody (rest ++ back) s.ahead.stop.pos
      { s with last := s.ahead.stop.pos, inFormat := q.format } hM hsize rfl
    rw [← hback] at hdone
    exact ⟨trees, s₁, hdone⟩
  obtain ⟨trees, s₁, hdone⟩ := hread hk.bodies (by rw [hstop.rest, List.append_assoc])
    (by simp only [List.length_append]; omega) (by simp only [List.length_append]; omega)
  obtain ⟨trees', s₁', hdone'⟩ := hread hk.bodies' (by rw [hstop.rest', List.append_assoc])
    (by simp only [List.length_append]; omega)
    (by simp only [List.length_append]; rw [halike.size']; omega)
  rw [string_eq e hq hdone, string_eq e hq' hdone']
  have hclosed : i.Abreast
      { s with last := (s.ahead.stop.advance body.length).pos, reach := s₁.reach, extras := []
               inFormat := false }
      { s' with last := (s'.ahead.stop.advance body.length).pos, reach := s₁'.reach, extras := []
                inFormat := false } :=
    ⟨hstop.advance.moveStop, halike.widths, rfl, halike.size, halike.size'⟩
  obtain ⟨hnext, hle⟩ := hclosed.resume_early e hrest hstop.advance
  have hadvance := length_advance_le body.length s.ahead.stop
  refine .done (isMoved_string hstart hstop.advance.moveStop) hnext rfl ?_ fun _ => ?_
  · exact hle.trans (by omega)
  · exact hle.trans_lt (by omega)

theorem agree_string (hk : i.Later L k k') (e : Expect) {T : Token → Prop} :
    i.Agree (L + 1) true T (const true) 0 i.IsMoved (Grammar.string k e) (Grammar.string k' e) := by
  intro m s s' halike hleft hclean _
  by_cases hquote : ∃ q, s.token = .quote q
  · obtain ⟨q, hq⟩ := hquote
    rcases halike.of_clean (hclean rfl) with ⟨rfl, h⟩ | ⟨rfl, h⟩
    · exact string_early hk e halike hq h hleft
    · exact string_late hk e halike hq h hleft
  · have hfail : ∀ k s, (∀ q, s.token ≠ .quote q) → ∃ r, Grammar.string k e s = .failed r := by
      intro k s hs
      unfold Grammar.string
      split
      · exact absurd ‹_› (hs _)
      · exact ⟨_, rfl⟩
    obtain ⟨r, hr⟩ := hfail k s fun q hq => hquote ⟨q, hq⟩
    obtain ⟨r', hr'⟩ := hfail k' s' fun q hq => hquote ⟨q, halike.ahead.token ▸ hq⟩
    rw [hr, hr']
    exact .failed

end CommentPlace

end Plumbline.Syntax
