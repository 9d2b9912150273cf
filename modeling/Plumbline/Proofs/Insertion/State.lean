/-
States that stand alike.

Between two tokens the readers of the source and of the outcome are above the new line or below it.
Above it the new comment is still to come; below it the comment waits before the token ahead or has
become a part of some construct.  Wherever both read on from cursors that stand alike, they come to
states that stand alike (`alike_resume_early`, `alike_resume_late`).
-/
import Plumbline.Proofs.Insertion.Lexeme
import Plumbline.Proofs.Insertion.Tree
import Plumbline.Proofs.Syntax.Reader

namespace Plumbline.Syntax

namespace CommentPlace

variable {i : CommentPlace} {l l' : Lexeme}

/-! ### Places of tokens -/

/-- Where a place at which something starts lies in the outcome. -/
def moveStart (i : CommentPlace) (p : Position) : Position := if p.byte < i.start then p else i.move p

/-- Where a place at which something ends lies in the outcome. -/
def moveStop (i : CommentPlace) (p : Position) : Position := if p.byte ≤ i.start then p else i.move p

theorem byte_moveStop (i : CommentPlace) (p : Position) : (i.moveStop p).byte =
    if p.byte ≤ i.start then p.byte else p.byte + byteSize i.line := by
  unfold moveStop
  split <;> rfl

theorem between_move (i : CommentPlace) (p q : Position) :
    Span.between (i.moveStart p) (i.moveStop q) = i.moveSpan (.between p q) := by
  unfold moveStart moveStop Span.between moveSpan move
  split <;> split <;> rfl

theorem IsEarly.lt_start {rest : List Char} {c c' : Cursor} (h : i.IsEarly rest c c') (hne : rest ≠ []) :
    c.pos.byte < i.start := by
  rw [← h.byte]
  exact Nat.lt_add_of_pos_right (byteSize_pos hne)

theorem IsEarly.le_start {rest : List Char} {c c' : Cursor} (h : i.IsEarly rest c c') :
    c.pos.byte ≤ i.start := by
  rw [← h.byte]
  exact Nat.le_add_right _ _

theorem IsEarly.moveStart {rest : List Char} {c c' : Cursor} (h : i.IsEarly rest c c') (hne : rest ≠ []) :
    c'.pos = i.moveStart c.pos := by
  rw [h.pos, CommentPlace.moveStart, if_pos (h.lt_start hne)]

theorem IsEarly.moveStop {rest : List Char} {c c' : Cursor} (h : i.IsEarly rest c c') :
    c'.pos = i.moveStop c.pos := by
  rw [h.pos, CommentPlace.moveStop, if_pos h.le_start]

theorem IsLate.moveStart {c c' : Cursor} (h : i.IsLate c c') : c'.pos = i.moveStart c.pos := by
  rw [h.pos, CommentPlace.moveStart, if_neg (Nat.not_lt.mpr h.byte)]

theorem IsLate.moveStop {c c' : Cursor} (h : i.IsLate c c') (hpast : i.start < c.pos.byte) :
    c'.pos = i.moveStop c.pos := by
  rw [h.pos, CommentPlace.moveStop, if_neg (Nat.not_le.mpr hpast)]

theorem IsEarly.length_le {rest : List Char} {c c' : Cursor} (h : i.IsEarly rest c c') :
    c.rest.length ≤ i.source.length ∧ c'.rest.length ≤ i.outcome.length := by
  obtain ⟨front, hbefore, rfl, rfl⟩ := h
  simp only [source, outcome, hbefore, List.length_append]
  omega

theorem IsLate.length_le {c c' : Cursor} (h : i.IsLate c c') :
    c.rest.length ≤ i.source.length ∧ c'.rest.length ≤ i.outcome.length := by
  obtain ⟨front, rest, hbelow, rfl, rfl⟩ := h
  simp only [source, outcome, hbelow, List.length_append]
  omega

theorem EarlyPair.front (h : i.EarlyPair l l') :
    ∃ rest, rest ≠ [] ∧ i.IsEarly rest l.front l'.front := by
  cases h with
  | mark _ hrest h => exact ⟨_, hrest.ne_nil, h⟩
  | word _ _ hrest h => exact ⟨_, by simp [hrest.ne_nil], h⟩
  | literal _ _ hrest h => exact ⟨_, by simp [hrest.ne_nil], h⟩

theorem EarlyPair.token (h : i.EarlyPair l l') : l'.token = l.token := by cases h <;> rfl

theorem EarlyPair.start (h : i.EarlyPair l l') : l'.start = i.moveStart l.start := by
  obtain ⟨rest, hne, hfront⟩ := h.front
  exact hfront.moveStart hne

/-- Behind any token but a quote there are whole tokens again. -/
theorem EarlyPair.stop (h : i.EarlyPair l l') (hquote : ∀ q, l.token ≠ .quote q) :
    ∃ rest, Tokens rest ∧ i.IsEarly rest l.stop l'.stop := by
  cases h with
  | mark _ hrest h => exact ⟨_, hrest, h⟩
  | word _ _ hrest h => exact ⟨_, hrest, h.advance⟩
  | literal => exact absurd rfl (hquote _)

theorem LatePair.start (h : i.LatePair l l') : l'.start = i.moveStart l.start := h.front.moveStart

/-- A token as a construct without parts. -/
theorem isMoved_leaf {k : Kind} (hk : isPlain k = true)
    {p p' q q' : Position} (hp : p' = i.moveStart p) (hq : q' = i.moveStop q) :
    i.IsMoved 0 (.leaf k (.between p q)) (.leaf k (.between p' q')) := by
  rw [hp, hq, between_move]
  exact .node hk .nil

/-! ### Reading on -/

/-- What lies before the states: the same token, and the comments and joined lines before it, with `m`
new comments still to be taken. -/
inductive Ahead (i : CommentPlace) : Nat → State → State → Prop where
  | early {s s' : State} (h : i.EarlyPair s.ahead s'.ahead) (hextras : i.AreMoved 0 s.extras s'.extras) :
      Ahead i 1 s s'
  | late {m : Nat} {s s' : State} (h : i.LatePair s.ahead s'.ahead)
      (hextras : i.AreMoved m s.extras s'.extras)
      (hwritten : 0 < m → s.token.isLayout = false ∧ s.token ≠ .endOfText) : Ahead i m s s'

/-- The states differ by the new line only. -/
structure Alike (i : CommentPlace) (m : Nat) (s s' : State) : Prop where
  ahead : i.Ahead m s s'
  last : s'.last = i.moveStop s.last
  widths : s'.widths = s.widths
  inFormat : s'.inFormat = s.inFormat
  read : ∃ e width inFormat c, s.ahead = Lexeme.next e width inFormat c
  size : s.size = i.source.length
  size' : s'.size = i.outcome.length

theorem Ahead.token {m : Nat} {s s' : State} (h : i.Ahead m s s') : s'.token = s.token := by
  cases h with
  | early h _ => exact h.token
  | late h _ _ => exact h.token

theorem Ahead.start {m : Nat} {s s' : State} (h : i.Ahead m s s') :
    s'.ahead.start = i.moveStart s.ahead.start := by
  cases h with
  | early h _ => exact h.start
  | late h _ _ => exact h.start

/-- Reading on changes what is ahead and nothing else. -/
theorem fill_eq (e : Expect) (s : State) (fuel : Nat) (c : Cursor) (extras : List Tree) :
    ∃ l xs, s.fill e fuel c extras = { s with ahead := l, extras := xs } := by
  induction fuel generalizing c extras with
  | zero => exact ⟨_, _, rfl⟩
  | succ fuel ih =>
      unfold State.fill
      dsimp only
      split
      · exact ih _ _
      · exact ih _ _
      · exact ⟨_, _, rfl⟩

/-- With room for all comments, the token ahead is one that is read somewhere behind them. -/
theorem read_fill (e : Expect) (s : State) (fuel : Nat) (c : Cursor) (extras : List Tree)
    (hfuel : c.rest.length < fuel) :
    (∃ e' width inFormat c', (s.fill e fuel c extras).ahead = Lexeme.next e' width inFormat c') ∧
      (s.fill e fuel c extras).ahead.front.rest.length ≤ c.rest.length := by
  induction fuel generalizing c extras with
  | zero => exact absurd hfuel (Nat.not_lt_zero _)
  | succ fuel ih =>
      unfold State.fill
      dsimp only
      have hread : ∃ e' width inFormat c', Lexeme.next e (s.widths.headD 0) s.inFormat c =
          Lexeme.next e' width inFormat c' := ⟨_, _, _, _, rfl⟩
      have hcomes := Lexeme.comes_next e (s.widths.headD 0) s.inFormat c
      generalize Lexeme.next e (s.widths.headD 0) s.inFormat c = l at hread hcomes
      have hle : l.front.rest.length ≤ c.rest.length := by
        obtain ⟨n, hfront⟩ := hcomes.front
        rw [hfront, Cursor.rest_advance, List.length_drop]
        exact Nat.sub_le _ _
      have hmore : ∀ k, l.token = .comment ∨ l.token = .joined →
          (∃ e' width inFormat c', (s.fill e fuel l.stop (.leaf k (.between l.start l.stop.pos) ::
            extras)).ahead = Lexeme.next e' width inFormat c') ∧
          (s.fill e fuel l.stop (.leaf k (.between l.start l.stop.pos) ::
            extras)).ahead.front.rest.length ≤ c.rest.length := by
        intro k ht
        have hshort := (hcomes.extra ht).2
        obtain ⟨hc, hrest⟩ := ih l.stop (.leaf k (.between l.start l.stop.pos) :: extras) (by omega)
        exact ⟨hc, hrest.trans (by omega)⟩
      split
      · exact hmore _ (Or.inl ‹_›)
      · exact hmore _ (Or.inr ‹_›)
      · exact ⟨hread, hle⟩

/-! ### How much a token takes -/

theorem Alike.comes {m : Nat} {s s' : State} (h : i.Alike m s s') : ∃ c, s.ahead.Comes c := by
  obtain ⟨e, width, inFormat, c, hread⟩ := h.read
  exact ⟨c, hread ▸ Lexeme.comes_next e width inFormat c⟩

/-- The opening marks of a literal are a character at least. -/
theorem at?_pos {cs : List Char} {q : Quote} {n : Nat} (h : Quote.at? cs = some (q, n)) :
    0 < n ∧ cs ≠ [] := by
  unfold Quote.at? at h
  generalize (⟨' ', false, false, false, false⟩ : Quote) = q₀ at h
  have hopen : ∀ {q₀ : Quote} {cs : List Char}, q₀.open? cs = some (q, n) → 0 < n := by
    intro q₀ cs h
    unfold Quote.open? at h
    repeat' split at h
    all_goals first
      | (cases h; done)
      | (cases h; decide)
  cases cs with
  | nil => exact absurd h (by simp [Quote.read?])
  | cons c cs =>
      refine ⟨?_, List.cons_ne_nil c cs⟩
      have hnext : ∀ {q' : Quote}, (Quote.read? q' cs).map (fun p => (p.1, p.2 + 1)) = some (q, n) →
          0 < n := by
        intro q' h
        obtain ⟨p, -, hp⟩ := Option.map_eq_some_iff.mp h
        cases hp
        exact Nat.succ_pos _
      unfold Quote.read? at h
      dsimp only at h
      repeat' split at h
      all_goals first
        | exact hnext h
        | exact hopen h

theorem read_ne_quote (cs : List Char) (q : Quote) : (Token.read cs).1 ≠ .quote q := by
  unfold Token.read
  repeat' split
  all_goals exact Token.noConfusion

theorem length_quote {e : Expect} {width : Nat} {inFormat : Bool} {c : Cursor} {q : Quote}
    (h : (Lexeme.next e width inFormat c).token = .quote q) :
    (Lexeme.next e width inFormat c).stop.rest.length <
      (Lexeme.next e width inFormat c).front.rest.length := by
  have hword : (Lexeme.word c).token ≠ .quote q := read_ne_quote _ q
  unfold Lexeme.next at h ⊢
  dsimp only at h ⊢
  split at h
  · rename_i t ht
    have hlayout := Lexeme.isLayout_of_mark ht
    obtain rfl : t = .quote q := h
    exact absurd hlayout Bool.false_ne_true
  · split at h
    · exact absurd h hword
    · split at h
      · rename_i q' size hquote
        obtain ⟨hpos, hrest⟩ := at?_pos hquote
        obtain ⟨passed, hcs, hsize⟩ := (scan_passes e.layout false c.rest {} hrest).size
        rw [if_neg ‹_›, Cursor.rest_advance, List.length_drop]
        refine Nat.sub_lt (List.length_pos_iff.mpr ?_) hpos
        have hdrop : c.rest.drop (Margin.scan e.layout false c.rest {}).size =
            (Margin.scan e.layout false c.rest {}).rest := by
          rw [hsize]
          generalize (Margin.scan e.layout false c.rest {}).rest = rest at hcs
          rw [hcs]
          simp
        rwa [Cursor.rest_advance, hdrop]
      · exact absurd h hword

section fill

variable {e : Expect} {s s' : State}

/-- Where neither a comment nor a joined line is next, reading on ends. -/
theorem fill_done {fuel : Nat} {c : Cursor} {extras : List Tree} (hfuel : 0 < fuel)
    (hcomment : (Lexeme.next e (s.widths.headD 0) s.inFormat c).token ≠ .comment)
    (hjoined : (Lexeme.next e (s.widths.headD 0) s.inFormat c).token ≠ .joined) :
    s.fill e fuel c extras =
      { s with ahead := Lexeme.next e (s.widths.headD 0) s.inFormat c, extras := extras.reverse } := by
  obtain ⟨fuel, rfl⟩ := Nat.exists_eq_succ_of_ne_zero (Nat.ne_of_gt hfuel)
  unfold State.fill
  dsimp only
  split
  · exact absurd ‹_› hcomment
  · exact absurd ‹_› hjoined
  · rfl

/-- A comment or a joined line is kept. -/
theorem fill_extra {k : Kind} {fuel : Nat} {c : Cursor} {extras : List Tree}
    (h : k = .comment ∧ (Lexeme.next e (s.widths.headD 0) s.inFormat c).token = .comment ∨
      k = .joined ∧ (Lexeme.next e (s.widths.headD 0) s.inFormat c).token = .joined) :
    s.fill e (fuel + 1) c extras =
      s.fill e fuel (Lexeme.next e (s.widths.headD 0) s.inFormat c).stop
        (.leaf k (.between (Lexeme.next e (s.widths.headD 0) s.inFormat c).start
          (Lexeme.next e (s.widths.headD 0) s.inFormat c).stop.pos) :: extras) := by
  rw [State.fill]
  rcases h with ⟨rfl, h⟩ | ⟨rfl, h⟩
  · simp only [h]
  · simp only [h]

/-- What is kept is shorter than what was to be read. -/
theorem length_stop_lt {width : Nat} {inFormat : Bool} {c : Cursor}
    (h : (Lexeme.next e width inFormat c).token = .comment ∨
      (Lexeme.next e width inFormat c).token = .joined) :
    (Lexeme.next e width inFormat c).stop.rest.length < c.rest.length := by
  have hcomes := Lexeme.comes_next e width inFormat c
  refine (hcomes.extra h).2.trans_le ?_
  obtain ⟨n, hfront⟩ := hcomes.front
  rw [hfront, Cursor.rest_advance, List.length_drop]
  exact Nat.sub_le _ _

/-- Is it a comment or a joined line? -/
theorem extra_or (t : Token) : (∃ k, isPlain k = true ∧
    (k = .comment ∧ t = .comment ∨ k = .joined ∧ t = .joined)) ∨ t ≠ .comment ∧ t ≠ .joined := by
  by_cases hcomment : t = .comment
  · exact Or.inl ⟨.comment, rfl, Or.inl ⟨rfl, hcomment⟩⟩
  · by_cases hjoined : t = .joined
    · exact Or.inl ⟨.joined, rfl, Or.inr ⟨rfl, hjoined⟩⟩
    · exact Or.inr ⟨hcomment, hjoined⟩

variable (hwidths : s'.widths = s.widths) (hformat : s'.inFormat = s.inFormat)

include hwidths hformat

theorem ahead_fill_late (fuel fuel' : Nat) (c c' : Cursor) (xs xs' : List Tree)
    (h : i.IsLate c c') (hpast : i.start < c.pos.byte) (hfuel : c.rest.length < fuel)
    (hfuel' : c'.rest.length < fuel') (hxs : i.AreMoved 0 xs.reverse xs'.reverse) :
    i.Ahead 0 (s.fill e fuel c xs) (s'.fill e fuel' c' xs') := by
  induction fuel generalizing fuel' c c' xs xs' with
  | zero => exact absurd hfuel (Nat.not_lt_zero _)
  | succ fuel ih =>
      obtain ⟨fuel', rfl⟩ := Nat.exists_eq_succ_of_ne_zero (Nat.ne_of_gt (Nat.zero_lt_of_lt hfuel'))
      have hnext := next_late e (s.widths.headD 0) s.inFormat h hpast
      rcases extra_or (Lexeme.next e (s.widths.headD 0) s.inFormat c).token with
        ⟨k, hk, hextra⟩ | ⟨hcomment, hjoined⟩
      · have hshort := length_stop_lt (hextra.imp And.right And.right)
        have hsame := congrArg List.length h.rest
        have hstop := congrArg List.length hnext.stop.rest
        rw [fill_extra hextra, fill_extra (by rw [hwidths, hformat, hnext.token]; exact hextra),
          hwidths, hformat]
        refine ih _ _ _ _ _ hnext.stop hnext.past (by omega) (by omega) ?_
        rw [List.reverse_cons, List.reverse_cons]
        exact hxs.concat (isMoved_leaf hk hnext.start (hnext.stop.moveStop hnext.past))
      · rw [fill_done (Nat.succ_pos _) hcomment hjoined,
          fill_done (Nat.succ_pos _) (by rw [hwidths, hformat, hnext.token]; exact hcomment)
            (by rw [hwidths, hformat, hnext.token]; exact hjoined), hwidths, hformat]
        exact .late hnext hxs fun hm => absurd hm (Nat.lt_irrefl 0)

/-- Behind the new comment the token comes that the reader of the source has found. -/
theorem ahead_fill_crossing {fuel fuel' : Nat} {c c' : Cursor} {xs xs' : List Tree}
    (h : i.Crossing e (s.widths.headD 0) s.inFormat (Lexeme.next e (s.widths.headD 0) s.inFormat c)
      (Lexeme.next e (s.widths.headD 0) s.inFormat c')) (hfuel : 0 < fuel) (hfuel' : 1 < fuel')
    (hxs : i.AreMoved 0 xs.reverse xs'.reverse) :
    i.Ahead 1 (s.fill e fuel c xs) (s'.fill e fuel' c' xs') := by
  obtain ⟨fuel', rfl⟩ : ∃ n, fuel' = n + 1 := ⟨fuel' - 1, by omega⟩
  obtain ⟨hcomment, hjoined, hend⟩ := h.written
  rw [fill_done hfuel hcomment hjoined,
    fill_extra (k := .comment) (Or.inl ⟨rfl, by rw [hwidths, hformat, h.comment]⟩), hwidths,
    hformat, fill_done (by omega) (by rw [hwidths, hformat, h.late.token]; exact hcomment)
      (by rw [hwidths, hformat, h.late.token]; exact hjoined), hwidths, hformat]
  have hcross := hxs.append (.leaf .nil)
  rw [List.append_nil] at hcross
  refine .late h.late ?_ fun _ => ⟨h.word, hend⟩
  rw [List.reverse_cons, h.start, h.stop]
  exact hcross

theorem ahead_fill_early (fuel fuel' : Nat) (rest : List Char) (c c' : Cursor) (xs xs' : List Tree)
    (hrest : Tokens rest) (h : i.IsEarly rest c c') (hfuel : c.rest.length < fuel)
    (hfuel' : c'.rest.length < fuel') (hxs : i.AreMoved 0 xs.reverse xs'.reverse) :
    i.Ahead 1 (s.fill e fuel c xs) (s'.fill e fuel' c' xs') := by
  induction fuel generalizing fuel' rest c c' xs xs' with
  | zero => exact absurd hfuel (Nat.not_lt_zero _)
  | succ fuel ih =>
      have hpos : 0 < c'.rest.length := by
        rw [h.rest', List.length_append]
        exact Nat.add_pos_left (List.length_pos_iff.mpr hrest.ne_nil) _
      rcases next_early e (s.widths.headD 0) s.inFormat hrest h with hnext | hcross
      · obtain ⟨fuel', rfl⟩ := Nat.exists_eq_succ_of_ne_zero (Nat.ne_of_gt (Nat.zero_lt_of_lt hfuel'))
        rcases extra_or (Lexeme.next e (s.widths.headD 0) s.inFormat c).token with
          ⟨k, hk, hextra⟩ | ⟨hcomment, hjoined⟩
        · have hextra' : k = .comment ∧
              (Lexeme.next e (s.widths.headD 0) s.inFormat c').token = .comment ∨ k = .joined ∧
                (Lexeme.next e (s.widths.headD 0) s.inFormat c').token = .joined := by
            rw [hnext.token]
            exact hextra
          have hshort := length_stop_lt (hextra.imp And.right And.right)
          have hshort' := length_stop_lt (hextra'.imp And.right And.right)
          obtain ⟨rest, htokens, hstop⟩ := hnext.stop (by
            rcases hextra with ⟨-, hextra⟩ | ⟨-, hextra⟩ <;> rw [hextra] <;> exact nofun)
          rw [fill_extra hextra, fill_extra (by rw [hwidths, hformat]; exact hextra'), hwidths, hformat]
          refine ih _ _ _ _ _ _ htokens hstop (by omega) (by omega) ?_
          rw [List.reverse_cons, List.reverse_cons]
          exact hxs.concat (isMoved_leaf hk hnext.start hstop.moveStop)
        · rw [fill_done (Nat.succ_pos _) hcomment hjoined,
            fill_done (Nat.succ_pos _) (by rw [hwidths, hformat, hnext.token]; exact hcomment)
              (by rw [hwidths, hformat, hnext.token]; exact hjoined), hwidths, hformat]
          exact .early hnext hxs
      · exact ahead_fill_crossing hwidths hformat hcross (Nat.succ_pos _) (by omega) hxs

end fill

/-- What the readers know besides the tokens: all but what is ahead. -/
structure Abreast (i : CommentPlace) (s s' : State) : Prop where
  last : s'.last = i.moveStop s.last
  widths : s'.widths = s.widths
  inFormat : s'.inFormat = s.inFormat
  size : s.size = i.source.length
  size' : s'.size = i.outcome.length

section resume

variable {m : Nat} {e : Expect} {s s' : State} {c c' : Cursor}

theorem Abreast.alike_resume (h : i.Abreast s s') (hlength : c.rest.length ≤ i.source.length)
    (hahead : i.Ahead m (s.resume e c) (s'.resume e c')) :
    i.Alike m (s.resume e c) (s'.resume e c') ∧
      (s.resume e c).ahead.front.rest.length ≤ c.rest.length := by
  have hfill := read_fill e s (s.size + 1) c [] (Nat.lt_succ_of_le (h.size ▸ hlength))
  obtain ⟨l, xs, hl⟩ := fill_eq e s (s.size + 1) c []
  obtain ⟨l', xs', hl'⟩ := fill_eq e s' (s'.size + 1) c' []
  unfold State.resume at hahead ⊢
  rw [hl] at hahead hfill ⊢
  rw [hl'] at hahead ⊢
  exact ⟨⟨hahead, h.last, h.widths, h.inFormat, hfill.1, h.size, h.size'⟩, hfill.2⟩

/-- Reading on above the new line. -/
theorem Abreast.resume_early (h : i.Abreast s s') (e : Expect) {rest : List Char} (hrest : Tokens rest)
    (hc : i.IsEarly rest c c') : i.Alike 1 (s.resume e c) (s'.resume e c') ∧
      (s.resume e c).ahead.front.rest.length ≤ c.rest.length :=
  h.alike_resume hc.length_le.1 (ahead_fill_early h.widths h.inFormat _ _ _ _ _ _ _ hrest hc
    (Nat.lt_succ_of_le (h.size ▸ hc.length_le.1)) (Nat.lt_succ_of_le (h.size' ▸ hc.length_le.2)) .nil)

/-- Reading on below the new line. -/
theorem Abreast.resume_late (h : i.Abreast s s') (e : Expect) (hc : i.IsLate c c')
    (hpast : i.start < c.pos.byte) : i.Alike 0 (s.resume e c) (s'.resume e c') ∧
      (s.resume e c).ahead.front.rest.length ≤ c.rest.length :=
  h.alike_resume hc.length_le.1 (ahead_fill_late h.widths h.inFormat _ _ _ _ _ _ hc hpast
    (Nat.lt_succ_of_le (h.size ▸ hc.length_le.1)) (Nat.lt_succ_of_le (h.size' ▸ hc.length_le.2)) .nil)

/-- Before the first token of their texts the readers stand alike. -/
theorem alike_start {text text' : String} (h : text.toList = i.source) (h' : text'.toList = i.outcome) :
    i.Alike 1 (State.start text) (State.start text') := by
  have hc : i.IsEarly i.before (Cursor.ofString text) (Cursor.ofString text') :=
    ⟨[], rfl, congrArg (Cursor.mk · {}) h, congrArg (Cursor.mk · {}) (h'.trans (List.append_assoc _ _ _))⟩
  have hlevel : i.Abreast
      { ahead := ⟨.unknown, Cursor.ofString text, Cursor.ofString text⟩, size := text.toList.length }
      { ahead := ⟨.unknown, Cursor.ofString text', Cursor.ofString text'⟩
        size := text'.toList.length } :=
    ⟨(if_pos (Nat.zero_le _)).symm, rfl, rfl, congrArg List.length h, congrArg List.length h'⟩
  rcases i.above with hnil | htokens
  · rw [hnil] at hc
    have hfuel : 1 < text'.toList.length + 1 := by
      rw [h', outcome, line]
      simp only [List.length_append, List.length_cons, List.length_nil]
      omega
    have hnone : i.AreMoved 0 [].reverse [].reverse := .nil
    refine (hlevel.alike_resume hc.length_le.1 ?_).1
    unfold State.resume
    exact ahead_fill_crossing hlevel.widths hlevel.inFormat (next_start false hc) (Nat.succ_pos _)
      hfuel hnone
  · exact (hlevel.resume_early .statement htokens hc).1

end resume

end CommentPlace

end Plumbline.Syntax
