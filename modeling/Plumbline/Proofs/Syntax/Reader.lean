/-
What readers keep.

Between two tokens the state of a reader fits the text: the token ahead stands in it, and from the
end of the last token one comes there over nothing but blanks, comments and joined lines.  A reader
that `Keeps` this goes forward, and what it answers is as promised.  A reader that `Reads` takes at
least one token, and its tree lies from the first of its tokens to the last; one that `Continues` a
tree goes on from the end of that.  Each way of putting readers together keeps what its parts do.
-/
import Plumbline.Proofs.Syntax.Line
import Plumbline.Proofs.Syntax.Splat

namespace Plumbline.Syntax

/-- A comment or a joined line of the text. -/
def IsExtra (text : List Char) (t : Tree) : Prop :=
  ∃ k s, (k = .comment ∨ k = .joined) ∧ IsStretch text s ∧ t = .leaf k s

section IsExtra

variable {text : List Char} {t : Tree}

theorem IsExtra.field (h : IsExtra text t) : t.field = none := by
  obtain ⟨k, s, -, -, rfl⟩ := h
  rfl

theorem IsExtra.field_ne (h : IsExtra text t) (f : Field) : t.field ≠ some f := by
  rw [h.field]
  exact nofun

theorem IsExtra.isBare (h : IsExtra text t) : t.kind.isBare = false := by
  obtain ⟨k, s, rfl | rfl, -, rfl⟩ := h
  · rfl
  · rfl

theorem IsExtra.sound (h : IsExtra text t) : t.Sound text := by
  obtain ⟨k, s, rfl | rfl, hs, rfl⟩ := h
  · exact Tree.sound_leaf rfl hs
  · exact Tree.sound_leaf rfl hs

/-- It is nothing in parentheses. -/
theorem IsExtra.earliest (h : IsExtra text t) : t.earliest = t.span.start := by
  obtain ⟨k, s, rfl | rfl, -, rfl⟩ := h
  · rfl
  · rfl

end IsExtra

/-- All of the trees are comments and joined lines of the text. -/
def AllExtra (text : List Char) (cs : List Tree) : Prop := ∀ t ∈ cs, IsExtra text t

theorem AllExtra.sound {text : List Char} {cs : List Tree} (h : AllExtra text cs) :
    AllSound text cs :=
  fun t ht => (h t ht).sound

/-- Sound trees of kinds that can play their parts in a construct of kind `k`. -/
def AllGiven (text : List Char) (k : Kind) (cs : List Tree) : Prop :=
  ∀ c ∈ cs, c.Sound text ∧ c.IsGiven k

section AllGiven

variable {text : List Char} {k : Kind} {f : Field} {t : Tree} {cs ds : List Tree}

@[simp] theorem allGiven_append :
    AllGiven text k (cs ++ ds) ↔ AllGiven text k cs ∧ AllGiven text k ds :=
  List.forall_mem_append

theorem AllGiven.sound (h : AllGiven text k cs) : AllSound text cs := fun c hc => (h c hc).1

theorem AllGiven.roles (h : AllGiven text k cs) : ∀ c ∈ cs, c.IsGiven k := fun c hc => (h c hc).2

theorem allGiven_nil : AllGiven text k [] := fun _ h => absurd h List.not_mem_nil

theorem allGiven_withField (ht : t.Sound text) (hk : k.gives f t.kind = true) :
    AllGiven text k [t.withField f] := by
  intro c hc
  obtain rfl := List.mem_singleton.mp hc
  exact ⟨ht.withField f, Tree.isGiven_withField hk⟩

theorem IsExtra.given (h : IsExtra text t) : t.Sound text ∧ t.IsGiven k :=
  ⟨h.sound, Tree.isGiven_of_field h.field⟩

theorem AllExtra.given (h : AllExtra text cs) : AllGiven text k cs := fun t ht => (h t ht).given

end AllGiven

/-- What comes first in a role is found in that role. -/
theorem find?_field {front : List Tree} {f : Field} (h : ∀ c ∈ front, c.field ≠ some f) (t : Tree)
    (rest : List Tree) :
    (front ++ t.withField f :: rest).find? (fun c => c.field == some f) = some (t.withField f) := by
  rw [List.find?_append, List.find?_eq_none.mpr fun c hc => by simpa using h c hc, Option.none_or,
    List.find?_cons_of_pos (by simp)]

/-- The trees lie one after the other between two bytes. -/
def AreLaid (lo : Nat) : List Tree → Nat → Prop
  | [], hi => lo ≤ hi
  | t :: ts, hi => lo ≤ t.span.start ∧ t.span.start ≤ t.span.stop ∧ AreLaid t.span.stop ts hi

section AreLaid

variable {lo lo' hi hi' : Nat} {cs ds : List Tree}

theorem AreLaid.le (h : AreLaid lo cs hi) : lo ≤ hi := by
  induction cs generalizing lo with
  | nil => exact h
  | cons t ts ih =>
      obtain ⟨hstart, hstop, hrest⟩ := h
      exact Nat.le_trans hstart (Nat.le_trans hstop (ih hrest))

theorem areLaid_append :
    AreLaid lo (cs ++ ds) hi ↔ ∃ mid, AreLaid lo cs mid ∧ AreLaid mid ds hi := by
  induction cs generalizing lo with
  | nil =>
      refine ⟨fun h => ⟨lo, Nat.le_refl lo, h⟩, ?_⟩
      rintro ⟨mid, hle, h⟩
      cases ds with
      | nil => exact Nat.le_trans hle h
      | cons t ts => exact ⟨Nat.le_trans hle h.1, h.2⟩
  | cons t ts ih =>
      constructor
      · rintro ⟨hstart, hstop, hrest⟩
        obtain ⟨mid, hts, hds⟩ := ih.mp hrest
        exact ⟨mid, ⟨hstart, hstop, hts⟩, hds⟩
      · rintro ⟨mid, ⟨hstart, hstop, hts⟩, hds⟩
        exact ⟨hstart, hstop, ih.mpr ⟨mid, hts, hds⟩⟩

theorem AreLaid.append {mid : Nat} (h : AreLaid lo cs mid) (h' : AreLaid mid ds hi) :
    AreLaid lo (cs ++ ds) hi := areLaid_append.mpr ⟨mid, h, h'⟩

theorem AreLaid.mono_right (h : AreLaid lo cs hi) (hle : hi ≤ hi') : AreLaid lo cs hi' := by
  have hnil : AreLaid hi [] hi' := hle
  have := h.append hnil
  rwa [List.append_nil] at this

theorem AreLaid.stop_le (h : AreLaid lo cs hi) {t : Tree} (ht : t ∈ cs) : t.span.stop ≤ hi := by
  obtain ⟨before, after, rfl⟩ := List.append_of_mem ht
  obtain ⟨mid, -, -, -, hafter⟩ := areLaid_append.mp h
  exact hafter.le

theorem AreLaid.start_le_stop (h : AreLaid lo cs hi) {t : Tree} (ht : t ∈ cs) :
    t.span.start ≤ t.span.stop := by
  obtain ⟨before, after, rfl⟩ := List.append_of_mem ht
  obtain ⟨mid, -, -, hle, -⟩ := areLaid_append.mp h
  exact hle

theorem AreLaid.le_start (h : AreLaid lo cs hi) {t : Tree} (ht : t ∈ cs) : lo ≤ t.span.start := by
  obtain ⟨before, after, rfl⟩ := List.append_of_mem ht
  obtain ⟨mid, hbefore, hstart, -⟩ := areLaid_append.mp h
  exact hbefore.le.trans hstart

theorem AreLaid.pairwise (h : AreLaid lo cs hi) :
    cs.Pairwise fun t d => t.span.stop ≤ d.span.start := by
  induction cs generalizing lo with
  | nil => exact .nil
  | cons t ts ih =>
      obtain ⟨-, -, hrest⟩ := h
      exact .cons (fun d hd => hrest.le_start hd) (ih hrest)

end AreLaid

/-- The tree goes forward from byte `lo` on and ends at byte `hi` or before, and what stands in its
parentheses does not start before byte `lo` either. -/
structure IsItem (lo hi : Nat) (t : Tree) : Prop where
  earliest : lo ≤ t.earliest
  forward : t.span.start ≤ t.span.stop
  stop : t.span.stop ≤ hi

/-- All of the trees lie so. -/
def AreItems (lo hi : Nat) (cs : List Tree) : Prop := ∀ t ∈ cs, IsItem lo hi t

section AreItems

variable {lo lo' hi hi' : Nat} {cs ds : List Tree}

theorem AreItems.append (h : AreItems lo hi cs) (h' : AreItems lo hi ds) :
    AreItems lo hi (cs ++ ds) :=
  List.forall_mem_append.mpr ⟨h, h'⟩

theorem IsItem.mono {t : Tree} (h : IsItem lo hi t) (hlo : lo' ≤ lo) (hhi : hi ≤ hi') :
    IsItem lo' hi' t :=
  ⟨hlo.trans h.earliest, h.forward, h.stop.trans hhi⟩

theorem AreItems.mono (h : AreItems lo hi cs) (hlo : lo' ≤ lo) (hhi : hi ≤ hi') :
    AreItems lo' hi' cs :=
  fun t ht => (h t ht).mono hlo hhi

end AreItems

/-- The text between two places that readers came to. -/
theorem text_between {w rest : List Char} {c c' : Cursor} (h : c.IsIn text) (h' : c'.IsIn text)
    (hrest : c.rest = w ++ rest) (hrest' : c'.rest = rest) {span : Span}
    (hstart : span.start = c.pos.byte) (hstop : span.stop = c'.pos.byte) :
    span.text text = String.ofList w := by
  have hbyte := h.byte_eq h' (by rw [hrest, hrest'])
  obtain ⟨before, htext, hbefore⟩ := h
  rw [Span.text, hstart, hstop, hbyte, hbefore, ← byteSize_append, htext, hrest,
    ← List.append_assoc, sliceBytes_append]

namespace State

/-- The state is one between two tokens of the text. -/
structure Fits (text : List Char) (s : State) : Prop where
  front : s.ahead.front.IsIn text
  stop : ∃ n, s.ahead.stop = s.ahead.front.advance n
  /-- Between the last token and the one ahead lies nothing that counts. -/
  after : ∃ c : Cursor, c.IsIn text ∧ c.pos = s.last ∧ Skips c.rest s.ahead.front.rest
  /-- A word ahead is spelled as it is read. -/
  spelled : ∀ word, s.token.isMark word = true →
    s.ahead.front.rest = word.toList ++ s.ahead.stop.rest
  extras : AllExtra text s.extras
  size : s.size = text.length
  /-- The token ahead is what is read next, in the gap behind the last one. -/
  read : ∃ e width inFormat c, c.IsIn text ∧ s.last.byte ≤ c.pos.byte ∧
    s.ahead = Lexeme.next e width inFormat c
  /-- The comments and joined lines lie in that gap, one after the other. -/
  laid : AreLaid s.last.byte s.extras s.ahead.start.byte
  /-- A comment goes on to the end of its line, or to a NUL, which is no token. -/
  comments : ∀ t ∈ s.extras, t.kind = .comment → LineEndsAt text t.span.stop ∨ s.token = .unknown

variable {text : List Char} {s s' s'' : State}

theorem Fits.stop_isIn (h : s.Fits text) : s.ahead.stop.IsIn text := by
  obtain ⟨n, hstop⟩ := h.stop
  exact hstop ▸ h.front.advance n

theorem Fits.start_le_stop (h : s.Fits text) : s.ahead.start.byte ≤ s.ahead.stop.pos.byte := by
  obtain ⟨n, hstop⟩ := h.stop
  exact hstop ▸ Cursor.byte_le_advance n s.ahead.front

theorem Fits.start_lt_stop (h : s.Fits text) {word : String} (hword : s.token.isMark word = true)
    (hne : word.toList ≠ []) : s.ahead.start.byte < s.ahead.stop.pos.byte := by
  rw [h.front.byte_eq h.stop_isIn (h.spelled word hword)]
  exact Nat.lt_add_of_pos_right (byteSize_pos hne)

/-- The text of a word ahead. -/
theorem Fits.text_of_name (h : s.Fits text) {word : String} (hword : s.token = .name word) :
    (Span.between s.ahead.start s.ahead.stop.pos).text text = word := by
  have hspelled := h.spelled word (by simp [hword, Token.isMark])
  exact (text_between h.front h.stop_isIn hspelled rfl rfl rfl).trans (String.ofList_toList)

/-- What is written ahead starts with a character that counts. -/
theorem Fits.startsWord (h : s.Fits text) (hwritten : s.token.isWritten = true) :
    StartsWord s.ahead.front.rest := by
  obtain ⟨e, width, inFormat, c, -, -, hnext⟩ := h.read
  rw [State.token, hnext] at hwritten
  rw [hnext]
  exact Lexeme.startsWord_of_isWritten hwritten

theorem Fits.last_le_start (h : s.Fits text) : s.last.byte ≤ s.ahead.start.byte := by
  obtain ⟨c, hc, hpos, hskips⟩ := h.after
  exact hpos ▸ hskips.byte_le hc h.front

/-- What waits before a token ends before the token does. -/
theorem Fits.areItems_extras (h : s.Fits text) {hi : Nat} (hle : s.ahead.start.byte ≤ hi) :
    AreItems s.last.byte hi s.extras := by
  intro t ht
  refine ⟨?_, h.laid.start_le_stop ht, (h.laid.stop_le ht).trans hle⟩
  rw [(h.extras t ht).earliest]
  exact h.laid.le_start ht

/-- The last token ends where the text can be cut. -/
theorem Fits.isPlace_last (h : s.Fits text) : IsPlace text s.last.byte := by
  obtain ⟨c, hc, hpos, -⟩ := h.after
  exact hpos ▸ isPlace_of_isIn hc

theorem Fits.endsWithin (h : s.Fits text) {hi : Nat} (hle : s.last.byte ≤ hi) :
    EndsWithin text s.last.byte hi :=
  ⟨hle, h.isPlace_last⟩

/-- A colon ahead is read by itself. -/
theorem Fits.endsHead (h : s.Fits text) (hcolon : s.token.isMark ":" = true) :
    EndsHead text s.last.byte := by
  obtain ⟨c, ⟨before, htext, hbyte⟩, hpos, hskips⟩ := h.after
  have hfront : s.ahead.front.rest = ':' :: s.ahead.stop.rest := h.spelled ":" hcolon
  refine ⟨before, c.rest, s.ahead.stop.rest, htext, by rw [← hbyte, hpos], hfront ▸ hskips,
    fun hassign => ?_⟩
  obtain ⟨after, hafter⟩ := List.head?_eq_some_iff.mp hassign
  obtain ⟨e, width, inFormat, c, -, -, hnext⟩ := h.read
  rw [hafter, hnext] at hfront
  obtain ⟨htoken, -⟩ := Lexeme.token_of_counts ⟨by decide, by decide, by decide, by decide⟩
    (by simp [Quote.at?, Quote.read?, Quote.open?]) hfront
  rw [State.token, hnext, htoken, Token.read_assign] at hcolon
  exact absurd hcolon (by decide)

/-- A colon ahead that no assignment goes on with is read as a colon. -/
theorem Fits.token_of_colon (h : s.Fits text) {after : List Char}
    (hfront : s.ahead.front.rest = ':' :: after) (hafter : after.head? ≠ some '=') :
    s.token = .op ":" := by
  obtain ⟨e, width, inFormat, c, -, -, hnext⟩ := h.read
  rw [hnext] at hfront
  obtain ⟨htoken, -⟩ := Lexeme.token_of_counts ⟨by decide, by decide, by decide, by decide⟩
    (by simp [Quote.at?, Quote.read?, Quote.open?]) hfront
  rw [State.token, hnext, htoken, Token.read_colon hafter]

/-- A colon with a blank behind it is read as a colon. -/
theorem Fits.isMark_of_colon (h : s.Fits text) (hat : StandsAt text s.last.byte [':', ' ']) :
    s.token.isMark ":" = true := by
  obtain ⟨before, after, htext, hbyte⟩ := hat
  obtain ⟨c', ⟨before', htext', hbyte'⟩, hpos, hskips⟩ := h.after
  have hrest : c'.rest = ':' :: ' ' :: after := by
    refine (append_inj_of_byteSize (htext'.symm.trans htext) ?_).2
    rw [← hbyte', hpos, hbyte]
  rw [hrest] at hskips
  have hfront := hskips.eq_of_counts (by decide) (by decide)
  rw [h.token_of_colon hfront (by simp)]
  rfl

/-- How far readers got before does not matter. -/
theorem Fits.withReach (h : s.Fits text) (reach : Position) : Fits text { s with reach } :=
  ⟨h.front, h.stop, h.after, h.spelled, h.extras, h.size, h.read, h.laid, h.comments⟩

@[simp] theorem last_fill (e : Expect) (s : State) (fuel : Nat) (c : Cursor) (extras : List Tree) :
    (s.fill e fuel c extras).last = s.last := by
  induction fuel generalizing c extras with
  | zero => rfl
  | succ fuel ih =>
      unfold fill
      dsimp only
      split
      · exact ih _ _
      · exact ih _ _
      · rfl

@[simp] theorem last_resume (e : Expect) (c : Cursor) (s : State) : (s.resume e c).last = s.last :=
  last_fill e s _ c []

/-- Comments and joined lines are found one after the other. -/
theorem laid_fill {e : Expect} {lo : Nat} (fuel : Nat) (c : Cursor) (extras : List Tree)
    (hfuel : c.rest.length < fuel) (hextras : AreLaid lo extras.reverse c.pos.byte) :
    AreLaid lo (s.fill e fuel c extras).extras (s.fill e fuel c extras).ahead.start.byte := by
  induction fuel generalizing c extras with
  | zero => exact absurd hfuel (Nat.not_lt_zero _)
  | succ fuel ih =>
      unfold fill
      dsimp only
      have hcomes := Lexeme.comes_next e (s.widths.headD 0) s.inFormat c
      generalize Lexeme.next e (s.widths.headD 0) s.inFormat c = l at hcomes
      obtain ⟨n, hfront⟩ := hcomes.front
      obtain ⟨n', hstop⟩ := hcomes.stop
      have hstart : c.pos.byte ≤ l.start.byte := by
        show c.pos.byte ≤ l.front.pos.byte
        rw [hfront]
        exact Cursor.byte_le_advance n c
      have hsize : l.start.byte ≤ l.stop.pos.byte := by
        rw [hstop]
        exact Cursor.byte_le_advance n' l.front
      have hmore : ∀ k, l.token = .comment ∨ l.token = .joined →
          AreLaid lo (s.fill e fuel l.stop (.leaf k (.between l.start l.stop.pos) :: extras)).extras
            (s.fill e fuel l.stop
              (.leaf k (.between l.start l.stop.pos) :: extras)).ahead.start.byte := by
        intro k htoken
        obtain ⟨-, hshorter⟩ := hcomes.extra htoken
        have hlength : l.front.rest.length ≤ c.rest.length := by
          rw [hfront, Cursor.rest_advance, List.length_drop]
          exact Nat.sub_le _ _
        refine ih _ _ (by omega) ?_
        rw [List.reverse_cons]
        exact hextras.append ⟨hstart, hsize, Nat.le_refl _⟩
      split
      · rename_i htoken
        exact hmore _ (Or.inl htoken)
      · rename_i htoken
        exact hmore _ (Or.inr htoken)
      · exact hextras.mono_right hstart

theorem laid_resume {e : Expect} {c : Cursor} (hlength : c.rest.length ≤ s.size) :
    AreLaid c.pos.byte (s.resume e c).extras (s.resume e c).ahead.start.byte :=
  laid_fill _ _ _ (Nat.lt_succ_of_le hlength) (Nat.le_refl _)

/-- Every comment and joined line takes a character, so the token after them is found. -/
theorem fits_fill {e : Expect} {c₀ : Cursor} (hc₀ : c₀.IsIn text) (hlast : c₀.pos = s.last)
    (hsize : s.size = text.length) (fuel : Nat) (c : Cursor) (extras : List Tree)
    (hfuel : c.rest.length < fuel) (hc : c.IsIn text) (hskips : Skips c₀.rest c.rest)
    (hextras : AllExtra text extras) (hlaid : AreLaid s.last.byte extras.reverse c.pos.byte)
    (hcomments : ∀ t ∈ extras, t.kind = .comment →
      LineEndsAt text t.span.stop ∨ c.rest.head? = some nul) : (s.fill e fuel c extras).Fits text := by
  induction fuel generalizing c extras with
  | zero => exact absurd hfuel (Nat.not_lt_zero _)
  | succ fuel ih =>
      unfold fill
      dsimp only
      have hcomes := Lexeme.comes_next e (s.widths.headD 0) s.inFormat c
      have hends := @Lexeme.comment_ends e (s.widths.headD 0) s.inFormat c
      have hnul := @Lexeme.token_of_nul e (s.widths.headD 0) s.inFormat c
      have hread : ∃ e' width inFormat c', c'.IsIn text ∧ s.last.byte ≤ c'.pos.byte ∧
          Lexeme.next e (s.widths.headD 0) s.inFormat c = Lexeme.next e' width inFormat c' :=
        ⟨_, _, _, c, hc, hlaid.le, rfl⟩
      generalize Lexeme.next e (s.widths.headD 0) s.inFormat c = l at hcomes hends hnul hread
      obtain ⟨n, hfront⟩ := hcomes.front
      obtain ⟨n', hstop⟩ := hcomes.stop
      have hfrontIn : l.front.IsIn text := hfront ▸ hc.advance n
      have hstopIn : l.stop.IsIn text := hstop ▸ hfrontIn.advance n'
      have hlength : l.front.rest.length ≤ c.rest.length := by
        rw [hfront, Cursor.rest_advance, List.length_drop]
        exact Nat.sub_le _ _
      have hstart : c.pos.byte ≤ l.start.byte := by
        show c.pos.byte ≤ l.front.pos.byte
        rw [hfront]
        exact Cursor.byte_le_advance n c
      have hforward : l.start.byte ≤ l.stop.pos.byte := by
        rw [hstop]
        exact Cursor.byte_le_advance n' l.front
      -- the state goes on after a comment or a joined line as it went on to it
      have hmore : ∀ k, (k = .comment ∧ l.token = .comment) ∨ (k = .joined ∧ l.token = .joined) →
          (s.fill e fuel l.stop (.leaf k (.between l.start l.stop.pos) :: extras)).Fits text := by
        intro k hk
        have htoken : l.token = .comment ∨ l.token = .joined := hk.imp And.right And.right
        obtain ⟨hpassed, hshorter⟩ := hcomes.extra htoken
        refine ih _ _ (by omega) hstopIn ((hskips.trans hcomes.skips).trans hpassed) ?_ ?_ ?_
        · exact List.forall_mem_cons.mpr ⟨⟨k, _, hk.imp And.left And.left,
            ⟨isPlace_of_isIn hfrontIn, isPlace_of_isIn hstopIn⟩, rfl⟩, hextras⟩
        · rw [List.reverse_cons]
          exact hlaid.append ⟨hstart, hforward, Nat.le_refl _⟩
        · refine List.forall_mem_cons.mpr ⟨fun hkind => ?_, fun t ht hkind => Or.inl ?_⟩
          · obtain rfl : k = .comment := hkind
            have hcomment : l.token = .comment := (hk.resolve_right (by simp)).2
            rcases hends hcomment with hrest | hrest | hrest
            · exact Or.inl ⟨l.stop, hstopIn, rfl, Or.inl hrest⟩
            · exact Or.inl ⟨l.stop, hstopIn, rfl, Or.inr hrest⟩
            · exact Or.inr hrest
          · refine (hcomments t ht hkind).resolve_right fun h => ?_
            rcases htoken with htoken | htoken <;> simp [hnul h] at htoken
      split
      · rename_i htoken
        exact hmore _ (Or.inl ⟨rfl, htoken⟩)
      · rename_i htoken
        exact hmore _ (Or.inr ⟨rfl, htoken⟩)
      · exact ⟨hfrontIn, ⟨n', hstop⟩, ⟨c₀, hc₀, hlast, hskips.trans hcomes.skips⟩, hcomes.spelled,
          fun t ht => hextras t (List.mem_reverse.mp ht), hsize, hread, hlaid.mono_right hstart,
          fun t ht hkind => (hcomments t (List.mem_reverse.mp ht) hkind).imp_right hnul⟩

theorem fits_resume (e : Expect) {c₀ c : Cursor} (hc₀ : c₀.IsIn text) (hlast : c₀.pos = s.last)
    (hskips : Skips c₀.rest c.rest) (hc : c.IsIn text) (hsize : s.size = text.length) :
    (s.resume e c).Fits text :=
  fits_fill hc₀ hlast hsize _ _ _ (hsize ▸ Nat.lt_succ_of_le hc.length_le) hc hskips
    (fun _ h => absurd h List.not_mem_nil) (hlast ▸ hskips.byte_le hc₀ hc)
    fun _ h => absurd h List.not_mem_nil

theorem fits_start (source : String) : (start source).Fits source.toList :=
  fits_resume _ (Cursor.isIn_ofString source) rfl (.done _) (Cursor.isIn_ofString source) rfl

/-- From the token ahead to the last token that was taken, the text can be cut at both ends. -/
theorem Fits.isStretch (h : s.Fits text) (h' : s'.Fits text) :
    IsStretch text (.between s.ahead.start s'.last) :=
  ⟨isPlace_of_isIn h.front, h'.isPlace_last⟩

/-- From one state of a text the reader came to another one, which is not before it. -/
structure Leads (text : List Char) (s s' : State) : Prop where
  fits : s'.Fits text
  forward : s.last.byte ≤ s'.last.byte

theorem Fits.leads (h : s.Fits text) : Leads text s s := ⟨h, Nat.le_refl _⟩

theorem Leads.trans (h : Leads text s s') (h' : Leads text s' s'') : Leads text s s'' :=
  ⟨h'.fits, Nat.le_trans h.forward h'.forward⟩

theorem Leads.of_last_eq (h : Leads text s' s'') (hlast : s'.last = s.last) : Leads text s s'' :=
  ⟨h.fits, hlast ▸ h.forward⟩

end State

/-- Sound parts of a construct of such a kind. -/
def AreParts (text : List Char) (kinds : Kind → Bool) (x : Kind × List Tree) : Prop :=
  kinds x.1 = true ∧ AllSound text x.2

/-- The tree lies from a place in the text up to the last token. -/
structure Tree.Ends (text : List Char) (t : Tree) (s : State) : Prop where
  start : ∃ c : Cursor, c.IsIn text ∧ c.pos.byte = t.span.start ∧ t.span.start ≤ s.last.byte
  stop : t.span.stop = s.last.byte

theorem Tree.Ends.forward {text : List Char} {t : Tree} {s : State} (h : t.Ends text s) :
    t.span.start ≤ t.span.stop := by
  obtain ⟨c, -, -, hle⟩ := h.start
  rw [h.stop]
  exact hle

namespace Parser

variable {text : List Char} {α β : Type} {P : α → Prop} {Q : β → Prop} {p q : Parser α}
  {f : α → Parser β}

theorem bind_eq_done {s s'' : State} {b : β} (h : (p >>= f) s = .done b s'') :
    ∃ a s', p s = .done a s' ∧ f a s' = .done b s'' := by
  cases hp : p s with
  | done a s' =>
      have hnext : (p >>= f) s = f a s' := by simp only [Bind.bind, hp]
      exact ⟨a, s', rfl, hnext.symm.trans h⟩
  | failed r =>
      have hfail : (p >>= f) s = .failed r := by simp only [Bind.bind, hp]
      exact absurd (hfail.symm.trans h) (by simp)

theorem pure_eq_done {s s' : State} {a b : α} (h : (pure a : Parser α) s = .done b s') :
    a = b ∧ s = s' := by
  simpa [pure] using h

theorem build_eq_done {parts : Parser (Kind × List Tree)} {s s' : State} {t : Tree}
    (h : build parts s = .done t s') : ∃ k cs, parts s = .done (k, cs) s' ∧
      t = .node k none (.between s.ahead.start s'.last) cs := by
  unfold build at h
  split at h
  · rename_i k cs s'' hdone
    cases h
    exact ⟨k, cs, hdone, rfl⟩
  · exact absurd h (by simp)

theorem buildFrom_eq_done {head : Span} {parts : Parser (Kind × List Tree)} {s s' : State}
    {t : Tree} (h : buildFrom head parts s = .done t s') : ∃ k cs, parts s = .done (k, cs) s' ∧
      t = .node k none ⟨head.start, s'.last.byte, head.line, head.column⟩ cs := by
  unfold buildFrom at h
  split at h
  · rename_i k cs s'' hdone
    cases h
    exact ⟨k, cs, hdone, rfl⟩
  · exact absurd h (by simp)

theorem ite_eq_done {c : Prop} [Decidable c] {s s' : State} {a : α}
    (h : (if c then p else q) s = .done a s') :
    (c ∧ p s = .done a s') ∨ (¬c ∧ q s = .done a s') := by
  split at h
  · exact Or.inl ⟨‹c›, h⟩
  · exact Or.inr ⟨‹¬c›, h⟩

theorem orElse_eq_done {s s' : State} {a : α} (h : orElse p q s = .done a s') :
    p s = .done a s' ∨ ∃ reach, q { s with reach } = .done a s' := by
  unfold orElse at h
  split at h
  · rename_i hdone
    cases h
    exact Or.inl hdone
  · exact Or.inr ⟨_, h⟩

theorem peekSecond_eq_done {e : Expect} {s s' : State} {t : Token}
    (h : peekSecond e s = .done t s') : s' = s := by
  unfold peekSecond at h
  split at h <;> cases h <;> rfl

theorem mark_eq_done {word : String} {e : Expect} {s s' : State} {cs : List Tree}
    (h : mark word e s = .done cs s') :
    s.token.isMark word = true ∧ cs = s.extras ∧ s'.last = s.ahead.stop.pos := by
  obtain ⟨_, _, hpeek, h⟩ := bind_eq_done h
  cases hpeek
  split at h
  · rename_i hmark
    obtain ⟨_, _, hextras, h⟩ := bind_eq_done h
    cases hextras
    obtain ⟨_, _, hshift, h⟩ := bind_eq_done h
    cases hshift
    obtain ⟨rfl, rfl⟩ := pure_eq_done h
    exact ⟨hmark, rfl, State.last_resume _ _ _⟩
  · exact absurd h (by simp [fail])

/-- What takes a mark takes the token ahead. -/
theorem mark_eq_shift {word : String} {e : Expect} {s s' : State} {cs : List Tree}
    (h : mark word e s = .done cs s') :
    s.token.isMark word = true ∧ shift e s = .done () s' := by
  obtain ⟨_, _, hpeek, h⟩ := bind_eq_done h
  cases hpeek
  split at h
  · rename_i hmark
    obtain ⟨_, _, hextras, h⟩ := bind_eq_done h
    cases hextras
    obtain ⟨_, _, hshift, h⟩ := bind_eq_done h
    obtain ⟨-, rfl⟩ := pure_eq_done h
    exact ⟨hmark, hshift⟩
  · exact absurd h (by simp [fail])

theorem mark?_eq_done {word : String} {e : Expect} {s s' : State} {o : Option (List Tree)}
    (h : mark? word e s = .done o s') :
    (s.token.isMark word = false ∧ o = none ∧ s' = s) ∨
      ∃ cs, o = some cs ∧ mark word e s = .done cs s' := by
  obtain ⟨_, _, hpeek, h⟩ := bind_eq_done h
  cases hpeek
  split at h
  · obtain ⟨cs, _, hmark, h⟩ := bind_eq_done h
    obtain ⟨rfl, rfl⟩ := pure_eq_done h
    exact Or.inr ⟨cs, rfl, hmark⟩
  · rename_i hmark
    obtain ⟨rfl, rfl⟩ := pure_eq_done h
    exact Or.inl ⟨by simpa using hmark, rfl, rfl⟩

theorem part_eq_done {p : Parser Tree} {s s' : State} {cs : List Tree}
    (h : part p s = .done cs s') :
    ∃ t, p { s with extras := [] } = .done t s' ∧ cs = s.extras ++ [t] := by
  obtain ⟨_, _, hextras, h⟩ := bind_eq_done h
  cases hextras
  obtain ⟨t, s', hdone, h⟩ := bind_eq_done h
  obtain ⟨rfl, rfl⟩ := pure_eq_done h
  exact ⟨t, hdone, rfl⟩

/-- What every step of a loop keeps of its value and the state holds of what the loop answers. -/
theorem loop_eq_done {I : α → State → Prop} {step : α → Parser (Option α)}
    (hstep : ∀ a s, I a s → ∀ o s', step a s = .done o s' → I (o.getD a) s')
    {a b : α} {s s' : State} (ha : I a s) (h : loop step a s = .done b s') : I b s' := by
  suffices hfor : ∀ (fuel : Nat) (a : α) (s : State), I a s → loopFor step fuel a s = .done b s' →
      I b s' from hfor _ a s ha h
  intro fuel
  induction fuel with
  | zero =>
      intro a s ha h
      obtain ⟨rfl, rfl⟩ := pure_eq_done h
      exact ha
  | succ fuel ih =>
      intro a s ha h
      obtain ⟨o, s₁, hdone, hrest⟩ := bind_eq_done h
      have ho := hstep a s ha o s₁ hdone
      cases o with
      | none =>
          obtain ⟨rfl, rfl⟩ := pure_eq_done hrest
          exact ho
      | some b => exact ih b s₁ ho hrest

theorem partAs_eq_done {f : Field} {p : Parser Tree} {s s' : State} {cs : List Tree}
    (h : partAs f p s = .done cs s') :
    ∃ t, p { s with extras := [] } = .done t s' ∧ cs = s.extras ++ [t.withField f] := by
  obtain ⟨_, hmap, rfl⟩ := part_eq_done h
  obtain ⟨t, s'', hdone, hwith⟩ := bind_eq_done hmap
  obtain ⟨rfl, rfl⟩ := pure_eq_done hwith
  exact ⟨t, hdone, rfl⟩

/-! ### What is answered -/

/-- Whatever the reader answers is as `P` says. -/
def Answers (P : α → Prop) (p : Parser α) : Prop := ∀ s a s', p s = .done a s' → P a

namespace Answers

theorem pure {a : α} (ha : P a) : Answers P (Pure.pure a) :=
  fun _ _ _ h => (pure_eq_done h).1 ▸ ha

theorem fail : Answers P (Parser.fail : Parser α) := fun _ _ _ h => absurd h (by simp [Parser.fail])

theorem bind {p : Parser β} {f : β → Parser α} (hf : ∀ b, Answers P (f b)) :
    Answers P (p >>= f) := by
  intro s a s' h
  obtain ⟨b, s₁, -, hrest⟩ := bind_eq_done h
  exact hf b s₁ a s' hrest

theorem bindOf {f : α → Parser β} (hp : Answers P p) (hf : ∀ a, P a → Answers Q (f a)) :
    Answers Q (p >>= f) := by
  intro s b s' h
  obtain ⟨a, s₁, hdone, hrest⟩ := bind_eq_done h
  exact hf a (hp s a s₁ hdone) s₁ b s' hrest

theorem ite {c : Prop} [Decidable c] (hp : Answers P p) (hq : Answers P q) :
    Answers P (if c then p else q) := by
  split
  · exact hp
  · exact hq

theorem orElse (hp : Answers P p) (hq : Answers P q) : Answers P (Parser.orElse p q) := by
  intro s a s' h
  rcases orElse_eq_done h with hdone | ⟨reach, hdone⟩
  · exact hp s a s' hdone
  · exact hq _ a s' hdone

/-- What is said of kinds, constructs of such kinds answer. -/
theorem build (kinds : Kind → Prop) {parts : Parser (Kind × List Tree)}
    (h : Answers (fun x => kinds x.1) parts) :
    Answers (fun t => kinds t.kind) (Parser.build parts) := by
  intro s t s' hdone
  obtain ⟨k, cs, hparts, rfl⟩ := build_eq_done hdone
  exact h s (k, cs) s' hparts

theorem node (kinds : Kind → Prop) {k : Kind} {parts : Parser (List Tree)} (hk : kinds k) :
    Answers (fun t => kinds t.kind) (Parser.node k parts) :=
  build kinds (bind fun _ => pure hk)

theorem extend (kinds : Kind → Prop) {k : Kind} {first : Tree} {parts : Parser (List Tree)}
    (hk : kinds k) : Answers (fun t => kinds t.kind) (Parser.extend k first parts) := by
  intro s t s' hdone
  obtain ⟨k', cs, hparts, rfl⟩ := buildFrom_eq_done hdone
  have hkinds : Answers (fun x : Kind × List Tree => kinds x.1)
      (do Pure.pure (k, first :: (← parts))) := bind fun _ => pure hk
  exact hkinds s (k', cs) s' hparts

theorem leaf (kinds : Kind → Prop) {k : Kind} {e : Expect} (hk : kinds k) :
    Answers (fun t => kinds t.kind) (Parser.leaf k e) := by
  intro s t s' h
  cases h
  exact hk

/-- A construct plays no part by itself. -/
theorem field_node {k : Kind} {parts : Parser (List Tree)} :
    Answers (fun t => t.field = none) (Parser.node k parts) := by
  intro s t s' hdone
  obtain ⟨k, cs, -, rfl⟩ := build_eq_done hdone
  rfl

end Answers

/-! ### Going forward -/

/-- From a state of the text the reader comes to another one, and its answer is as `P` says. -/
def Keeps (text : List Char) (P : α → Prop) (p : Parser α) : Prop :=
  ∀ s, s.Fits text → ∀ a s', p s = .done a s' → s.Leads text s' ∧ P a

namespace Keeps

theorem imp {P' : α → Prop} (h : Keeps text P p) (hP : ∀ a, P a → P' a) : Keeps text P' p :=
  fun s hs a s' hp => (h s hs a s' hp).imp_right (hP a)

/-- What the reader keeps, and what is said of its answers. -/
theorem and (hp : Keeps text P p) {P' : α → Prop} (h : Answers P' p) :
    Keeps text (fun a => P a ∧ P' a) p :=
  fun s hs a s' hdone => (hp s hs a s' hdone).imp_right fun ha => ⟨ha, h s a s' hdone⟩

theorem pure {a : α} (h : P a) : Keeps text P (Pure.pure a) := by
  intro s hs a' s' hp
  obtain ⟨rfl, rfl⟩ := pure_eq_done hp
  exact ⟨hs.leads, h⟩

theorem bind (hp : Keeps text P p) (hf : ∀ a, P a → Keeps text Q (f a)) :
    Keeps text Q (p >>= f) := by
  intro s hs b s'' h
  obtain ⟨a, s', hdone, hrest⟩ := bind_eq_done h
  obtain ⟨hleads, ha⟩ := hp s hs a s' hdone
  obtain ⟨hleads', hb⟩ := hf a ha s' hleads.fits b s'' hrest
  exact ⟨hleads.trans hleads', hb⟩

theorem pure_bind {a : α} (h : Keeps text Q (f a)) : Keeps text Q (Pure.pure a >>= f) := h

theorem map {g : α → β} (hp : Keeps text P p) (hg : ∀ a, P a → Q (g a)) :
    Keeps text Q (g <$> p) :=
  bind hp fun a ha => pure (hg a ha)

theorem ite {c : Prop} [Decidable c] (hp : Keeps text P p) (hq : Keeps text P q) :
    Keeps text P (if c then p else q) := by
  split
  · exact hp
  · exact hq

theorem fail : Keeps text P (Parser.fail : Parser α) :=
  fun _ _ _ _ h => absurd h (by simp [Parser.fail])

theorem fail_bind : Keeps text Q ((Parser.fail : Parser α) >>= f) :=
  (fail (P := fun _ => False)).bind fun _ h => h.elim

theorem failAhead : Keeps text P (Parser.failAhead : Parser α) :=
  fun _ _ _ _ h => absurd h (by simp [Parser.failAhead])

theorem orElse (hp : Keeps text P p) (hq : Keeps text P q) :
    Keeps text P (Parser.orElse p q) := by
  intro s hs a s' h
  rcases orElse_eq_done h with hdone | ⟨reach, hdone⟩
  · exact hp s hs a s' hdone
  · obtain ⟨hleads, ha⟩ := hq _ (hs.withReach reach) a s' hdone
    exact ⟨⟨hleads.fits, hleads.forward⟩, ha⟩

/-- A step that ends a loop. -/
theorem stop : Keeps text (fun o => ∀ b, o = some b → P b) (Pure.pure none) := pure nofun

/-- A step after which a loop goes on. -/
theorem goOn {a : α} (h : P a) :
    Keeps text (fun o => ∀ b, o = some b → P b) (Pure.pure (some a)) :=
  pure fun _ hb => Option.some.inj hb ▸ h

/-- What every step of a loop keeps, the loop keeps. -/
theorem loop {step : α → Parser (Option α)} {a : α}
    (hstep : ∀ a, P a → Keeps text (fun o => ∀ b, o = some b → P b) (step a)) (ha : P a) :
    Keeps text P (Parser.loop step a) := by
  suffices hfor : ∀ (fuel : Nat) (a : α), P a → Keeps text P (loopFor step fuel a) from
    fun s hs => hfor _ a ha s hs
  intro fuel
  induction fuel with
  | zero => exact fun a ha => pure ha
  | succ fuel ih =>
      intro a ha
      refine (hstep a ha).bind fun o ho => ?_
      cases o with
      | none => exact pure ha
      | some b => exact ih b (ho b rfl)

end Keeps

/-! ### Looking ahead -/

/-- The reader takes no token. -/
def Stays (text : List Char) (P : α → Prop) (p : Parser α) : Prop :=
  ∀ s, s.Fits text → ∀ a s', p s = .done a s' →
    s'.Fits text ∧ s'.ahead = s.ahead ∧ s'.last = s.last ∧ P a

theorem Stays.keeps (h : Stays text P p) : Keeps text P p := by
  intro s hs a s' hdone
  obtain ⟨hfits, -, hlast, ha⟩ := h s hs a s' hdone
  exact ⟨⟨hfits, Nat.le_of_eq (by rw [hlast])⟩, ha⟩

/-- What comes after looking ahead starts where the reader stood. -/
theorem Stays.bind_eq_done {s s'' : State} {b : β} (hp : Stays text P p) (hs : s.Fits text)
    (h : (p >>= f) s = .done b s'') : ∃ a s', P a ∧ s'.Fits text ∧ s'.ahead = s.ahead ∧
      s'.last = s.last ∧ f a s' = .done b s'' := by
  obtain ⟨a, s', hdone, hrest⟩ := Parser.bind_eq_done h
  obtain ⟨hfits, hahead, hlast, ha⟩ := hp s hs a s' hdone
  exact ⟨a, s', ha, hfits, hahead, hlast, hrest⟩

theorem stays_of_same (h : ∀ s a s', p s = .done a s' → s' = s) :
    Stays text (fun _ => True) p := by
  intro s hs a s' hdone
  obtain rfl := h s a s' hdone
  exact ⟨hs, rfl, rfl, trivial⟩

theorem stays_peek : Stays text (fun _ => True) peek :=
  stays_of_same fun _ _ _ h => by cases h; rfl

theorem stays_peekSecond (e : Expect) : Stays text (fun _ => True) (peekSecond e) :=
  stays_of_same fun _ _ _ => peekSecond_eq_done

theorem stays_wouldRead (p : Parser α) (next : Token → Bool) :
    Stays text (fun _ => True) (wouldRead p next) := by
  refine stays_of_same fun s a s' h => ?_
  unfold wouldRead at h
  split at h <;> cases h <;> rfl

theorem stays_atTextEnd : Stays text (fun _ => True) atTextEnd :=
  stays_of_same fun _ _ _ h => by cases h; rfl

theorem stays_stepLimit : Stays text (fun _ => True) stepLimit :=
  stays_of_same fun _ _ _ h => by cases h; rfl

theorem stays_extras : Stays text (AllExtra text) extras := by
  intro s hs cs s' h
  cases h
  refine ⟨⟨hs.front, hs.stop, hs.after, hs.spelled, fun _ h => absurd h List.not_mem_nil, hs.size,
    hs.read, hs.last_le_start, fun _ h => absurd h List.not_mem_nil⟩, rfl, rfl, hs.extras⟩

/-! ### Taking tokens -/

/-- The reader takes at least the token ahead. -/
def Takes (text : List Char) (P : α → Prop) (p : Parser α) : Prop :=
  ∀ s, s.Fits text → ∀ a s', p s = .done a s' →
    s.Leads text s' ∧ s.ahead.start.byte ≤ s'.last.byte ∧ P a

namespace Takes

theorem keeps (h : Takes text P p) : Keeps text P p :=
  fun s hs a s' hdone => (h s hs a s' hdone).imp_right And.right

theorem bind (hp : Takes text P p) (hf : ∀ a, P a → Keeps text Q (f a)) :
    Takes text Q (p >>= f) := by
  intro s hs b s'' h
  obtain ⟨a, s', hdone, hrest⟩ := bind_eq_done h
  obtain ⟨hleads, htaken, ha⟩ := hp s hs a s' hdone
  obtain ⟨hleads', hb⟩ := hf a ha s' hleads.fits b s'' hrest
  exact ⟨hleads.trans hleads', Nat.le_trans htaken hleads'.forward, hb⟩

theorem imp {P' : α → Prop} (h : Takes text P p) (hP : ∀ a, P a → P' a) : Takes text P' p := by
  intro s hs a s' hdone
  obtain ⟨hleads, htaken, ha⟩ := h s hs a s' hdone
  exact ⟨hleads, htaken, hP a ha⟩

theorem and (hp : Takes text P p) {P' : α → Prop} (h : Answers P' p) :
    Takes text (fun a => P a ∧ P' a) p := by
  intro s hs a s' hdone
  obtain ⟨hleads, htaken, ha⟩ := hp s hs a s' hdone
  exact ⟨hleads, htaken, ha, h s a s' hdone⟩

theorem after (hp : Stays text P p) (hf : ∀ a, P a → Takes text Q (f a)) :
    Takes text Q (p >>= f) := by
  intro s hs b s'' h
  obtain ⟨a, s', ha, hfits, hahead, hlast, hrest⟩ := hp.bind_eq_done hs h
  obtain ⟨hleads, htaken, hb⟩ := hf a ha s' hfits b s'' hrest
  exact ⟨hleads.of_last_eq hlast, hahead ▸ htaken, hb⟩

theorem ite {c : Prop} [Decidable c] (hp : Takes text P p) (hq : Takes text P q) :
    Takes text P (if c then p else q) := by
  split
  · exact hp
  · exact hq

theorem fail : Takes text P (Parser.fail : Parser α) :=
  fun _ _ _ _ h => absurd h (by simp [Parser.fail])

/-- The state after the token ahead, if that ends at `stop`. -/
theorem of_resume (e : Expect) {s : State} {stop : Cursor} {n : Nat} (hs : s.Fits text)
    (hstop : stop = s.ahead.front.advance n) :
    s.Leads text (State.resume e stop { s with last := stop.pos, extras := [] }) ∧
      s.ahead.start.byte ≤ stop.pos.byte := by
  have hin : stop.IsIn text := hstop ▸ hs.front.advance n
  have hstart : s.ahead.start.byte ≤ stop.pos.byte :=
    hstop ▸ Cursor.byte_le_advance n s.ahead.front
  refine ⟨⟨State.fits_resume e hin rfl (.done _) hin hs.size, ?_⟩, hstart⟩
  rw [State.last_resume]
  exact Nat.le_trans hs.last_le_start hstart

theorem shift (e : Expect) : Takes text (fun _ => True) (shift e) := by
  intro s hs a s' h
  cases h
  obtain ⟨n, hstop⟩ := hs.stop
  obtain ⟨hleads, htaken⟩ := of_resume e hs hstop
  exact ⟨hleads, by rwa [State.last_resume], trivial⟩

theorem shiftFirst (e : Expect) : Takes text (fun _ => True) (shiftFirst e) := by
  intro s hs a s' h
  cases h
  obtain ⟨hleads, htaken⟩ := of_resume e (n := 1) hs rfl
  exact ⟨hleads, by rwa [State.last_resume], trivial⟩

theorem mark (word : String) (e : Expect) : Takes text (AllExtra text) (Parser.mark word e) :=
  after stays_peek fun _ _ => ite
    (after stays_extras fun _ hbefore => (shift e).bind fun _ _ => .pure hbefore) fail

/-- What holds of comments and joined lines and of a tree holds of the parts. -/
theorem partOf {P : Tree → Prop} (hextra : ∀ t, IsExtra text t → P t) {p : Parser Tree}
    (hp : Takes text P p) : Takes text (fun cs => ∀ c ∈ cs, P c) (Parser.part p) :=
  after stays_extras fun before hbefore => hp.bind fun t ht => .pure <|
    List.forall_mem_append.mpr ⟨fun c hc => hextra c (hbefore c hc), by simpa using ht⟩

theorem part {p : Parser Tree} (hp : Takes text (Tree.Sound text) p) :
    Takes text (AllSound text) (Parser.part p) :=
  partOf (fun _ => IsExtra.sound) hp

/-- A part of a kind that can play its role in a construct of kind `k`. -/
theorem partAs_given {p : Parser Tree} {k : Kind} {f : Field}
    (hp : Takes text (fun t => t.Sound text ∧ k.gives f t.kind = true) p) :
    Takes text (AllGiven text k) (Parser.partAs f p) :=
  partOf (fun _ => IsExtra.given) (hp.bind fun _ ht => .pure
    ⟨ht.1.withField f, Tree.isGiven_withField ht.2⟩)

end Takes

/-- The reader takes the token ahead, if it does anything at all. -/
def MayTake (text : List Char) (P : α → Prop) (p : Parser α) : Prop :=
  ∀ s, s.Fits text → ∀ a s', p s = .done a s' →
    s.Leads text s' ∧ (s' = s ∨ s.ahead.start.byte ≤ s'.last.byte) ∧ P a

namespace MayTake

theorem imp {P' : α → Prop} (h : MayTake text P p) (hP : ∀ a, P a → P' a) : MayTake text P' p := by
  intro s hs a s' hdone
  obtain ⟨hleads, hmay, ha⟩ := h s hs a s' hdone
  exact ⟨hleads, hmay, hP a ha⟩

theorem of_takes (h : Takes text P p) : MayTake text P p := by
  intro s hs a s' hdone
  obtain ⟨hleads, htaken, ha⟩ := h s hs a s' hdone
  exact ⟨hleads, Or.inr htaken, ha⟩

theorem pure {a : α} (ha : P a) : MayTake text P (Pure.pure a) := by
  intro s hs a' s' hdone
  obtain ⟨rfl, rfl⟩ := pure_eq_done hdone
  exact ⟨hs.leads, Or.inl rfl, ha⟩

theorem ite {c : Prop} [Decidable c] (hp : MayTake text P p) (hq : MayTake text P q) :
    MayTake text P (if c then p else q) := by
  split
  · exact hp
  · exact hq

theorem afterPeek {g : Token → Parser α} (hg : ∀ t, MayTake text P (g t)) :
    MayTake text P (peek >>= g) := by
  intro s hs a s' h
  obtain ⟨_, _, hpeek, hrest⟩ := bind_eq_done h
  cases hpeek
  exact hg _ s hs a s' hrest

/-- What takes something takes the token that was ahead before nothing was done. -/
theorem bind (hp : MayTake text P p) (hf : ∀ a, P a → Takes text Q (f a)) :
    Takes text Q (p >>= f) := by
  intro s hs b s'' h
  obtain ⟨a, s', hdone, hrest⟩ := bind_eq_done h
  obtain ⟨hleads, hmay, ha⟩ := hp s hs a s' hdone
  obtain ⟨hleads', htaken, hb⟩ := hf a ha s' hleads.fits b s'' hrest
  refine ⟨hleads.trans hleads', ?_, hb⟩
  rcases hmay with rfl | hmay
  · exact htaken
  · exact Nat.le_trans hmay hleads'.forward

theorem loop {step : α → Parser (Option α)} {a : α}
    (hstep : ∀ a, P a → MayTake text (fun o => ∀ b, o = some b → P b) (step a)) (ha : P a) :
    MayTake text P (Parser.loop step a) := by
  intro s hs b s' h
  refine loop_eq_done (I := fun a s₁ => s.Leads text s₁ ∧
    (s₁ = s ∨ s.ahead.start.byte ≤ s₁.last.byte) ∧ P a) ?_ ⟨hs.leads, Or.inl rfl, ha⟩ h
  rintro a s₁ ⟨hleads, hmay, ha⟩ o s₂ hdone
  obtain ⟨hleads', hmay', ho⟩ := hstep a ha s₁ hleads.fits o s₂ hdone
  refine ⟨hleads.trans hleads', ?_, ?_⟩
  · rcases hmay with rfl | hmay
    · exact hmay'
    · exact Or.inr (Nat.le_trans hmay hleads'.forward)
  · cases o with
    | none => exact ha
    | some b => exact ho b rfl

end MayTake

namespace Keeps

theorem after {g : α → Parser β} (hp : Stays text P p) (hg : ∀ a, P a → Keeps text Q (g a)) :
    Keeps text Q (p >>= g) :=
  bind hp.keeps hg

theorem mark (word : String) (e : Expect) : Keeps text (AllSound text) (Parser.mark word e) :=
  (Takes.mark word e).keeps.imp fun _ => AllExtra.sound

/-- Before a word that is read if it is ahead wait comments and joined lines. -/
theorem mark?_extra (word : String) (e : Expect) :
    Keeps text (fun o => AllExtra text (o.getD [])) (Parser.mark? word e) :=
  after stays_peek fun _ _ => ite (map (Takes.mark word e).keeps fun _ h => h)
    (pure fun _ h => absurd h List.not_mem_nil)

theorem mark? (word : String) (e : Expect) :
    Keeps text (fun o => AllSound text (o.getD [])) (Parser.mark? word e) :=
  (mark?_extra word e).imp fun _ => AllExtra.sound

/-- Parts that stand one after another. -/
theorem append {p q : Parser (List Tree)} (hp : Keeps text (AllSound text) p)
    (hq : Keeps text (AllSound text) q) : Keeps text (AllSound text) (do
      let cs ← p
      let ds ← q
      Pure.pure (cs ++ ds)) :=
  hp.bind fun _ hcs => hq.bind fun _ hds => pure (allSound_append.mpr ⟨hcs, hds⟩)

theorem append₃ {p q r : Parser (List Tree)} (hp : Keeps text (AllSound text) p)
    (hq : Keeps text (AllSound text) q) (hr : Keeps text (AllSound text) r) :
    Keeps text (AllSound text) (do
      let cs ← p
      let ds ← q
      let es ← r
      Pure.pure (cs ++ ds ++ es)) :=
  hp.bind fun _ hcs => hq.bind fun _ hds => hr.bind fun _ hes => pure (by simp [hcs, hds, hes])

theorem append₄ {p q r r' : Parser (List Tree)} (hp : Keeps text (AllSound text) p)
    (hq : Keeps text (AllSound text) q) (hr : Keeps text (AllSound text) r)
    (hr' : Keeps text (AllSound text) r') : Keeps text (AllSound text) (do
      let cs ← p
      let ds ← q
      let es ← r
      let fs ← r'
      Pure.pure (cs ++ ds ++ es ++ fs)) :=
  hp.bind fun _ hcs => hq.bind fun _ hds => hr.bind fun _ hes => hr'.bind fun _ hfs =>
    pure (by simp [hcs, hds, hes, hfs])

/-- Parts behind others that have been read. -/
theorem behind {p : Parser (List Tree)} {cs : List Tree} (hcs : AllSound text cs)
    (hp : Keeps text (AllSound text) p) : Keeps text (AllSound text) (do
      let ds ← p
      Pure.pure (cs ++ ds)) :=
  hp.bind fun _ hds => pure (allSound_append.mpr ⟨hcs, hds⟩)

/-- Parts that a step of a loop puts behind those that have been read. -/
theorem goOnBehind {p : Parser (List Tree)} {cs : List Tree} (hcs : AllSound text cs)
    (hp : Keeps text (AllSound text) p) :
    Keeps text (fun o => ∀ b, o = some b → AllSound text b) (do
      let ds ← p
      Pure.pure (some (cs ++ ds))) :=
  hp.bind fun _ hds => goOn (allSound_append.mpr ⟨hcs, hds⟩)

/-- What holds of comments and joined lines and of a tree holds of the parts. -/
theorem partOf {P : Tree → Prop} (hextra : ∀ t, IsExtra text t → P t) {p : Parser Tree}
    (hp : Keeps text P p) : Keeps text (fun cs => ∀ c ∈ cs, P c) (Parser.part p) :=
  after stays_extras fun before hbefore => hp.bind fun t ht => pure <|
    List.forall_mem_append.mpr ⟨fun c hc => hextra c (hbefore c hc), by simpa using ht⟩

theorem part {p : Parser Tree} (hp : Keeps text (Tree.Sound text) p) :
    Keeps text (AllSound text) (Parser.part p) :=
  partOf (fun _ => IsExtra.sound) hp

theorem partAs {p : Parser Tree} (f : Field) (hp : Keeps text (Tree.Sound text) p) :
    Keeps text (AllSound text) (Parser.partAs f p) :=
  part (hp.map fun _ h => h.withField f)

/-- A part in one role is none in another. -/
theorem partAs_lacks {p : Parser Tree} {f g : Field} (hp : Keeps text (Tree.Sound text) p)
    (hne : g ≠ f) : Keeps text (fun cs => ∀ c ∈ cs, c.field ≠ some f) (Parser.partAs g p) :=
  partOf (fun _ h => h.field_ne f) (hp.map fun t _ => by simpa using hne)

/-- A part of a kind that can play its role in a construct of kind `k`. -/
theorem partAs_given {p : Parser Tree} {k : Kind} {f : Field}
    (hp : Keeps text (fun t => t.Sound text ∧ k.gives f t.kind = true) p) :
    Keeps text (AllGiven text k) (Parser.partAs f p) :=
  partOf (fun _ => IsExtra.given) (hp.map fun _ ht =>
    ⟨ht.1.withField f, Tree.isGiven_withField ht.2⟩)

/-- A part in a role that any kind can play. -/
theorem partAs_any {p : Parser Tree} (k : Kind) {f : Field} (hk : ∀ k', k.gives f k' = true)
    (hp : Keeps text (Tree.Sound text) p) : Keeps text (AllGiven text k) (Parser.partAs f p) :=
  partAs_given (hp.imp fun t ht => ⟨ht, hk t.kind⟩)

/-- A part in no role. -/
theorem part_given {p : Parser Tree} {k : Kind} (hp : Keeps text (Tree.Sound text) p)
    (hfield : Answers (fun t => t.field = none) p) : Keeps text (AllGiven text k) (Parser.part p) :=
  partOf (fun _ => IsExtra.given) ((hp.and hfield).imp fun _ ht =>
    ⟨ht.1, Tree.isGiven_of_field ht.2⟩)

theorem partAs_field {p : Parser Tree} (f : Field) (hp : Keeps text (Tree.Sound text) p) :
    Keeps text (fun cs => AllSound text cs ∧ ∃ c ∈ cs, c.field = some f) (Parser.partAs f p) := by
  intro s hs cs s' h
  obtain ⟨hleads, hcs⟩ := partAs f hp s hs cs s' h
  obtain ⟨t, -, rfl⟩ := partAs_eq_done h
  exact ⟨hleads, hcs, t.withField f, by simp, Tree.field_withField f t⟩

theorem ofKind {kinds : Kind → Bool} {k : Kind} {cs : List Tree}
    (hk : kinds k = true) (hcs : AllSound text cs) :
    Keeps text (AreParts text kinds) (Pure.pure (k, cs)) :=
  pure ⟨hk, hcs⟩

/-- A construct that promises nothing. -/
theorem build {parts : Parser (Kind × List Tree)}
    (h : Keeps text (AreParts text Kind.isPlain) parts) :
    Keeps text (Tree.Sound text) (Parser.build parts) := by
  intro s hs t s' hdone
  obtain ⟨k, cs, hparts, rfl⟩ := build_eq_done hdone
  obtain ⟨hleads, hk, hcs⟩ := h s hs _ s' hparts
  exact ⟨hleads, Tree.sound_plain hk (hs.isStretch hleads.fits) hcs⟩

theorem node {k : Kind} {parts : Parser (List Tree)} (hk : k.isPlain = true)
    (h : Keeps text (AllSound text) parts) : Keeps text (Tree.Sound text) (Parser.node k parts) :=
  build (h.bind fun _ hcs => ofKind hk hcs)

/-- A construct without a core that is what its kind promises. -/
theorem buildFrom {head : Span} {parts : Parser (Kind × List Tree)} (hhead : IsPlace text head.start)
    (h : Keeps text (fun x => x.1.hasCore = false ∧ (∀ s, Promises text x.1 s x.2) ∧
      AllSound text x.2) parts) : Keeps text (Tree.Sound text) (Parser.buildFrom head parts) := by
  intro s hs t s' hdone
  obtain ⟨k, cs, hparts, rfl⟩ := buildFrom_eq_done hdone
  obtain ⟨hleads, hk, hpromises, hcs⟩ := h s hs _ s' hparts
  have hstretch : IsStretch text ⟨head.start, s'.last.byte, head.line, head.column⟩ :=
    ⟨hhead, hleads.fits.isPlace_last⟩
  exact ⟨hleads, .node (hstretch.isPlaced hk) (hpromises _) hcs⟩

/-- A construct that promises nothing but the kinds of its parts. -/
theorem extendGiven {k : Kind} {first : Tree} {parts : Parser (List Tree)}
    (hk : (k.hasRoles && k != .functionDefinition) = true)
    (h : Keeps text (AllGiven text k) parts) (hfirst : first.Sound text) (hgiven : first.IsGiven k) :
    Keeps text (Tree.Sound text) (Parser.extend k first parts) :=
  buildFrom hfirst.stretch.start (h.bind fun _ hcs => pure
    ⟨Kind.not_hasCore_of_hasRoles hk,
      fun _ => promises_of_roles hk (List.forall_mem_cons.mpr ⟨hgiven, hcs.roles⟩),
      allSound_cons.mpr ⟨hfirst, hcs.sound⟩⟩)

/-- A construct that promises nothing. -/
theorem extend {k : Kind} {first : Tree} {parts : Parser (List Tree)} (hk : k.isPlain = true)
    (h : Keeps text (AllSound text) parts) (hfirst : first.Sound text) :
    Keeps text (Tree.Sound text) (Parser.extend k first parts) :=
  buildFrom hfirst.stretch.start (h.bind fun _ hcs => pure
    ⟨Kind.hasCore_of_isPlain hk, fun _ => promises_of_isPlain hk, allSound_cons.mpr ⟨hfirst, hcs⟩⟩)

end Keeps

/-! ### Trees from the first token to the last -/

/-- The reader takes at least the token ahead, and its tree lies from there to the end of the last
token that it takes.  What stands in its parentheses does not start before the last token either. -/
def Reads (text : List Char) (p : Parser Tree) : Prop :=
  ∀ s, s.Fits text → ∀ t s', p s = .done t s' → s.Leads text s' ∧
    s.ahead.start.byte ≤ s'.last.byte ∧ t.Sound text ∧
      t.span.start = s.ahead.start.byte ∧ t.span.stop = s'.last.byte ∧ s.last.byte ≤ t.earliest

/-- The last token that the reader takes is a closing parenthesis. -/
def Closes (text : List Char) (p : Parser α) : Prop :=
  ∀ s, s.Fits text → ∀ a s', p s = .done a s' → StandsAt text (s'.last.byte - 1) [')']

/-- After `t` has been read, the reader answers something that stands for a tree from the start of
`t` to the end of the last token.  What stands in its parentheses does not start before `t` and what
stands in the parentheses of that. -/
def Continues (text : List Char) (t : Tree) (g : α → Tree) (p : Parser α) : Prop :=
  ∀ s, s.Fits text → t.Sound text → t.span.start ≤ t.span.stop → t.span.stop = s.last.byte →
    ∀ a s', p s = .done a s' → s.Leads text s' ∧ (g a).Sound text ∧
      (g a).span.start = t.span.start ∧ (g a).span.stop = s'.last.byte ∧
      t.earliest ≤ (g a).earliest

namespace Continues

variable {t : Tree} {g : α → Tree} {g' : β → Tree}

/-- Another tree in the place of `t`. -/
theorem replace {a : α} (ha : (g a).Sound text) (hspan : (g a).span.start = t.span.start ∧
    (g a).span.stop = t.span.stop)
    (hbehind : t.earliest ≤ (g a).earliest) : Continues text t g (Pure.pure a) := by
  intro s hs _ _ hlast a' s' hdone
  obtain ⟨rfl, rfl⟩ := pure_eq_done hdone
  exact ⟨hs.leads, ha, hspan.1, hspan.2.trans hlast, hbehind⟩

theorem pure {a : α} (h : g a = t) : Continues text t g (Pure.pure a) :=
  fun s hs ht => replace (h ▸ ht) (by rw [h]; exact ⟨rfl, rfl⟩) (by rw [h]) s hs ht

theorem ite {c : Prop} [Decidable c] (hp : Continues text t g p) (hq : Continues text t g q) :
    Continues text t g (if c then p else q) := by
  split
  · exact hp
  · exact hq

theorem fail : Continues text t g (Parser.fail : Parser α) :=
  fun _ _ _ _ _ _ _ h => absurd h (by simp [Parser.fail])

theorem after {p : Parser β} {f : β → Parser α} (hp : Stays text Q p)
    (hf : ∀ b, Q b → Continues text t g (f b)) : Continues text t g (p >>= f) := by
  intro s hs ht hforward hstop a s'' h
  obtain ⟨b, s', hb, hfits, -, hlast, hrest⟩ := hp.bind_eq_done hs h
  obtain ⟨hleads, hresult⟩ := hf b hb s' hfits ht hforward (hlast ▸ hstop) a s'' hrest
  exact ⟨hleads.of_last_eq hlast, hresult⟩

/-- What goes on with the tree that `t` has become goes on with `t`. -/
theorem goOn {p : Parser α} {s s' s'' : State} {u : Tree} {a : α}
    (hu : u.Sound text ∧ u.span.start = t.span.start ∧ u.span.stop = s'.last.byte ∧
      t.earliest ≤ u.earliest)
    (hleads : s.Leads text s') (hforward : t.span.start ≤ t.span.stop)
    (hstop : t.span.stop = s.last.byte) (hp : Continues text u g p) (hdone : p s' = .done a s'') :
    s.Leads text s'' ∧ (g a).Sound text ∧ (g a).span.start = t.span.start ∧
      (g a).span.stop = s''.last.byte ∧ t.earliest ≤ (g a).earliest := by
  obtain ⟨hu, hstart, hstop', hbehind⟩ := hu
  have hforward' : u.span.start ≤ u.span.stop := by
    rw [hstart, hstop']
    exact hforward.trans ((Nat.le_of_eq hstop).trans hleads.forward)
  obtain ⟨hleads', ha, hstart', hstop'', hbehind'⟩ :=
    hp s' hleads.fits hu hforward' hstop' a s'' hdone
  exact ⟨hleads.trans hleads', ha, hstart'.trans hstart, hstop'', hbehind.trans hbehind'⟩

theorem bind {p : Parser Tree} {f : Tree → Parser α} (hp : Continues text t id p)
    (hf : ∀ u, u.Sound text → Continues text u g (f u)) : Continues text t g (p >>= f) := by
  intro s hs ht hforward hstop a s'' h
  obtain ⟨u, s', hdone, hrest⟩ := bind_eq_done h
  obtain ⟨hleads, hu⟩ := hp s hs ht hforward hstop u s' hdone
  exact goOn hu hleads hforward hstop (hf u hu.1) hrest

/-- A construct around `t`, which is its first part in the same or another role. -/
theorem extendOf {k : Kind} {first : Tree} {parts : Parser (List Tree)}
    (hk : (k.isPlain || k.appliesToFirst) = true) (h : Keeps text (AllSound text) parts)
    (hclosed : k = .call → Closes text parts) (hfirst : t.Sound text → first.Sound text)
    (hspan : first.span = t.span) : Continues text t id (Parser.extend k first parts) := by
  intro s hs ht hforward hstop u s' hdone
  obtain ⟨k', cs, hparts, rfl⟩ := buildFrom_eq_done hdone
  obtain ⟨ds, s₁, hread, hpure⟩ := bind_eq_done hparts
  obtain ⟨heq, rfl⟩ := pure_eq_done hpure
  cases heq
  obtain ⟨hleads, hcs⟩ := h s hs ds s₁ hread
  have hfirst : first.Sound text := hfirst ht
  have hstart : first.span.start = t.span.start := by rw [hspan]
  have hstretch : IsStretch text ⟨first.span.start, s₁.last.byte, first.span.line, first.span.column⟩ :=
    ⟨hfirst.stretch.start, hleads.fits.isPlace_last⟩
  have hsound : AllSound text (first :: ds) := allSound_cons.mpr ⟨hfirst, hcs⟩
  rcases Bool.or_eq_true_iff.mp hk with hk | hk
  · have hcore : k.hasCore = false := Kind.hasCore_of_isPlain hk
    have hgroup : k.isGroup = false := Kind.not_isGroup_of_not_hasCore hcore
    exact ⟨hleads, .node (hstretch.isPlaced hcore) (promises_of_isPlain hk) hsound, hstart, rfl,
      Tree.earliest_le_of_start hgroup hstart⟩
  · have hgroup : k.isGroup = false := Kind.not_isGroup_of_appliesToFirst hk
    have hlies : LiesIn first.span
        ⟨first.span.start, s₁.last.byte, first.span.line, first.span.column⟩ := by
      refine ⟨Nat.le_refl _, ?_, ?_⟩
      · rwa [hspan]
      · rw [hspan, hstop]
        exact hleads.forward
    exact ⟨hleads, .node (hstretch.isPlaced_of_operand (if_pos hk) hlies
      fun hcall => hclosed hcall s hs ds s₁ hread) (promises_of_first hk rfl) hsound, hstart, rfl,
      Tree.earliest_le_of_start hgroup hstart⟩

theorem extend {k : Kind} {first : Tree} {parts : Parser (List Tree)}
    (hk : (k.isPlain || k.appliesToFirst && k != .call) = true)
    (h : Keeps text (AllSound text) parts) (hfirst : t.Sound text → first.Sound text)
    (hspan : first.span = t.span) : Continues text t id (Parser.extend k first parts) := by
  refine extendOf ?_ h ?_ hfirst hspan
  · simp only [Bool.or_eq_true, Bool.and_eq_true] at hk ⊢
    exact hk.imp_right And.left
  · rintro rfl
    exact absurd hk (by decide)

theorem extendAs {k : Kind} {parts : Parser (List Tree)}
    (hk : (k.isPlain || k.appliesToFirst && k != .call) = true) (f : Field)
    (h : Keeps text (AllSound text) parts) :
    Continues text t id (Parser.extend k (t.withField f) parts) :=
  extend hk h (fun ht => ht.withField f) (Tree.span_withField f t)

theorem extendSame {k : Kind} {parts : Parser (List Tree)}
    (hk : (k.isPlain || k.appliesToFirst && k != .call) = true)
    (h : Keeps text (AllSound text) parts) :
    Continues text t id (Parser.extend k t parts) :=
  extend hk h (fun ht => ht) rfl

theorem some {p : Parser Tree} (hp : Continues text t id p) :
    Continues text t (·.getD t) (Option.some <$> p) := by
  intro s hs ht hforward hstop o s' h
  obtain ⟨u, s'', hdone, hrest⟩ := bind_eq_done h
  obtain ⟨rfl, rfl⟩ := pure_eq_done hrest
  exact hp s hs ht hforward hstop u s'' hdone

theorem none : Continues text t (·.getD t) (Pure.pure Option.none) := pure rfl

/-- What every step of a loop goes on with, the loop goes on with. -/
theorem loop {step : Tree → Parser (Option Tree)}
    (hstep : ∀ t, t.Sound text → Continues text t (·.getD t) (step t)) (t : Tree) :
    Continues text t id (Parser.loop step t) := by
  suffices hfor : ∀ (fuel : Nat) (t : Tree), Continues text t id (loopFor step fuel t) from
    fun s => hfor _ t s
  intro fuel
  induction fuel with
  | zero => exact fun t => pure rfl
  | succ fuel ih =>
      intro t s hs ht hforward hstop u s'' h
      obtain ⟨o, s', hdone, hrest⟩ := bind_eq_done h
      obtain ⟨hleads, hstepped⟩ := hstep t ht s hs ht hforward hstop o s' hdone
      cases o with
      | none =>
          obtain ⟨rfl, rfl⟩ := pure_eq_done hrest
          exact ⟨hleads, hstepped⟩
      | some v => exact goOn hstepped hleads hforward hstop (ih v) hrest

end Continues

/-- Right after `t` has been read, the reader goes forward, and its answer is as `P` says. -/
def KeepsAfter (text : List Char) (t : Tree) (P : α → Prop) (p : Parser α) : Prop :=
  ∀ s, s.Fits text → t.Sound text → t.Ends text s → ∀ a s', p s = .done a s' →
    s.Leads text s' ∧ P a

namespace KeepsAfter

variable {t : Tree}

theorem of_keeps (h : Keeps text P p) : KeepsAfter text t P p := fun s hs _ _ => h s hs

theorem fail_bind : KeepsAfter text t Q ((Parser.fail : Parser α) >>= f) := of_keeps .fail_bind

theorem ite {c : Prop} [Decidable c] (hp : KeepsAfter text t P p) (hq : KeepsAfter text t P q) :
    KeepsAfter text t P (if c then p else q) := by
  split
  · exact hp
  · exact hq

theorem bind {p : Parser Tree} {f : Tree → Parser α} (hp : Continues text t id p)
    (hf : ∀ u, u.Sound text → Keeps text P (f u)) : KeepsAfter text t P (p >>= f) := by
  intro s hs ht hends a s'' h
  obtain ⟨u, s', hdone, hrest⟩ := bind_eq_done h
  obtain ⟨hleads, hu, -⟩ := hp s hs ht hends.forward hends.stop u s' hdone
  obtain ⟨hleads', ha⟩ := hf u hu s' hleads.fits a s'' hrest
  exact ⟨hleads.trans hleads', ha⟩

theorem orElse (hp : KeepsAfter text t P p) (hq : KeepsAfter text t P q) :
    KeepsAfter text t P (Parser.orElse p q) := by
  intro s hs ht hends a s' h
  rcases orElse_eq_done h with hdone | ⟨reach, hdone⟩
  · exact hp s hs ht hends a s' hdone
  · obtain ⟨hleads, ha⟩ := hq _ (hs.withReach reach) ht ⟨hends.start, hends.stop⟩ a s' hdone
    exact ⟨⟨hleads.fits, hleads.forward⟩, ha⟩

theorem after (hp : Stays text P p) (hf : ∀ a, P a → KeepsAfter text t Q (f a)) :
    KeepsAfter text t Q (p >>= f) := by
  intro s hs ht hends b s'' h
  obtain ⟨a, s', ha, hfits, -, hlast, hrest⟩ := hp.bind_eq_done hs h
  have hends' : t.Ends text s' := ⟨hlast ▸ hends.start, hlast ▸ hends.stop⟩
  obtain ⟨hleads, hb⟩ := hf a ha s' hfits ht hends' b s'' hrest
  exact ⟨hleads.of_last_eq hlast, hb⟩

end KeepsAfter

namespace Reads

variable {p q : Parser Tree} {f : Tree → Parser Tree}

theorem takes (h : Reads text p) : Takes text (Tree.Sound text) p := by
  intro s hs t s' hdone
  obtain ⟨hleads, htaken, ht, -⟩ := h s hs t s' hdone
  exact ⟨hleads, htaken, ht⟩

theorem keeps (h : Reads text p) : Keeps text (Tree.Sound text) p := h.takes.keeps

/-- A tree that goes from the token ahead to the last token goes forward. -/
theorem forward {s s' : State} {t : Tree} (hp : Reads text p) (hs : s.Fits text)
    (h : p s = .done t s') : t.span.start ≤ t.span.stop := by
  obtain ⟨-, htaken, -, hstart, hstop, -⟩ := hp s hs t s' h
  rw [hstart, hstop]
  exact htaken

theorem bind (hp : Reads text p) (hf : ∀ t, t.Sound text → Continues text t id (f t)) :
    Reads text (p >>= f) := by
  intro s hs u s'' h
  obtain ⟨t, s', hdone, hrest⟩ := bind_eq_done h
  have hforward := hp.forward hs hdone
  obtain ⟨hleads, htaken, ht, hstart, hstop, hbehind⟩ := hp s hs t s' hdone
  obtain ⟨hleads', hu, hstart', hstop', hbehind'⟩ :=
    hf t ht s' hleads.fits ht hforward hstop u s'' hrest
  exact ⟨hleads.trans hleads', Nat.le_trans htaken hleads'.forward, hu, hstart'.trans hstart,
    hstop', hbehind.trans hbehind'⟩

theorem bindAfter {f : Tree → Parser α} (hp : Reads text p)
    (hf : ∀ t, t.Sound text → KeepsAfter text t P (f t)) : Keeps text P (p >>= f) := by
  intro s hs a s'' h
  obtain ⟨t, s', hdone, hrest⟩ := bind_eq_done h
  obtain ⟨hleads, htaken, ht, hstart, hstop, -⟩ := hp s hs t s' hdone
  have hends : t.Ends text s' :=
    ⟨⟨s.ahead.front, hs.front, hstart.symm, hstart ▸ htaken⟩, hstop⟩
  obtain ⟨hleads', ha⟩ := hf t ht s' hleads.fits ht hends a s'' hrest
  exact ⟨hleads.trans hleads', ha⟩

theorem after {p : Parser α} {f : α → Parser Tree} (hp : Stays text P p)
    (hf : ∀ a, P a → Reads text (f a)) : Reads text (p >>= f) := by
  intro s hs t s'' h
  obtain ⟨a, s', ha, hfits, hahead, hlast, hrest⟩ := hp.bind_eq_done hs h
  obtain ⟨hleads, hresult⟩ := hf a ha s' hfits t s'' hrest
  rw [hahead, hlast] at hresult
  exact ⟨hleads.of_last_eq hlast, hresult⟩

theorem ite {c : Prop} [Decidable c] (hp : Reads text p) (hq : Reads text q) :
    Reads text (if c then p else q) := by
  split
  · exact hp
  · exact hq

theorem orElse (hp : Reads text p) (hq : Reads text q) : Reads text (Parser.orElse p q) := by
  intro s hs t s' h
  rcases orElse_eq_done h with hdone | ⟨reach, hdone⟩
  · exact hp s hs t s' hdone
  · obtain ⟨hleads, hresult⟩ := hq _ (hs.withReach reach) t s' hdone
    exact ⟨⟨hleads.fits, hleads.forward⟩, hresult⟩

theorem fail : Reads text Parser.fail := fun _ _ _ _ h => absurd h (by simp [Parser.fail])

/-- What is said of a tree that a reader has built, which is no group. -/
theorem of_built {k : Kind} {cs : List Tree} {s s' : State} (hs : s.Fits text)
    (hleads : s.Leads text s') (htaken : s.ahead.start.byte ≤ s'.last.byte) (hk : k.isGroup = false)
    (hsound : Tree.Sound text (.node k none (.between s.ahead.start s'.last) cs)) :
    s.Leads text s' ∧ s.ahead.start.byte ≤ s'.last.byte ∧
      Tree.Sound text (.node k none (.between s.ahead.start s'.last) cs) ∧
      (Span.between s.ahead.start s'.last).start = s.ahead.start.byte ∧
      (Span.between s.ahead.start s'.last).stop = s'.last.byte ∧
      s.last.byte ≤ (Tree.node k none (.between s.ahead.start s'.last) cs).earliest := by
  refine ⟨hleads, htaken, hsound, rfl, rfl, ?_⟩
  rw [Tree.earliest_node hk]
  exact hs.last_le_start

theorem build {parts : Parser (Kind × List Tree)}
    (h : Takes text (AreParts text Kind.isPlain) parts) : Reads text (Parser.build parts) := by
  intro s hs t s' hdone
  obtain ⟨k, cs, hparts, rfl⟩ := build_eq_done hdone
  obtain ⟨hleads, htaken, hk, hcs⟩ := h s hs _ s' hparts
  exact of_built hs hleads htaken (Kind.not_isGroup_of_isPlain hk)
    (Tree.sound_plain hk (hs.isStretch hleads.fits) hcs)

/-- A construct that an opening parenthesis starts. -/
theorem buildGroup {e : Expect} {parts : List Tree → Parser (Kind × List Tree)}
    (h : ∀ head, AllSound text head →
      Keeps text (AreParts text fun k => k.isPlain || k.isGroup) (parts head))
    (hitems : ∀ lo head s, s.Fits text → lo ≤ s.last.byte → AreItems lo s.last.byte head →
      ∀ k cs s', parts head s = .done (k, cs) s' → k.isGroup = true → AreItems lo s'.last.byte cs) :
    Reads text (Parser.build (mark "(" e >>= parts)) := by
  intro s hs t s' hdone
  obtain ⟨k, cs, hparts, rfl⟩ := build_eq_done hdone
  obtain ⟨hleads, htaken, hk, hcs⟩ :=
    (Takes.mark "(" e).bind (fun head hhead => h head hhead.sound) s hs _ s' hparts
  have hstretch := hs.isStretch hleads.fits
  rcases Bool.or_eq_true_iff.mp hk with hk | hk
  · exact of_built hs hleads htaken (Kind.not_isGroup_of_isPlain hk)
      (Tree.sound_plain hk hstretch hcs)
  · obtain ⟨head, s₁, hmark, hrest⟩ := bind_eq_done hparts
    obtain ⟨hleads₁, htaken₁, -⟩ := Takes.mark "(" e s hs _ s₁ hmark
    obtain ⟨hword, rfl, -⟩ := mark_eq_done hmark
    have hitem : AreItems s.last.byte s'.last.byte cs :=
      hitems s.last.byte s.extras s₁ hleads₁.fits hleads₁.forward (hs.areItems_extras htaken₁) k cs s'
        hrest hk
    have hopens : OpensGroup text (.between s.ahead.start s'.last) :=
      ⟨_, hs.front.rest_eq.symm.trans (hs.spelled "(" hword)⟩
    refine ⟨hleads, htaken, .node (hstretch.isPlaced_of_group hk fun c hc => ?_)
      (promises_of_group hk hopens fun c hc _ => ⟨?_, ?_⟩) hcs, rfl, rfl, ?_⟩
    · exact (hitem c (List.mem_of_find?_eq_some hc)).forward
    · exact (hitem c (List.mem_of_find?_eq_some hc)).stop
    · exact (hcs c (List.mem_of_find?_eq_some hc)).stretch.stop
    · exact Tree.le_earliest_of_isGroup hk hs.last_le_start fun c hc => (hitem c hc).earliest

theorem node {k : Kind} {parts : Parser (List Tree)} (hk : k.isPlain = true)
    (h : Takes text (AllSound text) parts) : Reads text (Parser.node k parts) :=
  build (h.bind fun _ hcs => .ofKind hk hcs)

/-- A construct without a core that is what its kind promises. -/
theorem nodeOf {k : Kind} {parts : Parser (List Tree)} (hk : k.hasCore = false)
    (h : Takes text (AllGiven text k) parts)
    (hpromises : ∀ s, s.Fits text → ∀ t s', Parser.node k parts s = .done t s' →
      (∀ c ∈ t.children, c.IsGiven k) → Promises text k t.span t.children) :
    Reads text (Parser.node k parts) := by
  intro s hs t s' hdone
  have hpromise := hpromises s hs t s' hdone
  obtain ⟨_, cs, hparts, rfl⟩ := build_eq_done hdone
  obtain ⟨cs, s', hparts, hrest⟩ := bind_eq_done hparts
  cases hrest
  obtain ⟨hleads, htaken, hcs⟩ := h s hs cs s' hparts
  exact of_built hs hleads htaken (Kind.not_isGroup_of_not_hasCore hk)
    (.node ((hs.isStretch hleads.fits).isPlaced hk) (hpromise hcs.roles) hcs.sound)

/-- A construct that promises nothing but the kinds of its parts. -/
theorem nodeGiven {k : Kind} {parts : Parser (List Tree)}
    (hk : (k.hasRoles && k != .functionDefinition) = true) (h : Takes text (AllGiven text k) parts) :
    Reads text (Parser.node k parts) :=
  nodeOf (Kind.not_hasCore_of_hasRoles hk) h fun _ _ _ _ _ => promises_of_roles hk

/-- What is said of the token ahead when it is taken by itself. -/
theorem of_leaf {k : Kind} {e : Expect} {s s' : State} {t : Tree} (hs : s.Fits text)
    (hk : k.isGroup = false)
    (hsound : (Tree.leaf k (.between s.ahead.start s.ahead.stop.pos)).Sound text)
    (h : Parser.leaf k e s = .done t s') : s.Leads text s' ∧
      s.ahead.start.byte ≤ s'.last.byte ∧ t.Sound text ∧
        t.span.start = s.ahead.start.byte ∧ t.span.stop = s'.last.byte ∧ s.last.byte ≤ t.earliest := by
  cases h
  obtain ⟨hleads, htaken, -⟩ := Takes.shift e s hs () _ rfl
  refine ⟨hleads, htaken, hsound, rfl, ?_, ?_⟩
  · show s.ahead.stop.pos.byte = (State.last _).byte
    rw [State.last_resume]
  · rw [Tree.leaf, Tree.earliest_node hk]
    exact hs.last_le_start

theorem leaf {k : Kind} {e : Expect} (hk : k.isPlain = true) :
    Reads text (Parser.leaf k e) := by
  intro s hs t s' h
  have hstretch : IsStretch text (.between s.ahead.start s.ahead.stop.pos) :=
    ⟨isPlace_of_isIn hs.front, isPlace_of_isIn hs.stop_isIn⟩
  exact of_leaf hs (Kind.not_isGroup_of_isPlain hk) (Tree.sound_leaf hk hstretch) h

/-- A word is taken as what it is spelled as. -/
theorem of_word {k : Kind} {e : Expect} {word : String} {s s' : State} {t : Tree}
    (hs : s.Fits text) (htoken : s.token = .name word) (hk : k.isWord = true)
    (hspells : k.spells word = true) (h : Parser.leaf k e s = .done t s') : s.Leads text s' ∧
      s.ahead.start.byte ≤ s'.last.byte ∧ t.Sound text ∧
        t.span.start = s.ahead.start.byte ∧ t.span.stop = s'.last.byte ∧ s.last.byte ≤ t.earliest := by
  have hstretch : IsStretch text (.between s.ahead.start s.ahead.stop.pos) :=
    ⟨isPlace_of_isIn hs.front, isPlace_of_isIn hs.stop_isIn⟩
  have hgroup : k.isGroup = false := by
    rcases Kind.isWord_iff.mp hk with rfl | rfl | rfl | rfl <;> rfl
  refine of_leaf hs hgroup (Tree.sound_word hk hstretch ?_) h
  rwa [hs.text_of_name htoken]

end Reads

/-! ### Stars -/

/-- The reader takes at least the token ahead, and the last of its trees lies from there to the end
of the last token. -/
def Splats (text : List Char) (p : Parser (List Tree)) : Prop :=
  ∀ s, s.Fits text → ∀ cs s', p s = .done cs s' → s.Leads text s' ∧
    s.ahead.start.byte ≤ s'.last.byte ∧ AllSound text cs ∧
      ∀ c, cs.getLast? = some c → LiesIn c.span (.between s.ahead.start s'.last)

namespace Splats

variable {p q : Parser (List Tree)}

theorem fail_bind {f : α → Parser (List Tree)} :
    Splats text ((Parser.fail : Parser α) >>= f) := by
  intro s _ cs s' h
  obtain ⟨_, _, hfail, -⟩ := bind_eq_done h
  exact absurd hfail (by simp [Parser.fail])

theorem ite {c : Prop} [Decidable c] (hp : Splats text p) (hq : Splats text q) :
    Splats text (if c then p else q) := by
  split
  · exact hp
  · exact hq

theorem after {p : Parser α} {f : α → Parser (List Tree)} (hp : Stays text P p)
    (hf : ∀ a, P a → Splats text (f a)) : Splats text (p >>= f) := by
  intro s hs cs s'' h
  obtain ⟨a, s', ha, hfits, hahead, hlast, hrest⟩ := hp.bind_eq_done hs h
  obtain ⟨hleads, hresult⟩ := hf a ha s' hfits cs s'' hrest
  rw [hahead] at hresult
  exact ⟨hleads.of_last_eq hlast, hresult⟩

/-- A star and what it is bound to. -/
theorem bound {p : Parser Tree} {before : List Tree} (hbefore : AllSound text before)
    (hp : Reads text p) : Splats text (do
      Parser.shiftFirst .operand
      Pure.pure (before ++ (← Parser.part p))) := by
  intro s hs cs s' h
  obtain ⟨_, s₁, hstar, hrest⟩ := bind_eq_done h
  obtain ⟨hleads₁, htaken, -⟩ := Takes.shiftFirst .operand s hs _ s₁ hstar
  obtain ⟨parts, s₂, hpart, hpure⟩ := bind_eq_done hrest
  obtain ⟨rfl, rfl⟩ := pure_eq_done hpure
  obtain ⟨hleads, hparts⟩ := hp.keeps.part s₁ hleads₁.fits parts s₂ hpart
  refine ⟨hleads₁.trans hleads, htaken.trans hleads.forward, allSound_append.mpr ⟨hbefore, hparts⟩,
    fun c hc => ?_⟩
  obtain ⟨t, hdone, rfl⟩ := part_eq_done hpart
  obtain rfl : t = c := by simpa [List.getLast?_append] using hc
  have hclean := (stays_extras s₁ hleads₁.fits _ _ rfl).1
  have hforward := hp.forward hclean hdone
  obtain ⟨-, -, -, hstart, hstop, -⟩ := hp _ hclean t s₂ hdone
  refine ⟨?_, hforward, Nat.le_of_eq hstop⟩
  rw [hstart]
  exact htaken.trans hleads₁.fits.last_le_start

end Splats

theorem Reads.splat {parts : Parser (List Tree)} (h : Splats text parts) :
    Reads text (Parser.node .listSplat parts) := by
  intro s hs t s' hdone
  obtain ⟨k, cs, hparts, rfl⟩ := build_eq_done hdone
  obtain ⟨ds, s₁, hread, hpure⟩ := bind_eq_done hparts
  obtain ⟨heq, rfl⟩ := pure_eq_done hpure
  cases heq
  obtain ⟨hleads, htaken, hsound, hlast⟩ := h s hs cs s₁ hread
  exact of_built hs hleads htaken rfl (Tree.sound_splat (hs.isStretch hleads.fits) hsound hlast)

namespace Keeps

theorem leaf {k : Kind} {e : Expect} (hk : k.isPlain = true) :
    Keeps text (Tree.Sound text) (Parser.leaf k e) :=
  (Reads.leaf hk).keeps

/-! ### Items -/

theorem furtherItems {item : Parser Tree} (h : Keeps text (Tree.Sound text) item) :
    Keeps text (AllSound text) (Parser.furtherItems item) := by
  refine loop (fun acc hacc => (mark? "," .operand).bind fun o ho => ?_) allSound_nil
  cases o with
  | none => exact stop
  | some comma => exact goOnBehind (allSound_append.mpr ⟨hacc, ho⟩) h.part

/-- What holds of comments and joined lines and of every item holds of all that is read. -/
theorem moreItemsOf {P : Tree → Prop} (hextra : ∀ t, IsExtra text t → P t) {item : Parser Tree}
    (e : Expect) (more : Token → Bool) (h : Keeps text P item) :
    Keeps text (fun cs => ∀ c ∈ cs, P c) (Parser.moreItems e more item) := by
  refine bind (loop (P := fun x => ∀ c ∈ x.1, P c) (fun x hx => ite stop ?_)
    fun _ h => absurd h List.not_mem_nil) fun x hx => pure hx
  refine (mark?_extra "," e).bind fun o ho => ?_
  cases o with
  | none => exact stop
  | some comma =>
      have hcomma : ∀ c ∈ x.1 ++ comma, P c :=
        List.forall_mem_append.mpr ⟨hx, fun c hc => hextra c (ho c hc)⟩
      exact after stays_peek fun _ _ => ite
        ((h.partOf hextra).bind fun _ hitem => goOn (List.forall_mem_append.mpr ⟨hcomma, hitem⟩))
        (goOn hcomma)

theorem moreItems {item : Parser Tree} (e : Expect) (more : Token → Bool)
    (h : Keeps text (Tree.Sound text) item) :
    Keeps text (AllSound text) (Parser.moreItems e more item) :=
  moreItemsOf (fun _ => IsExtra.sound) e more h

theorem itemsUntilOf {P : Tree → Prop} (hextra : ∀ t, IsExtra text t → P t) {item : Parser Tree}
    (closer : String) (e : Expect) (h : Keeps text P item) :
    Keeps text (fun cs => ∀ c ∈ cs, P c) (Parser.itemsUntil closer item e) :=
  (moreItemsOf hextra _ _ h).bind fun _ hitems => (Takes.mark closer e).keeps.bind fun _ hfinal =>
    pure (List.forall_mem_append.mpr ⟨hitems, fun c hc => hextra c (hfinal c hc)⟩)

theorem itemsUntil {item : Parser Tree} (closer : String) (e : Expect)
    (h : Keeps text (Tree.Sound text) item) :
    Keeps text (AllSound text) (Parser.itemsUntil closer item e) :=
  itemsUntilOf (fun _ => IsExtra.sound) closer e h

end Keeps

/-! ### Closing parentheses -/

namespace Closes

theorem mark (e : Expect) : Closes text (Parser.mark ")" e) := by
  intro s hs cs s' h
  obtain ⟨hword, -, hlast⟩ := mark_eq_done h
  have hspelled : s.ahead.front.rest = [')'] ++ s.ahead.stop.rest := hs.spelled ")" hword
  have hbyte := hs.front.byte_eq hs.stop_isIn hspelled
  obtain ⟨before, htext, hbefore⟩ := hs.front
  refine ⟨before, s.ahead.stop.rest, hspelled ▸ htext, ?_⟩
  rw [hlast, hbyte, ← hbefore]
  rfl

theorem ite {c : Prop} [Decidable c] (hp : Closes text p) (hq : Closes text q) :
    Closes text (if c then p else q) := by
  split
  · exact hp
  · exact hq

theorem bind (hp : Keeps text P p) (hf : ∀ a, P a → Closes text (f a)) :
    Closes text (p >>= f) := by
  intro s hs b s'' h
  obtain ⟨a, s', hdone, hrest⟩ := bind_eq_done h
  obtain ⟨hleads, ha⟩ := hp s hs a s' hdone
  exact hf a ha s' hleads.fits b s'' hrest

theorem after (hp : Stays text P p) (hf : ∀ a, P a → Closes text (f a)) : Closes text (p >>= f) :=
  bind hp.keeps hf

/-- What takes no token comes behind the closing parenthesis. -/
theorem followed (hp : Closes text p) (hf : ∀ a s b s', f a s = .done b s' → s'.last = s.last) :
    Closes text (p >>= f) := by
  intro s hs b s'' h
  obtain ⟨a, s', hdone, hrest⟩ := bind_eq_done h
  rw [hf a s' b s'' hrest]
  exact hp s hs a s' hdone

theorem map {g : α → β} (hp : Closes text p) : Closes text (p >>= fun a => Pure.pure (g a)) :=
  hp.followed fun _ _ _ _ h => by rw [(pure_eq_done h).2]

theorem itemsUntil {item : Parser Tree} (e : Expect) (h : Keeps text (Tree.Sound text) item) :
    Closes text (Parser.itemsUntil ")" item e) :=
  bind (Keeps.moreItems _ _ h) fun _ _ => (mark e).map

theorem build {parts : Parser (Kind × List Tree)} (h : Closes text parts) :
    Closes text (Parser.build parts) := by
  intro s hs t s' hdone
  obtain ⟨k, cs, hparts, -⟩ := build_eq_done hdone
  exact h s hs _ s' hparts

theorem partAs {q : Parser Tree} (g : Field) (hq : Closes text q) :
    Closes text (Parser.partAs g q) := by
  intro s hs cs s' h
  obtain ⟨t, hdone, -⟩ := partAs_eq_done h
  exact hq _ (stays_extras s hs _ _ rfl).1 t s' hdone

end Closes

/-! ### What ends in time -/

/-- The trees end with the last token or before. -/
def AllHeld (text : List Char) (cs : List Tree) (s : State) : Prop :=
  ∀ t ∈ cs, EndsWithin text t.span.stop s.last.byte

theorem AllHeld.append {cs ds : List Tree} {s s' : State} (h : AllHeld text cs s)
    (hleads : s.Leads text s') (h' : AllHeld text ds s') : AllHeld text (cs ++ ds) s' := by
  refine List.forall_mem_append.mpr ⟨fun t ht => ?_, h'⟩
  obtain ⟨hle, hplace⟩ := h t ht
  exact ⟨hle.trans hleads.forward, hplace⟩

/-- What waits before a token ends before the token does. -/
theorem extras_held {s s' : State} (hs : s.Fits text) (hle : s.ahead.start.byte ≤ s'.last.byte) :
    AllHeld text s.extras s' :=
  fun t ht => ⟨(hs.laid.stop_le ht).trans hle, (hs.extras t ht).sound.stretch.stop⟩

theorem mark_held {word : String} {e : Expect} {s s' : State} {cs : List Tree} (hs : s.Fits text)
    (h : mark word e s = .done cs s') : s.Leads text s' ∧ AllHeld text cs s' := by
  obtain ⟨hleads, htaken, -⟩ := Takes.mark word e s hs cs s' h
  obtain ⟨-, rfl, -⟩ := mark_eq_done h
  exact ⟨hleads, extras_held hs htaken⟩

theorem Reads.part_held {p : Parser Tree} (hp : Reads text p) {s s' : State} {cs : List Tree}
    (hs : s.Fits text) (h : Parser.part p s = .done cs s') :
    s.Leads text s' ∧ AllHeld text cs s' := by
  obtain ⟨t, hdone, rfl⟩ := part_eq_done h
  obtain ⟨hleads, htaken, -, -, hstop, -⟩ := hp _ (stays_extras s hs _ _ rfl).1 t s' hdone
  refine ⟨hleads.of_last_eq rfl, List.forall_mem_append.mpr ⟨extras_held hs htaken, ?_⟩⟩
  intro u hu
  obtain rfl := List.mem_singleton.mp hu
  rw [hstop]
  exact hleads.fits.endsWithin (Nat.le_refl _)

theorem Reads.moreItems_held {item : Parser Tree} (e : Expect) (more : Token → Bool)
    (h : Reads text item) {s s' : State} {cs : List Tree} (hs : s.Fits text)
    (hdone : Parser.moreItems e more item s = .done cs s') :
    s.Leads text s' ∧ AllHeld text cs s' := by
  obtain ⟨⟨items, goesOn⟩, _, hloop, hrest⟩ := bind_eq_done hdone
  obtain ⟨rfl, rfl⟩ := pure_eq_done hrest
  refine loop_eq_done (I := fun x s₁ => s.Leads text s₁ ∧ AllHeld text x.1 s₁)
    ?_ ⟨hs.leads, fun _ h => absurd h List.not_mem_nil⟩ hloop
  rintro ⟨acc, goesOn⟩ s₁ ⟨hleads, hheld⟩ o s₂ hstep
  cases goesOn with
  | false =>
      obtain ⟨rfl, rfl⟩ := pure_eq_done hstep
      exact ⟨hleads, hheld⟩
  | true =>
      obtain ⟨comma, s₃, hcomma, hrest⟩ := bind_eq_done hstep
      rcases mark?_eq_done hcomma with ⟨-, rfl, rfl⟩ | ⟨comma, rfl, hmark⟩
      · obtain ⟨rfl, rfl⟩ := pure_eq_done hrest
        exact ⟨hleads, hheld⟩
      · obtain ⟨hleads₃, hcomma⟩ := mark_held hleads.fits hmark
        have hheld₃ := hheld.append hleads₃ hcomma
        obtain ⟨_, _, hpeek, hrest⟩ := bind_eq_done hrest
        cases hpeek
        split at hrest
        · obtain ⟨ts, s₄, hitem, hpure⟩ := bind_eq_done hrest
          obtain ⟨rfl, rfl⟩ := pure_eq_done hpure
          obtain ⟨hleads₄, hheld₄⟩ := h.part_held hleads₃.fits hitem
          exact ⟨(hleads.trans hleads₃).trans hleads₄, hheld₃.append hleads₄ hheld₄⟩
        · obtain ⟨rfl, rfl⟩ := pure_eq_done hrest
          exact ⟨hleads.trans hleads₃, hheld₃⟩

/-! ### Trees one after the other -/

/-- The reader goes forward, and its trees lie one after the other up to the last token that it
takes, the first of them where what waits before the token ahead may lie. -/
def Lays (text : List Char) (p : Parser (List Tree)) : Prop :=
  ∀ s, s.Fits text → ∀ lo, AreLaid lo s.extras s.ahead.start.byte → ∀ cs s', p s = .done cs s' →
    s.Leads text s' ∧ AreLaid lo cs s'.last.byte

namespace Lays

theorem mark (word : String) (e : Expect) : Lays text (Parser.mark word e) := by
  intro s hs lo hlo cs s' h
  obtain ⟨hleads, htaken, -⟩ := Takes.mark word e s hs cs s' h
  obtain ⟨-, rfl, -⟩ := mark_eq_done h
  exact ⟨hleads, hlo.mono_right htaken⟩

theorem part {p : Parser Tree} (hp : Reads text p) : Lays text (Parser.part p) := by
  intro s hs lo hlo cs s' h
  obtain ⟨t, hdone, rfl⟩ := part_eq_done h
  obtain ⟨hleads, htaken, -, hstart, hstop, -⟩ := hp _ (stays_extras s hs _ _ rfl).1 t s' hdone
  refine ⟨hleads.of_last_eq rfl, hlo.append ⟨?_, ?_, ?_⟩⟩
  · exact Nat.le_of_eq hstart.symm
  · rw [hstart, hstop]
    exact htaken
  · exact Nat.le_of_eq hstop

end Lays

end Parser

end Plumbline.Syntax
