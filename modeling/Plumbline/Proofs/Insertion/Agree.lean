/-
Readers that agree.

Two readers agree if from states that stand alike both fail, or both come to states that stand alike
and their answers correspond, with every new comment either in the answer or still to be taken.  How
much of the source is left bounds every repetition and all nesting: a step of a loop takes something,
and so does a construct before the constructs nested in it.  Each way of putting readers together
keeps their agreement.
-/
import Plumbline.Proofs.Insertion.State

namespace Plumbline.Syntax

/-- How much of the text is left from the token ahead on. -/
def State.left (s : State) : Nat := s.ahead.front.rest.length

/-- Whatever token. -/
def Any (_ : Token) : Prop := True

/-- Whatever the answer, or never. -/
def const {α : Type} (b : Bool) (_ : α) (_ : Token) : Bool := b

/-- Where a loop goes on. -/
def goes {α : Type} (o : Option α) (_ : Token) : Bool := o.isSome

/-- One reader after another. -/
theorem Parser.bind_apply {α β : Type} (p : Parser α) (f : α → Parser β) (s : State) :
    (p >>= f) s = match p s with
      | .done a s' => f a s'
      | .failed r => .failed r := rfl

namespace CommentPlace

variable {i : CommentPlace} {α β : Type}

/-- How two readers end that started with `m` new comments to be taken and `c` taken before: if they
end, each new comment is in the answer or still to be taken.  `d` tells for which answers and before
which tokens something of the text has been taken. -/
inductive Ends (i : CommentPlace) (m c : Nat) (d : α → Token → Bool) (R : Nat → α → α → Prop) (left : Nat) :
    Outcome α → Outcome α → Prop where
  | failed {r r' : Position} : Ends i m c d R left (.failed r) (.failed r')
  | done {n m₁ : Nat} {a a' : α} {s₁ s₁' : State} (hR : R n a a') (halike : i.Alike m₁ s₁ s₁')
      (hcount : c + m = n + m₁) (hle : s₁.left ≤ left) (hlt : d a s₁.token = true → s₁.left < left) :
      Ends i m c d R left (.done a s₁) (.done a' s₁')

/-- From states that stand alike with less than `L` left, with nothing before the token ahead if `q`
says so, and a token ahead that is as `T` says, the readers end alike. -/
def Agree (i : CommentPlace) (L : Nat) (q : Bool) (T : Token → Prop) (d : α → Token → Bool) (c : Nat)
    (R : Nat → α → α → Prop) (p p' : Parser α) : Prop :=
  ∀ (m : Nat) (s s' : State), i.Alike m s s' → s.left < L →
    (q = true → s.extras = [] ∧ s'.extras = []) → T s.token → i.Ends m c d R s.left (p s) (p' s')

/-- The readers look ahead only, and their answers correspond. -/
def Look (i : CommentPlace) (L : Nat) (q : Bool) (T : Token → Prop) (R : α → α → Prop)
    (p p' : Parser α) : Prop :=
  ∀ (m : Nat) (s s' : State), i.Alike m s s' → s.left < L →
    (q = true → s.extras = [] ∧ s'.extras = []) → T s.token →
      ∃ a a', p s = .done a s ∧ p' s' = .done a' s' ∧ R a a'

variable {L L' m n c : Nat} {q : Bool} {T : Token → Prop} {d : α → Token → Bool} {b : Bool}
  {R : Nat → α → α → Prop} {S : Nat → β → β → Prop} {p p' : Parser α} {f f' : α → Parser β}
  {s s' : State}

/-! ### States -/

theorem Alike.withReach (h : i.Alike m s s') (r r' : Position) :
    i.Alike m { s with reach := r } { s' with reach := r' } := by
  obtain ⟨hahead, hlast, hwidths, hformat, hread, hsize, hsize'⟩ := h
  refine ⟨?_, hlast, hwidths, hformat, hread, hsize, hsize'⟩
  cases hahead with
  | early h hextras => exact .early h hextras
  | late h hextras hwritten => exact .late h hextras hwritten

/-- What waits before the token ahead is taken; the new comment waits before no end of the text. -/
theorem Alike.extras (h : i.Alike m s s') : ∃ n m₁, i.AreMoved n s.extras s'.extras ∧
    i.Alike m₁ { s with extras := [] } { s' with extras := [] } ∧ m = n + m₁ ∧
    (0 < n → s.token ≠ .endOfText) := by
  obtain ⟨hahead, hlast, hwidths, hformat, hread, hsize, hsize'⟩ := h
  cases hahead with
  | early h hextras =>
      exact ⟨0, 1, hextras, ⟨.early h .nil, hlast, hwidths, hformat, hread, hsize, hsize'⟩, rfl,
        fun h => absurd h (Nat.lt_irrefl 0)⟩
  | late h hextras hwritten =>
      exact ⟨m, 0, hextras, ⟨.late h .nil fun h => absurd h (Nat.lt_irrefl 0), hlast, hwidths,
        hformat, hread, hsize, hsize'⟩, rfl, fun h => (hwritten h).2⟩

/-- Where nothing waits before the token ahead, the new comment is still to come or taken. -/
theorem Alike.of_clean (h : i.Alike m s s') (hclean : s.extras = [] ∧ s'.extras = []) :
    (m = 1 ∧ i.EarlyPair s.ahead s'.ahead) ∨ m = 0 ∧ i.LatePair s.ahead s'.ahead := by
  cases h.ahead with
  | early h _ => exact Or.inl ⟨rfl, h⟩
  | late hpair hextras _ =>
      rw [hclean.1, hclean.2] at hextras
      cases hextras
      exact Or.inr ⟨rfl, hpair⟩

theorem Ends.imp {left : Nat} {R' : Nat → α → α → Prop} {d' : α → Token → Bool} {o o' : Outcome α}
    (h : i.Ends m c d R left o o') (hR : ∀ n a a', R n a a' → R' n a a')
    (hd : ∀ a t, d' a t = true → d a t = true) : i.Ends m c d' R' left o o' := by
  cases h with
  | failed => exact .failed
  | done hr halike hcount hle hlt => exact .done (hR _ _ _ hr) halike hcount hle fun h => hlt (hd _ _ h)

/-! ### Steps -/

namespace Agree

theorem weaken {T' : Token → Prop} {q' : Bool} (h : i.Agree L q T d c R p p')
    (hq : q = true → q' = true) (hT : ∀ t, T' t → T t) : i.Agree L q' T' d c R p p' :=
  fun m s s' halike hleft hclean ht => h m s s' halike hleft (fun h => hclean (hq h)) (hT _ ht)

theorem of_le (h : i.Agree L' q T d c R p p') (hle : L ≤ L') : i.Agree L q T d c R p p' :=
  fun m s s' halike hleft hclean ht => h m s s' halike (hleft.trans_le hle) hclean ht

theorem imp {R' : Nat → α → α → Prop} (h : i.Agree L q T d c R p p')
    (hR : ∀ n a a', R n a a' → R' n a a') : i.Agree L q T d c R' p p' :=
  fun m s s' halike hleft hclean ht => (h m s s' halike hleft hclean ht).imp hR fun _ _ h => h

/-- Taking something is more than may be asked. -/
theorem drop (h : i.Agree L q T (const true) c R p p') : i.Agree L q T d c R p p' :=
  fun m s s' halike hleft hclean ht =>
    (h m s s' halike hleft hclean ht).imp (fun _ _ _ h => h) fun _ _ _ => rfl

theorem pure {a a' : α} (h : R c a a') : i.Agree L q T (const false) c R (Pure.pure a) (Pure.pure a') :=
  fun _ _ _ halike _ _ _ => .done h halike rfl (Nat.le_refl _) nofun

/-- A part that is missing. -/
theorem noParts : i.Agree L q T (const false) 0 i.AreMoved (Pure.pure []) (Pure.pure []) := pure .nil

theorem fail : i.Agree L q T d c R Parser.fail Parser.fail :=
  fun _ _ _ _ _ _ _ => .failed

theorem failAhead : i.Agree L q T d c R Parser.failAhead Parser.failAhead :=
  fun _ _ _ _ _ _ _ => .failed

theorem fail_bind {d : β → Token → Bool} : i.Agree L q T d c S (Parser.fail >>= f) (Parser.fail >>= f') :=
  fun _ _ _ _ _ _ _ => .failed

theorem pure_bind {a a' : α} {d : β → Token → Bool} (h : i.Agree L q T d c S (f a) (f' a')) :
    i.Agree L q T d c S (Pure.pure a >>= f) (Pure.pure a' >>= f') := h

theorem ite {P : Prop} [Decidable P] {g g' : Parser α} (h : P → i.Agree L q T d c R p p')
    (h' : ¬P → i.Agree L q T d c R g g') :
    i.Agree L q T d c R (if P then p else g) (if P then p' else g') := by
  split
  · exact h ‹_›
  · exact h' ‹_›

/-- What follows a reader goes on from where that ends. -/
theorem ends_bind {d' : α → Token → Bool} {d : β → Token → Bool} {c₁ : Nat}
    (hp : i.Ends m c₁ d' R s.left (p s) (p' s'))
    (hf : ∀ {n m₁ a a' s₁ s₁'}, R n a a' → i.Alike m₁ s₁ s₁' → s₁.left ≤ s.left →
      (d' a s₁.token = true → s₁.left < s.left) →
      ∃ d₁, i.Ends m₁ (n + c) d₁ S s₁.left (f a s₁) (f' a' s₁') ∧
        ∀ (b : β) (s₂ : State), d b s₂.token = true → s₂.left ≤ s₁.left →
          (d₁ b s₂.token = true → s₂.left < s₁.left) → s₂.left < s.left) :
    i.Ends m (c₁ + c) d S s.left ((p >>= f) s) ((p' >>= f') s') := by
  rw [Parser.bind_apply, Parser.bind_apply]
  generalize p s = o at hp
  generalize p' s' = o' at hp
  cases hp with
  | failed => exact .failed
  | done hr halike hcount hle hlt =>
      obtain ⟨d₁, hends, hd₁⟩ := hf hr halike hle hlt
      dsimp only
      generalize f _ _ = o at hends
      generalize f' _ _ = o' at hends
      cases hends with
      | failed => exact .failed
      | done hs halike' hcount' hle' hlt' =>
          exact .done hs halike' (by omega) (hle'.trans hle) fun h => hd₁ _ _ h hle' hlt'

/-- One reader after another, where the first one goes on from something that has been read. -/
theorem bindFrom {d : β → Token → Bool} {c₁ : Nat} (hp : i.Agree L q T (const false) c₁ R p p')
    (hf : ∀ n a a', R n a a' → i.Agree L false Any d (n + c) S (f a) (f' a')) :
    i.Agree L q T d (c₁ + c) S (p >>= f) (p' >>= f') := by
  intro m s s' halike hleft hclean ht
  refine ends_bind (hp m s s' halike hleft hclean ht) fun hr halike hle _ => ⟨d, ?_, ?_⟩
  · exact hf _ _ _ hr _ _ _ halike (hle.trans_lt hleft) nofun trivial
  · exact fun b s₂ hb _ hlt => (hlt hb).trans_le hle

/-- One reader after another. -/
theorem bind {d : β → Token → Bool} (hp : i.Agree L q T (const false) 0 R p p')
    (hf : ∀ n a a', R n a a' → i.Agree L false Any d (n + c) S (f a) (f' a')) :
    i.Agree L q T d c S (p >>= f) (p' >>= f') := by
  have hbind := hp.bindFrom hf
  rwa [Nat.zero_add] at hbind

/-- After a reader that takes something, for a step of a loop. -/
theorem next {d : β → Token → Bool} (hp : i.Agree L q T (const true) 0 R p p')
    (hf : ∀ n a a', R n a a' → i.Agree L false Any (const false) (n + c) S (f a) (f' a')) :
    i.Agree L q T d c S (p >>= f) (p' >>= f') := by
  intro m s s' halike hleft hclean ht
  rw [← Nat.zero_add c]
  refine ends_bind (hp m s s' halike hleft hclean ht) fun hr halike hle hlt => ⟨const false, ?_, ?_⟩
  · exact hf _ _ _ hr _ _ _ halike (hle.trans_lt hleft) nofun trivial
  · exact fun b s₂ _ hle' _ => hle'.trans_lt (hlt rfl)

/-- After a reader that takes something, where what follows needs less to be left. -/
theorem after {d : β → Token → Bool} (hp : i.Agree (L + 1) q T (const true) 0 R p p')
    (hf : ∀ n a a', R n a a' → i.Agree L false Any (const false) (n + c) S (f a) (f' a')) :
    i.Agree (L + 1) q T d c S (p >>= f) (p' >>= f') := by
  intro m s s' halike hleft hclean ht
  rw [← Nat.zero_add c]
  refine ends_bind (hp m s s' halike hleft hclean ht) fun hr halike hle hlt => ⟨const false, ?_, ?_⟩
  · exact hf _ _ _ hr _ _ _ halike ((hlt rfl).trans_le (Nat.le_of_lt_succ hleft)) nofun trivial
  · exact fun b s₂ _ hle' _ => hle'.trans_lt (hlt rfl)

/-- Looking ahead first. -/
theorem look {R : α → α → Prop} {d : β → Token → Bool} (hp : i.Look L q T R p p')
    (hf : ∀ a a', R a a' → i.Agree L q T d c S (f a) (f' a')) :
    i.Agree L q T d c S (p >>= f) (p' >>= f') := by
  intro m s s' halike hleft hclean ht
  obtain ⟨a, a', hdone, hdone', hr⟩ := hp m s s' halike hleft hclean ht
  rw [Parser.bind_apply, Parser.bind_apply, hdone, hdone']
  exact hf a a' hr m s s' halike hleft hclean ht

theorem peek {f f' : Token → Parser β} {d : β → Token → Bool}
    (hf : ∀ t, T t → i.Agree L q (· = t) d c S (f t) (f' t)) :
    i.Agree L q T d c S (Parser.peek >>= f) (Parser.peek >>= f') := by
  intro m s s' halike hleft hclean ht
  have hs' : (Parser.peek >>= f') s' = f' s.token s' := by
    rw [← halike.ahead.token]
    rfl
  rw [hs']
  exact hf s.token ht m s s' halike hleft hclean rfl

theorem orElse {g g' : Parser α} (hp : i.Agree L q T d c R p p') (hg : i.Agree L q T d c R g g') :
    i.Agree L q T d c R (Parser.orElse p g) (Parser.orElse p' g') := by
  intro m s s' halike hleft hclean ht
  have hends := hp m s s' halike hleft hclean ht
  unfold Parser.orElse
  generalize p s = o at hends
  generalize p' s' = o' at hends
  cases hends with
  | done hr halike hcount hle hlt => exact .done hr halike hcount hle hlt
  | @failed r r' =>
      have hends := hg m _ _ (halike.withReach (State.farther s.reach r) (State.farther s'.reach r')) hleft
        hclean ht
      exact hends

/-- After a reader that answers nothing new. -/
theorem thenGo {d : β → Token → Bool} (hp : i.Agree L q T (const false) 0 (fun n _ _ => n = 0) p p')
    (hf : ∀ a a', i.Agree L false Any d c S (f a) (f' a')) :
    i.Agree L q T d c S (p >>= f) (p' >>= f') := by
  refine hp.bind fun n a a' hn => ?_
  rw [hn, Nat.zero_add]
  exact hf a a'

theorem overNext {d : β → Token → Bool} (hp : i.Agree L q T (const true) 0 (fun n _ _ => n = 0) p p')
    (hf : ∀ a a', i.Agree L false Any (const false) c S (f a) (f' a')) :
    i.Agree L q T d c S (p >>= f) (p' >>= f') := by
  refine hp.next fun n a a' hn => ?_
  rw [hn, Nat.zero_add]
  exact hf a a'

theorem overAfter {d : β → Token → Bool}
    (hp : i.Agree (L + 1) q T (const true) 0 (fun n _ _ => n = 0) p p')
    (hf : ∀ a a', i.Agree L false Any (const false) c S (f a) (f' a')) :
    i.Agree (L + 1) q T d c S (p >>= f) (p' >>= f') := by
  refine hp.after fun n a a' hn => ?_
  rw [hn, Nat.zero_add]
  exact hf a a'

theorem extrasBefore {f f' : List Tree → Parser β} {d : β → Token → Bool}
    (hf : ∀ n cs ds, i.AreMoved n cs ds →
      i.Agree L true (fun t => T t ∧ (0 < n → t ≠ .endOfText)) d (n + c) S (f cs) (f' ds)) :
    i.Agree L q T d c S (Parser.extras >>= f) (Parser.extras >>= f') := by
  intro m s s' halike hleft hclean ht
  obtain ⟨n, m₁, hextras, halike', hm, hend⟩ := halike.extras
  have hends := hf n _ _ hextras m₁ { s with extras := [] } { s' with extras := [] } halike' hleft
    (fun _ => ⟨rfl, rfl⟩) ⟨ht, hend⟩
  have hbind : ∀ (f : List Tree → Parser β) s,
      (Parser.extras >>= f) s = f s.extras { s with extras := [] } := fun _ _ => rfl
  rw [hbind, hbind]
  generalize f _ _ = o at hends ⊢
  generalize f' _ _ = o' at hends ⊢
  cases hends with
  | failed => exact .failed
  | done hr halike hcount hle hlt => exact .done hr halike (by omega) hle hlt

theorem extras {f f' : List Tree → Parser β} {d : β → Token → Bool}
    (hf : ∀ n cs ds, i.AreMoved n cs ds → i.Agree L true T d (n + c) S (f cs) (f' ds)) :
    i.Agree L q T d c S (Parser.extras >>= f) (Parser.extras >>= f') :=
  extrasBefore fun n cs ds h => (hf n cs ds h).weaken id fun _ ht => ht.1

end Agree

/-! ### Taking tokens -/

/-- The token opens a literal. -/
def opensQuote : Token → Bool
  | .quote _ => true
  | _ => false

/-- The token is a mark that is written with at least one character. -/
def Spells (t : Token) : Prop := ∃ word, t.isMark word = true ∧ word.toList ≠ []

theorem opensQuote_of_isMark {t : Token} {word : String} (h : t.isMark word = true) :
    opensQuote t = false := by
  cases t <;> first | rfl | simp [Token.isMark] at h

theorem spells_of_isOneOf {t : Token} {words : List String} (h : Grammar.isOneOf t words = true)
    (hwords : ∀ word ∈ words, word.toList ≠ []) : Spells t := by
  obtain ⟨word, hword, hmark⟩ := List.any_eq_true.mp h
  exact ⟨word, hmark, hwords word hword⟩

theorem Spells.opensQuote {t : Token} (h : Spells t) : opensQuote t = false := by
  obtain ⟨word, hmark, -⟩ := h
  exact opensQuote_of_isMark hmark

theorem length_stop_le (h : i.Alike m s s') : s.ahead.stop.rest.length ≤ s.left := by
  obtain ⟨c, hcomes⟩ := h.comes
  obtain ⟨n, hstop⟩ := hcomes.stop
  rw [hstop, Cursor.rest_advance, List.length_drop]
  exact Nat.sub_le _ _

theorem length_stop_lt_left (h : i.Alike m s s') (hs : Spells s.token) :
    s.ahead.stop.rest.length < s.left := by
  obtain ⟨word, hmark, hword⟩ := hs
  obtain ⟨c, hcomes⟩ := h.comes
  rw [State.left, hcomes.spelled word hmark, List.length_append]
  exact Nat.lt_add_of_pos_left (List.length_pos_iff.mpr hword)

/-- Behind the token ahead, unless it opens a literal, the states are alike again. -/
theorem Alike.behind (h : i.Alike m s s') (hclean : s.extras = [] ∧ s'.extras = [])
    (hquote : CommentPlace.opensQuote s.token = false) (e : Expect) :
    i.Alike m (State.resume e s.ahead.stop { s with last := s.ahead.stop.pos, extras := [] })
        (State.resume e s'.ahead.stop { s' with last := s'.ahead.stop.pos, extras := [] }) ∧
      (State.resume e s.ahead.stop { s with last := s.ahead.stop.pos, extras := [] }).left ≤
        s.ahead.stop.rest.length := by
  rcases h.of_clean hclean with ⟨rfl, hpair⟩ | ⟨rfl, hpair⟩
  · obtain ⟨rest, hrest, hstop⟩ := hpair.stop (by
      intro q hq
      rw [State.token, hq] at hquote
      exact absurd hquote.symm Bool.false_ne_true)
    have hlevel : i.Abreast { s with last := s.ahead.stop.pos, extras := [] }
        { s' with last := s'.ahead.stop.pos, extras := [] } :=
      ⟨hstop.moveStop, h.widths, h.inFormat, h.size, h.size'⟩
    exact hlevel.resume_early e hrest hstop
  · have hlevel : i.Abreast { s with last := s.ahead.stop.pos, extras := [] }
        { s' with last := s'.ahead.stop.pos, extras := [] } :=
      ⟨hpair.stop.moveStop hpair.past, h.widths, h.inFormat, h.size, h.size'⟩
    exact hlevel.resume_late e hpair.stop hpair.past

/-- A star is an operator, and it is written with one star or two. -/
theorem front_of_isStar (h : i.Alike m s s') (hstar : s.token.isStar = true) :
    ∃ w, (w = ['*'] ∨ w = ['*', '*']) ∧ s.ahead.front.rest = w ++ s.ahead.stop.rest := by
  obtain ⟨c, hcomes⟩ := h.comes
  have hspelled := hcomes.spelled
  generalize hahead : s.ahead.token = t at hspelled
  rw [State.token, hahead] at hstar
  cases t with
  | op text =>
      simp only [Token.isStar, Bool.or_eq_true, beq_iff_eq] at hstar
      refine ⟨text.toList, ?_, hspelled text (by simp [Token.isMark])⟩
      rcases hstar with rfl | rfl
      · exact Or.inl rfl
      · exact Or.inr rfl
  | _ => exact absurd hstar Bool.false_ne_true

/-- Behind its first star a token above the new line leaves whole tokens. -/
theorem EarlyPair.first {l l' : Lexeme} (h : i.EarlyPair l l') (hstar : l.token.isStar = true)
    {w : List Char} (hw : w = ['*'] ∨ w = ['*', '*']) (hspelled : l.front.rest = w ++ l.stop.rest) :
    ∃ rest, Tokens rest ∧ i.IsEarly rest (l.front.advance 1) (l'.front.advance 1) := by
  cases h with
  | mark ht hrest h =>
      rename_i t _ _ _
      cases t <;> first | exact absurd hstar Bool.false_ne_true | exact absurd ht Bool.false_ne_true
  | literal => exact absurd hstar Bool.false_ne_true
  | @word v rest c c' hv hdouble hrest h =>
      have hsame : v = w := by
        have hfront := h.rest
        rw [hspelled, h.advance.rest, List.append_assoc] at hfront
        exact (List.append_cancel_right hfront).symm
      subst hsame
      rcases hw with rfl | rfl
      · exact ⟨rest, hrest, h.advance⟩
      · exact ⟨'*' :: rest, hdouble rfl, h.advance (w := ['*'])⟩

/-- Behind the star that the token ahead starts with, the states are alike again. -/
theorem Alike.behindFirst (h : i.Alike m s s') (hclean : s.extras = [] ∧ s'.extras = [])
    (hstar : s.token.isStar = true) (e : Expect) :
    i.Alike m (State.resume e (s.ahead.front.advance 1)
          { s with last := (s.ahead.front.advance 1).pos, extras := [] })
        (State.resume e (s'.ahead.front.advance 1)
          { s' with last := (s'.ahead.front.advance 1).pos, extras := [] }) ∧
      (State.resume e (s.ahead.front.advance 1)
        { s with last := (s.ahead.front.advance 1).pos, extras := [] }).left < s.left := by
  obtain ⟨w, hw, hspelled⟩ := front_of_isStar h hstar
  have hrest : s.ahead.front.rest ≠ [] := by
    rw [hspelled]
    rcases hw with rfl | rfl <;> simp
  have hshort : (s.ahead.front.advance 1).rest.length < s.left := by
    rw [Cursor.rest_advance, List.length_drop]
    exact Nat.sub_lt (List.length_pos_iff.mpr hrest) Nat.one_pos
  rcases h.of_clean hclean with ⟨rfl, hpair⟩ | ⟨rfl, hpair⟩
  · obtain ⟨rest, htokens, hstop⟩ := hpair.first hstar hw hspelled
    have hlevel : i.Abreast { s with last := (s.ahead.front.advance 1).pos, extras := [] }
        { s' with last := (s'.ahead.front.advance 1).pos, extras := [] } :=
      ⟨hstop.moveStop, h.widths, h.inFormat, h.size, h.size'⟩
    obtain ⟨halike, hle⟩ := hlevel.resume_early e htokens hstop
    exact ⟨halike, hle.trans_lt hshort⟩
  · have hlate := hpair.front.advance 1
    have hpast : i.start < (s.ahead.front.advance 1).pos.byte :=
      hpair.front.byte.trans_lt (byte_lt_advance Nat.one_pos hrest)
    have hlevel : i.Abreast { s with last := (s.ahead.front.advance 1).pos, extras := [] }
        { s' with last := (s'.ahead.front.advance 1).pos, extras := [] } :=
      ⟨hlate.moveStop hpast, h.widths, h.inFormat, h.size, h.size'⟩
    obtain ⟨halike, hle⟩ := hlevel.resume_late e hlate hpast
    exact ⟨halike, hle.trans_lt hshort⟩

/-- As much is left as the text has, at most. -/
theorem Alike.left_le (h : i.Alike m s s') : s.left ≤ s.size ∧ s.size ≤ s'.size := by
  have hsize : i.source.length ≤ i.outcome.length := by
    simp only [source, outcome, List.length_append]
    omega
  rw [h.size, h.size']
  refine ⟨?_, hsize⟩
  cases h.ahead with
  | early h _ =>
      obtain ⟨rest, -, hfront⟩ := h.front
      exact hfront.length_le.1
  | late h _ _ => exact h.front.length_le.1

/-! ### Answers -/

/-- As parts of a construct they make a moved one. -/
def Parts (i : CommentPlace) (n : Nat) (x y : Kind × List Tree) : Prop :=
  ∀ s, i.IsMoved n (.node x.1 none s x.2) (.node y.1 none (i.moveSpan s) y.2)

theorem Parts.node {k : Kind} {cs ds : List Tree} (hk : isPlain k = true)
    (h : i.AreMoved n cs ds) : i.Parts n (k, cs) (k, ds) :=
  fun _ => .node hk h

theorem Parts.first {k : Kind} {t u : Tree} {cs ds : List Tree} (hk : (k != .listSplat) = true)
    (ht : i.IsMoved m t u) (h : i.AreMoved n cs ds) (hcount : c = n + m) :
    i.Parts c (k, t :: cs) (k, u :: ds) :=
  fun _ => hcount ▸ .first hk ht h

/-- Moved trees, the last of which is no comment. -/
inductive IsTail (i : CommentPlace) : Nat → List Tree → List Tree → Prop where
  | mk {m n : Nat} {cs ds : List Tree} {t u : Tree} (h : i.AreMoved m cs ds) (ht : i.IsMoved n t u) :
      IsTail i (n + m) (cs ++ [t]) (ds ++ [u])

section IsTail

variable {cs ds cs' ds' : List Tree}

theorem IsTail.moved (h : i.IsTail n cs ds) : i.AreMoved n cs ds := by
  cases h with
  | mk h ht => exact h.concat ht

theorem IsTail.ne_nil (h : i.IsTail n cs ds) : cs ≠ [] := by
  cases h with
  | mk h ht => simp

theorem IsTail.prepend (h : i.AreMoved m cs ds) (h' : i.IsTail n cs' ds') :
    i.IsTail (n + m) (cs ++ cs') (ds ++ ds') := by
  cases h' with
  | mk h' ht =>
      rw [← List.append_assoc, ← List.append_assoc, Nat.add_assoc]
      exact .mk (h.append h') ht

theorem IsTail.parts (h : i.IsTail n cs ds) : i.Parts n (.listSplat, cs) (.listSplat, ds) := by
  cases h with
  | mk h ht => exact fun _ => .last h ht

end IsTail

/-- A step of a loop goes on, or it ends the loop and takes nothing that counts. -/
inductive Next (c : Nat) (R : Nat → α → α → Prop) : Nat → Option α → Option α → Prop where
  | goOn {n : Nat} {a a' : α} (h : R n a a') : Next c R n (some a) (some a')
  | stop : Next c R c none none

namespace Agree

/-- Taking a token; `b` says whether it is one that is written with characters. -/
theorem shiftOf (e : Expect) (hquote : ∀ t, T t → CommentPlace.opensQuote t = false)
    (hspells : b = true → ∀ t, T t → Spells t) :
    i.Agree L true T (const b) 0 (fun n _ _ => n = 0) (Parser.shift e) (Parser.shift e) := by
  intro m s s' halike hleft hclean ht
  obtain ⟨halike', hle⟩ := halike.behind (hclean rfl) (hquote _ ht) e
  exact .done rfl halike' rfl (hle.trans (length_stop_le halike))
    fun hb => hle.trans_lt (length_stop_lt_left halike (hspells hb _ ht))

theorem shift (e : Expect) (hquote : ∀ t, T t → CommentPlace.opensQuote t = false) :
    i.Agree L true T (const false) 0 (fun n _ _ => n = 0) (Parser.shift e) (Parser.shift e) :=
  shiftOf e hquote fun h => absurd h Bool.false_ne_true

theorem takesShift (e : Expect) (hspells : ∀ t, T t → Spells t) :
    i.Agree L true T (const true) 0 (fun n _ _ => n = 0) (Parser.shift e) (Parser.shift e) :=
  shiftOf e (fun t ht => (hspells t ht).opensQuote) fun _ => hspells

theorem leafOf {k : Kind} (hk : isPlain k = true) (e : Expect)
    (hquote : ∀ t, T t → CommentPlace.opensQuote t = false)
    (hspells : b = true → ∀ t, T t → Spells t) :
    i.Agree L true T (const b) 0 i.IsMoved (Parser.leaf k e) (Parser.leaf k e) := by
  intro m s s' halike hleft hclean ht
  obtain ⟨halike', hle⟩ := halike.behind (hclean rfl) (hquote _ ht) e
  have hlast' := halike'.last
  rw [State.last_resume, State.last_resume] at hlast'
  exact .done (isMoved_leaf hk halike.ahead.start hlast') halike' rfl
    (hle.trans (length_stop_le halike))
    fun hb => hle.trans_lt (length_stop_lt_left halike (hspells hb _ ht))

theorem leaf {k : Kind} (hk : isPlain k = true) (e : Expect)
    (hquote : ∀ t, T t → CommentPlace.opensQuote t = false) :
    i.Agree L true T (const false) 0 i.IsMoved (Parser.leaf k e) (Parser.leaf k e) :=
  leafOf hk e hquote fun h => absurd h Bool.false_ne_true

theorem takesLeaf {k : Kind} (hk : isPlain k = true) (e : Expect)
    (hspells : ∀ t, T t → Spells t) :
    i.Agree L true T (const true) 0 i.IsMoved (Parser.leaf k e) (Parser.leaf k e) :=
  leafOf hk e (fun t ht => (hspells t ht).opensQuote) fun _ => hspells

theorem mark (word : String) (e : Expect) :
    i.Agree L q T (const false) 0 i.AreMoved (Parser.mark word e) (Parser.mark word e) :=
  .peek fun _ _ => .ite (fun hmark => .extras fun _ _ _ h =>
    .thenGo (.shift e (forall_eq.mpr (opensQuote_of_isMark hmark))) fun _ _ => .pure h) fun _ => .fail

theorem takesMark (word : String) (e : Expect) (hword : word.toList ≠ []) :
    i.Agree L q T (const true) 0 i.AreMoved (Parser.mark word e) (Parser.mark word e) :=
  .peek fun _ _ => .ite (fun hmark => .extras fun _ _ _ h =>
    .overNext (.takesShift e (forall_eq.mpr ⟨word, hmark, hword⟩)) fun _ _ => .pure h) fun _ => .fail

/-- Taking only the star of a token that starts with one. -/
theorem shiftFirst (e : Expect) (hstar : ∀ t, T t → t.isStar = true) :
    i.Agree L true T (const true) 0 (fun n _ _ => n = 0) (Parser.shiftFirst e) (Parser.shiftFirst e) := by
  intro m s s' halike hleft hclean ht
  obtain ⟨halike', hlt⟩ := halike.behindFirst (hclean rfl) (hstar _ ht) e
  exact .done rfl halike' rfl hlt.le fun _ => hlt

/-! ### Constructs -/

/-- What is answered is put into something else. -/
theorem thenPure {g g' : α → β} (hp : i.Agree L q T (const b) 0 R p p')
    (hg : ∀ n a a', R n a a' → S (n + c) (g a) (g' a')) :
    i.Agree L q T (const b) c S (p >>= fun a => Pure.pure (g a)) (p' >>= fun a => Pure.pure (g' a)) := by
  cases b with
  | true => exact hp.next fun n a a' h => .pure (hg n a a' h)
  | false => exact hp.bind fun n a a' h => .pure (hg n a a' h)

/-- What is answered is put into something else, and as much has been taken. -/
theorem thenAnswer {e : Token → Bool} {g g' : α → β} (hp : i.Agree L q T (fun _ => e) 0 R p p')
    (hg : ∀ n a a', R n a a' → S (n + c) (g a) (g' a')) :
    i.Agree L q T (fun _ => e) c S (p >>= fun a => Pure.pure (g a)) (p' >>= fun a => Pure.pure (g' a)) := by
  intro m s s' halike hleft hclean ht
  have hends := hp m s s' halike hleft hclean ht
  rw [Parser.bind_apply, Parser.bind_apply]
  generalize p s = o at hends
  generalize p' s' = o' at hends
  cases hends with
  | failed => exact .failed
  | done hr halike hcount hle hlt => exact .done (hg _ _ _ hr) halike (by omega) hle hlt

theorem build {parts parts' : Parser (Kind × List Tree)}
    (h : i.Agree L q T (const b) c i.Parts parts parts') :
    i.Agree L q T (const b) c i.IsMoved (Parser.build parts) (Parser.build parts') := by
  intro m s s' halike hleft hclean ht
  have hends := h m s s' halike hleft hclean ht
  unfold Parser.build
  generalize parts s = o at hends
  generalize parts' s' = o' at hends
  cases hends with
  | failed => exact .failed
  | done hr halike' hcount hle hlt =>
      refine .done ?_ halike' hcount hle hlt
      rw [halike'.last, halike.ahead.start, between_move]
      exact hr _

theorem buildFrom {head head' : Span} {parts parts' : Parser (Kind × List Tree)}
    (hhead : head' = i.moveSpan head) (h : i.Agree L q T (const b) c i.Parts parts parts') :
    i.Agree L q T (const b) c i.IsMoved (Parser.buildFrom head parts)
      (Parser.buildFrom head' parts') := by
  intro m s s' halike hleft hclean ht
  have hends := h m s s' halike hleft hclean ht
  unfold Parser.buildFrom
  generalize parts s = o at hends
  generalize parts' s' = o' at hends
  cases hends with
  | failed => exact .failed
  | @done n m₁ a a' s₁ s₁' hr halike' hcount hle hlt =>
      have hspan : Span.mk (i.moveSpan head).start (i.moveStop s₁.last).byte (i.moveSpan head).line
          (i.moveSpan head).column =
            i.moveSpan ⟨head.start, s₁.last.byte, head.line, head.column⟩ := by
        rw [byte_moveStop]
        rfl
      refine .done ?_ halike' hcount hle hlt
      rw [halike'.last, hhead, hspan]
      exact hr _

theorem node {k : Kind} {parts parts' : Parser (List Tree)} (hk : isPlain k = true)
    (h : i.Agree L q T (const b) 0 i.AreMoved parts parts') :
    i.Agree L q T (const b) 0 i.IsMoved (Parser.node k parts) (Parser.node k parts') :=
  build (h.thenPure fun _ _ _ hparts => .node hk hparts)

theorem starNode {parts parts' : Parser (List Tree)} (h : i.Agree L q T (const b) 0 i.IsTail parts parts') :
    i.Agree L q T (const b) 0 i.IsMoved (Parser.node .listSplat parts) (Parser.node .listSplat parts') :=
  build (h.thenPure fun _ _ _ hparts => hparts.parts)

theorem extend {k : Kind} {first first' : Tree} {parts parts' : Parser (List Tree)}
    (hk : (k != .listSplat) = true) (hfirst : i.IsMoved c first first')
    (h : i.Agree L q T (const b) 0 i.AreMoved parts parts') :
    i.Agree L q T (const b) c i.IsMoved (Parser.extend k first parts) (Parser.extend k first' parts') :=
  buildFrom hfirst.span (h.thenPure fun _ _ _ hparts => .first hk hfirst hparts rfl)

theorem partTail {p p' : Parser Tree} (h : i.Agree L true T (const b) 0 i.IsMoved p p') :
    i.Agree L q T (const b) 0 i.IsTail (Parser.part p) (Parser.part p') :=
  .extras fun _ _ _ hbefore => h.thenPure fun _ _ _ ht => .mk hbefore ht

theorem part {p p' : Parser Tree} (h : i.Agree L true T (const b) 0 i.IsMoved p p') :
    i.Agree L q T (const b) 0 i.AreMoved (Parser.part p) (Parser.part p') :=
  h.partTail.imp fun _ _ _ h => h.moved

theorem partAsTail (f : Field) {p p' : Parser Tree} (h : i.Agree L true T (const b) 0 i.IsMoved p p') :
    i.Agree L q T (const b) 0 i.IsTail (Parser.partAs f p) (Parser.partAs f p') :=
  partTail (h.thenPure fun _ _ _ ht => ht.withField f)

theorem partAs (f : Field) {p p' : Parser Tree} (h : i.Agree L true T (const b) 0 i.IsMoved p p') :
    i.Agree L q T (const b) 0 i.AreMoved (Parser.partAs f p) (Parser.partAs f p') :=
  (h.partAsTail f).imp fun _ _ _ h => h.moved

/-! ### Repetitions -/

/-- A step of a loop goes on with what is answered. -/
theorem goOn (h : i.Agree L q T (const true) c R p p') :
    i.Agree L q T goes c (Next m R) (some <$> p) (some <$> p') := by
  intro m s s' halike hleft hclean ht
  have hends := h m s s' halike hleft hclean ht
  have hmap : ∀ (p : Parser α) s, (some <$> p) s = match p s with
      | .done a s' => .done (some a) s'
      | .failed r => .failed r := fun _ _ => rfl
  rw [hmap, hmap]
  generalize p s = o at hends
  generalize p' s' = o' at hends
  cases hends with
  | failed => exact .failed
  | done hr halike' hcount hle hlt => exact .done (.goOn hr) halike' hcount hle fun _ => hlt rfl

theorem stop : i.Agree L q T goes c (Next c R) (Pure.pure none) (Pure.pure none) :=
  fun _ _ _ halike _ _ _ => .done .stop halike rfl (Nat.le_refl _) nofun

/-- A mark that may be missing. -/
theorem option {p p' : Parser (Option α)} {f f' : Option α → Parser β} {d : β → Token → Bool}
    (hp : i.Agree L q T goes 0 (Next 0 R) p p')
    (hnone : i.Agree L false Any d c S (f none) (f' none))
    (hsome : ∀ n a a', R n a a' →
      i.Agree L false Any (const false) (n + c) S (f (some a)) (f' (some a'))) :
    i.Agree L q T d c S (p >>= f) (p' >>= f') := by
  intro m s s' halike hleft hclean ht
  rw [← Nat.zero_add c]
  refine ends_bind (hp m s s' halike hleft hclean ht) fun hr halike hle hlt => ?_
  cases hr with
  | goOn hr =>
      exact ⟨const false, hsome _ _ _ hr _ _ _ halike (hle.trans_lt hleft) nofun trivial,
        fun _ _ _ hle' _ => hle'.trans_lt (hlt rfl)⟩
  | stop =>
      rw [Nat.zero_add]
      exact ⟨d, hnone _ _ _ halike (hle.trans_lt hleft) nofun trivial,
        fun _ _ hd _ hlt' => (hlt' hd).trans_le hle⟩

theorem mark? (word : String) (e : Expect) (hword : word.toList ≠ []) :
    i.Agree L q T goes 0 (Next 0 i.AreMoved) (Parser.mark? word e) (Parser.mark? word e) :=
  .peek fun _ _ => .ite (fun _ => (takesMark word e hword).goOn) fun _ => .stop

/-- What is taken does not have to be told. -/
theorem forget (h : i.Agree L q T d c R p p') : i.Agree L q T (const false) c R p p' :=
  fun m s s' halike hleft hclean ht => (h m s s' halike hleft hclean ht).imp (fun _ _ _ h => h) nofun

/-- A mark that may be missing, as parts. -/
theorem maybe (word : String) (e : Expect) (hword : word.toList ≠ []) :
    i.Agree L q T (const false) 0 (fun n o o' => i.AreMoved n (o.getD []) (o'.getD []))
      (Parser.mark? word e) (Parser.mark? word e) :=
  (mark? word e hword).forget.imp fun _ _ _ h => by
    cases h with
    | goOn h => exact h
    | stop => exact .nil

/-- Each step that goes on lowers `μ`, so the readers take the same steps. -/
theorem loopFor (μ : State → Nat) {step step' : α → Parser (Option α)}
    (hstep : ∀ {n m a a' s s'}, R n a a' → i.Alike m s s' → s.left < L →
      i.Ends m n (const false) (Next n R) s.left (step a s) (step' a' s') ∧
        ∀ b s₁, step a s = .done (some b) s₁ → μ s₁ < μ s)
    (fuel fuel' : Nat) {m c : Nat} {a a' : α} {s s' : State} (ha : R c a a') (h : i.Alike m s s')
    (hleft : s.left < L) (hfuel : μ s < fuel) (hfuel' : μ s < fuel') :
    i.Ends m c (const false) R s.left (Parser.loopFor step fuel a s) (Parser.loopFor step' fuel' a' s') := by
  induction fuel generalizing fuel' m c a a' s s' with
  | zero => exact absurd hfuel (Nat.not_lt_zero _)
  | succ fuel ih =>
      obtain ⟨fuel', rfl⟩ := Nat.exists_eq_succ_of_ne_zero (Nat.ne_zero_of_lt hfuel')
      obtain ⟨hends, hlower⟩ := hstep ha h hleft
      have hunfold : ∀ (step : α → Parser (Option α)) fuel a s, Parser.loopFor step (fuel + 1) a s =
          match step a s with
          | .done (some b) s' => Parser.loopFor step fuel b s'
          | .done none s' => .done a s'
          | .failed r => .failed r := by
        intro step fuel a s
        simp only [Parser.loopFor, Bind.bind]
        cases step a s with
        | failed r => rfl
        | done o s' => cases o <;> rfl
      rw [hunfold, hunfold]
      generalize step a s = o at hends hlower
      generalize step' a' s' = o' at hends
      cases hends with
      | failed => exact .failed
      | done hr halike' hcount hle hlt =>
          cases hr with
          | stop => exact .done ha halike' hcount hle nofun
          | goOn hr =>
              have hless := hlower _ _ rfl
              have hrest := ih fuel' hr halike' (by omega) (by omega) (by omega)
              dsimp only
              generalize Parser.loopFor step fuel _ _ = o at hrest
              generalize Parser.loopFor step' fuel' _ _ = o' at hrest
              cases hrest with
              | failed => exact .failed
              | done hr halike hcount' hle' _ => exact .done hr halike (by omega) (hle'.trans hle) nofun

/-- A loop each step of which takes something. -/
theorem loop {step step' : α → Parser (Option α)} {a a' : α}
    (hstep : ∀ n a a', R n a a' →
      i.Agree L false Any goes n (Next n R) (step a) (step' a'))
    (ha : R c a a') : i.Agree L q T (const false) c R (Parser.loop step a) (Parser.loop step' a') := by
  intro m s s' halike hleft _ _
  have hsize := halike.left_le
  refine loopFor State.left (fun hr h hleft => ?_) _ _ ha halike hleft (by omega) (by omega)
  have hends := hstep _ _ _ hr _ _ _ h hleft nofun trivial
  refine ⟨hends.imp (fun _ _ _ h => h) nofun, fun b s₁ hdone => ?_⟩
  rw [hdone] at hends
  generalize step' _ _ = o' at hends
  cases hends with
  | done _ _ _ _ hlt => exact hlt rfl

/-! ### Lists -/

theorem anyToken (h : i.Agree L q Any d c R p p') : i.Agree L q T d c R p p' :=
  h.weaken id fun _ _ => trivial

theorem furtherItems {item item' : Parser Tree}
    (hitem : i.Agree L true Any (const false) 0 i.IsMoved item item') :
    i.Agree L q T (const false) 0 i.AreMoved (Parser.furtherItems item) (Parser.furtherItems item') :=
  .loop (fun _ _ _ hacc => .option (.mark? "," .operand (by decide)) .stop fun _ _ _ hcomma =>
    .thenPure hitem.part fun _ _ _ ht => .goOn ((hacc.append hcomma).append ht)) .nil

theorem moreItems (e : Expect) (more : Token → Bool) {item item' : Parser Tree}
    (hitem : i.Agree L true Any (const false) 0 i.IsMoved item item') :
    i.Agree L q T (const false) 0 i.AreMoved (Parser.moreItems e more item)
      (Parser.moreItems e more item') := by
  let R : Nat → List Tree × Bool → List Tree × Bool → Prop :=
    fun n x y => i.AreMoved n x.1 y.1 ∧ y.2 = x.2
  refine .thenPure (R := R) (.loop ?_ ⟨.nil, rfl⟩) fun _ _ _ h => h.1
  rintro n ⟨acc, goesOn⟩ ⟨acc', _⟩ ⟨hacc, rfl⟩
  refine .ite (fun _ => .stop) fun _ => .option (.mark? "," e (by decide)) .stop fun _ _ _ hcomma => ?_
  exact .peek fun t _ => .ite
    (fun _ => .thenPure hitem.anyToken.part fun _ _ _ ht => .goOn ⟨(hacc.append hcomma).append ht, rfl⟩)
    fun _ => .pure (.goOn ⟨hacc.append hcomma, rfl⟩)

theorem itemsUntil (closer : String) {item item' : Parser Tree}
    (hitem : i.Agree L true Any (const false) 0 i.IsMoved item item') (e : Expect) :
    i.Agree L q T (const false) 0 i.AreMoved (Parser.itemsUntil closer item e)
      (Parser.itemsUntil closer item' e) :=
  (moreItems _ _ hitem).bind fun _ _ _ hitems =>
    .thenPure (.mark closer e) fun _ _ _ hfinal => hitems.append hfinal

end Agree

/-! ### Looking ahead -/

namespace Look

theorem peekSecond (e : Expect) {t : Token} :
    i.Look L q (· = t) (fun second second' => opensQuote t = false → second' = second)
      (Parser.peekSecond e) (Parser.peekSecond e) := by
  intro m s s' halike _ _ ht
  refine ⟨_, _, rfl, rfl, fun hquote => ?_⟩
  obtain ⟨_, m₁, -, halike', -, -⟩ := halike.extras
  exact (halike'.behind ⟨rfl, rfl⟩ (ht ▸ hquote) e).1.ahead.token

theorem wouldRead (h : i.Agree L q T d c R p p') (next : Token → Bool) :
    i.Look L q T (fun reads reads' => reads' = reads) (Parser.wouldRead p next)
      (Parser.wouldRead p' next) := by
  intro m s s' halike hleft hclean ht
  have hends := h m s s' halike hleft hclean ht
  unfold Parser.wouldRead
  generalize p s = o at hends ⊢
  generalize p' s' = o' at hends ⊢
  cases hends with
  | failed => exact ⟨_, _, rfl, rfl, rfl⟩
  | done _ halike _ _ _ => exact ⟨_, _, rfl, rfl, by rw [halike.ahead.token]⟩

/-- Whatever would be read, nothing is taken. -/
theorem would (p p' : Parser α) (next : Token → Bool) :
    i.Look L q T (fun _ _ => True) (Parser.wouldRead p next) (Parser.wouldRead p' next) := by
  intro m s s' _ _ _ _
  unfold Parser.wouldRead
  cases p s <;> cases p' s' <;> exact ⟨_, _, rfl, rfl, trivial⟩

/-- Above the new line the text does not end, because a word comes below it. -/
theorem atTextEnd : i.Look L q T (fun ends ends' => ends' = ends) Parser.atTextEnd Parser.atTextEnd := by
  intro m s s' halike _ _ _
  refine ⟨_, _, rfl, rfl, ?_⟩
  rw [halike.ahead.token]
  cases halike.ahead with
  | late h _ _ => rw [h.front.rest]
  | early h _ =>
      obtain ⟨rest, -, hfront⟩ := h.front
      obtain ⟨c, cs, hword, hcounts⟩ := i.starts
      have hmem : c ∈ i.below := by simp [below, hword]
      have hnot : ∀ rest : List Char, c ∈ rest → rest.all isBlank = false := fun rest hc => by
        exact List.all_eq_false.mpr ⟨c, hc, by simp [hcounts.notBlank]⟩
      rw [hnot s.ahead.front.rest (by simp [hfront.rest, hmem]),
        hnot s'.ahead.front.rest (by simp [hfront.rest', hmem])]

end Look

namespace Agree

/-- How often something is done is bounded by what is left. -/
theorem stepLimit {f f' : Nat → Parser β} {d : β → Token → Bool}
    (hf : ∀ l n n', l ≤ n → l ≤ n' → l ≤ L → i.Agree l q T d c S (f n) (f' n')) :
    i.Agree L q T d c S (Parser.stepLimit >>= f) (Parser.stepLimit >>= f') := by
  intro m s s' halike hleft hclean ht
  obtain ⟨hle, hsize⟩ := halike.left_le
  exact hf (s.left + 1) (s.size + 1) (s'.size + 1) (by omega) (by omega) hleft m s s' halike
    (Nat.lt_succ_self _) hclean ht

end Agree

end CommentPlace

end Plumbline.Syntax
