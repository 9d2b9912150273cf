/-
A type that is one word.

Where a name is ahead and the colon behind it, every reader that a result type is read with takes the
name and nothing else.  It is the same at each level of the grammar: what the level could go on with
is another token than the two, so the level answers what the one below it does (`Knot.takesWords_tie`).
Hence a result type of one word is read as it is written (`State.Fits.spellsResult`).
-/
import Plumbline.Proofs.Syntax.Name
import Plumbline.Syntax.Grammar

namespace Plumbline.Syntax

open Plumbline.Syntax.Parser

namespace Token

/-- Words and marks that are read as what they are and nothing else. -/
def isTaken (word : String) : Bool :=
  (reservedWords ++ operators).contains word && !constantWords.contains word

/-- A name that is no such word, or no word at all. -/
def isSingle : Token → Bool
  | name word => !isTaken word
  | t => !t.isWritten

/-- A colon, or no word at all. -/
def endsType (t : Token) : Bool := t == op ":" || !t.isWritten

theorem isMark_of_isSingle {t : Token} (h : t.isSingle = true) (word : String)
    (hword : isTaken word = true) : t.isMark word = false := by
  cases t with
  | name other =>
      have hne : other ≠ word := by
        rintro rfl
        simp [isSingle, hword] at h
      simp [isMark, hne]
  | op other => exact absurd h (by simp [isSingle, isWritten])
  | _ => simp [isMark]

theorem isMark_of_endsType {t : Token} (h : t.endsType = true) {word : String} (hword : word ≠ ":") :
    t.isMark word = false := by
  cases t with
  | name other => exact absurd h (by simp [endsType, isWritten])
  | op other =>
      have hcolon : other = ":" := by simpa [endsType, isWritten] using h
      simp [isMark, hcolon, Ne.symm hword]
  | _ => simp [isMark]

end Token

/-! ### One word -/

/-- One word is ahead, and behind it the type ends. -/
structure State.AtWord (s : State) : Prop where
  word : s.token.isSingle = true
  ends : s.token.isWritten = true → ∀ s', shift .operand s = .done () s' → s'.token.endsType = true

theorem State.AtWord.ends_of_name {s : State} (h : s.AtWord) (hword : ∃ w, s.token = .name w)
    {s' : State} (htaken : shift .operand s = .done () s') : s'.token.endsType = true := by
  obtain ⟨w, hw⟩ := hword
  exact h.ends (by rw [hw]; rfl) s' htaken

/-- The word ahead has been taken as `t`, and nothing else. -/
structure State.Took (s : State) (t : Tree) (s' : State) : Prop where
  word : ∃ w, s.token = .name w
  taken : shift .operand s = .done () s'
  span : t.span = .between s.ahead.start s.ahead.stop.pos

/-- The reader takes one word, if that is what is ahead. -/
def TakesWord (p : Parser Tree) : Prop :=
  ∀ s, s.AtWord → ∀ t s', p s = .done t s' → s.Took t s'

/-- The readers of nested constructs take one word in front of a colon. -/
structure Knot.TakesWords (k : Knot) : Prop where
  atom : TakesWord (k.atom .header)
  arithmetic : ∀ n, TakesWord (k.arithmetic n .header)
  expression : ∀ l, TakesWord (k.expression l .header)
  type : TakesWord (k.type false .header)

namespace TakesWord

variable {p q : Parser Tree} {s s' : State}

theorem fail : TakesWord Parser.fail := fun _ _ _ _ h => absurd h (by simp [Parser.fail])

theorem leaf {k : Kind} (hs : ∃ w, s.token = .name w) {t : Tree}
    (h : Parser.leaf k .operand s = .done t s') : s.Took t s' := by
  cases h
  exact ⟨hs, rfl, rfl⟩

/-- What is asked of the token ahead before the word is read. -/
theorem peek {f : Token → Parser Tree}
    (h : ∀ t : Token, t.isSingle = true → TakesWord (f t)) : TakesWord (Parser.peek >>= f) :=
  fun s hs => h s.token hs.word s hs

theorem peekSecond {e : Expect} {f : Token → Parser Tree} (h : ∀ t, TakesWord (f t)) :
    TakesWord (Parser.peekSecond e >>= f) := by
  intro s hs t s' hdone
  obtain ⟨second, s₁, hsecond, hrest⟩ := bind_eq_done hdone
  obtain rfl := peekSecond_eq_done hsecond
  exact h second s₁ hs t s' hrest

theorem ite {c : Prop} [Decidable c] (hp : c → TakesWord p) (hq : ¬ c → TakesWord q) :
    TakesWord (if c then p else q) := by
  split
  · exact hp ‹_›
  · exact hq ‹_›

/-- What the reader goes on with behind the word is not there. -/
theorem bind {f : Tree → Parser Tree} (hp : TakesWord p)
    (hf : ∀ (a : Tree) (s₁ : State), s₁.token.endsType = true → f a s₁ = .done a s₁) :
    TakesWord (p >>= f) := by
  intro s hs t s' h
  obtain ⟨a, s₁, hdone, hrest⟩ := bind_eq_done h
  have htook := hp s hs a s₁ hdone
  rw [hf a s₁ (hs.ends_of_name htook.word htook.taken)] at hrest
  cases hrest
  exact htook

end TakesWord

namespace Parser

theorem peek_bind {α : Type} (f : Token → Parser α) (s : State) :
    (Parser.peek >>= f) s = f s.token s := rfl

/-- A loop that does not go on. -/
theorem loop_of_none {α : Type} {step : α → Parser (Option α)} {a : α} {s : State}
    (h : step a s = .done none s) : loop step a s = .done a s := by
  show (step a >>= _) s = _
  simp only [bind, h]
  rfl

end Parser

namespace Grammar

variable {k : Knot}

theorem isOneOf_of_isSingle {t : Token} (h : t.isSingle = true) (words : List String)
    (hwords : words.all Token.isTaken = true) : isOneOf t words = false := by
  unfold isOneOf
  rw [List.any_eq_false]
  intro word hword
  rw [Token.isMark_of_isSingle h word (List.all_eq_true.mp hwords word hword)]
  exact Bool.false_ne_true

theorem isOneOf_of_endsType {t : Token} (h : t.endsType = true) {words : List String}
    (hwords : ":" ∉ words) : isOneOf t words = false := by
  unfold isOneOf
  rw [List.any_eq_false]
  intro word hword
  rw [Token.isMark_of_endsType h (fun heq => hwords (heq ▸ hword))]
  exact Bool.false_ne_true

theorem isStar_of_isSingle {t : Token} (h : t.isSingle = true) : t.isStar = false := by
  cases t with
  | op _ => exact absurd h (by simp [Token.isSingle, Token.isWritten])
  | _ => rfl

/-- The word ahead is read as a constant or as a variable. -/
theorem takesWord_bareAtom : TakesWord (bareAtom k .header) := by
  intro s hs t s' h
  obtain ⟨_, _, hpeek, hrest⟩ := bind_eq_done h
  cases hpeek
  have hvariable : ∀ w, s.token = .name w → variableName .operand s = .done t s' → s.Took t s' := by
    intro w hw h
    obtain ⟨_, _, hpeek, h⟩ := bind_eq_done h
    cases hpeek
    rcases ite_eq_done h with ⟨-, h⟩ | ⟨-, h⟩
    · exact TakesWord.leaf ⟨w, hw⟩ h
    · exact absurd h (by simp [fail])
  have hword := hs.word
  generalize htoken : s.token = token at hrest hword
  cases token with
  | name w =>
      rcases ite_eq_done hrest with ⟨-, h⟩ | ⟨-, hrest⟩
      · exact TakesWord.leaf ⟨w, htoken⟩ h
      rcases ite_eq_done hrest with ⟨-, h⟩ | ⟨-, hrest⟩
      · exact TakesWord.leaf ⟨w, htoken⟩ h
      rcases ite_eq_done hrest with ⟨-, h⟩ | ⟨-, hrest⟩
      · exact TakesWord.leaf ⟨w, htoken⟩ h
      rcases ite_eq_done hrest with ⟨-, h⟩ | ⟨-, h⟩
      · obtain ⟨second, s₁, hsecond, h⟩ := bind_eq_done h
        obtain rfl := peekSecond_eq_done hsecond
        rcases ite_eq_done h with ⟨-, h⟩ | ⟨-, h⟩
        · exact absurd h (by simp [fail])
        · exact hvariable w htoken h
      · exact hvariable w htoken h
  | integer | float | quote _ | op _ | conversion =>
      exact absurd hword (by simp [Token.isSingle, Token.isWritten])
  | _ => exact absurd hrest (by simp [fail])

variable (hk : k.TakesWords)
include hk

omit hk in
theorem trailer?_of_endsType {a : Tree} {s : State} (hs : s.token.endsType = true) :
    trailer? k .header a s = .done none s := by
  show (if s.token.isMark "." = true then _ else _ : Parser (Option Tree)) s = _
  rw [if_neg (by simp [Token.isMark_of_endsType hs]), if_neg (by simp [Token.isMark_of_endsType hs]),
    if_neg (by simp [Token.isMark_of_endsType hs])]
  rfl

omit hk in
theorem takesWord_atom : TakesWord (atom k .header) := by
  intro s hs t s' h
  obtain ⟨_, _, hpeek, hrest⟩ := bind_eq_done h
  cases hpeek
  rw [if_neg (by simp [isStar_of_isSingle hs.word])] at hrest
  exact takesWord_bareAtom.bind (fun a s₁ h₁ => loop_of_none (trailer?_of_endsType h₁)) s hs t s' hrest

theorem takesWord_operand : TakesWord (operand k .header) := by
  refine .peek fun t ht => .ite (fun h => ?_) fun _ => .ite (fun h => ?_) fun _ => ?_
  · exact absurd h (by simp [isOneOf_of_isSingle ht ["+", "-", "~"] (by decide)])
  · exact absurd h (by simp [isStar_of_isSingle ht])
  · refine .peekSecond fun second => .ite (fun h => ?_) fun _ => hk.atom
    exact absurd h (by simp [Token.isMark_of_isSingle ht "await" (by decide)])

theorem takesWord_arithmetic (n : Nat) : TakesWord (arithmetic k n .header) := by
  refine (takesWord_operand hk).bind fun a s hs => loop_of_none ?_
  have hnone : strength? s.token = none := by
    generalize s.token = t at hs
    cases t with
    | op text =>
        obtain rfl : text = ":" := by simpa [Token.endsType, Token.isWritten] using hs
        decide
    | _ => rfl
  rw [peek_bind, hnone]
  rfl

theorem takesWord_comparison : TakesWord (comparison k .header) := by
  refine (hk.arithmetic 0).bind fun a s hs => ?_
  show (if isOneOf s.token _ = true then _ else pure a : Parser Tree) s = _
  rw [if_neg (by rw [isOneOf_of_endsType hs (by decide)]; exact Bool.false_ne_true)]
  rfl

theorem takesWord_clause (l : Level) : TakesWord (clause k l .header) := by
  refine .peek fun t ht => .ite (fun h => ?_) fun _ => .ite (fun h => ?_) fun _ => ?_
  · exact absurd h (by simp [Token.isMark_of_isSingle ht "lambda" (by decide)])
  · exact absurd h (by simp [Token.isMark_of_isSingle ht "not" (by decide)])
  · refine (takesWord_comparison hk).bind fun a s hs => ?_
    show (if a.kind = .identifier ∧ s.token.isMark ":=" = true then _ else pure a : Parser Tree) s = _
    rw [if_neg fun h => by simp [Token.isMark_of_endsType hs] at h]
    rfl

theorem takesWord_expression (l : Level) : TakesWord (expression k l .header) := by
  refine (takesWord_clause hk l).bind fun a s hs => loop_of_none ?_
  show (if s.token.isMark "and" = true ∧ _ then _ else _ : Parser (Option Tree)) s = _
  rw [if_neg fun h => by simp [Token.isMark_of_endsType hs] at h,
    if_neg fun h => by simp [Token.isMark_of_endsType hs] at h,
    if_neg fun h => by simp [Token.isMark_of_endsType hs] at h,
    if_neg fun h => by simp [Token.isMark_of_endsType hs] at h]
  rfl

/-- By itself, a type that is one word is read as an expression. -/
theorem bareType_eq_done {s s' : State} {cs : List Tree} (hs : s.AtWord)
    (h : bareType k .header s = .done cs s') : ∃ t, s.Took t s' ∧ cs = s.extras ++ [t] := by
  obtain ⟨_, _, hpeek, hrest⟩ := bind_eq_done h
  cases hpeek
  obtain ⟨second, s₁, hsecond, hrest⟩ := bind_eq_done hrest
  have hends : s.token.isWritten = true → second.endsType = true := by
    intro hwritten
    rw [if_neg (by simp [isStar_of_isSingle hs.word])] at hsecond
    cases hsecond
    exact hs.ends hwritten _ rfl
  obtain rfl := peekSecond_eq_done hsecond
  rcases ite_eq_done hrest with ⟨hstar, -⟩ | ⟨-, hrest⟩
  · exact absurd hstar (by simp [Token.isMark_of_isSingle hs.word "**" (by decide)])
  -- whether a starred type would be read is asked in any case
  obtain ⟨would, s₂, hwould, hrest⟩ := bind_eq_done hrest
  obtain rfl : s₂ = s₁ := by
    unfold wouldRead at hwould
    split at hwould <;> cases hwould <;> rfl
  rcases ite_eq_done hrest with ⟨hstar, -⟩ | ⟨-, hrest⟩
  · exact absurd hstar (by simp [Token.isMark_of_isSingle hs.word "*" (by decide)])
  rcases ite_eq_done hrest with ⟨hgeneric, -⟩ | ⟨-, hrest⟩
  · obtain ⟨hname, hbracket⟩ := Bool.and_eq_true_iff.mp hgeneric
    have hwritten : s₂.token.isWritten = true := by
      generalize s₂.token = token at hname
      cases token with
      | name => rfl
      | _ => exact absurd hname (by simp [isGenericName, Token.isIdentifier])
    rw [Token.isMark_of_endsType (hends hwritten) (by decide)] at hbracket
    exact absurd hbracket Bool.false_ne_true
  obtain ⟨t, ht, rfl⟩ := part_eq_done hrest
  obtain ⟨hword, htaken, hspan⟩ :=
    hk.expression .conditional { s₂ with extras := [] } ⟨hs.word, hs.ends⟩ t s' ht
  exact ⟨t, ⟨hword, htaken, hspan⟩, rfl⟩

/-- **A type that is one word in front of a colon is that word.** -/
theorem takesWord_type : TakesWord (type k false .header) := by
  intro s hs t s' h
  obtain ⟨_, _, hparts, rfl⟩ := build_eq_done h
  obtain ⟨cs, s₂, hparts, hpure⟩ := bind_eq_done hparts
  obtain ⟨first, s₁, hfirst, hrest⟩ := bind_eq_done hparts
  obtain ⟨-, rfl⟩ := pure_eq_done hpure
  obtain ⟨word, htook, -⟩ := bareType_eq_done hk hs hfirst
  have hends := hs.ends_of_name htook.word htook.taken
  have hstop : loop (fun (acc : List Tree) => do
      let t ← peek
      if t.isMark "|" then
        pure (some (acc ++ (← mark "|" .operand) ++ (← part (k.type false .header))))
      else if false ∧ t.isMark ":" then
        pure (some (acc ++ (← mark ":" .operand) ++ (← part (k.type false .header))))
      else if t.isMark "." then
        pure (some (acc ++ (← mark "." .operand) ++ (← part (identifier Place.header.after))))
      else pure none) first s₁ = .done first s₁ := by
    refine loop_of_none ?_
    show (if s₁.token.isMark "|" = true then _ else _ : Parser (Option (List Tree))) s₁ = _
    rw [if_neg (by simp [Token.isMark_of_endsType hends]), if_neg (by simp),
      if_neg (by simp [Token.isMark_of_endsType hends])]
    rfl
  have heq : Outcome.done first s₁ = .done cs s₂ := hstop.symm.trans hrest
  cases heq
  refine ⟨htook.word, htook.taken, ?_⟩
  have hlast : s₂.last = s.ahead.stop.pos := by
    have htaken := htook.taken
    cases htaken
    exact State.last_resume _ _ _
  show Span.between _ _ = _
  rw [← hlast]

end Grammar

/-- **A word in front of a colon is all that is read of a type**, however deep the grammar is tied. -/
theorem Knot.takesWords_tie (n : Nat) : (Knot.tie n).TakesWords := by
  induction n with
  | zero => exact ⟨.fail, fun _ => .fail, fun _ => .fail, .fail⟩
  | succ n ih =>
      exact ⟨Grammar.takesWord_atom, Grammar.takesWord_arithmetic ih, Grammar.takesWord_expression ih,
        Grammar.takesWord_type ih⟩

/-! ### What is written behind the parameters -/

namespace State

variable {text : List Char} {s s' : State}

/-- Behind what has been taken last, the text goes on. -/
theorem Fits.behind (h : s.Fits text) {before rest : List Char} (htext : text = before ++ rest)
    (hbyte : byteSize before = s.last.byte) : Behind text s rest := by
  obtain ⟨c, hc, hpos, -⟩ := h.after
  refine ⟨h, c, hc, by rw [hpos], ?_⟩
  obtain ⟨before', htext', hbyte'⟩ := hc
  refine (append_inj_of_byteSize (htext'.symm.trans htext) ?_).2
  rw [← hbyte', hpos, hbyte]

theorem isSingle_of_isTypeName {w : List Char} (h : IsTypeName w) :
    (Token.name (String.ofList w)).isSingle = true := by
  have hoperator : String.ofList w ∉ operators := by
    obtain ⟨c, rest, rfl, hstart, -⟩ := h.name.starts
    intro hmem
    have hall : ∀ op ∈ operators, op.toList.head?.all (!isIdentifierStart ·) = true := by
      decide +kernel
    have hnot := hall _ hmem
    rw [String.toList_ofList] at hnot
    simp [hstart] at hnot
  rcases h.free with hconstant | hfree
  · simp [Token.isSingle, Token.isTaken, hconstant]
  · simp [Token.isSingle, Token.isTaken, hfree, hoperator]

/-- In front of a name in front of a colon, one word is ahead. -/
theorem Behind.atWord {w rest after : List Char} (h : Behind text s (' ' :: (w ++ rest)))
    (hw : IsTypeName w) (hends : EndsName rest) (hskips : Skips rest (':' :: after))
    (hafter : after.head? ≠ some '=') :
    s.AtWord ∧ ∀ name, s.token = .name name → name = String.ofList w := by
  have hname : s.token.isWritten = true →
      s.token = .name (String.ofList w) ∧ s.ahead.stop.rest = rest := by
    intro hwritten
    have hfront := h.rest_eq (.blank (Or.inl (by decide)) (.done _)) hw.name.startsWord hwritten
    exact h.fits.token_of_isName hw.name hends hfront
  refine ⟨⟨?_, fun hwritten s' hshift => ?_⟩, fun name htoken => ?_⟩
  · by_cases hwritten : s.token.isWritten = true
    · rw [(hname hwritten).1]
      exact isSingle_of_isTypeName hw
    · generalize s.token = token at hwritten
      cases token with
      | name => exact absurd rfl hwritten
      | _ => simpa [Token.isSingle] using hwritten
  · obtain ⟨hbehind, -⟩ := h.fits.behind_shift (hname hwritten).2 hshift
    unfold Token.endsType
    by_cases hnext : s'.token.isWritten = true
    · have hcolon : StartsWord (':' :: after) :=
        ⟨':', after, rfl, by decide, by decide, by decide, by decide⟩
      rw [hbehind.fits.token_of_colon (hbehind.rest_eq hskips hcolon hnext) hafter]
      rfl
    · simp [hnext]
  · have hwritten : s.token.isWritten = true := by rw [htoken]; rfl
    exact Token.name.inj (htoken.symm.trans (hname hwritten).1)

/-- **A result type that is one word is read as it is written.** -/
theorem Fits.spellsResult {k : Knot} (hk : k.TakesWords) {s₁ : State} {arrow : List Tree} {t : Tree}
    (hs : s.Fits text) (harrow : mark "->" .operand s = .done arrow s₁)
    (htype : k.type false .header { s₁ with extras := [] } = .done t s') :
    SpellsResult text s.last.byte t := by
  intro before w rest after htext hbyte hw hends hskips hafter
  obtain ⟨hmark, hshift⟩ := mark_eq_shift harrow
  have hbehind := hs.behind htext hbyte
  have hwritten : s.token.isWritten = true := by
    generalize s.token = token at hmark
    cases token with
    | name => rfl
    | op => rfl
    | _ => exact absurd hmark (by simp [Token.isMark])
  have harrow : StartsWord ("-> ".toList ++ (w ++ rest)) :=
    ⟨'-', "> ".toList ++ (w ++ rest), rfl, by decide, by decide, by decide, by decide⟩
  have hfront := hbehind.rest_eq (.blank (Or.inl (by decide)) (.done _)) harrow hwritten
  rw [hs.spelled "->" hmark] at hfront
  have hstop : s.ahead.stop.rest = ' ' :: (w ++ rest) := List.append_cancel_left hfront
  obtain ⟨hnext, -⟩ := hs.behind_shift hstop hshift
  obtain ⟨hat, hsame⟩ := hnext.atWord hw hends hskips hafter
  obtain ⟨⟨name, hname⟩, -, hspan⟩ :=
    hk.type { s₁ with extras := [] } ⟨hat.word, hat.ends⟩ t s' htype
  rw [hspan]
  exact (hnext.fits.text_of_name hname).trans (hsame name hname)

end State

end Plumbline.Syntax
