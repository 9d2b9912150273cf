/-
Names where they are known to stand.

What is passed over before something written is passed over in one way (`Skips.unique`), so the
text behind the last token tells what the token ahead starts with.  If that is a name, the token is
that name (`State.Fits.token_of_isName`).
-/
import Plumbline.Proofs.Syntax.Reader

namespace Plumbline.Syntax

open Plumbline.Syntax.Parser

/-! ### One way over a gap -/

/-- A comment ends in one place. -/
theorem Skips.comment_unique {body cs body' cs' : List Char} (h : body ++ cs = body' ++ cs')
    (hinside : ∀ c ∈ body, c ≠ '\n' ∧ c ≠ nul) (hinside' : ∀ c ∈ body', c ≠ '\n' ∧ c ≠ nul)
    (hends : ∀ c, cs.head? = some c → c = '\n' ∨ c = nul)
    (hends' : ∀ c, cs'.head? = some c → c = '\n' ∨ c = nul) : cs = cs' := by
  have hnone : ∀ {c : Char} {more : List Char}, (c ≠ '\n' ∧ c ≠ nul) →
      ¬ (∀ d, (c :: more).head? = some d → d = '\n' ∨ d = nul) :=
    fun hc hall => (hall _ rfl).elim hc.1 hc.2
  rcases List.append_eq_append_iff.mp h with ⟨w, rfl, rfl⟩ | ⟨w, rfl, rfl⟩
  · cases w with
    | nil => rfl
    | cons c w => exact absurd hends (hnone (hinside' c (by simp)))
  · cases w with
    | nil => rfl
    | cons c w => exact absurd hends' (hnone (hinside c (by simp)))

/-- **Two words that the same gap leads to are the same.** -/
theorem Skips.unique {a b c : List Char} (hb : Skips a b) (hc : Skips a c) (hb' : StartsWord b)
    (hc' : StartsWord c) : b = c := by
  have hcounts : ∀ {x : Char} {cs b : List Char}, Skips (x :: cs) b → Counts x → b = x :: cs :=
    fun h hx => h.eq_of_counts hx.notBlank ⟨hx.notNul, hx.notHash, hx.notBackslash⟩
  have hnot : ∀ {x : Char} {cs : List Char}, StartsWord (x :: cs) → Counts x := by
    rintro x cs ⟨y, ys, heq, hy⟩
    obtain ⟨rfl, -⟩ := List.cons.inj heq
    exact hy
  induction hb with
  | done cs =>
      obtain ⟨x, xs, rfl, hx⟩ := hb'
      exact (hcounts hc hx).symm
  | @blank x cs rest hx _ ih =>
      cases hc with
      | done _ =>
          have := hnot hc'
          rcases hx with hblank | hnul
          · rw [this.notBlank] at hblank
            exact Bool.noConfusion hblank
          · exact absurd hnul this.notNul
      | blank _ hc => exact ih hc hb'
      | comment _ _ _ => exact absurd hx (by decide)
      | joined _ _ => exact absurd hx (by decide)
  | @comment body cs rest hinside hends _ ih =>
      generalize hline : '#' :: (body ++ cs) = line at hc
      cases hc with
      | done _ => exact absurd rfl (hnot (hline ▸ hc')).notHash
      | blank hx _ =>
          obtain ⟨rfl, -⟩ := List.cons.inj hline
          exact absurd hx (by decide)
      | @comment body' cs' _ hinside' hends' hc =>
          have hbody : body ++ cs = body' ++ cs' := (List.cons.inj hline).2
          obtain rfl := comment_unique hbody hinside hinside' hends hends'
          exact ih hc hb'
      | joined _ _ => exact absurd (List.cons.inj hline).1 (by decide)
  | @joined cs rest hjoin _ ih =>
      cases hc with
      | done _ => exact absurd rfl (hnot hc').notBackslash
      | blank hx _ => exact absurd hx (by decide)
      | joined _ hc => exact ih hc hb'

/-! ### Names -/

theorem IsName.startsWord {w rest : List Char} (h : IsName w) : StartsWord (w ++ rest) := by
  obtain ⟨c, cs, rfl, -, hc⟩ := h.starts
  exact ⟨c, cs ++ rest, rfl, hc⟩

/-- A character that opens no string. -/
theorem Quote.open?_eq_none {c : Char} {cs : List Char} (q : Quote)
    (h : c.toNat ≠ 96 ∧ c ≠ '"' ∧ c ≠ '\'') : q.open? (c :: cs) = none := by
  simp [Quote.open?, h.1, h.2.1, h.2.2]

theorem noQuote_of_isIdentifierPart {c : Char} (h : isIdentifierPart c = true) :
    c.toNat ≠ 96 ∧ c ≠ '"' ∧ c ≠ '\'' := by
  have hnot : ∀ d ∈ ['`', '"', '\''], c ≠ d := by
    rintro d hd rfl
    have hall : ∀ d ∈ ['`', '"', '\''], isIdentifierPart d = false :=
      List.all_iff_forall_prop.mp (by decide +kernel)
    rw [hall c hd] at h
    exact Bool.noConfusion h
  refine ⟨fun hback => hnot '`' (by simp) (Char.ext (UInt32.toNat_inj.mp hback)), ?_, ?_⟩
  · exact hnot '"' (by simp)
  · exact hnot '\'' (by simp)

/-- No string is opened after letters that no quote follows. -/
theorem Quote.read?_eq_none {w rest : List Char} (q : Quote)
    (hparts : ∀ c ∈ w, isIdentifierPart c = true) (hends : EndsName rest) :
    q.read? (w ++ rest) = none := by
  induction w generalizing q with
  | nil =>
      cases rest with
      | nil => rfl
      | cons c cs =>
          obtain ⟨hpart, hquote⟩ := hends c rfl
          have hletter : ∀ d ∈ ['f', 'F', 't', 'T', 'r', 'R', 'b', 'B', 'u', 'U'], c ≠ d := by
            rintro d hd rfl
            have hall : ∀ d ∈ ['f', 'F', 't', 'T', 'r', 'R', 'b', 'B', 'u', 'U'],
                isIdentifierPart d = true := List.all_iff_forall_prop.mp (by decide +kernel)
            rw [hall c hd] at hpart
            exact Bool.noConfusion hpart
          simp only [List.forall_mem_cons, ne_eq] at hletter
          simp only [List.nil_append, Quote.read?, hletter, or_self, if_false]
          exact Quote.open?_eq_none q hquote
  | cons c w ih =>
      obtain ⟨hc, hw⟩ := List.forall_mem_cons.mp hparts
      have hnext : ∀ q' (f : Quote × Nat → Quote × Nat), (Quote.read? q' (w ++ rest)).map f = none :=
        fun q' f => by rw [ih q' hw]; rfl
      simp only [List.cons_append, Quote.read?, hnext,
        Quote.open?_eq_none q (noQuote_of_isIdentifierPart hc), ite_self]

namespace State

variable {text : List Char} {s : State}

/-- **A name ahead is the token ahead.** -/
theorem Fits.token_of_isName (h : s.Fits text) {w rest : List Char} (hw : IsName w)
    (hends : EndsName rest) (hfront : s.ahead.front.rest = w ++ rest) :
    s.token = .name (String.ofList w) ∧ s.ahead.stop.rest = rest := by
  obtain ⟨e, width, inFormat, c, -, -, hnext⟩ := h.read
  obtain ⟨x, xs, rfl, hstart, hx⟩ := hw.starts
  have htake : (x :: xs ++ rest).takeWhile isIdentifierPart = x :: xs := by
    rw [List.takeWhile_append_of_pos hw.parts]
    cases rest with
    | nil => simp
    | cons c cs => simp [(hends c rfl).1]
  have hread : Token.read (x :: xs ++ rest) =
      (.name (String.ofList (x :: xs)), (x :: xs).length) := by
    rw [List.cons_append] at htake ⊢
    simp [Token.read, hstart, htake]
  have hquote : Quote.at? (x :: (xs ++ rest)) = none := Quote.read?_eq_none _ hw.parts hends
  rw [hnext] at hfront
  obtain ⟨htoken, hstop⟩ := Lexeme.token_of_counts hx hquote hfront
  rw [List.cons_append] at hread
  rw [hread] at htoken hstop
  rw [State.token, hnext]
  exact ⟨htoken, hstop.trans List.drop_left⟩

/-- The text behind the last token. -/
structure Behind (text : List Char) (s : State) (rest : List Char) : Prop where
  fits : s.Fits text
  cursor : ∃ c : Cursor, c.IsIn text ∧ c.pos.byte = s.last.byte ∧ c.rest = rest

/-- **What is written behind a gap is what is ahead.** -/
theorem Behind.rest_eq {rest word : List Char} (h : Behind text s rest) (hskips : Skips rest word)
    (hword : StartsWord word) (hwritten : s.token.isWritten = true) :
    s.ahead.front.rest = word := by
  obtain ⟨c, hc, hpos, rfl⟩ := h.cursor
  obtain ⟨c', hc', hpos', hskips'⟩ := h.fits.after
  have hsame : c'.rest = c.rest := by
    rw [hc'.rest_eq, hc.rest_eq, hpos, hpos']
  rw [hsame] at hskips'
  exact hskips'.unique hskips (h.fits.startsWord hwritten) hword

/-- Behind a token that is taken. -/
theorem Fits.behind_shift (h : s.Fits text) {e : Expect} {s' : State} {rest : List Char}
    (hrest : s.ahead.stop.rest = rest) (hshift : Parser.shift e s = .done () s') :
    Behind text s' rest ∧ s'.last = s.ahead.stop.pos := by
  have hlast : s'.last = s.ahead.stop.pos := by
    cases hshift
    exact last_resume _ _ _
  obtain ⟨hleads, -⟩ := Takes.shift e s h () s' hshift
  exact ⟨⟨hleads.fits, s.ahead.stop, h.stop_isIn, by rw [hlast], hrest⟩, hlast⟩

end State

end Plumbline.Syntax
