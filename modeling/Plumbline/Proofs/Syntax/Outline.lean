/-
How the statements of a source file lie.

A file is read statement by statement (`FileSoFar`), and a line of simple statements one by one
(`LineSoFar`).  Each step of either puts trees behind the trees so far, and two things hold after
every step: the trees lie one after the other, and whatever is not a statement with blocks is
followed by a line end before the next statement, so that a statement with blocks starts a line of
its own (`Outlined`).
-/
import Mathlib.Data.List.Pairwise
import Plumbline.Proofs.Syntax.Statement

namespace Plumbline.Syntax

open Plumbline.Syntax.Parser

/-- Statements with blocks. -/
def Kind.isCompound : Kind → Bool
  | .ifStatement | .forStatement | .whileStatement | .tryStatement | .withStatement
  | .matchStatement | .functionDefinition | .classDefinition | .decoratedDefinition => true
  | _ => false

/-- What has a line end after it: simple statements and comments. -/
def Kind.endsLine (k : Kind) : Bool := !(k.isCompound || k == .joined)

theorem Token.isMark_unique {t : Token} {a b : String} (ha : t.isMark a = true)
    (hb : t.isMark b = true) : a = b := by
  cases t with
  | name text =>
      obtain rfl : text = a := by simpa [isMark] using ha
      simpa [isMark] using hb
  | op text =>
      obtain rfl : text = a := by simpa [isMark] using ha
      simpa [isMark] using hb
  | _ => simp [isMark] at ha

namespace Grammar

variable {text : List Char} {k : Knot}

/-! ### Kinds of statements -/

theorem isCompound_simpleStatement :
    Answers (fun t => t.kind.isCompound = false) (simpleStatement k) := by
  have hnode : ∀ {kind : Kind} {parts : Parser (List Tree)}, kind.isCompound = false →
      Answers (fun t => t.kind.isCompound = false) (node kind parts) :=
    fun hkind => .node (·.isCompound = false) hkind
  have hleaf : ∀ {kind : Kind} {e : Expect}, kind.isCompound = false →
      Answers (fun t => t.kind.isCompound = false) (leaf kind e) :=
    fun hkind => .leaf (·.isCompound = false) hkind
  have hended : ∀ {p : Parser Tree}, Answers (fun t => t.kind.isCompound = false) p →
      Answers (fun t => t.kind.isCompound = false) (ended p) :=
    fun hp => hp.bindOf fun _ ht => .bind fun _ => .ite (.pure ht) .fail
  have hfrom : Answers (fun t => t.kind.isCompound = false) fromStatement := by
    refine .build (·.isCompound = false) (.bind fun _ => .bind fun _ => .ite ?_ ?_)
    · exact .bind fun _ => .bind fun _ => .bind fun _ => .pure rfl
    · exact .bind fun _ => .bind fun _ => .bind fun _ =>
        .ite (.bind fun _ => .pure rfl) (.bind fun _ => .pure rfl)
  refine .bind fun t => .ite (hnode rfl) (.ite hfrom (.ite (hnode rfl) (.ite (hnode rfl)
    (.ite (hnode rfl) (.ite (hleaf rfl) (.ite (hleaf rfl) (.ite (hleaf rfl) (.ite (hnode rfl)
    (.ite (hnode rfl) (.ite (hnode rfl) (.ite ?_ (.ite ?_ (.ite ?_ (hnode rfl))))))))))))))
  · exact .bind fun _ => .ite (hnode rfl) (.orElse (hended (hnode rfl)) (hnode rfl))
  · refine .bind fun second => ?_
    split
    · exact hnode rfl
    · exact .ite (hnode rfl) (hnode rfl)
  · exact .orElse (hended (hnode rfl)) (hnode rfl)

/-! ### Lines of simple statements -/

/-- Trees of simple statements and semicolons on a line from `s₀` on, and the state after them. -/
inductive LineSoFar (k : Knot) (s₀ : State) : List Tree → State → Prop where
  | first {ts : List Tree} {s : State} (h : part (simpleStatement k) s₀ = .done ts s) :
      LineSoFar k s₀ ts s
  | semicolon {cs ds : List Tree} {s s' : State} (h : LineSoFar k s₀ cs s)
      (hmark : mark ";" .lineEnd s = .done ds s') : LineSoFar k s₀ (cs ++ ds) s'
  | statement {cs ts : List Tree} {s s' : State} (h : LineSoFar k s₀ cs s)
      (hstatement : part (simpleStatement k) s = .done ts s') : LineSoFar k s₀ (cs ++ ts) s'

theorem simpleLine_eq_done {s s' : State} {cs : List Tree} (h : simpleLine k s = .done cs s') :
    ∃ ts s₁ ds, LineSoFar k s ts s₁ ∧ lineEnd .statement s₁ = .done ds s' ∧ cs = ts ++ ds := by
  obtain ⟨first, s₁, hfirst, h⟩ := bind_eq_done h
  obtain ⟨ts, s₂, hmore, h⟩ := bind_eq_done h
  obtain ⟨ds, s₃, hend, h⟩ := bind_eq_done h
  obtain ⟨rfl, rfl⟩ := pure_eq_done h
  refine ⟨ts, s₂, ds, loop_eq_done (I := LineSoFar k s) ?_ (.first hfirst) hmore, hend, rfl⟩
  intro acc s hacc o s' hstep
  obtain ⟨semicolon, s₁, hmark, hrest⟩ := bind_eq_done hstep
  rcases mark?_eq_done hmark with ⟨-, rfl, rfl⟩ | ⟨semicolon, rfl, hdone⟩
  · obtain ⟨rfl, rfl⟩ := pure_eq_done hrest
    exact hacc
  · obtain ⟨_, _, hpeek, hrest⟩ := bind_eq_done hrest
    cases hpeek
    split at hrest
    · obtain ⟨rfl, rfl⟩ := pure_eq_done hrest
      exact hacc.semicolon hdone
    · obtain ⟨ts, s₂, hstatement, hpure⟩ := bind_eq_done hrest
      obtain ⟨rfl, rfl⟩ := pure_eq_done hpure
      exact (hacc.semicolon hdone).statement hstatement

theorem lineEnd_eq_done {e : Expect} {s s' : State} {cs : List Tree}
    (h : lineEnd e s = .done cs s') : s.token = .newline ∧ cs = s.extras ∧
      s' = State.resume e s.ahead.stop { s with last := s.ahead.stop.pos, extras := [] } := by
  obtain ⟨_, _, hpeek, h⟩ := bind_eq_done h
  cases hpeek
  split at h
  · rename_i htoken
    obtain ⟨_, _, hextras, h⟩ := bind_eq_done h
    cases hextras
    obtain ⟨_, _, hshift, h⟩ := bind_eq_done h
    cases hshift
    obtain ⟨rfl, rfl⟩ := pure_eq_done h
    exact ⟨htoken, rfl, rfl⟩
  · exact absurd h (by simp [fail])

/-- The mark of a line end stands where the line ends, and it has no width. -/
theorem lineEnd_at {e : Expect} {s s' : State} {cs : List Tree} (hs : s.Fits text)
    (h : lineEnd e s = .done cs s') : ∃ c : Cursor, c.IsIn text ∧ BreaksLine c.rest ∧
      s'.last = c.pos ∧ s.ahead.start = c.pos := by
  obtain ⟨htoken, -, hresume⟩ := lineEnd_eq_done h
  obtain ⟨e', width, inFormat, c, hc, -, hnext⟩ := hs.read
  obtain ⟨hbreaks, hfront, hstop⟩ :=
    Lexeme.breaksLine_of_newline (hnext ▸ htoken : (Lexeme.next e' width inFormat c).token = _)
  refine ⟨c, hc, hbreaks, ?_, ?_⟩
  · rw [hresume, State.last_resume]
    show s.ahead.stop.pos = c.pos
    rw [hnext, hstop]
  · show s.ahead.front.pos = c.pos
    rw [hnext, hfront]

/-! ### Statements -/

/-- One compound statement, or the simple statements of a line. -/
theorem statement_eq_done (hk : k.Keeps text) {s s' : State} {cs : List Tree}
    (h : statement k s = .done cs s') : startsStatement s.token = true ∧
      ((∃ p, Reads text p ∧ Answers (fun t => t.kind.isCompound = true) p ∧
          s.token.isMark "from" = false ∧ part p s = .done cs s') ∨
        ∃ reach, simpleLine k { s with reach } = .done cs s') := by
  obtain ⟨_, _, hpeek, h⟩ := bind_eq_done h
  cases hpeek
  rcases ite_eq_done h with ⟨-, h⟩ | ⟨hstarts, h⟩
  · exact absurd h (by simp [failAhead])
  refine ⟨by simpa using hstarts, ?_⟩
  have hcompound : ∀ {word : String} {kind : Kind} {parts : Parser (List Tree)},
      s.token.isMark word = true → word ≠ "from" → kind.isCompound = true →
        Reads text (node kind parts) → part (node kind parts) s = .done cs s' →
          ∃ p, Reads text p ∧ Answers (fun t => t.kind.isCompound = true) p ∧
            s.token.isMark "from" = false ∧ part p s = .done cs s' := by
    intro word kind parts hword hne hkind hreads hdone
    refine ⟨_, hreads, .node (·.isCompound = true) hkind, ?_, hdone⟩
    by_contra hfrom
    exact hne (Token.isMark_unique hword (by simpa using hfrom))
  rcases ite_eq_done h with ⟨hword, h⟩ | ⟨-, h⟩
  · exact Or.inl (hcompound hword (by decide) rfl (reads_ifStatement hk) h)
  rcases ite_eq_done h with ⟨hword, h⟩ | ⟨-, h⟩
  · exact Or.inl (hcompound hword (by decide) rfl (reads_forStatement hk) h)
  rcases ite_eq_done h with ⟨hword, h⟩ | ⟨-, h⟩
  · exact Or.inl (hcompound hword (by decide) rfl (reads_whileStatement hk) h)
  rcases ite_eq_done h with ⟨hword, h⟩ | ⟨-, h⟩
  · exact Or.inl (hcompound hword (by decide) rfl (reads_tryStatement hk) h)
  rcases ite_eq_done h with ⟨hword, h⟩ | ⟨-, h⟩
  · exact Or.inl (hcompound hword (by decide) rfl (reads_withStatement hk) h)
  rcases ite_eq_done h with ⟨hword, h⟩ | ⟨-, h⟩
  · exact Or.inl (hcompound hword (by decide) rfl (reads_functionDefinition hk) h)
  rcases ite_eq_done h with ⟨hword, h⟩ | ⟨-, h⟩
  · exact Or.inl (hcompound hword (by decide) rfl (reads_classDefinition hk) h)
  rcases ite_eq_done h with ⟨hword, h⟩ | ⟨-, h⟩
  · exact Or.inl (hcompound hword (by decide) rfl (reads_decoratedDefinition hk) h)
  rcases ite_eq_done h with ⟨hword, h⟩ | ⟨-, h⟩
  · rcases orElse_eq_done h with hmatch | hsimple
    · exact Or.inl (hcompound hword (by decide) rfl (reads_matchStatement hk) hmatch)
    · exact Or.inr hsimple
  rcases ite_eq_done h with ⟨hword, h⟩ | ⟨-, h⟩
  · -- the word after `async` tells which statement it is
    obtain ⟨second, _, hsecond, h⟩ := bind_eq_done h
    rw [peekSecond_eq_done hsecond] at h
    rcases ite_eq_done h with ⟨-, h⟩ | ⟨-, h⟩
    · exact Or.inl (hcompound hword (by decide) rfl (reads_functionDefinition hk) h)
    rcases ite_eq_done h with ⟨-, h⟩ | ⟨-, h⟩
    · exact Or.inl (hcompound hword (by decide) rfl (reads_forStatement hk) h)
    rcases ite_eq_done h with ⟨-, h⟩ | ⟨-, h⟩
    · exact Or.inl (hcompound hword (by decide) rfl (reads_withStatement hk) h)
    exact Or.inr ⟨s.reach, h⟩
  · exact Or.inr ⟨s.reach, h⟩

/-! ### Source files -/

/-- Trees of a source file that is read from `s₀` on, and the state after them. -/
inductive FileSoFar (k : Knot) (s₀ : State) : List Tree → State → Prop where
  | nothing : FileSoFar k s₀ [] s₀
  | statement {cs ds : List Tree} {s s' : State} (h : FileSoFar k s₀ cs s)
      (hstatement : statement k { s with extras := [] } = .done ds s') :
      FileSoFar k s₀ (cs ++ s.extras ++ ds) s'
  | final {cs : List Tree} {s : State} (h : FileSoFar k s₀ cs s) :
      FileSoFar k s₀ (cs ++ s.extras) { s with extras := [] }

theorem module_eq_done {n : Nat} {s s' : State} {t : Tree}
    (h : module (Knot.tie (n + 1)) s = .done t s') :
    FileSoFar (Knot.tie n) s t.children s' ∧ s'.token = .endOfText := by
  obtain ⟨kind, cs, hparts, rfl⟩ := build_eq_done h
  obtain ⟨body, _, hbody, hrest⟩ := bind_eq_done hparts
  obtain ⟨heq, rfl⟩ := pure_eq_done hrest
  cases heq
  obtain ⟨cs, s₁, hloop, hend⟩ := bind_eq_done hbody
  obtain ⟨_, _, hpeek, hend⟩ := bind_eq_done hend
  cases hpeek
  have hfile : FileSoFar (Knot.tie n) s cs s₁ := by
    refine loop_eq_done (I := FileSoFar (Knot.tie n) s) ?_ .nothing hloop
    intro acc s hacc o s' hstep
    obtain ⟨_, _, hextras, hstep⟩ := bind_eq_done hstep
    cases hextras
    obtain ⟨_, _, hpeek, hstep⟩ := bind_eq_done hstep
    cases hpeek
    rcases ite_eq_done hstep with ⟨-, hstep⟩ | ⟨-, hstep⟩
    · rcases ite_eq_done hstep with ⟨hempty, hstep⟩ | ⟨-, hstep⟩
      · obtain ⟨rfl, rfl⟩ := pure_eq_done hstep
        have hnone : s.extras = [] := List.isEmpty_iff.mp hempty
        have hfinal := hacc.final
        rwa [hnone, List.append_nil] at hfinal
      · obtain ⟨rfl, rfl⟩ := pure_eq_done hstep
        exact hacc.final
    · obtain ⟨ds, s₂, hstatement, hpure⟩ := bind_eq_done hstep
      obtain ⟨rfl, rfl⟩ := pure_eq_done hpure
      exact hacc.statement hstatement
  rcases ite_eq_done hend with ⟨htoken, hend⟩ | ⟨-, hend⟩
  · obtain ⟨rfl, rfl⟩ := pure_eq_done hend
    exact ⟨hfile, htoken⟩
  · exact absurd hend (by simp [failAhead])

/-! ### What a line keeps -/

/-- A comment has a line end between itself and what is written next. -/
theorem extra_ends {s : State} (hs : s.Fits text) {t : Tree} (ht : t ∈ s.extras)
    (hends : t.kind.endsLine = true) (hwritten : s.token.isWritten = true) :
    BreaksBetween text t.span.stop s.ahead.start.byte := by
  obtain ⟨kind, span, hkind, -, rfl⟩ := hs.extras t ht
  have hcomment : kind = .comment := by
    refine hkind.resolve_right ?_
    rintro rfl
    exact absurd hends Bool.false_ne_true
  have hline := (hs.comments _ ht hcomment).resolve_right fun hunknown => by
    rw [hunknown] at hwritten
    exact absurd hwritten (by decide)
  exact hline.between hs.front (hs.laid.stop_le ht) (hs.startsWord hwritten)

section

variable (hk : k.Keeps text)
include hk

theorem line_laid {s₀ s : State} {cs : List Tree} {lo : Nat} (hs₀ : s₀.Fits text)
    (hlo : AreLaid lo s₀.extras s₀.ahead.start.byte) (h : LineSoFar k s₀ cs s) :
    s₀.Leads text s ∧ AreLaid lo cs s.last.byte := by
  have hstatement := reads_simpleStatement hk
  induction h with
  | first h => exact Lays.part hstatement _ hs₀ _ hlo _ _ h
  | semicolon _ hmark ih =>
      obtain ⟨hleads, hlaid⟩ := ih
      obtain ⟨hleads', hlaid'⟩ := Lays.mark _ _ _ hleads.fits _ hleads.fits.laid _ _ hmark
      exact ⟨hleads.trans hleads', hlaid.append hlaid'⟩
  | statement _ hdone ih =>
      obtain ⟨hleads, hlaid⟩ := ih
      obtain ⟨hleads', hlaid'⟩ := Lays.part hstatement _ hleads.fits _ hleads.fits.laid _ _ hdone
      exact ⟨hleads.trans hleads', hlaid.append hlaid'⟩

/-- There is nothing with blocks on a line of simple statements. -/
theorem line_isSimple {s₀ s : State} {cs : List Tree} (hs₀ : s₀.Fits text)
    (h : LineSoFar k s₀ cs s) : ∀ t ∈ cs, t.kind.isCompound = false := by
  have hextra : ∀ {s : State}, s.Fits text → ∀ t ∈ s.extras, t.kind.isCompound = false := by
    intro s hs t ht
    obtain ⟨kind, span, rfl | rfl, -, rfl⟩ := hs.extras t ht <;> rfl
  have hpart : ∀ {s s' : State} {ts : List Tree}, s.Fits text →
      part (simpleStatement k) s = .done ts s' → ∀ t ∈ ts, t.kind.isCompound = false := by
    intro s s' ts hs h
    obtain ⟨t, hdone, rfl⟩ := part_eq_done h
    refine List.forall_mem_append.mpr ⟨hextra hs, fun u hu => ?_⟩
    obtain rfl := List.mem_singleton.mp hu
    exact isCompound_simpleStatement _ _ _ hdone
  induction h with
  | first h => exact hpart hs₀ h
  | semicolon h hmark ih =>
      have hs := (line_laid hk hs₀ hs₀.laid h).1.fits
      obtain ⟨-, rfl, -⟩ := mark_eq_done hmark
      exact List.forall_mem_append.mpr ⟨ih, hextra hs⟩
  | statement h hdone ih =>
      have hs := (line_laid hk hs₀ hs₀.laid h).1.fits
      exact List.forall_mem_append.mpr ⟨ih, hpart hs hdone⟩

/-- The trees of a line lie one after the other, and the line ends before what is written next. -/
theorem simpleLine_laid {s s' : State} {cs : List Tree} {lo : Nat} (hs : s.Fits text)
    (hlo : AreLaid lo s.extras s.ahead.start.byte) (h : simpleLine k s = .done cs s') :
    s.Leads text s' ∧ AreLaid lo cs s'.last.byte ∧
      (∀ t ∈ cs, t.kind.isCompound = false) ∧
      (s'.token.isWritten = true →
        ∀ t ∈ cs, BreaksBetween text t.span.stop s'.ahead.start.byte) := by
  obtain ⟨ts, s₁, ds, hline, hend, rfl⟩ := simpleLine_eq_done h
  obtain ⟨hleads, hlaid⟩ := line_laid hk hs hlo hline
  have hfits := hleads.fits
  obtain ⟨hleads', -⟩ := keeps_lineEnd _ s₁ hfits ds s' hend
  obtain ⟨-, rfl, -⟩ := lineEnd_eq_done hend
  obtain ⟨c, hc, hbreaks, hlast, hstart⟩ := lineEnd_at hfits hend
  have hall : AreLaid lo (ts ++ s₁.extras) s'.last.byte := by
    have hextras := hfits.laid
    rw [hstart] at hextras
    rw [hlast]
    exact hlaid.append hextras
  refine ⟨hleads.trans hleads', hall, ?_, fun hwritten t ht => ?_⟩
  · refine List.forall_mem_append.mpr ⟨line_isSimple hk hs hline, fun t ht => ?_⟩
    obtain ⟨kind, span, rfl | rfl, -, rfl⟩ := hfits.extras t ht <;> rfl
  · have hnextLine := hbreaks.between hc hleads'.fits.front
      (hlast ▸ hleads'.fits.last_le_start) (hleads'.fits.startsWord hwritten)
    exact hnextLine.mono (hlast ▸ hall.stop_le ht) (Nat.le_refl _)

/-! ### What a file keeps -/

/-- The trees so far lie one after the other, and line ends keep those apart that have one after
them and those that have blocks. -/
structure Outlined (text : List Char) (cs : List Tree) (s : State) : Prop where
  fits : s.Fits text
  laid : AreLaid 0 (cs ++ s.extras) s.ahead.start.byte
  ends : ∀ t ∈ cs ++ s.extras, t.kind.endsLine = true → s.token.isWritten = true →
    BreaksBetween text t.span.stop s.ahead.start.byte
  apart : cs.Pairwise fun t d => t.kind.endsLine = true → d.kind.isCompound = true →
    BreaksBetween text t.span.stop d.span.start

omit hk in
theorem isWritten_of_startsStatement {t : Token} (h : startsStatement t = true) :
    t.isWritten = true := by
  cases t <;> first | rfl |
    simp [startsStatement, Token.startsExpression, Token.isVariable, isOneOf, Token.isMark] at h

omit hk in
theorem pairwise_of_isSimple {cs ds : List Tree} {R : Tree → Tree → Prop}
    (hcs : cs.Pairwise fun t d => t.kind.endsLine = true → d.kind.isCompound = true → R t d)
    (hds : ∀ d ∈ ds, d.kind.isCompound = false) :
    (cs ++ ds).Pairwise fun t d => t.kind.endsLine = true → d.kind.isCompound = true → R t d := by
  have hsimple : ∀ d ∈ ds, ¬ d.kind.isCompound = true := fun d hd => by simp [hds d hd]
  refine List.pairwise_append.mpr ⟨hcs, ?_, fun _ _ d hd _ hd' => absurd hd' (hsimple d hd)⟩
  exact List.pairwise_of_forall_mem_list fun _ _ d hd _ hd' => absurd hd' (hsimple d hd)

/-- One more statement. -/
theorem Outlined.statement {cs ds : List Tree} {s s' : State} (h : Outlined text cs s)
    (hdone : statement k { s with extras := [] } = .done ds s') :
    Outlined text (cs ++ s.extras ++ ds) s' := by
  have hclean : State.Fits text { s with extras := [] } := (stays_extras s h.fits _ _ rfl).1
  obtain ⟨hstarts, hcases⟩ := statement_eq_done hk hdone
  have hwritten : s.token.isWritten = true := isWritten_of_startsStatement hstarts
  have hextras : ∀ t ∈ s.extras, t.kind.isCompound = false := by
    intro t ht
    obtain ⟨kind, span, rfl | rfl, -, rfl⟩ := h.fits.extras t ht <;> rfl
  have hapart := pairwise_of_isSimple h.apart hextras
  -- what was there has its line end before the statement, and so before what follows that
  have hlater : ∀ {ds : List Tree}, s.ahead.start.byte ≤ s'.ahead.start.byte →
      s'.Fits text → (∀ t ∈ ds, t.kind.endsLine = true → s'.token.isWritten = true →
        BreaksBetween text t.span.stop s'.ahead.start.byte) →
      ∀ t ∈ cs ++ s.extras ++ ds ++ s'.extras, t.kind.endsLine = true →
        s'.token.isWritten = true → BreaksBetween text t.span.stop s'.ahead.start.byte := by
    intro ds hle hs' hds
    refine List.forall_mem_append.mpr ⟨List.forall_mem_append.mpr ⟨?_, hds⟩, ?_⟩
    · exact fun t ht hends _ => (h.ends t ht hends hwritten).mono (Nat.le_refl _) hle
    · exact fun t ht => extra_ends hs' ht
  rcases hcases with ⟨p, hreads, hkinds, -, hpart⟩ | ⟨reach, hline⟩
  · obtain ⟨d, hd, rfl⟩ := part_eq_done hpart
    obtain ⟨hleads, htaken, -, hstart, hstop, -⟩ := hreads _ hclean d s' hd
    have hcompound : d.kind.isCompound = true := hkinds _ _ _ hd
    refine ⟨hleads.fits, ?_, ?_, ?_⟩
    · rw [List.append_assoc]
      refine h.laid.append ⟨Nat.le_of_eq hstart.symm, ?_, ?_⟩
      · rw [hstart, hstop]
        exact htaken
      · rw [hstop]
        exact hleads.fits.laid
    · refine hlater (Nat.le_trans htaken hleads.fits.last_le_start) hleads.fits fun t ht hends => ?_
      obtain rfl := List.mem_singleton.mp ht
      simp [Kind.endsLine, hcompound] at hends
    · refine List.pairwise_append.mpr ⟨hapart, List.pairwise_singleton _ _, ?_⟩
      intro t ht u hu hends _
      obtain rfl := List.mem_singleton.mp hu
      rw [hstart]
      exact h.ends t ht hends hwritten
  · obtain ⟨hleads, hlaid, hsimple, hbroken⟩ :=
      simpleLine_laid hk (hclean.withReach reach) (Nat.le_refl s.ahead.start.byte) hline
    refine ⟨hleads.fits, ?_, ?_, pairwise_of_isSimple hapart hsimple⟩
    · rw [List.append_assoc]
      exact h.laid.append (hlaid.append hleads.fits.laid)
    · refine hlater (Nat.le_trans hlaid.le hleads.fits.last_le_start) hleads.fits ?_
      exact fun t ht _ hwritten' => hbroken hwritten' t ht

omit hk in
/-- Comments at the end. -/
theorem Outlined.final {cs : List Tree} {s : State} (h : Outlined text cs s) :
    Outlined text (cs ++ s.extras) { s with extras := [] } := by
  have hclean : State.Fits text { s with extras := [] } := (stays_extras s h.fits _ _ rfl).1
  refine ⟨hclean, ?_, ?_, pairwise_of_isSimple h.apart fun t ht => ?_⟩
  · rw [List.append_nil]
    exact h.laid
  · rw [List.append_nil]
    exact h.ends
  · obtain ⟨kind, span, rfl | rfl, -, rfl⟩ := h.fits.extras t ht <;> rfl

/-- **The trees of a file lie one after the other, and a statement with blocks starts a line.** -/
theorem outlined_file {s₀ s : State} {cs : List Tree} (hs₀ : Outlined text [] s₀)
    (h : FileSoFar k s₀ cs s) : Outlined text cs s := by
  induction h with
  | nothing => exact hs₀
  | statement _ hstatement ih => exact ih.statement hk hstatement
  | final _ ih => exact ih.final

end

theorem outlined_start (source : String) :
    Outlined source.toList [] (State.start source) := by
  have hfits := State.fits_start source
  have hlast : (State.start source).last.byte = 0 := by
    rw [State.start, State.last_resume]
  refine ⟨hfits, ?_, fun t ht => extra_ends hfits ht, .nil⟩
  rw [← hlast]
  exact hfits.laid

end Grammar

/-- The readers of a source file and the states between its statements. -/
theorem exists_file_of_parse {source : String} {t : Tree} (h : parse source = .ok t) :
    ∃ n s, Grammar.FileSoFar (Knot.tie n) (State.start source) t.children s ∧
      s.token = .endOfText := by
  unfold parse at h
  split at h
  · rename_i hdone
    cases h
    exact ⟨8 * source.length + 31, _, Grammar.module_eq_done hdone⟩
  · exact absurd h (by simp)

/-- **The trees of a source file lie one after the other, and a statement with blocks starts a line
of its own.** -/
theorem outlined_parse {source : String} {t : Tree} (h : parse source = .ok t) :
    ∃ s, Grammar.Outlined source.toList t.children s := by
  obtain ⟨n, s, hfile, -⟩ := exists_file_of_parse h
  exact ⟨s, Grammar.outlined_file (Knot.keeps_tie _ n) (Grammar.outlined_start source) hfile⟩

end Plumbline.Syntax
