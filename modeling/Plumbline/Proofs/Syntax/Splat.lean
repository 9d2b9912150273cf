/-
Two readings of a star, in a text.

The tight and the loose reading of a star turn trees into others, which stay sound, because what they
build promises no more than what it is built from.  Either reading stays where the star stands; the
loose one ends with the operand that it unpacks, which lies in the tree.  So a group that is read as a
whole still starts where it did, and what stands in it goes forward and starts there too.
-/
import Plumbline.Proofs.Syntax.Sound

namespace Plumbline.Syntax

namespace Tree

variable {text : List Char} {t u : Tree} {k : Kind} {f : Option Field} {s : Span} {cs ds : List Tree}

/-! ### Stars -/

/-- A tree that reaches back to where a star stands, and ends where `t` does. -/
structure ReachesBack (text : List Char) (star : Span) (t u : Tree) : Prop where
  sound : u.Sound text
  start : u.span.start = star.start
  stop : u.span.stop = t.span.stop

theorem reachesBack_tighten {star : Span} {before : List Tree} (hstar : IsPlace text star.start)
    (hbefore : AllSound text before) (h : t.Sound text) (hstart : star.start ≤ t.span.start)
    (hforward : t.span.start ≤ t.span.stop) (heq : tighten star before t = some u) :
    ReachesBack text star t u := by
  induction h generalizing u with
  | @node k f s cs placed promises parts ih =>
      have h : Sound text (.node k f s cs) := .node placed promises parts
      have hstretch : IsStretch text (spanFrom star s) := ⟨hstar, placed.stretch.stop⟩
      have hbound : Sound text
          (.node .listSplat f (spanFrom star s) (before ++ [.node k none s cs])) := by
        refine sound_splat hstretch ?_ ?_
        · simpa using ⟨hbefore, h.inField none⟩
        · intro c hc
          obtain rfl : .node k none s cs = c := by simpa using hc
          exact ⟨hstart, hforward, Nat.le_refl _⟩
      unfold tighten at heq
      dsimp only at heq
      split at heq
      · obtain rfl := Option.some.inj heq
        exact ⟨hbound, rfl, rfl⟩
      · split at heq
        · rename_i hk
          split at heq
          · rename_i ds hds
            obtain rfl := Option.some.inj heq
            obtain ⟨c, rest, rfl, hc⟩ := promises.first hk
            have hfirst : LiesIn c.span s := placed.first hk
            unfold tightenFirst at hds
            obtain ⟨d, hd, rfl⟩ := Option.map_eq_some_iff.mp hds
            have hd : ReachesBack text star c d :=
              ih c List.mem_cons_self (hstart.trans (Nat.le_of_eq hc.symm)) hfirst.forward hd
            have hparts : AllSound text (d :: rest) :=
              allSound_cons.mpr ⟨hd.sound, (allSound_cons.mp parts).2⟩
            have hin : LiesIn d.span (spanFrom star s) := by
              refine ⟨Nat.le_of_eq hd.start.symm, ?_, ?_⟩
              · rw [hd.start, hd.stop]
                exact hstart.trans (hfirst.start.trans hfirst.forward)
              · rw [hd.stop]
                exact hfirst.stop
            exact ⟨.node (placed.replace hk hstar hin rfl) (promises_of_first hk hd.start) hparts,
              rfl, rfl⟩
          · split at heq
            · obtain rfl := Option.some.inj heq
              exact ⟨hbound, rfl, rfl⟩
            · exact absurd heq (by simp)
        · exact absurd heq (by simp)

/-- The tight reading of a star starts where the star stands and ends with what the star had
unpacked. -/
theorem Sound.tightened? (h : t.Sound text) (heq : t.tightened? = some u) :
    u.Sound text ∧ u.span.start = t.span.start ∧ LiesIn u.span t.span := by
  unfold Tree.tightened? at heq
  split at heq
  · split at heq
    · rename_i f s cs _ last hlast
      obtain ⟨v, hv, rfl⟩ := Option.map_eq_some_iff.mp heq
      have hin : LiesIn last.span s := h.placed.last hlast
      obtain ⟨hsound, hstart, hstop⟩ := reachesBack_tighten h.stretch.start h.parts.dropLast
        (h.parts.getLast? hlast) hin.start hin.forward hv
      have hlies : LiesIn v.span s := by
        refine ⟨Nat.le_of_eq hstart.symm, ?_, (Nat.le_of_eq hstop).trans hin.stop⟩
        rw [hstart, hstop]
        exact hin.start.trans hin.forward
      cases v with
      | node k f' s' ds => exact ⟨hsound.inField f, hstart, hlies⟩
    · exact absurd heq (by simp)
  · exact absurd heq (by simp)

/-- A star in front of a tree, with what lies between and the rest of the tree. -/
structure TakesStar (text : List Char) (t : Tree) (star : Span) (before : List Tree) (u : Tree) :
    Prop where
  before : AllSound text before
  sound : u.Sound text
  start : star.start = t.span.start
  lies : LiesIn u.span t.span

theorem takesStar_takeStar {star : Span} {before : List Tree} (h : t.Sound text)
    (heq : takeStar t = some (star, before, u)) : TakesStar text t star before u := by
  induction h generalizing u with
  | @node k f s cs placed promises parts ih =>
      have parts : AllSound text cs := parts
      unfold takeStar at heq
      split at heq
      · rename_i hk
        split at heq
        · rename_i k' f' s' ds hlast
          obtain rfl : k = .listSplat := by simpa using hk
          have hsound := parts.getLast? hlast
          cases heq
          exact ⟨parts.dropLast, hsound.inField f, rfl, (placed.last hlast :)⟩
        · exact absurd heq (by simp)
      · split at heq
        · rename_i hk
          split at heq
          · rename_i star' before' ds hds
            split at heq
            · rename_i d rest
              cases heq
              obtain ⟨c, more, rfl, hc⟩ := promises.first hk
              unfold takeStarFirst at hds
              obtain ⟨⟨star', before', d'⟩, hd, heq⟩ := Option.map_eq_some_iff.mp hds
              cases heq
              have htakes : TakesStar text c star before d := ih c List.mem_cons_self hd
              have hfirst : LiesIn c.span s := placed.first hk
              have hlies : LiesIn d.span s := htakes.lies.trans hfirst
              have hin : LiesIn d.span (spanFrom d.span s) :=
                ⟨Nat.le_refl _, hlies.forward, hlies.stop⟩
              refine ⟨htakes.before, .node (placed.replace hk htakes.sound.stretch.start hin rfl)
                (promises_of_first hk rfl) (allSound_cons.mpr ⟨htakes.sound, ?_⟩),
                htakes.start.trans hc, ⟨hlies.start, hlies.forward.trans hlies.stop, Nat.le_refl _⟩⟩
              exact (allSound_cons.mp parts).2
            · exact absurd heq (by simp)
          · exact absurd heq (by simp)
        · exact absurd heq (by simp)

/-- A star that unpacks a whole expression stands where that starts. -/
theorem Sound.loosened? (h : t.Sound text) (heq : t.loosened? = some u) :
    u.Sound text ∧ u.span.start = t.span.start ∧ LiesIn u.span t.span := by
  unfold Tree.loosened? at heq
  obtain ⟨⟨star, before, v⟩, hv, rfl⟩ := Option.map_eq_some_iff.mp heq
  obtain ⟨hbefore, hsound, hstart, hlies⟩ := takesStar_takeStar h hv
  cases v with
  | node k f s cs =>
      have hback : star.start ≤ s.start := hstart ▸ hlies.start
      have hstar : IsPlace text star.start := hstart ▸ h.stretch.start
      refine ⟨sound_splat ⟨hstar, hsound.stretch.stop⟩ ?_ ?_, hstart, ?_⟩
      · simpa using ⟨hbefore, hsound.inField none⟩
      · intro c hc
        obtain rfl : .node k none s cs = c := by simpa using hc
        exact ⟨hback, hlies.forward, Nat.le_refl _⟩
      · exact ⟨Nat.le_of_eq hstart.symm, hback.trans hlies.forward, hlies.stop⟩

/-- A star that binds to a place unpacks no more than that. -/
theorem loosened?_stop (hplace : t.kind.isPlace = true) (heq : t.loosened? = some u) :
    u.span.stop = t.span.stop := by
  obtain ⟨k, f, s, cs⟩ := t
  have hk : (k == .listSplat) = false := by
    by_contra hstar
    obtain rfl : k = .listSplat := by simpa using hstar
    exact absurd hplace Bool.false_ne_true
  unfold Tree.loosened? at heq
  obtain ⟨⟨star, before, v⟩, hv, rfl⟩ := Option.map_eq_some_iff.mp heq
  unfold takeStar at hv
  rw [hk, if_neg (by simp)] at hv
  split at hv
  · split at hv
    · split at hv
      · cases hv
        rfl
      · exact absurd hv (by simp)
    · exact absurd hv (by simp)
  · exact absurd hv (by simp)

/-- What a star is bound to is no string. -/
theorem isText_tightened? (heq : t.tightened? = some u) : u.kind.isText = false := by
  have hkind : ∀ {star before} {t v : Tree}, tighten star before t = some v →
      v.kind.isText = false := by
    rintro star before ⟨k, f, s, cs⟩ v hv
    unfold tighten at hv
    dsimp only at hv
    split at hv
    · cases hv
      rfl
    · split at hv
      · rename_i hk
        split at hv
        · cases hv
          exact (Kind.isText_of_appliesToFirst hk).1
        · split at hv
          · cases hv
            rfl
          · exact absurd hv (by simp)
      · exact absurd hv (by simp)
  unfold Tree.tightened? at heq
  split at heq
  · split at heq
    · obtain ⟨⟨k, f, s, cs⟩, hv, rfl⟩ := Option.map_eq_some_iff.mp heq
      exact (hkind hv :)
    · exact absurd heq (by simp)
  · exact absurd heq (by simp)

theorem kind_loosened? (heq : t.loosened? = some u) : u.kind = .listSplat := by
  unfold Tree.loosened? at heq
  obtain ⟨⟨star, before, ⟨k, f, s, cs⟩⟩, -, rfl⟩ := Option.map_eq_some_iff.mp heq
  rfl

/-! ### Groups -/

theorem span_wholeGroup? {kind : Kind} (heq : wholeGroup? kind t = some u) :
    u.span = t.span ∧ u.kind = kind ∧ t.kind.isGroup = true := by
  obtain ⟨k, f, s, cs⟩ := t
  unfold wholeGroup? at heq
  split at heq
  · rename_i hgroup
    obtain ⟨ds, -, rfl⟩ := Option.map_eq_some_iff.mp heq
    have hk : k.isGroup = true := Kind.isGroup_iff.mpr (by simpa [or_assoc] using hgroup)
    exact ⟨rfl, rfl, hk⟩
  · exact absurd heq (by simp)

/-- What a group starts with that is read as a whole: the item that it had, or that item with its
own star or its own group read as a whole. -/
theorem content_wholeItems? (heq : wholeItems? cs = some ds) :
    ∃ c d, cs.find? (·.kind != .comment) = some c ∧ ds.find? (·.kind != .comment) = some d ∧
      (d = c ∨ c.wholeGroup? .parenthesized = some d ∨ c.loosened? = some d) := by
  induction cs generalizing ds with
  | nil => exact absurd heq (by simp [Tree.wholeItems?])
  | cons c cs ih =>
      unfold Tree.wholeItems? at heq
      split at heq
      · obtain ⟨rest, hrest, rfl⟩ := Option.map_eq_some_iff.mp heq
        by_cases hc : c.kind = .comment
        · rw [List.find?_cons_of_neg (by simp [hc]), List.find?_cons_of_neg (by simp [hc])]
          exact ih hrest
        · have hcontent : (c.kind != .comment) = true := by simpa using hc
          exact ⟨c, c, List.find?_cons_of_pos hcontent, List.find?_cons_of_pos hcontent, Or.inl rfl⟩
      · rename_i hextra
        have hcontent : (c.kind != .comment) = true := by
          rw [bne_iff_ne]
          exact fun hc => hextra (by simp [hc])
        split at heq
        · rename_i g hg
          obtain rfl := Option.some.inj heq
          have hkind : (g.kind != .comment) = true := by rw [(span_wholeGroup? hg).2.1]; decide
          exact ⟨c, g, List.find?_cons_of_pos hcontent, List.find?_cons_of_pos hkind,
            Or.inr (Or.inl hg)⟩
        · obtain ⟨u, hu, rfl⟩ := Option.map_eq_some_iff.mp heq
          have hkind : (u.kind != .comment) = true := by rw [kind_loosened? hu]; decide
          exact ⟨c, u, List.find?_cons_of_pos hcontent, List.find?_cons_of_pos hkind,
            Or.inr (Or.inr hu)⟩

theorem holdsText_wholeItems? (h : HoldsText text s cs)
    (heq : wholeItems? cs = some ds) : HoldsText text s ds := by
  obtain ⟨c, d, hc, hd, hcase⟩ := content_wholeItems? heq
  intro e he htext
  obtain rfl := Option.some.inj (hd.symm.trans he)
  rcases hcase with rfl | hg | hu
  · exact h d hc htext
  · obtain ⟨hspan, -, hgroup⟩ := span_wholeGroup? hg
    rw [hspan]
    exact h c hc (Kind.isText_of_isGroup hgroup)
  · rw [kind_loosened? hu] at htext
    exact absurd htext (by decide)

/-- What a group starts with goes forward. -/
theorem forward_wholeItems? (hcs : AllSound text cs)
    (h : ∀ c, cs.find? (·.kind != .comment) = some c → c.span.start ≤ c.span.stop)
    (heq : wholeItems? cs = some ds) :
    ∀ d, ds.find? (·.kind != .comment) = some d → d.span.start ≤ d.span.stop := by
  obtain ⟨c, d, hc, hd, hcase⟩ := content_wholeItems? heq
  intro e he
  obtain rfl := Option.some.inj (hd.symm.trans he)
  rcases hcase with rfl | hg | hu
  · exact h d hc
  · rw [(span_wholeGroup? hg).1]
    exact h c hc
  · exact ((hcs c (List.mem_of_find?_eq_some hc)).loosened? hu).2.2.forward

theorem Sound.forward (h : Sound text (.node k f s cs)) (hk : k.isGroup = true) :
    ∀ c, cs.find? (·.kind != .comment) = some c → c.span.start ≤ c.span.stop :=
  fun c hc => h.placed.forward c ((Kind.core?_of_isGroup hk).trans hc)

mutual

theorem sound_wholeGroup? {kind : Kind} (hkind : kind.isGroup = true) :
    {t u : Tree} → t.Sound text → wholeGroup? kind t = some u →
      u.Sound text ∧ u.span = t.span ∧ u.kind = kind
  | .node k f s cs, u, h, heq => by
      unfold wholeGroup? at heq
      split at heq
      · rename_i hgroup
        have hk : k.isGroup = true := Kind.isGroup_iff.mpr (by simpa [or_assoc] using hgroup)
        obtain ⟨ds, hds, rfl⟩ := Option.map_eq_some_iff.mp heq
        have hheld := h.promises.held (Kind.holdsText_of_isGroup hk)
        exact ⟨sound_group h hk hkind (holdsText_wholeItems? hheld hds)
          (forward_wholeItems? h.parts (h.forward hk) hds) (sound_wholeItems? h.parts hds), rfl, rfl⟩
      · exact absurd heq (by simp)

theorem sound_wholeItems? : {cs ds : List Tree} → AllSound text cs →
    wholeItems? cs = some ds → AllSound text ds
  | [], _, _, heq => absurd heq (by simp [wholeItems?])
  | c :: cs, ds, h, heq => by
      rw [allSound_cons] at h
      unfold wholeItems? at heq
      split at heq
      · obtain ⟨rest, hrest, rfl⟩ := Option.map_eq_some_iff.mp heq
        exact allSound_cons.mpr ⟨h.1, sound_wholeItems? h.2 hrest⟩
      · split at heq
        · rename_i g hg
          obtain rfl := Option.some.inj heq
          exact allSound_cons.mpr ⟨(sound_wholeGroup? (by decide) h.1 hg).1, h.2⟩
        · obtain ⟨d, hd, rfl⟩ := Option.map_eq_some_iff.mp heq
          exact allSound_cons.mpr ⟨(h.1.loosened? hd).1, h.2⟩

end

/-- A group in a tuple of one unpacked item. -/
def asItem (c : Tree) : Tree := if c.kind == .parenthesized then c.withKind .parenthesizedSplat else c

theorem asItem_cases (c : Tree) :
    c.asItem = c ∨ (c.kind = .parenthesized ∧ c.asItem = c.withKind .parenthesizedSplat) := by
  unfold asItem
  split
  · rename_i hc
    exact Or.inr ⟨by simpa using hc, rfl⟩
  · exact Or.inl rfl

theorem content_asItem {d : Tree} (hd : (cs.map asItem).find? (·.kind != .comment) = some d) :
    ∃ c, cs.find? (·.kind != .comment) = some c ∧ d = c.asItem := by
  have hsame : ((·.kind != .comment) ∘ asItem : Tree → Bool) = (·.kind != .comment) := by
    funext ⟨k, f, s, cs⟩
    rcases asItem_cases (.node k f s cs) with hc | ⟨hk, hc⟩
    · rw [Function.comp_apply, hc]
    · obtain rfl : k = .parenthesized := hk
      rw [Function.comp_apply, hc]
      rfl
  rw [List.find?_map, hsame] at hd
  obtain ⟨c, hc, rfl⟩ := Option.map_eq_some_iff.mp hd
  exact ⟨c, hc, rfl⟩

@[simp] theorem span_asItem (c : Tree) : c.asItem.span = c.span := by
  rcases asItem_cases c with hc | ⟨-, hc⟩
  · rw [hc]
  · rw [hc]
    cases c with
    | node => rfl

theorem isText_asItem (c : Tree) : c.asItem.kind.isText = c.kind.isText := by
  rcases asItem_cases c with hc | ⟨hk, hc⟩
  · rw [hc]
  · rw [hc, hk]
    cases c with
    | node => rfl

theorem Sound.asItem {c : Tree} (h : c.Sound text) : c.asItem.Sound text := by
  rcases asItem_cases c with hc | ⟨hk, hc⟩
  · rwa [hc]
  · rw [hc]
    cases c with
    | node k f s cs =>
        obtain rfl : k = .parenthesized := hk
        exact sound_group h rfl rfl (h.promises.held rfl) (h.forward rfl) h.parts

theorem asTuple?_eq_some (heq : t.asTuple? = some u) : ∃ f s cs,
    t.wholeGroup? .splatTuple = some (.node .splatTuple f s cs) ∧
      u = .node .splatTuple f s (cs.map Tree.asItem) := by
  unfold Tree.asTuple? at heq
  split at heq
  · rename_i k f s cs hgroup
    obtain rfl : k = .splatTuple := (span_wholeGroup? hgroup).2.1
    exact ⟨f, s, cs, hgroup, (Option.some.inj heq).symm⟩
  · exact absurd heq (by simp)

theorem Sound.asTuple? (h : t.Sound text) (heq : t.asTuple? = some u) :
    u.Sound text ∧ u.span = t.span := by
  obtain ⟨f, s, cs, hgroup, rfl⟩ := asTuple?_eq_some heq
  obtain ⟨hsound, hspan, -⟩ := sound_wholeGroup? rfl h hgroup
  refine ⟨sound_group hsound rfl rfl (fun d hd htext => ?_) (fun d hd => ?_) fun d hd => ?_, hspan⟩
  · obtain ⟨c, hc, rfl⟩ := content_asItem hd
    rw [span_asItem]
    exact hsound.promises.held rfl c hc (isText_asItem c ▸ htext)
  · obtain ⟨c, hc, rfl⟩ := content_asItem hd
    rw [span_asItem]
    exact hsound.forward rfl c hc
  · obtain ⟨c, hc, rfl⟩ := List.mem_map.mp hd
    exact (hsound.parts c hc).asItem

theorem sound_firstWhole : {cs : List Tree} → AllSound text cs →
    AllSound text (withFirstGroupWhole.first cs)
  | [], _ => allSound_nil
  | c :: cs, h => by
      rw [allSound_cons] at h
      unfold withFirstGroupWhole.first
      split
      · exact allSound_cons.mpr ⟨h.1, sound_firstWhole h.2⟩
      · refine allSound_cons.mpr ⟨?_, h.2⟩
        cases hg : c.wholeGroup? .parenthesized with
        | none => exact h.1
        | some g => exact (sound_wholeGroup? (by decide) h.1 hg).1

theorem Sound.withFirstGroupWhole (h : t.Sound text) : t.withFirstGroupWhole.Sound text := by
  obtain ⟨k, f, s, cs⟩ := t
  by_cases hk : k = .argumentList
  · subst hk
    exact sound_plain (by decide) h.stretch (sound_firstWhole h.parts)
  · have hsame : Tree.withFirstGroupWhole (.node k f s cs) = .node k f s cs :=
      if_neg (by simpa using hk)
    rwa [hsame]

/-! ### What stands in parentheses -/

/-- A star with more behind it is no group, nor is what it is bound to. -/
theorem isGroup_loosened? (heq : t.loosened? = some u) : t.kind.isGroup = false := by
  obtain ⟨k, f, s, cs⟩ := t
  unfold Tree.loosened? at heq
  obtain ⟨⟨star, before, v⟩, hv, rfl⟩ := Option.map_eq_some_iff.mp heq
  unfold takeStar at hv
  cases hk : k.isGroup with
  | false => exact hk
  | true =>
      have hsplat : k ≠ .listSplat := by rintro rfl; exact absurd hk (by decide)
      simp [hsplat, Kind.not_appliesToFirst_of_isGroup hk] at hv

/-- What stands in a group starts at the same place if the group is read as a whole. -/
theorem Sound.earliest_wholeGroup? (h : t.Sound text) {kind : Kind} (hkind : kind.isGroup = true)
    (heq : wholeGroup? kind t = some u) : u.earliest = t.earliest := by
  induction h generalizing kind u with
  | @node k f s cs placed promises parts ih =>
      have hk : k.isGroup = true := (span_wholeGroup? heq).2.2
      unfold wholeGroup? at heq
      split at heq
      · obtain ⟨ds, hds, rfl⟩ := Option.map_eq_some_iff.mp heq
        obtain ⟨c, d, hc, hd, hcase⟩ := content_wholeItems? hds
        rw [earliest_of_isGroup hkind hd, earliest_of_isGroup hk hc]
        have hmem : c ∈ cs := List.mem_of_find?_eq_some hc
        rcases hcase with rfl | hg | hu
        · rfl
        · rw [ih c hmem rfl hg]
        · rw [earliest_of_not_isGroup (isGroup_loosened? hu),
            earliest_of_not_isGroup (by rw [kind_loosened? hu]; rfl),
            ((parts c hmem).loosened? hu).2.1]
      · exact absurd heq (by simp)

theorem earliest_asItem (c : Tree) : c.asItem.earliest = c.earliest := by
  rcases asItem_cases c with hc | ⟨hk, hc⟩
  · rw [hc]
  · rw [hc]
    cases c with
    | node k f s cs =>
        obtain rfl : k = .parenthesized := hk
        rfl

theorem Sound.earliest_asTuple? (h : t.Sound text) (heq : t.asTuple? = some u) :
    u.earliest = t.earliest := by
  obtain ⟨f, s, cs, hgroup, rfl⟩ := asTuple?_eq_some heq
  rw [← h.earliest_wholeGroup? rfl hgroup, earliest, earliest, earliestIn_eq, earliestIn_eq]
  cases hd : (cs.map Tree.asItem).find? (·.kind != .comment) with
  | none =>
      have hnone : cs.find? (·.kind != .comment) = none := by
        rw [List.find?_eq_none] at hd ⊢
        intro c hc
        have hitem := hd c.asItem (List.mem_map_of_mem hc)
        rcases asItem_cases c with hsame | ⟨-, hsame⟩
        · rwa [hsame] at hitem
        · rw [hsame] at hitem
          cases c with
          | node => exact absurd rfl hitem
      rw [hnone]
  | some d =>
      obtain ⟨c, hc, rfl⟩ := content_asItem hd
      rw [hc, Option.map_some, Option.map_some, earliest_asItem]

end Tree

end Plumbline.Syntax
