/-
Types do not depend on what was asked in between.

Whoever asks for a type makes the project remember modules and what their functions declare, and the
next question is asked with that.  `Project.Extends` says what may be remembered in this way, beyond
what was remembered at first: modules that were read from their files, and declared types as they
would have been found at first.  A module may be remembered under another spelling of its path, so a
question about it and the same question about another spelling are run side by side
(`TwoRuns.Relates`), and they find the same types.

In the end, the type of an expression is the same whenever it is asked for (`inferType_later`).
-/
import Plumbline.Proofs.Analysis.Again
import Plumbline.Proofs.Analysis.Spelling
import Plumbline.Proofs.Analysis.TopLevel

namespace Plumbline

open Query

/-! ### What is remembered in between -/

namespace Project

/-- The module of a file: what is remembered of it at first, or else what is read from the file. -/
def IsModule (p : Project) (c₀ : Cache) (key : FileKey) (m : Module) : Prop :=
  c₀.modules.lookup key = some m ∨
    c₀.modules.lookup key = none ∧ ∃ path, p.key path = key ∧ p.load path = .ok m

/-- What a function of the file declares to return: what is remembered of it at first, or else what
would have been found at first. -/
inductive Declares (p : Project) (c₀ : Cache) (key : FileKey) (qualname : String)
    (t : InferredType) : Prop where
  | remembered (h : c₀.declared.lookup (key, qualname) = some t)
  | found {m : Module} (hnew : c₀.declared.lookup (key, qualname) = none)
      (hm : p.IsModule c₀ key m) (ht : (((declaredIn m qualname).run p).run c₀).1 = t)
  | missing (hnew : c₀.declared.lookup (key, qualname) = none)
      (hm : ∀ m, ¬ p.IsModule c₀ key m) (ht : InferredType.unknown = t)

/-- What `c` remembers, and `c₀` did not at first, may have been found in between. -/
structure Extends (p : Project) (c₀ c : Cache) : Prop where
  le : c₀ ≤ c
  modules : ∀ key m, c.modules.lookup key = some m → p.IsModule c₀ key m
  declared : ∀ key qualname t, c.declared.lookup (key, qualname) = some t →
    p.Declares c₀ key qualname t

/-- Runs between which only questions about types are asked.  They are compared side by side, not
one after the other, so nothing is said of a second run. -/
def between (p : Project) (c₀ : Cache) : TwoRuns where
  project := p
  Sound := p.Extends c₀
  Follows _ _ := False
  follows_of_le _ h := h
  follows_le h _ := h

/-- The file is remembered, or it can be read under this path if it can be read at all. -/
def Reaches (p : Project) (c : Cache) (path : Path) : Prop :=
  (∃ m, c.modules.lookup (p.key path) = some m) ∨ p.Rereadable path

/-- The files of all modules that are remembered are reached under the paths of the modules. -/
def ReachesAll (p : Project) (c : Cache) : Prop :=
  ∀ key m, c.modules.lookup key = some m → p.Reaches c m.path

variable {p : Project} {c₀ c d : Cache} {key : FileKey} {m m' : Module} {path path' : Path}

theorem extends_self (p : Project) (c₀ : Cache) : p.Extends c₀ c₀ where
  le := le_rfl
  modules _ _ h := .inl h
  declared _ _ _ h := .remembered h

theorem Reaches.later (hle : c ≤ d) (h : p.Reaches c path) : p.Reaches d path := by
  refine h.imp_left ?_
  rintro ⟨m, hm⟩
  exact ⟨m, hle.modules _ m hm⟩

/-- What was read is reached once it is remembered. -/
theorem reaches_of_load (hload : p.load path = .ok m)
    (hlook : c.modules.lookup (p.key path) = some m) : p.Reaches c m.path := by
  rcases rereadable_path hload with hread | hkey
  · exact .inr hread
  · exact .inl ⟨m, by rw [hkey, hlook]⟩

/-- In particular all modules are reached that were read from the files of the project. -/
theorem Remembers.reachesAll (h : p.Remembers c) : p.ReachesAll c := by
  intro key m hm
  obtain ⟨path, rfl, hload⟩ := h key m hm
  exact reaches_of_load hload hm

/-- A file is one module, but for the spelling of its path. -/
theorem IsModule.spelledAlike (h : p.IsModule c₀ key m) (h' : p.IsModule c₀ key m') :
    m.SpelledAlike m' := by
  rcases h with h | ⟨hnone, path, hkey, hload⟩
  · rcases h' with h' | ⟨hnone', -⟩
    · obtain rfl := Option.some.inj (h.symm.trans h')
      exact .refl m
    · rw [hnone'] at h
      cases h
  · rcases h' with h' | ⟨-, path', hkey', hload'⟩
    · rw [hnone] at h'
      cases h'
    · exact spelledAlike_of_load hload hload' (hkey.trans hkey'.symm)

theorem grows_parse_between (hc : p.Extends c₀ c) (path : Path) :
    (p.between c₀).Grows (parse path) c := by
  refine TwoRuns.grows_parse hc fun m hload hle =>
    ⟨hc.le.trans hle, fun key m' hm' => ?_, hc.declared⟩
  by_cases hkey : key = p.key path
  · subst hkey
    obtain rfl : m = m' := by simpa [between] using hm'
    cases hold : c₀.modules.lookup (p.key path) with
    | none => exact .inr ⟨hold, path, rfl, hload⟩
    | some m₀ =>
        have hnew := hle.modules _ m₀ (hc.le.modules _ m₀ hold)
        obtain rfl : m = m₀ := by simpa [between] using hnew
        exact .inl hold
  · have hne : (key == p.key path) = false := beq_eq_false_iff_ne.mpr hkey
    refine hc.modules key m' ?_
    simpa [between, List.lookup_cons, hne] using hm'

/-- What is parsed is the module of the file. -/
theorem isModule_of_parse (hc : p.Extends c₀ c)
    (h : ((p.between c₀).run (parse path) c).1 = .ok m) : p.IsModule c₀ (p.key path) m := by
  have hrun : (p.between c₀).run (parse path) c = _ := run_parse p path c
  rw [hrun] at h
  cases hlook : c.modules.lookup (p.key path) with
  | some m' =>
      rw [hlook] at h
      obtain rfl := Except.ok.inj h
      exact hc.modules _ m' hlook
  | none =>
      rw [hlook] at h
      cases hload : p.load path with
      | error e =>
          rw [hload] at h
          cases h
      | ok m' =>
          rw [hload] at h
          obtain rfl := Except.ok.inj h
          cases hold : c₀.modules.lookup (p.key path) with
          | none => exact .inr ⟨hold, path, rfl, hload⟩
          | some m₀ =>
              rw [hc.le.modules _ m₀ hold] at hlook
              cases hlook

/-- What cannot be parsed is no module, under no other spelling either. -/
theorem not_isModule_of_parse (hc : p.Extends c₀ c) (hreach : p.Reaches c path) {e : ParseError}
    (h : ((p.between c₀).run (parse path) c).1 = .error e) (m : Module) :
    ¬ p.IsModule c₀ (p.key path) m := by
  have hrun : (p.between c₀).run (parse path) c = _ := run_parse p path c
  rw [hrun] at h
  cases hlook : c.modules.lookup (p.key path) with
  | some m' =>
      rw [hlook] at h
      cases h
  | none =>
      rw [hlook] at h
      rintro (hold | ⟨-, other, hkey, hother⟩)
      · rw [hc.le.modules _ m hold] at hlook
        cases hlook
      · have hread : p.Rereadable path := hreach.resolve_left (by simp [hlook])
        obtain ⟨m', hload⟩ := hread other m hkey hother
        rw [hload] at h
        cases h

end Project

/-! ### Two questions side by side -/

namespace TwoRuns

variable {V : TwoRuns} {α β γ δ : Type} {c d : Cache}

theorem run_then (work : Query α) (next : α → Query β) (c : Cache) :
    V.run (work >>= next) c = V.run (next (V.run work c).1) (V.run work c).2 := rfl

/-- The runs of two questions, with `c` remembered in one and `d` in the other, give answers that
`R` relates. -/
def Relates (V : TwoRuns) (c d : Cache) (work : Query α) (work' : Query β) (R : α → β → Prop) :
    Prop :=
  V.Sound c → V.Sound d →
    R (V.run work c).1 (V.run work' d).1 ∧ V.Grows work c ∧ V.Grows work' d

theorem relates_pure {a : α} {b : β} {R : α → β → Prop} (h : R a b) :
    V.Relates c d (pure a) (pure b) R :=
  fun hc hd => ⟨h, ⟨le_rfl, hc⟩, ⟨le_rfl, hd⟩⟩

/-- The second questions are asked with what the first ones have left. -/
theorem relates_then {work : Query α} {work' : Query β} {next : α → Query γ} {next' : β → Query δ}
    {R : α → β → Prop} {S : γ → δ → Prop} (h : V.Relates c d work work' R)
    (hnext : c ≤ (V.run work c).2 → d ≤ (V.run work' d).2 →
      R (V.run work c).1 (V.run work' d).1 →
      V.Relates (V.run work c).2 (V.run work' d).2 (next (V.run work c).1)
        (next' (V.run work' d).1) S) :
    V.Relates c d (work >>= next) (work' >>= next') S := by
  intro hc hd
  obtain ⟨hanswers, hleft, hright⟩ := h hc hd
  obtain ⟨hanswers', hleft', hright'⟩ :=
    hnext hleft.le hright.le hanswers hleft.sound hright.sound
  exact ⟨hanswers', ⟨hleft.le.trans hleft'.le, hleft'.sound⟩,
    ⟨hright.le.trans hright'.le, hright'.sound⟩⟩

theorem relates_bind {work : Query α} {work' : Query β} {next : α → Query γ} {next' : β → Query δ}
    {R : α → β → Prop} {S : γ → δ → Prop} (h : V.Relates c d work work' R)
    (hnext : ∀ c' d' a b, c ≤ c' → d ≤ d' → R a b → V.Relates c' d' (next a) (next' b) S) :
    V.Relates c d (work >>= next) (work' >>= next') S := relates_then h (hnext _ _ _ _)

theorem relates_foldlM {f : β → α → Query β} {f' : γ → α → Query γ} {R : β → γ → Prop}
    {items : List α} {b : β} {b' : γ} (h : R b b')
    (hstep : ∀ c' d' b b', ∀ a ∈ items, R b b' → V.Relates c' d' (f b a) (f' b' a) R) :
    V.Relates c d (items.foldlM f b) (items.foldlM f' b') R := by
  induction items generalizing b b' c d with
  | nil => exact relates_pure h
  | cons a rest ih =>
      rw [List.foldlM_cons, List.foldlM_cons]
      refine relates_bind (hstep c d b b' a (by simp) h) fun _ _ _ _ _ _ hb => ih hb ?_
      exact fun c' d' b b' a' ha' => hstep c' d' b b' a' (List.mem_cons_of_mem a ha')

/-- A file is looked for in the same place by both. -/
theorem relates_read {next next' : Project → Query α} {R : α → α → Prop}
    (h : V.Relates c d (next V.project) (next' V.project) R) :
    V.Relates c d (read >>= next) (read >>= next') R := by
  intro hc hd
  obtain ⟨hanswers, hleft, hright⟩ := h hc hd
  exact ⟨hanswers, ⟨hleft.le, hleft.sound⟩, ⟨hright.le, hright.sound⟩⟩

end TwoRuns

/-! ### Names -/

/-- The symbols differ in nothing but how paths are spelled. -/
inductive Symbol.SpelledAlike : Symbol → Symbol → Prop where
  | «class» (module name : String) {path path' : Path} (h : path.components = path'.components) :
      SpelledAlike (.class module name path) (.class module name path')
  | function (qualname : String) {path path' : Path} (h : path.components = path'.components) :
      SpelledAlike (.function path qualname) (.function path' qualname)
  | module (dotted : String) : SpelledAlike (.module dotted) (.module dotted)

/-- Both find nothing, or symbols that are spelled alike. -/
abbrev FoundAlike : Option Symbol → Option Symbol → Prop := Option.Rel Symbol.SpelledAlike

/-- Both are no module, or modules that are spelled alike. -/
inductive ParsedAlike : Except ParseError Module → Except ParseError Module → Prop where
  | error (e e' : ParseError) : ParsedAlike (.error e) (.error e')
  | ok {m m' : Module} (h : m.SpelledAlike m') : ParsedAlike (.ok m) (.ok m')

namespace Query

open TwoRuns

variable {p : Project} {c₀ c d : Cache} {m m' : Module} {path path' : Path}

theorem parse_alike (hpath : path.components = path'.components) (hreach : p.Reaches c path)
    (hreach' : p.Reaches d path') :
    (p.between c₀).Relates c d (parse path) (parse path') ParsedAlike := by
  intro hc hd
  refine ⟨?_, p.grows_parse_between hc path, p.grows_parse_between hd path'⟩
  have hkey := p.key_congr hpath
  cases hm : ((p.between c₀).run (parse path) c).1 with
  | error e =>
      have hnone := Project.not_isModule_of_parse hc hreach hm
      cases hm' : ((p.between c₀).run (parse path') d).1 with
      | error e' => exact .error e e'
      | ok m' =>
          have hmodule := Project.isModule_of_parse hd hm'
          rw [← hkey] at hmodule
          exact absurd hmodule (hnone m')
  | ok m =>
      have hmodule := Project.isModule_of_parse hc hm
      rw [hkey] at hmodule
      cases hm' : ((p.between c₀).run (parse path') d).1 with
      | error e' => exact absurd hmodule (Project.not_isModule_of_parse hd hreach' hm' m)
      | ok m' => exact .ok (hmodule.spelledAlike (Project.isModule_of_parse hd hm'))

/-- The file of a module is parsed alike. -/
theorem parse_moduleFile_alike {dotted : String} (h : p.moduleFile? dotted = some path) :
    (p.between c₀).Relates c d (parse path) (parse path) ParsedAlike :=
  parse_alike rfl (.inr (Project.rereadable_moduleFile h)) (.inr (Project.rereadable_moduleFile h))

section

variable {lookIn : String → String → Query (Option Symbol)}
  (hlook : ∀ c d dotted name,
    (p.between c₀).Relates c d (lookIn dotted name) (lookIn dotted name) FoundAlike)
include hlook

theorem imported_alike (source name : String) :
    (p.between c₀).Relates c d (imported lookIn source name) (imported lookIn source name)
      FoundAlike := by
  refine relates_bind (hlook c d source name) fun c' d' found found' _ _ hfound => ?_
  cases hfound with
  | some h => exact relates_pure (.some h)
  | none =>
      refine relates_read (relates_pure ?_)
      cases (p.between c₀).project.moduleFile? _ with
      | none => exact .none
      | some path => exact .some (.module _)

theorem importedSymbol_alike (hm : m.SpelledAlike m') (i : Import) (n : ImportedName) :
    (p.between c₀).Relates c d (importedSymbol lookIn m i n) (importedSymbol lookIn m' i n)
      FoundAlike := by
  unfold importedSymbol
  rw [hm.importSource? i]
  split
  · split
    · exact imported_alike hlook _ _
    · exact relates_pure .none
  · split
    · exact relates_pure (.some (.module _))
    · exact relates_pure (.some (.module _))

theorem bindingStep_alike (hm : m.SpelledAlike m') (name : String) {found found' : Option Symbol}
    (hfound : FoundAlike found found') (s : Stmt) :
    (p.between c₀).Relates c d (bindingStep lookIn m name found s)
      (bindingStep lookIn m' name found' s) FoundAlike := by
  unfold bindingStep
  split
  · refine relates_pure ?_
    split
    · rw [hm.name]
      exact .some (.class _ _ hm.path)
    · exact hfound
  · refine relates_pure ?_
    split
    · exact .some (.function _ hm.path)
    · exact hfound
  · split
    · exact relates_pure hfound
    · refine relates_foldlM hfound fun c' d' _ _ n _ _ => ?_
      exact importedSymbol_alike hlook hm _ n
  · exact relates_pure hfound

end

/-- Modules that are found by their name are looked into alike. -/
theorem lookupIn_alike {hops : Nat} {name : String}
    (hlook : ∀ {c d m m'}, m.SpelledAlike m' →
      (p.between c₀).Relates c d (lookup hops m name) (lookup hops m' name) FoundAlike)
    (dotted : String) :
    (p.between c₀).Relates c d (lookupIn hops dotted name) (lookupIn hops dotted name)
      FoundAlike := by
  refine relates_read ?_
  cases hpath : (p.between c₀).project.moduleFile? dotted with
  | none => exact relates_pure .none
  | some path =>
      refine relates_bind (parse_moduleFile_alike hpath) fun _ _ r r' _ _ hparsed => ?_
      cases hparsed with
      | error e e' => exact relates_pure .none
      | ok hm => exact hlook hm

theorem lookup_alike (hops : Nat) (hm : m.SpelledAlike m') (name : String) :
    (p.between c₀).Relates c d (lookup hops m name) (lookup hops m' name) FoundAlike := by
  induction hops generalizing m m' name c d with
  | zero => exact relates_pure .none
  | succ hops ih =>
      rw [lookup_succ, lookup_succ, hm.body]
      refine relates_foldlM .none fun c' d' _ _ s _ hfound => ?_
      refine bindingStep_alike (fun c d dotted name => ?_) hm name hfound s
      exact lookupIn_alike (fun hm => ih hm name) dotted

theorem symbol_alike (hm : m.SpelledAlike m') (name : String) :
    (p.between c₀).Relates c d (symbol m name) (symbol m' name) FoundAlike :=
  lookup_alike _ hm name

theorem symbolIn_alike (dotted name : String) :
    (p.between c₀).Relates c d (symbolIn dotted name) (symbolIn dotted name) FoundAlike := by
  have hin : symbolIn dotted name = lookupIn maxHops dotted name := rfl
  rw [hin]
  exact lookupIn_alike (fun hm => lookup_alike _ hm name) dotted

theorem dottedSymbol_alike (hm : m.SpelledAlike m') (text : String) :
    (p.between c₀).Relates c d (dottedSymbol m text) (dottedSymbol m' text) FoundAlike := by
  unfold dottedSymbol
  split
  · exact symbol_alike hm text
  · refine relates_bind (symbol_alike hm _) fun _ _ found found' _ _ hfound => ?_
    cases hfound with
    | none => exact relates_pure .none
    | some h =>
        cases h with
        | module dotted => exact symbolIn_alike dotted _
        | _ => exact relates_pure .none

/-! ### Declared types -/

theorem resolveHint_alike (hm : m.SpelledAlike m') (hint : String) :
    (p.between c₀).Relates c d (resolveHint m hint) (resolveHint m' hint) Eq := by
  unfold resolveHint
  dsimp only
  split
  · exact relates_pure rfl
  · split
    · exact relates_pure rfl
    · split
      · exact relates_pure rfl
      · refine relates_bind (dottedSymbol_alike hm _) fun _ _ found found' _ _ hfound => ?_
        cases hfound with
        | none => exact relates_pure rfl
        | some h => cases h <;> exact relates_pure rfl

theorem declaredIn_alike (hm : m.SpelledAlike m') (qualname : String) :
    (p.between c₀).Relates c d (declaredIn m qualname) (declaredIn m' qualname) Eq := by
  have hambiguous : m.isAmbiguous qualname = m'.isAmbiguous qualname := by rw [hm.rest]; rfl
  have hfunction : m.findFunction? qualname = m'.findFunction? qualname := by rw [hm.rest]; rfl
  unfold declaredIn
  rw [hambiguous, hfunction]
  split
  · exact relates_pure rfl
  · split
    · exact relates_pure rfl
    · split
      · exact relates_pure rfl
      · split
        · exact resolveHint_alike hm _
        · exact relates_pure rfl

end Query

namespace Project

open TwoRuns

variable {p : Project} {c₀ c d : Cache} {key : FileKey} {path path' : Path} {qualname : String}
  {t u : InferredType}

/-- There is one thing that a function declares. -/
theorem Declares.eq (h : p.Declares c₀ key qualname t) (h' : p.Declares c₀ key qualname u) :
    t = u := by
  cases h with
  | remembered h =>
      cases h' with
      | remembered h' => exact Option.some.inj (h.symm.trans h')
      | found hnew _ _ => cases hnew.symm.trans h
      | missing hnew _ _ => cases hnew.symm.trans h
  | found hnew hm ht =>
      cases h' with
      | remembered h' => cases hnew.symm.trans h'
      | found _ hm' ht' =>
          have hsame := (declaredIn_alike (hm.spelledAlike hm') qualname
            (p.extends_self c₀) (p.extends_self c₀)).1
          rw [← ht, ← ht']
          exact hsame
      | missing _ hnone _ => exact absurd hm (hnone _)
  | missing hnew hnone ht =>
      cases h' with
      | remembered h' => cases hnew.symm.trans h'
      | found _ hm' _ => exact absurd hm' (hnone _)
      | missing _ _ ht' => rw [← ht, ← ht']

theorem declares_declaredAfresh (hc : p.Extends c₀ c) (hreach : p.Reaches c path)
    (hnew : c₀.declared.lookup (p.key path, qualname) = none) :
    p.Declares c₀ (p.key path) qualname
        ((p.between c₀).run (declaredAfresh path qualname) c).1 ∧
      (p.between c₀).Grows (declaredAfresh path qualname) c := by
  have hparse := p.grows_parse_between hc path
  cases hm : ((p.between c₀).run (parse path) c).1 with
  | error e =>
      have hstep : (p.between c₀).run (declaredAfresh path qualname) c =
          (.unknown, ((p.between c₀).run (parse path) c).2) := by
        rw [declaredAfresh, TwoRuns.run_then, hm]
        rfl
      refine ⟨?_, ?_, ?_⟩ <;> rw [hstep]
      · exact .missing hnew (not_isModule_of_parse hc hreach hm) rfl
      · exact hparse.le
      · exact hparse.sound
  | ok m =>
      have hstep : (p.between c₀).run (declaredAfresh path qualname) c =
          (p.between c₀).run (declaredIn m qualname) ((p.between c₀).run (parse path) c).2 := by
        rw [declaredAfresh, TwoRuns.run_then, hm]
      obtain ⟨hsame, hgrows, -⟩ := declaredIn_alike (.refl m) qualname hparse.sound
        (p.extends_self c₀)
      refine ⟨?_, ?_, ?_⟩ <;> rw [hstep]
      · exact .found hnew (isModule_of_parse hc hm) hsame.symm
      · exact hparse.le.trans hgrows.le
      · exact hgrows.sound

/-- **What a function declares is found as it would have been at first.** -/
theorem declares_declaredReturn (hc : p.Extends c₀ c) (hreach : p.Reaches c path)
    (qualname : String) :
    p.Declares c₀ (p.key path) qualname
        ((p.between c₀).run (declaredReturn path qualname) c).1 ∧
      (p.between c₀).Grows (declaredReturn path qualname) c := by
  have hrun : (p.between c₀).run (declaredReturn path qualname) c = _ :=
    run_declaredReturn p path qualname c
  cases hlook : c.declared.lookup (p.key path, qualname) with
  | some t =>
      rw [hlook] at hrun
      refine ⟨?_, ?_, ?_⟩ <;> rw [hrun]
      · exact hc.declared _ _ t hlook
      · exact hc
  | none =>
      rw [hlook] at hrun
      have hnew : c₀.declared.lookup (p.key path, qualname) = none := by
        cases hold : c₀.declared.lookup (p.key path, qualname) with
        | none => rfl
        | some t =>
            rw [hc.le.declared _ t hold] at hlook
            cases hlook
      obtain ⟨hdeclares, hgrows⟩ := declares_declaredAfresh hc hreach hnew
      refine ⟨?_, TwoRuns.grows_declaredReturn hc hgrows ?_⟩
      · rw [hrun]
        exact hdeclares
      · rintro c' t hafter hc' hle
        have ht : t = _ := congrArg Prod.fst hafter
        refine ⟨hc.le.trans hle, hc'.modules, fun key name t' ht' => ?_⟩
        by_cases hkey : (key, name) = (p.key path, qualname)
        · obtain rfl : t = t' := by simpa [between, hkey] using ht'
          obtain ⟨rfl, rfl⟩ := Prod.mk.inj hkey
          rw [ht]
          exact hdeclares
        · have hne : ((key, name) == (p.key path, qualname)) = false := beq_eq_false_iff_ne.mpr hkey
          refine hc'.declared key name t' ?_
          simpa only [between, List.lookup_cons, hne] using ht'

/-- What is parsed is reached under its own path. -/
theorem reaches_of_parse (h₀ : p.ReachesAll c₀) (hc : p.Extends c₀ c) {m : Module}
    (h : ((p.between c₀).run (parse path) c).1 = .ok m) :
    p.Reaches ((p.between c₀).run (parse path) c).2 m.path := by
  have hrun : (p.between c₀).run (parse path) c = _ := run_parse p path c
  rw [hrun] at h ⊢
  cases hlook : c.modules.lookup (p.key path) with
  | some m' =>
      rw [hlook] at h
      obtain rfl := Except.ok.inj h
      rcases hc.modules _ m' hlook with hold | ⟨-, other, hkey, hload⟩
      · exact (h₀ _ m' hold).later hc.le
      · exact reaches_of_load hload (by rw [hkey]; exact hlook)
  | none =>
      rw [hlook] at h
      cases hload : p.load path with
      | error e =>
          rw [hload] at h
          cases h
      | ok m' =>
          rw [hload] at h
          obtain rfl := Except.ok.inj h
          exact reaches_of_load hload List.lookup_cons_self

/-- All that questions about types come to is reached. -/
def reaching (p : Project) (c₀ : Cache) (h₀ : p.ReachesAll c₀) : Grounds (p.between c₀).logic where
  Here p' := p' = p
  Known c m := p.Reaches c m.path
  Fit := p.Reaches
  Named _ := True
  Asked _ _ := True
  Told _ _ := True
  known_later hle h := h.later hle
  fit_later hle h := h.later hle
  told_later _ _ := trivial
  fit_path h := h
  fit_moduleFile hp _ h := .inr (rereadable_moduleFile (hp ▸ h))
  named_source _ _ _ := trivial
  named_member _ _ _ _ := trivial
  named_import _ _ _ := ⟨trivial, trivial⟩
  told_unknown := trivial
  told_dynamic := trivial
  told_builtin _ := trivial
  told_composite _ _ := trivial
  told_class _ _ := trivial
  read_holds := TwoRuns.read_holds
  parse_holds {_ path} _ hc :=
    { toGrows := grows_parse_between hc path
      answer := fun _ h => reaches_of_parse h₀ hc h
      again := fun _ _ h => h.elim }
  declaredReturn_holds {_ _ qualname} hreach _ hc :=
    { toGrows := (declares_declaredReturn hc hreach qualname).2
      answer := trivial
      again := fun _ _ h => h.elim }
  inferReturn_holds _ _ hbody hc :=
    { toGrows := TwoRuns.grows_inferReturn hc (hbody hc).toGrows
        fun _ _ _ hc' hle => ⟨hc.le.trans hle, hc'.modules, hc'.declared⟩
      answer := trivial
      again := fun _ _ h => h.elim }

end Project

namespace Query

open TwoRuns

variable {p : Project} {c₀ c d : Cache} {m m' : Module} {path path' : Path}

theorem declaredReturn_alike (hpath : path.components = path'.components)
    (hreach : p.Reaches c path) (hreach' : p.Reaches d path') (qualname : String) :
    (p.between c₀).Relates c d (declaredReturn path qualname) (declaredReturn path' qualname)
      Eq := by
  intro hc hd
  obtain ⟨hdeclares, hgrows⟩ := p.declares_declaredReturn hc hreach qualname
  obtain ⟨hdeclares', hgrows'⟩ := p.declares_declaredReturn hd hreach' qualname
  rw [← p.key_congr hpath] at hdeclares'
  exact ⟨hdeclares.eq hdeclares', hgrows, hgrows'⟩

/-! ### Types of expressions -/

theorem methodCall_alike (hpath : path.components = path'.components) (hreach : p.Reaches c path)
    (hreach' : p.Reaches d path') (className method : String) :
    (p.between c₀).Relates c d (methodCall path className method)
      (methodCall path' className method) Eq := by
  refine relates_bind (parse_alike hpath hreach hreach') fun c' d' r r' hle hle' hparsed => ?_
  cases hparsed with
  | error e e' => exact relates_pure rfl
  | ok hm =>
      dsimp only
      rw [hm.findClass? className]
      split
      · exact declaredReturn_alike hpath (hreach.later hle) (hreach'.later hle') _
      · exact relates_pure rfl

theorem agreed_alike {α : Type} {infer : α → Query InferredType} {items : List α}
    (hinfer : ∀ c' d', c ≤ c' → d ≤ d' → ∀ a ∈ items,
      (p.between c₀).Relates c' d' (infer a) (infer a) Eq) (type : Option TypeRef) :
    (p.between c₀).Relates c d (agreed infer type items) (agreed infer type items) Eq := by
  induction items generalizing type c d with
  | nil => exact relates_pure rfl
  | cons a rest ih =>
      unfold agreed
      refine relates_bind (hinfer c d le_rfl le_rfl a (by simp)) fun c' d' t u hle hle' heq => ?_
      subst heq
      have hrest : ∀ type, (p.between c₀).Relates c' d' (agreed infer type rest)
          (agreed infer type rest) Eq := ih fun c₁ d₁ h h' a' ha' =>
        hinfer c₁ d₁ (hle.trans h) (hle'.trans h') a' (List.mem_cons_of_mem a ha')
      cases t with
      | unknown => exact relates_pure rfl
      | dynamic => exact relates_pure rfl
      | known t =>
          dsimp only
          split
          · exact hrest _
          · split
            · exact hrest _
            · exact relates_pure rfl

theorem assignmentType_alike {infer : Expr → Query InferredType}
    (hinfer : ∀ e, (p.between c₀).Relates c d (infer e) (infer e) Eq) (m : Module) (a : Assign) :
    (p.between c₀).Relates c d (assignmentType infer m a) (assignmentType infer m a) Eq := by
  unfold assignmentType
  split
  · exact relates_pure rfl
  · split
    · exact resolveHint_alike (.refl m) _
    · split
      · exact hinfer _
      · exact relates_pure rfl

theorem nameType_alike {infer : Expr → Query InferredType}
    (hinfer : ∀ c' d', c ≤ c' → d ≤ d' → ∀ e, (p.between c₀).Relates c' d' (infer e) (infer e) Eq)
    (scope : Scope) (name : String) :
    (p.between c₀).Relates c d (nameType infer scope name) (nameType infer scope name) Eq := by
  unfold nameType
  split
  · split
    · exact resolveHint_alike (.refl _) _
    · exact relates_pure rfl
  · dsimp only
    split
    · refine agreed_alike (fun c' d' hle hle' a _ => ?_) none
      exact assignmentType_alike (hinfer c' d' hle hle') scope.module a
    · exact relates_pure rfl

/-- What is said of the answers in single runs is known when the runs go on. -/
theorem relates_bind_known {α β γ δ : Type} {work : Query α} {work' : Query β}
    {next : α → Query γ} {next' : β → Query δ} {R : α → β → Prop} {S : γ → δ → Prop}
    {P : Cache → α → Prop} {P' : Cache → β → Prop}
    (h : (p.between c₀).Relates c d work work' R) (hleft : (p.between c₀).logic.Holds c work P)
    (hright : (p.between c₀).logic.Holds d work' P')
    (hnext : ∀ c' d' a b, c ≤ c' → d ≤ d' → R a b → P c' a → P' d' b →
      (p.between c₀).Relates c' d' (next a) (next' b) S) :
    (p.between c₀).Relates c d (work >>= next) (work' >>= next') S := by
  intro hc hd
  refine relates_then h (fun hle hle' hR => ?_) hc hd
  exact hnext _ _ _ _ hle hle' hR (hleft hc).answer (hright hd).answer

section

variable (h₀ : p.ReachesAll c₀) {scope : Scope}
include h₀

/-- Symbols that are spelled alike are called alike. -/
theorem symbolCall_alike {s s' : Symbol} (hs : s.SpelledAlike s')
    (hreach : (p.reaching c₀ h₀).Proper c s) (hreach' : (p.reaching c₀ h₀).Proper d s') :
    (p.between c₀).Relates c d (symbolCall s) (symbolCall s') Eq := by
  cases hs with
  | «class» module name h => exact relates_pure rfl
  | function qualname h => exact declaredReturn_alike h hreach hreach' qualname
  | module dotted => exact relates_pure rfl

theorem memberCall_alike (hm : p.Reaches c scope.module.path)
    (hm' : p.Reaches d scope.module.path) (receiver attr : String) :
    (p.between c₀).Relates c d (memberCall scope receiver attr) (memberCall scope receiver attr)
      Eq := by
  unfold memberCall
  split
  · split
    · exact declaredReturn_alike rfl hm hm' _
    · exact relates_pure rfl
  · refine relates_bind_known (symbol_alike (.refl _) receiver)
      ((p.reaching c₀ h₀).symbol_holds hm receiver)
      ((p.reaching c₀ h₀).symbol_holds hm' receiver) ?_
    intro c₁ d₁ found found' _ _ hfound hproper hproper'
    cases hfound with
    | none => exact relates_pure rfl
    | some hs =>
        cases hs with
        | «class» module name h =>
            exact methodCall_alike h (hproper _ rfl).1 (hproper' _ rfl).1 name attr
        | function qualname h => exact relates_pure rfl
        | module dotted =>
            refine relates_bind_known (symbolIn_alike dotted attr)
              ((p.reaching c₀ h₀).symbolIn_holds trivial attr)
              ((p.reaching c₀ h₀).symbolIn_holds trivial attr) ?_
            intro c₂ d₂ found found' _ _ hfound hproper hproper'
            cases hfound with
            | none => exact relates_pure rfl
            | some hs => exact symbolCall_alike h₀ hs (hproper _ rfl) (hproper' _ rfl)

theorem nameCall_alike (hm : p.Reaches c scope.module.path) (hm' : p.Reaches d scope.module.path)
    (name : String) :
    (p.between c₀).Relates c d (nameCall scope name) (nameCall scope name) Eq := by
  unfold nameCall
  split
  · exact relates_pure rfl
  · refine relates_bind_known (symbol_alike (.refl _) name)
      ((p.reaching c₀ h₀).symbol_holds hm name) ((p.reaching c₀ h₀).symbol_holds hm' name) ?_
    intro c₁ d₁ found found' _ _ hfound hproper hproper'
    cases hfound with
    | none => exact relates_pure rfl
    | some hs => exact symbolCall_alike h₀ hs (hproper _ rfl) (hproper' _ rfl)

theorem call_alike (hm : p.Reaches c scope.module.path) (hm' : p.Reaches d scope.module.path)
    (func : Expr) :
    (p.between c₀).Relates c d (call scope func) (call scope func) Eq := by
  unfold call
  split
  · exact nameCall_alike h₀ hm hm' _
  · exact memberCall_alike h₀ hm hm' _ _
  · exact relates_pure rfl

theorem exprType_alike (hm : p.Reaches c scope.module.path)
    (hm' : p.Reaches d scope.module.path) (hops : Nat) (e : Expr) :
    (p.between c₀).Relates c d (exprType scope hops e) (exprType scope hops e) Eq := by
  induction hops generalizing e c d with
  | zero => exact relates_pure rfl
  | succ hops ih =>
      cases e with
      | name name span =>
          refine nameType_alike (fun c' d' hle hle' => ?_) scope name
          exact ih (hm.later hle) (hm'.later hle')
      | call func args keywords span => exact call_alike h₀ hm hm' func
      | _ => exact relates_pure rfl

/-- **The type of an expression is the same whenever it is asked for**: with what was remembered at
first, and with all that has been remembered since.  Asking for it adds nothing that changes the
type of another one. -/
theorem inferType_later (hm : p.Reaches c₀ scope.module.path) (hc : p.Extends c₀ c) (e : Expr) :
    (((inferType scope e).run p).run c).1 = (((inferType scope e).run p).run c₀).1 ∧
      p.Extends c₀ (((inferType scope e).run p).run c).2 := by
  obtain ⟨heq, hgrows, -⟩ :=
    exprType_alike h₀ (hm.later hc.le) hm (maxHops + 1) e hc (p.extends_self c₀)
  exact ⟨heq, hgrows.sound⟩

end

end Query

end Plumbline
