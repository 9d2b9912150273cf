/-
What questions about names and types come down to.

Every such question is put together from three that look at what is remembered: for a module, for
what a function declares to return, and for what it returns by its body.  `Grounds` lists what has to
be said of these three, of the modules and paths that they are asked about, and of the types that
inference makes up.  Then the same can be said of all questions, one after the other in the order of
their definitions, whatever way to speak about questions is used.

A type comes from nowhere else than from a list of names, from the text of an annotation whose parts
are on that list, or from a class that stands at the top level of a known module.
-/
import Plumbline.Analysis.Infer
import Plumbline.Proofs.Analysis.Logic

namespace Plumbline

open Query

/-- What a function declares to return, if that is not remembered. -/
def Query.declaredAfresh (path : Path) (qualname : String) : Query InferredType := do
  match ← parse path with
  | .ok m => declaredIn m qualname
  | .error _ => pure .unknown

/-- What is said of modules, paths, names and types, and why it holds of what is remembered. -/
structure Grounds (L : Logic) where
  /-- The project that is asked. -/
  Here : Project → Prop
  /-- Modules that may be asked about. -/
  Known : Cache → Module → Prop
  /-- Paths of files that may be read. -/
  Fit : Cache → Path → Prop
  /-- Dotted names of modules that may be looked for. -/
  Named : String → Prop
  /-- Functions whose bodies may be asked about. -/
  Asked : Module → FunctionDef → Prop
  /-- What is said of the types that are answers. -/
  Told : Cache → InferredType → Prop
  known_later : ∀ {c c' m}, c ≤ c' → Known c m → Known c' m
  fit_later : ∀ {c c' path}, c ≤ c' → Fit c path → Fit c' path
  told_later : ∀ {c c' t}, c ≤ c' → Told c t → Told c' t
  fit_path : ∀ {c m}, Known c m → Fit c m.path
  fit_moduleFile : ∀ {p c dotted path}, Here p → Named dotted → p.moduleFile? dotted = some path →
    Fit c path
  named_source : ∀ {c m i source}, Known c m → .importing i ∈ m.body →
    m.importSource? i = some source → Named source
  named_member : ∀ {c m i n source}, Known c m → .importing i ∈ m.body → n ∈ i.names →
    m.importSource? i = some source →
    Named (if source.isEmpty then n.name else source ++ "." ++ n.name)
  named_import : ∀ {c m i n}, Known c m → .importing i ∈ m.body → n ∈ i.names →
    Named n.name ∧ Named (firstSegment n.name)
  told_unknown : ∀ {c}, Told c .unknown
  told_dynamic : ∀ {c}, Told c .dynamic
  told_builtin : ∀ {c name}, name ∈ builtinTypes → Told c (.builtin name)
  told_composite : ∀ {c chars}, (hintTokens chars).any isAnyMarker = false →
    '[' ∈ chars ∨ '|' ∈ chars → Told c (compositeType chars)
  told_class : ∀ {c m head body}, Known c m → .classDef head body ∈ m.body →
    Told c (.known { name := head.name, module := some m.name })
  read_holds : ∀ {c}, L.Holds c read fun _ p => Here p
  parse_holds : ∀ {c path}, Fit c path →
    L.Holds c (parse path) fun c' r => ∀ m, r = .ok m → Known c' m
  declaredReturn_holds : ∀ {c path qualname}, Fit c path →
    L.Holds c (declaredAfresh path qualname) Told → L.Holds c (declaredReturn path qualname) Told
  inferReturn_holds : ∀ {c m f}, Known c m → Asked m f →
    L.Holds c (bodyReturn m f) Told → L.Holds c (inferReturn m f) Told

namespace Grounds

variable {L : Logic} (G : Grounds L) {c c' : Cache} {m : Module}

/-- What a symbol names may be asked about. -/
def Proper (c : Cache) : Symbol → Prop
  | .class module name path => G.Fit c path ∧ G.Told c (.known { name, module := some module })
  | .function path _ => G.Fit c path
  | .module dotted => G.Named dotted

/-- What is found may be asked about. -/
def Finds (c : Cache) (found : Option Symbol) : Prop := ∀ s, found = some s → G.Proper c s

variable {G}

theorem finds_none : G.Finds c none := fun _ h => nomatch h

theorem finds_some {s : Symbol} (h : G.Proper c s) : G.Finds c (some s) :=
  fun _ hs => Option.some.inj hs ▸ h

/-! ### What names mean -/

section

variable {lookIn : String → String → Query (Option Symbol)}
  (hlook : ∀ c' dotted name, c ≤ c' → G.Named dotted → L.Holds c' (lookIn dotted name) G.Finds)
include hlook

theorem imported_holds {source name : String} (hsource : G.Named source)
    (hmember : G.Named (if source.isEmpty then name else source ++ "." ++ name)) :
    L.Holds c (imported lookIn source name) G.Finds := by
  refine L.bind (hlook c source name le_rfl hsource) ?_
  rintro c' (_ | found) - hfound
  · refine L.bind G.read_holds fun c'' project _ _ => L.pure fun s hs => ?_
    obtain ⟨_, -, rfl⟩ := Option.map_eq_some_iff.mp hs
    exact hmember
  · exact L.pure hfound

theorem importedSymbol_holds (hm : G.Known c m) {i : Import} (hi : .importing i ∈ m.body)
    {n : ImportedName} (hn : n ∈ i.names) :
    L.Holds c (importedSymbol lookIn m i n) G.Finds := by
  obtain ⟨hname, hfirst⟩ := G.named_import hm hi hn
  unfold importedSymbol
  split
  · split
    · rename_i source hsource
      exact imported_holds hlook (G.named_source hm hi hsource) (G.named_member hm hi hn hsource)
    · exact L.pure finds_none
  · split
    · exact L.pure (finds_some hname)
    · rename_i hplain
      refine L.pure (finds_some ?_)
      unfold ImportedName.boundName
      rw [hplain]
      exact hfirst

theorem bindingStep_holds (hm : G.Known c m) (name : String) {found : Option Symbol}
    (hfound : G.Finds c found) {s : Stmt} (hs : s ∈ m.body) :
    L.Holds c (bindingStep lookIn m name found s) G.Finds := by
  unfold bindingStep
  split
  · refine L.pure ?_
    split
    · exact finds_some ⟨G.fit_path hm, G.told_class hm hs⟩
    · exact hfound
  · refine L.pure ?_
    split
    · exact finds_some (G.fit_path hm)
    · exact hfound
  · rename_i i
    split
    · exact L.pure hfound
    · refine L.foldlM hfound fun c' _ n hn hle _ => ?_
      exact importedSymbol_holds (fun c'' d n hle' => hlook c'' d n (hle.trans hle'))
        (G.known_later hle hm) hs (List.mem_filter.mp hn).1
  · exact L.pure hfound

end

theorem lookup_holds (hops : Nat) (hm : G.Known c m) (name : String) :
    L.Holds c (lookup hops m name) G.Finds := by
  induction hops generalizing m name c with
  | zero => exact L.pure finds_none
  | succ hops ih =>
      unfold lookup
      refine L.foldlM finds_none fun c' found s hs hle hfound => ?_
      refine bindingStep_holds ?_ (G.known_later hle hm) name hfound hs
      intro c₁ dotted name _ hdotted
      refine L.bind G.read_holds fun c₂ project _ hproject => ?_
      split
      · exact L.pure finds_none
      · rename_i path hpath
        refine L.bind (G.parse_holds (G.fit_moduleFile hproject hdotted hpath)) ?_
        rintro c₃ (_ | m') - hm'
        · exact L.pure finds_none
        · exact ih (hm' m' rfl) name

theorem symbol_holds (hm : G.Known c m) (name : String) : L.Holds c (symbol m name) G.Finds :=
  lookup_holds _ hm name

theorem symbolIn_holds {dotted : String} (hdotted : G.Named dotted) (name : String) :
    L.Holds c (symbolIn dotted name) G.Finds := by
  refine L.bind G.read_holds fun c₁ project _ hproject => ?_
  split
  · exact L.pure finds_none
  · rename_i path hpath
    refine L.bind (G.parse_holds (G.fit_moduleFile hproject hdotted hpath)) ?_
    rintro c₂ (_ | m) - hm
    · exact L.pure finds_none
    · exact lookup_holds _ (hm m rfl) name

theorem dottedSymbol_holds (hm : G.Known c m) (text : String) :
    L.Holds c (dottedSymbol m text) G.Finds := by
  unfold dottedSymbol
  split
  · exact symbol_holds hm text
  · refine L.bind (symbol_holds hm _) fun c' found _ hfound => ?_
    split
    · rename_i dotted
      exact symbolIn_holds (hfound (.module dotted) rfl) _
    · exact L.pure finds_none

theorem isReachable_holds (hm : G.Known c m) (t : TypeRef) :
    L.Holds c (isReachable m t) fun _ _ => True := by
  unfold isReachable
  split
  · exact L.pure trivial
  · split
    · exact L.pure trivial
    · refine L.bind (symbol_holds hm _) fun _ found _ _ => ?_
      split
      · exact L.pure trivial
      · exact L.pure trivial

/-! ### Types that are inferred -/

theorem told_literal (l : Literal) : G.Told c l.type := by
  cases l with
  | ellipsis => exact G.told_unknown
  | _ => exact G.told_builtin (by decide)

theorem told_collection (kind : CollectionKind) : G.Told c (.builtin kind.typeName) := by
  cases kind <;> exact G.told_builtin (by decide)

theorem told_builtinCall {name type : String} (h : builtinCalls.lookup name = some type) :
    G.Told c (.builtin type) := by
  have hall : ∀ x ∈ builtinCalls, x.2 ∈ builtinTypes := by decide
  obtain ⟨before, after, hsplit, -⟩ := List.lookup_eq_some_iff.mp h
  have hmem : (name, type) ∈ builtinCalls := by simp [hsplit]
  exact G.told_builtin (hall _ hmem)

theorem resolveHint_holds (hm : G.Known c m) (hint : String) :
    L.Holds c (resolveHint m hint) G.Told := by
  unfold resolveHint
  dsimp only
  split
  · exact L.pure G.told_dynamic
  · rename_i hany
    split
    · rename_i hbuiltin
      exact L.pure (G.told_builtin (List.contains_iff_mem.mp hbuiltin))
    · split
      · rename_i hbrackets
        exact L.pure (G.told_composite (by simpa using hany) (by simpa using hbrackets))
      · refine L.bind (dottedSymbol_holds hm _) fun _ found _ hfound => ?_
        split
        · rename_i module name path
          exact L.pure (hfound (.class module name path) rfl).2
        · exact L.pure G.told_unknown

theorem declaredIn_holds (hm : G.Known c m) (qualname : String) :
    L.Holds c (declaredIn m qualname) G.Told := by
  unfold declaredIn
  split
  · exact L.pure G.told_unknown
  · split
    · exact L.pure G.told_unknown
    · split
      · exact L.pure G.told_unknown
      · split
        · exact resolveHint_holds hm _
        · exact L.pure G.told_unknown

theorem declared_holds {path : Path} (hpath : G.Fit c path) (qualname : String) :
    L.Holds c (declaredReturn path qualname) G.Told := by
  refine G.declaredReturn_holds hpath (L.bind (G.parse_holds hpath) ?_)
  rintro c' (_ | m) - hm
  · exact L.pure G.told_unknown
  · exact declaredIn_holds (hm m rfl) qualname

theorem symbolCall_holds {s : Symbol} (hs : G.Proper c s) :
    L.Holds c (symbolCall s) G.Told := by
  cases s with
  | «class» module name path => exact L.pure hs.2
  | function path qualname => exact declared_holds hs qualname
  | module dotted => exact L.pure G.told_unknown

theorem methodCall_holds {path : Path} (hpath : G.Fit c path) (className method : String) :
    L.Holds c (methodCall path className method) G.Told := by
  refine L.bind (G.parse_holds hpath) ?_
  rintro c' (_ | m) hle -
  · exact L.pure G.told_unknown
  · dsimp only
    split
    · exact declared_holds (G.fit_later hle hpath) _
    · exact L.pure G.told_unknown

theorem memberCall_holds {scope : Scope} (hm : G.Known c scope.module) (receiver attr : String) :
    L.Holds c (memberCall scope receiver attr) G.Told := by
  unfold memberCall
  split
  · split
    · exact declared_holds (G.fit_path hm) _
    · exact L.pure G.told_unknown
  · refine L.bind (symbol_holds hm receiver) fun c₁ found _ hfound => ?_
    split
    · rename_i dotted
      refine L.bind (symbolIn_holds (hfound (.module dotted) rfl) attr) ?_
      rintro c₂ (_ | s) - hs
      · exact L.pure G.told_unknown
      · exact symbolCall_holds (hs s rfl)
    · rename_i module name path
      exact methodCall_holds (hfound (.class module name path) rfl).1 _ _
    · exact L.pure G.told_unknown

theorem nameCall_holds {scope : Scope} (hm : G.Known c scope.module) (name : String) :
    L.Holds c (nameCall scope name) G.Told := by
  unfold nameCall
  split
  · rename_i t ht
    split at ht
    · cases ht
    · exact L.pure (told_builtinCall ht)
  · refine L.bind (symbol_holds hm name) ?_
    rintro c' (_ | s) - hs
    · exact L.pure G.told_unknown
    · exact symbolCall_holds (hs s rfl)

theorem call_holds {scope : Scope} (hm : G.Known c scope.module) (func : Expr) :
    L.Holds c (call scope func) G.Told := by
  unfold call
  split
  · exact nameCall_holds hm _
  · exact memberCall_holds hm _ _
  · exact L.pure G.told_unknown

theorem agreed_holds {α : Type} {infer : α → Query InferredType} {items : List α}
    (hinfer : ∀ c', c ≤ c' → ∀ a ∈ items, L.Holds c' (infer a) G.Told) {type : Option TypeRef}
    (htype : ∀ t, type = some t → G.Told c (.known t)) :
    L.Holds c (agreed infer type items) G.Told := by
  induction items generalizing type c with
  | nil =>
      unfold agreed
      split
      · exact L.pure (htype _ rfl)
      · exact L.pure G.told_unknown
  | cons a rest ih =>
      have hrest : ∀ c₁, c ≤ c₁ → ∀ c', c₁ ≤ c' → ∀ a ∈ rest, L.Holds c' (infer a) G.Told :=
        fun _ hle c' hle' a' ha' => hinfer c' (hle.trans hle') a' (List.mem_cons_of_mem a ha')
      unfold agreed
      refine L.bind (hinfer c le_rfl a (by simp)) ?_
      rintro c₁ (t | _ | _) hle ht
      · dsimp only
        split
        · exact ih (hrest c₁ hle) fun u hu => Option.some.inj hu ▸ ht
        · split
          · exact ih (hrest c₁ hle) fun u hu => G.told_later hle (htype u hu)
          · exact L.pure G.told_unknown
      · exact L.pure G.told_dynamic
      · exact L.pure G.told_unknown

theorem assignmentType_holds {infer : Expr → Query InferredType}
    (hinfer : ∀ e, L.Holds c (infer e) G.Told) (hm : G.Known c m) (a : Assign) :
    L.Holds c (assignmentType infer m a) G.Told := by
  unfold assignmentType
  split
  · exact L.pure G.told_unknown
  · split
    · exact resolveHint_holds hm _
    · split
      · exact hinfer _
      · exact L.pure G.told_unknown

theorem nameType_holds {infer : Expr → Query InferredType} {scope : Scope}
    (hinfer : ∀ c', c ≤ c' → ∀ e, L.Holds c' (infer e) G.Told) (hm : G.Known c scope.module)
    (name : String) : L.Holds c (nameType infer scope name) G.Told := by
  unfold nameType
  split
  · split
    · exact resolveHint_holds hm _
    · exact L.pure G.told_unknown
  · dsimp only
    split
    · refine agreed_holds (fun c' hle a _ => ?_) fun _ h => nomatch h
      exact assignmentType_holds (hinfer c' hle) (G.known_later hle hm) a
    · exact L.pure G.told_unknown

theorem exprType_holds {scope : Scope} (hm : G.Known c scope.module) (hops : Nat) (e : Expr) :
    L.Holds c (exprType scope hops e) G.Told := by
  induction hops generalizing e c with
  | zero => exact L.pure G.told_unknown
  | succ hops ih =>
      cases e with
      | literal l span => exact L.pure (told_literal l)
      | collection kind items span => exact L.pure (told_collection kind)
      | name name span => exact nameType_holds (fun c' hle => ih (G.known_later hle hm)) hm name
      | call func args keywords span => exact call_holds hm func
      | member value attr span => exact L.pure G.told_unknown
      | other span => exact L.pure G.told_unknown

theorem inferType_holds {scope : Scope} (hm : G.Known c scope.module) (e : Expr) :
    L.Holds c (inferType scope e) G.Told := exprType_holds hm _ e

theorem bodyReturn_holds (hm : G.Known c m) (f : FunctionDef) :
    L.Holds c (bodyReturn m f) G.Told := by
  have hnone : ∀ {c}, G.Told c (.builtin "None") := G.told_builtin (by decide)
  unfold bodyReturn
  split
  · exact L.pure G.told_unknown
  · dsimp only
    split
    · refine L.pure ?_
      split
      · exact G.told_unknown
      · exact hnone
    · split
      · exact L.pure G.told_unknown
      · refine agreed_holds (fun c' hle r _ => ?_) fun _ h => nomatch h
        unfold returnedType
        split
        · exact inferType_holds (G.known_later hle hm) _
        · exact L.pure hnone

theorem inferred_holds (hm : G.Known c m) {f : FunctionDef} (hf : G.Asked m f) :
    L.Holds c (inferReturn m f) G.Told :=
  G.inferReturn_holds hm hf (bodyReturn_holds hm f)

/-! ### Ancestors of classes -/

/-- The classes whose bases are still to be looked at stand in known modules. -/
def Searches (G : Grounds L) (c : Cache) (a : Ancestry) : Prop := ∀ x ∈ a.queue, G.Known c x.1

theorem ancestryStep_holds (hm : G.Known c m) {a : Ancestry} (ha : G.Searches c a) (base : Expr) :
    L.Holds c (ancestryStep m a base) G.Searches := by
  unfold ancestryStep
  split
  · exact L.pure ha
  · split
    · exact L.pure ha
    · refine L.bind (dottedSymbol_holds hm _) fun c₁ found hle hfound => ?_
      have ha₁ : G.Searches c₁ a := fun x hx => G.known_later hle (ha x hx)
      split
      · rename_i module name path
        refine L.bind G.read_holds fun c₂ _ hle' _ => ?_
        have hpath : G.Fit c₂ path := G.fit_later hle' (hfound (.class module name path) rfl).1
        refine L.bind (G.parse_holds hpath) ?_
        rintro c₃ (_ | defining) hle'' hdefining
        · exact L.pure fun x hx => G.known_later (hle'.trans hle'') (ha₁ x hx)
        · refine L.pure fun x hx => ?_
          rcases List.mem_append.mp hx with hx | hx
          · exact G.known_later (hle'.trans hle'') (ha₁ x hx)
          · obtain rfl := List.mem_singleton.mp hx
            exact hdefining defining rfl
      · exact L.pure ha₁

theorem addBases_holds (hm : G.Known c m) (cls : ClassDef) {a : Ancestry} (ha : G.Searches c a) :
    L.Holds c (addBases m cls a) G.Searches :=
  L.foldlM ha fun _ _ base _ hle ha => ancestryStep_holds (G.known_later hle hm) ha base

theorem searchAncestors_holds (rounds : Nat) {a : Ancestry} (ha : G.Searches c a) :
    L.Holds c (searchAncestors rounds a) fun _ _ => True := by
  induction rounds generalizing a c with
  | zero => exact L.pure trivial
  | succ rounds ih =>
      unfold searchAncestors
      split
      · exact L.pure trivial
      · rename_i m name queue hqueue
        have hqueued : ∀ x ∈ (m, name) :: queue, G.Known c x.1 := by
          rw [← hqueue]
          exact ha
        have hrest : ∀ x ∈ queue, G.Known c x.1 :=
          fun x hx => hqueued x (List.mem_cons_of_mem _ hx)
        split
        · exact L.pure trivial
        · dsimp only
          split
          · exact ih hrest
          · split
            · refine L.bind (addBases_holds (hqueued (m, name) (by simp)) _ ?_) ?_
              · exact hrest
              · exact fun _ _ _ ha' => ih ha'
            · exact ih hrest

theorem ancestors_holds (hm : G.Known c m) (cls : ClassDef) :
    L.Holds c (ancestors m cls) fun _ _ => True := by
  refine L.bind (addBases_holds hm cls fun x hx => absurd hx List.not_mem_nil) ?_
  intro c' a _ ha
  exact L.bind (searchAncestors_holds _ ha) fun _ _ _ _ => L.pure trivial

end Grounds

end Plumbline
