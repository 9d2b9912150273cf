/-
The ancestors of a class, nearest first.

The search looks at the bases of one class after the other.  What is found there is listed, and the
classes among it wait in a queue; so they are looked at in the order in which they were found, level
by level (`Levels`).  A class is not looked at again when it has been taken from the queue before.
The class that the search begins with has not, so with classes that are bases of each other it is
looked at twice; a class that is a base of several others is looked at once but listed with each of
them.

Each round takes one class from the queue, and no round begins when more than 32 ancestors are
listed.  Since every class in the queue is listed, the search is over after 32 rounds, whatever the
classes are (`Searched.searchAncestors`).
-/
import Plumbline.Analysis.Resolve
import Plumbline.Proofs.Analysis.Query
import Plumbline.Proofs.Module.Definitions

namespace Plumbline.Query

/-! ### The bases of a class -/

/-- A base class as it was found. -/
structure Base where
  ancestor : Ancestor
  /-- The module that defines it, if that is known, and its name there. -/
  defined : Option (Module × String) := none

/-- What a base that is written at a class of `m` is; `object` is none. -/
def baseOf (m : Module) (base : Expr) : Query (Option Base) :=
  match base.dottedName? with
  | none => pure none
  | some dotted =>
    if dotted = "object" then pure none
    else do
      match ← dottedSymbol m dotted with
      | some (.class _ name path) =>
        let project ← read
        let ancestor := { name, path := some (project.relative (project.absolute path)) }
        match ← parse path with
        | .ok defining => pure (some { ancestor, defined := some (defining, name) })
        | .error _ => pure (some { ancestor })
      | _ => pure (some { ancestor := { name := String.ofList (Text.afterLast '.' dotted.toList) } })

/-- The bases of a class of `m`, in written order. -/
def basesOf (m : Module) (c : ClassDef) : Query (List Base) := do
  pure ((← c.bases.mapM (baseOf m)).filterMap id)

/-- The search after some more bases were found. -/
def Ancestry.add (a : Ancestry) (bases : List Base) : Ancestry :=
  { a with
    chain := a.chain ++ bases.map (·.ancestor)
    queue := a.queue ++ bases.filterMap (·.defined) }

theorem Ancestry.add_append (a : Ancestry) (bases bases' : List Base) :
    a.add (bases ++ bases') = (a.add bases).add bases' := by
  simp [add]

theorem ancestryStep_eq (m : Module) (a : Ancestry) (base : Expr) :
    ancestryStep m a base = (do
      let found ← baseOf m base
      pure (a.add found.toList)) := by
  have hnone : a.add [] = a := by simp [Ancestry.add]
  unfold ancestryStep baseOf
  cases base.dottedName? with
  | none => simp [hnone]
  | some dotted =>
      dsimp only
      by_cases hobject : dotted = "object"
      · rw [if_pos hobject, if_pos hobject]
        simp [hnone]
      · rw [if_neg hobject, if_neg hobject, bind_assoc]
        refine bind_congr fun symbol => ?_
        rcases symbol with _ | ⟨_, name, path⟩ | _ | _
        case some.class =>
          dsimp only
          rw [bind_assoc]
          refine bind_congr fun project => ?_
          rw [bind_assoc]
          refine bind_congr fun parsed => ?_
          cases parsed <;> simp [Ancestry.add]
        all_goals simp [Ancestry.add]

/-- Bases are added in written order. -/
theorem addBases_eq (m : Module) (c : ClassDef) (a : Ancestry) :
    addBases m c a = (do
      let bases ← basesOf m c
      pure (a.add bases)) := by
  unfold addBases basesOf
  induction c.bases generalizing a with
  | nil => simp [Ancestry.add]
  | cons base rest ih =>
      rw [List.foldlM_cons, ancestryStep_eq, List.mapM_cons]
      simp only [bind_assoc, pure_bind, ih, ← Ancestry.add_append]
      refine bind_congr fun found => bind_congr fun bases => ?_
      cases found <;> rfl

theorem yields_mapM_length {α β : Type} (f : α → Query β) (items : List α) :
    Yields Anything (items.mapM f) fun answers => answers.length = items.length := by
  induction items with
  | nil => exact yields_pure rfl
  | cons a rest ih =>
      rw [List.mapM_cons]
      refine yields_bind (yields_true (f a)) fun b _ => yields_bind ih fun bs hbs => yields_pure ?_
      rw [List.length_cons, hbs, List.length_cons]

theorem yields_length_basesOf (m : Module) (c : ClassDef) :
    Yields Anything (basesOf m c) fun bases => bases.length ≤ c.bases.length := by
  unfold basesOf
  refine yields_bind (yields_mapM_length (baseOf m) c.bases) fun found hfound => yields_pure ?_
  rw [← hfound]
  exact List.length_filterMap_le id found

/-! ### Rounds -/

/-- The search is over when no class is left to look at, or enough ancestors are found. -/
def Ancestry.IsDone (a : Ancestry) : Prop := a.queue = [] ∨ maxAncestors < a.chain.length

/-- One round of the search. -/
def takeUp (a : Ancestry) : Query Ancestry :=
  match a.queue with
  | [] => pure a
  | (m, name) :: queue =>
    let key := (m.path.components, name)
    if a.seen.contains key then pure { a with queue }
    else
      let a := { a with queue, seen := key :: a.seen }
      match m.findClass? name with
      | some c => addBases m c a
      | none => pure a

theorem searchAncestors_of_isDone {a : Ancestry} (h : a.IsDone) (rounds : Nat) :
    searchAncestors rounds a = pure a := by
  cases rounds with
  | zero => rfl
  | succ rounds =>
      unfold searchAncestors
      cases hqueue : a.queue with
      | nil => rfl
      | cons x queue => exact if_pos (h.resolve_left (by simp [hqueue]))

theorem searchAncestors_succ {a : Ancestry} (h : ¬a.IsDone) (rounds : Nat) :
    searchAncestors (rounds + 1) a = takeUp a >>= searchAncestors rounds := by
  obtain ⟨hne, hle⟩ := not_or.mp h
  rw [searchAncestors, takeUp]
  obtain ⟨⟨m, name⟩, queue, hqueue⟩ := List.exists_cons_of_ne_nil hne
  rw [hqueue]
  dsimp only
  rw [if_neg hle]
  by_cases hseen : a.seen.contains (m.path.components, name) = true
  · rw [if_pos hseen, if_pos hseen, pure_bind]
  · rw [if_neg hseen, if_neg hseen]
    cases m.findClass? name <;> simp

/-- More rounds go on where fewer have ended. -/
theorem searchAncestors_add (rounds more : Nat) (a : Ancestry) :
    searchAncestors (rounds + more) a = searchAncestors rounds a >>= searchAncestors more := by
  induction rounds generalizing a with
  | zero =>
      rw [Nat.zero_add]
      exact (pure_bind a _).symm
  | succ rounds ih =>
      by_cases hdone : a.IsDone
      · rw [searchAncestors_of_isDone hdone, searchAncestors_of_isDone hdone, pure_bind,
          searchAncestors_of_isDone hdone]
      · rw [Nat.succ_add, searchAncestors_succ hdone, searchAncestors_succ hdone, bind_assoc]
        exact bind_congr ih

/-! ### Classes whose bases are looked at -/

/-- A class whose bases were looked at, so many steps from the class that the search began with. -/
structure Expansion where
  module : Module
  cls : ClassDef
  distance : Nat
  bases : List Base

/-- What tells one class from another: the file, and the name there. -/
def Expansion.key (s : Expansion) : FileKey × String := (s.module.path.components, s.cls.qualname)

/-- The ancestors that are listed with it, with their distance. -/
def Expansion.listed (s : Expansion) : List (Ancestor × Nat) :=
  s.bases.map fun b => (b.ancestor, s.distance + 1)

/-- A class whose bases can be looked at, so many steps away. -/
structure Pending where
  module : Module
  name : String
  distance : Nat

def Pending.key (x : Pending) : FileKey × String := (x.module.path.components, x.name)

/-- The classes whose bases can be looked at next. -/
def Expansion.found (s : Expansion) : List Pending :=
  s.bases.filterMap fun b => b.defined.map fun d => ⟨d.1, d.2, s.distance + 1⟩

theorem Expansion.distance_of_mem_found {s : Expansion} {x : Pending} (h : x ∈ s.found) :
    x.distance = s.distance + 1 := by
  obtain ⟨b, -, hb⟩ := List.mem_filterMap.mp h
  obtain ⟨d, -, rfl⟩ := Option.map_eq_some_iff.mp hb
  rfl

theorem Expansion.map_found (s : Expansion) :
    s.found.map (fun x => (x.module, x.name)) = s.bases.filterMap (·.defined) := by
  unfold found
  rw [List.map_filterMap]
  refine congrArg (List.filterMap · s.bases) (funext fun b => ?_)
  cases b.defined <;> rfl

/-- As many ancestors are listed as classes are found. -/
theorem length_found_le (steps : List Expansion) :
    (steps.flatMap (·.found)).length ≤ (steps.flatMap (·.listed)).length := by
  induction steps with
  | nil => exact Nat.le_refl _
  | cons s rest ih =>
      have hown : s.found.length ≤ s.listed.length := by
        unfold Expansion.listed
        rw [List.length_map]
        exact List.length_filterMap_le _ _
      rw [List.flatMap_cons, List.flatMap_cons, List.length_append, List.length_append]
      omega

/-- The class that was found is the one whose bases were looked at. -/
structure Pending.Names (x : Pending) (s : Expansion) : Prop where
  module : s.module = x.module
  distance : s.distance = x.distance
  cls : x.module.findClass? x.name = some s.cls

theorem Pending.Names.key_eq {x : Pending} {s : Expansion} (h : x.Names s) : s.key = x.key := by
  have hname : s.cls.qualname = x.name := by
    have hfind := h.cls
    rw [Module.findClass?_eq] at hfind
    simpa using List.find?_some hfind
  rw [Expansion.key, Pending.key, h.module, hname]

/-! ### Level by level -/

/-- Classes are looked at in the order in which they were found, each once: `taken` was found and
taken up, and `rest` is still to be taken up. -/
structure Levels (first : Expansion) (later : List Expansion) (taken rest : List Pending) :
    Prop where
  found : (first :: later).flatMap (·.found) = taken ++ rest
  named : ∀ s ∈ later, ∃ x ∈ taken, x.Names s
  once : (later.map (·.key)).Nodup
  sorted : (first :: later).Pairwise (·.distance ≤ ·.distance)
  front : ∀ s ∈ first :: later, ∀ x ∈ rest, s.distance ≤ x.distance
  narrow : rest.Pairwise fun x y => x.distance ≤ y.distance ∧ y.distance ≤ x.distance + 1
  nearest : ∀ s ∈ later, ∀ x ∈ taken ++ rest, x.key = s.key → s.distance ≤ x.distance
  answered : ∀ x ∈ taken, (∃ s ∈ later, s.key = x.key) ∨
    ∃ y ∈ taken, y.key = x.key ∧ y.module.findClass? y.name = none

namespace Levels

variable {first : Expansion} {later : List Expansion} {taken rest : List Pending} {x : Pending}

/-- At first only the bases of the first class are found. -/
theorem start (first : Expansion) : Levels first [] [] first.found where
  found := List.flatMap_singleton _ _
  named _ hs := absurd hs List.not_mem_nil
  once := List.nodup_nil
  sorted := List.pairwise_singleton _ _
  front s hs x hx := by
    obtain rfl := List.mem_singleton.mp hs
    rw [Expansion.distance_of_mem_found hx]
    exact Nat.le_succ _
  narrow := List.pairwise_of_forall_mem_list fun x hx y hy => by
    rw [Expansion.distance_of_mem_found hx, Expansion.distance_of_mem_found hy]
    omega
  nearest _ hs := absurd hs List.not_mem_nil
  answered _ hx := absurd hx List.not_mem_nil

/-- A class is passed over if one of its key was taken up before, or if its module has no such
class. -/
theorem pass (h : Levels first later taken (x :: rest))
    (hx : (∃ y ∈ taken, y.key = x.key) ∨ x.module.findClass? x.name = none) :
    Levels first later (taken ++ [x]) rest where
  found := by rw [h.found, List.append_assoc, List.singleton_append]
  named s hs := by
    obtain ⟨y, hy, hnames⟩ := h.named s hs
    exact ⟨y, List.mem_append_left _ hy, hnames⟩
  once := h.once
  sorted := h.sorted
  front s hs y hy := h.front s hs y (List.mem_cons_of_mem x hy)
  narrow := (List.pairwise_cons.mp h.narrow).2
  nearest s hs y hy := by
    refine h.nearest s hs y ?_
    rwa [List.append_assoc, List.singleton_append] at hy
  answered y hy := by
    rcases List.mem_append.mp hy with hy | hy
    · exact (h.answered y hy).imp id fun ⟨z, hz, hkey, hnone⟩ =>
        ⟨z, List.mem_append_left _ hz, hkey, hnone⟩
    · obtain rfl := List.mem_singleton.mp hy
      rcases hx with ⟨z, hz, hkey⟩ | hnone
      · rw [← hkey]
        exact (h.answered z hz).imp id fun ⟨w, hw, hkey', hnone⟩ =>
          ⟨w, List.mem_append_left _ hw, hkey', hnone⟩
      · exact Or.inr ⟨y, List.mem_append_right _ hy, rfl, hnone⟩

/-- The class whose turn it is lies no nearer than those before. -/
theorem distance_le (h : Levels first later taken (x :: rest)) {s t : Expansion} (hs : x.Names s)
    (ht : t ∈ first :: later) : t.distance ≤ s.distance := by
  rw [hs.distance]
  exact h.front t ht x List.mem_cons_self

/-- What waits behind it lies at its distance, or one step farther away. -/
theorem distance_of_mem_rest (h : Levels first later taken (x :: rest)) {s : Expansion}
    (hs : x.Names s) {y : Pending} (hy : y ∈ rest) :
    s.distance ≤ y.distance ∧ y.distance ≤ s.distance + 1 := by
  rw [hs.distance]
  exact (List.pairwise_cons.mp h.narrow).1 y hy

/-- The bases of a class are looked at if none of its key was taken up before. -/
theorem expand (h : Levels first later taken (x :: rest)) (hnew : ∀ y ∈ taken, y.key ≠ x.key)
    {s : Expansion} (hs : x.Names s) :
    Levels first (later ++ [s]) (taken ++ [x]) (rest ++ s.found) where
  found := by
    rw [← List.cons_append, List.flatMap_append, h.found, List.flatMap_singleton]
    simp
  named t ht := by
    rcases List.mem_append.mp ht with ht | ht
    · obtain ⟨y, hy, hnames⟩ := h.named t ht
      exact ⟨y, List.mem_append_left _ hy, hnames⟩
    · obtain rfl := List.mem_singleton.mp ht
      exact ⟨x, List.mem_append_right _ List.mem_cons_self, hs⟩
  once := by
    rw [List.map_append, List.nodup_append]
    refine ⟨h.once, by simp, ?_⟩
    intro k hk k' hk'
    obtain ⟨t, ht, rfl⟩ := List.mem_map.mp hk
    obtain rfl : k' = s.key := by simpa using hk'
    obtain ⟨y, hy, hnames⟩ := h.named t ht
    rw [hnames.key_eq, hs.key_eq]
    exact hnew y hy
  sorted := by
    rw [← List.cons_append, List.pairwise_append]
    refine ⟨h.sorted, List.pairwise_singleton _ _, fun t ht t' ht' => ?_⟩
    obtain rfl := List.mem_singleton.mp ht'
    exact h.distance_le hs ht
  front t ht y hy := by
    have hle : s.distance ≤ y.distance := by
      rcases List.mem_append.mp hy with hy | hy
      · exact (h.distance_of_mem_rest hs hy).1
      · rw [Expansion.distance_of_mem_found hy]
        exact Nat.le_succ _
    rw [← List.cons_append] at ht
    rcases List.mem_append.mp ht with ht | ht
    · exact Nat.le_trans (h.distance_le hs ht) hle
    · obtain rfl := List.mem_singleton.mp ht
      exact hle
  narrow := by
    rw [List.pairwise_append]
    refine ⟨(List.pairwise_cons.mp h.narrow).2, (start s).narrow, fun y hy z hz => ?_⟩
    have hbehind := h.distance_of_mem_rest hs hy
    rw [Expansion.distance_of_mem_found hz]
    omega
  nearest t ht y hy hkey := by
    rw [show taken ++ [x] ++ (rest ++ s.found) = taken ++ x :: rest ++ s.found by simp] at hy
    rcases List.mem_append.mp hy with hold | hfound
    · rcases List.mem_append.mp ht with ht | ht
      · exact h.nearest t ht y hold hkey
      · obtain rfl := List.mem_singleton.mp ht
        -- None of its key was taken up before, so only what waits has it.
        rw [hs.key_eq] at hkey
        rcases List.mem_append.mp hold with htaken | hwaits
        · exact absurd hkey (hnew y htaken)
        · rcases List.mem_cons.mp hwaits with rfl | hrest
          · exact Nat.le_of_eq hs.distance
          · exact (h.distance_of_mem_rest hs hrest).1
    · rw [Expansion.distance_of_mem_found hfound]
      rcases List.mem_append.mp ht with ht | ht
      · exact Nat.le_succ_of_le (h.distance_le hs (List.mem_cons_of_mem _ ht))
      · obtain rfl := List.mem_singleton.mp ht
        exact Nat.le_succ _
  answered y hy := by
    rcases List.mem_append.mp hy with hy | hy
    · refine (h.answered y hy).imp ?_ ?_
      · exact fun ⟨t, ht, hkey⟩ => ⟨t, List.mem_append_left _ ht, hkey⟩
      · exact fun ⟨z, hz, hkey, hnone⟩ => ⟨z, List.mem_append_left _ hz, hkey, hnone⟩
    · obtain rfl := List.mem_singleton.mp hy
      exact Or.inl ⟨s, List.mem_append_right _ List.mem_cons_self, hs.key_eq⟩

end Levels

/-! ### The search -/

/-- The search stands where classes were looked at level by level, one after the other and each with
what was remembered by then; `c₀` was remembered at first and `c` is now. -/
structure Searched (p : Project) (c₀ : Cache) (first : Expansion) (later : List Expansion)
    (taken rest : List Pending) (a : Ancestry) (c : Cache) : Prop
    extends Levels first later taken rest where
  asked : (((first :: later).mapM fun s => basesOf s.module s.cls).run p).run c₀ =
    ((first :: later).map (·.bases), c)
  chain : a.chain = ((first :: later).flatMap (·.listed)).map (·.1)
  queue : a.queue = rest.map fun x => (x.module, x.name)
  seen : ∀ key, key ∈ a.seen ↔ ∃ x ∈ taken, x.key = key
  taken_le : taken.length ≤ maxAncestors
  bounded : ∀ b, (∀ s ∈ later, s.cls.bases.length ≤ b) →
    a.chain.length ≤ max first.cls.bases.length (maxAncestors + b)

namespace Searched

variable {p : Project} {c₀ c : Cache} {first : Expansion} {later : List Expansion}
  {taken rest : List Pending} {x : Pending} {a : Ancestry}

/-- Before a round, some class is left. -/
theorem exists_cons (h : Searched p c₀ first later taken rest a c) (hdone : ¬a.IsDone) :
    ∃ x rest', rest = x :: rest' := by
  refine List.exists_cons_of_ne_nil ?_
  rintro rfl
  exact hdone (Or.inl h.queue)

/-- Before a round, fewer classes were taken up than there may be ancestors. -/
theorem length_lt (h : Searched p c₀ first later taken (x :: rest) a c) (hdone : ¬a.IsDone) :
    taken.length < maxAncestors := by
  have hle := length_found_le (first :: later)
  have hmax := (not_or.mp hdone).2
  rw [h.chain, List.length_map] at hmax
  rw [h.found, List.length_append, List.length_cons] at hle
  omega

/-- At first the bases of the class itself are looked at. -/
theorem start (p : Project) (c₀ : Cache) (m : Module) (cls : ClassDef) :
    ∃ first : Expansion, first.module = m ∧ first.cls = cls ∧ first.distance = 0 ∧
      Searched p c₀ first [] [] first.found (((addBases m cls {}).run p).run c₀).1
        (((addBases m cls {}).run p).run c₀).2 := by
  have hlength := (yields_length_basesOf m cls p c₀ trivial).1
  rw [addBases_eq, run_bind, run_pure]
  rcases hbases : ((basesOf m cls).run p).run c₀ with ⟨bases, c⟩
  rw [hbases] at hlength
  refine ⟨⟨m, cls, 0, bases⟩, rfl, rfl, rfl, Levels.start _, ?_, ?_, ?_, ?_, Nat.zero_le _, ?_⟩
  · rw [List.mapM_cons, List.mapM_nil, run_bind, hbases]
    rfl
  · simp [Ancestry.add, Expansion.listed]
  · exact (Expansion.map_found ⟨m, cls, 0, bases⟩).symm
  · simp [Ancestry.add]
  · intro b _
    show ([] ++ bases.map Base.ancestor).length ≤ _
    rw [List.nil_append, List.length_map]
    exact Nat.le_trans hlength (Nat.le_max_left _ _)

/-- A class is passed over. -/
theorem pass (h : Searched p c₀ first later taken (x :: rest) a c) (hdone : ¬a.IsDone)
    {seen : List (FileKey × String)} (hseen : ∀ key, key ∈ seen ↔ key ∈ a.seen ∨ x.key = key)
    (hx : x.key ∈ a.seen ∨ x.module.findClass? x.name = none) :
    Searched p c₀ first later (taken ++ [x]) rest
      { a with queue := rest.map fun x => (x.module, x.name), seen } c where
  toLevels := h.toLevels.pass (hx.imp (h.seen x.key).mp id)
  asked := h.asked
  chain := h.chain
  queue := rfl
  seen key := by simp [hseen, h.seen, or_and_right, exists_or]
  taken_le := by
    rw [List.length_append]
    exact h.length_lt hdone
  bounded := h.bounded

/-- The bases of a class are looked at. -/
theorem expand (h : Searched p c₀ first later taken (x :: rest) a c) (hdone : ¬a.IsDone)
    (hnew : x.key ∉ a.seen) {cls : ClassDef} (hcls : x.module.findClass? x.name = some cls)
    {bases : List Base} {c' : Cache}
    (hbases : ((basesOf x.module cls).run p).run c = (bases, c')) :
    Searched p c₀ first (later ++ [⟨x.module, cls, x.distance, bases⟩]) (taken ++ [x])
      (rest ++ Expansion.found ⟨x.module, cls, x.distance, bases⟩)
      (Ancestry.add { a with queue := rest.map fun x => (x.module, x.name), seen := x.key :: a.seen }
        bases) c' where
  toLevels := h.toLevels.expand (fun y hy hkey => hnew ((h.seen x.key).mpr ⟨y, hy, hkey⟩))
    ⟨rfl, rfl, hcls⟩
  asked := by
    rw [← List.cons_append, List.mapM_append, run_bind, h.asked, run_bind, List.mapM_cons,
      List.mapM_nil, run_bind, hbases, List.map_append]
    rfl
  chain := by
    rw [← List.cons_append, List.flatMap_append, List.map_append, ← h.chain]
    simp [Ancestry.add, Expansion.listed]
  queue := by
    rw [List.map_append, Expansion.map_found]
    rfl
  seen key := by
    show key ∈ x.key :: a.seen ↔ _
    simp [h.seen, or_and_right, exists_or, or_comm, eq_comm]
  taken_le := by
    rw [List.length_append]
    exact h.length_lt hdone
  bounded b hb := by
    have hlength := (yields_length_basesOf x.module cls p c trivial).1
    rw [hbases] at hlength
    have hown := hb ⟨x.module, cls, x.distance, bases⟩ (by simp)
    have hmax := (not_or.mp hdone).2
    show (a.chain ++ bases.map (·.ancestor)).length ≤ _
    rw [List.length_append, List.length_map]
    dsimp only at hlength hown
    omega

/-- **One round** takes up one class. -/
theorem takeUp (h : Searched p c₀ first later taken rest a c) (hdone : ¬a.IsDone) :
    ∃ later' taken' rest', taken'.length = taken.length + 1 ∧
      Searched p c₀ first later' taken' rest' (((Query.takeUp a).run p).run c).1
        (((Query.takeUp a).run p).run c).2 := by
  obtain ⟨x, rest, rfl⟩ := h.exists_cons hdone
  have hlength : (taken ++ [x]).length = taken.length + 1 := List.length_append
  have hkey : (x.module.path.components, x.name) = x.key := rfl
  unfold Query.takeUp
  rw [h.queue, List.map_cons]
  dsimp only
  rw [hkey]
  by_cases hseen : x.key ∈ a.seen
  · rw [if_pos (List.contains_iff_mem.mpr hseen), run_pure]
    refine ⟨later, taken ++ [x], rest, hlength, h.pass hdone (fun key => ?_) (Or.inl hseen)⟩
    exact ⟨Or.inl, fun hkey => hkey.elim id fun heq => heq ▸ hseen⟩
  · rw [if_neg (fun hmem => hseen (List.contains_iff_mem.mp hmem))]
    cases hcls : x.module.findClass? x.name with
    | none =>
        refine ⟨later, taken ++ [x], rest, hlength, h.pass hdone (fun key => ?_) (Or.inr hcls)⟩
        rw [List.mem_cons, or_comm, eq_comm]
    | some cls =>
        dsimp only
        rw [addBases_eq, run_bind, run_pure]
        exact ⟨_, _, _, hlength, h.expand hdone hseen hcls rfl⟩

/-- **A whole search** takes up classes until it is over, if it has as many rounds as there may be
ancestors. -/
theorem searchAncestors (h : Searched p c₀ first later taken rest a c) {rounds : Nat}
    (hrounds : maxAncestors ≤ taken.length + rounds) :
    ∃ later' taken' rest',
      Searched p c₀ first later' taken' rest' (((Query.searchAncestors rounds a).run p).run c).1
        (((Query.searchAncestors rounds a).run p).run c).2 ∧
      (((Query.searchAncestors rounds a).run p).run c).1.IsDone := by
  induction rounds generalizing later taken rest a c with
  | zero =>
      refine ⟨later, taken, rest, h, Classical.byContradiction fun hdone => ?_⟩
      obtain ⟨x, rest, rfl⟩ := h.exists_cons hdone
      exact absurd (h.length_lt hdone) (Nat.not_lt.mpr hrounds)
  | succ rounds ih =>
      by_cases hdone : a.IsDone
      · rw [searchAncestors_of_isDone hdone]
        exact ⟨later, taken, rest, h, hdone⟩
      · rw [searchAncestors_succ hdone, run_bind]
        obtain ⟨later', taken', rest', hlength, h'⟩ := h.takeUp hdone
        exact ih h' (by omega)

end Searched

/-- How the ancestors of a class were found: the bases of the class and of `later` ones were looked
at, one class after the other, beginning with `c₀` remembered and ending with `c`. -/
structure IsClimb (p : Project) (c₀ : Cache) (m : Module) (cls : ClassDef) (chain : List Ancestor)
    (c : Cache) (first : Expansion) (later : List Expansion) : Prop where
  /-- The search begins with the class itself. -/
  start : first.module = m ∧ first.cls = cls ∧ first.distance = 0
  /-- The bases are what they are found to be. -/
  asked : (((first :: later).mapM fun s => basesOf s.module s.cls).run p).run c₀ =
    ((first :: later).map (·.bases), c)
  /-- The ancestors are the bases of one class after those of the other, in written order. -/
  listed : chain = ((first :: later).flatMap (·.listed)).map (·.1)
  /-- The nearer come first. -/
  nearer : ((first :: later).flatMap (·.listed)).Pairwise (·.2 ≤ ·.2)
  /-- The later classes are bases of classes that are one step nearer. -/
  named : ∀ s ∈ later, ∃ x ∈ (first :: later).flatMap (·.found), x.Names s
  /-- No class is looked at farther away than it is found. -/
  nearest : ∀ s ∈ later, ∀ x ∈ (first :: later).flatMap (·.found), x.key = s.key →
    s.distance ≤ x.distance
  /-- No class is looked at twice, but for the one that the search begins with. -/
  once : (later.map (·.key)).Nodup
  /-- Unless there are enough ancestors, no class is left that could be looked at. -/
  all : chain.length ≤ 32 → ∀ x ∈ (first :: later).flatMap (·.found),
    (∃ s ∈ later, s.key = x.key) ∨
    ∃ y ∈ (first :: later).flatMap (·.found), y.key = x.key ∧ y.module.findClass? y.name = none
  /-- There are not many more than enough. -/
  bounded : ∀ b, (∀ s ∈ later, s.cls.bases.length ≤ b) →
    chain.length ≤ max cls.bases.length (32 + b)

/-- What is listed level by level is listed by distance. -/
theorem Levels.pairwise_listed {first : Expansion} {later : List Expansion}
    {taken rest : List Pending} (h : Levels first later taken rest) :
    ((first :: later).flatMap (·.listed)).Pairwise (·.2 ≤ ·.2) := by
  refine List.pairwise_flatMap.mpr ⟨fun s _ => ?_, h.sorted.imp fun hle x hx y hy => ?_⟩
  · exact List.pairwise_map.mpr (List.pairwise_of_forall fun _ _ => Nat.le_refl _)
  · obtain ⟨b, -, rfl⟩ := List.mem_map.mp hx
    obtain ⟨b', -, rfl⟩ := List.mem_map.mp hy
    exact Nat.succ_le_succ hle

theorem Searched.isClimb {p : Project} {c₀ c : Cache} {first : Expansion} {later : List Expansion}
    {taken rest : List Pending} {a : Ancestry} (h : Searched p c₀ first later taken rest a c)
    (hdone : a.IsDone) (hfirst : first.distance = 0) :
    IsClimb p c₀ first.module first.cls a.chain c first later where
  start := ⟨rfl, rfl, hfirst⟩
  asked := h.asked
  listed := h.chain
  nearer := h.pairwise_listed
  named s hs := by
    obtain ⟨x, hx, hnames⟩ := h.named s hs
    rw [h.found]
    exact ⟨x, List.mem_append_left _ hx, hnames⟩
  nearest := by
    rw [h.found]
    exact h.nearest
  once := h.once
  all hlength := by
    have hqueue := hdone.resolve_right (Nat.not_lt.mpr hlength)
    obtain rfl : rest = [] := List.map_eq_nil_iff.mp (h.queue.symm.trans hqueue)
    rw [h.found, List.append_nil]
    exact h.answered
  bounded := h.bounded

/-- Once the search is over, further rounds change nothing. -/
theorem run_searchAncestors_of_le {p : Project} {a : Ancestry} {c : Cache} {rounds more : Nat}
    (hdone : (((searchAncestors rounds a).run p).run c).1.IsDone) (hle : rounds ≤ more) :
    ((searchAncestors more a).run p).run c = ((searchAncestors rounds a).run p).run c := by
  obtain ⟨n, rfl⟩ := Nat.exists_eq_add_of_le hle
  rw [searchAncestors_add, run_bind, searchAncestors_of_isDone hdone]
  rfl

/-- **The ancestors of a class are found nearest first.**  The search ends by itself, however many
rounds there may be: 32 are always enough.  It looks at the bases of one class after the other, those
of the class itself first, and lists them in that order: each class at the least distance at which it
is found, no class twice but for the one that the search begins with, and all that are found unless
there are more than 32 ancestors by then. -/
theorem ancestors_are_nearest_first (p : Project) (c₀ : Cache) (m : Module) (cls : ClassDef) :
    (∀ rounds, 32 ≤ rounds →
      (((addBases m cls {} >>= searchAncestors rounds).run p).run c₀).1.IsDone ∧
      ((Ancestry.chain <$> (addBases m cls {} >>= searchAncestors rounds)).run p).run c₀ =
        ((ancestors m cls).run p).run c₀) ∧
    ∃ first later, IsClimb p c₀ m cls (((ancestors m cls).run p).run c₀).1
      (((ancestors m cls).run p).run c₀).2 first later := by
  obtain ⟨first, rfl, rfl, hfirst, hstart⟩ := Searched.start p c₀ m cls
  rcases hbases : ((addBases first.module first.cls {}).run p).run c₀ with ⟨a, c⟩
  rw [hbases] at hstart
  obtain ⟨later, taken, rest, hsearched, hdone⟩ :=
    hstart.searchAncestors (show maxAncestors ≤ [].length + 32 by decide)
  have hsame : ∀ rounds, 32 ≤ rounds → ((searchAncestors rounds a).run p).run c =
      ((searchAncestors 32 a).run p).run c :=
    fun rounds hrounds => run_searchAncestors_of_le hdone hrounds
  have hsearch : ∀ rounds,
      ((addBases first.module first.cls {} >>= searchAncestors rounds).run p).run c₀ =
        ((searchAncestors rounds a).run p).run c := by
    intro rounds
    rw [run_bind, hbases]
  have hancestors : ((ancestors first.module first.cls).run p).run c₀ =
      ((((searchAncestors 32 a).run p).run c).1.chain, (((searchAncestors 32 a).run p).run c).2) := by
    rw [ancestors, run_bind, hbases, run_bind, run_pure, hsame _ (by unfold maxAncestors maxHops; omega)]
  refine ⟨fun rounds hrounds => ⟨?_, ?_⟩, first, later, ?_⟩
  · rw [hsearch, hsame rounds hrounds]
    exact hdone
  · rw [hancestors, ← hsame rounds hrounds, ← hsearch]
    rfl
  · rw [hancestors]
    exact hsearched.isClimb hdone hfirst

/-- Two classes that are bases of each other. -/
def mutualBases : Module where
  path := "a.py"
  name := "a"
  body := [
    .classDef { name := "A", qualname := "A", bases := [.name "B" {}] } [],
    .classDef { name := "B", qualname := "B", bases := [.name "A" {}] } []]

/-- The first of them is looked at again, but only once. -/
example : ((((ancestors mutualBases ⟨{ name := "A", qualname := "A", bases := [.name "B" {}] }, []⟩).run
    { root := "" }).run { modules := [(["a.py"], mutualBases)] }).1.map (·.name)) =
      ["B", "A", "B"] := by
  decide +kernel

end Plumbline.Query
