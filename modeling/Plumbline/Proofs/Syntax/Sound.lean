/-
What the kinds of trees promise.

A tree is sound in a text if each of its constructs lies in the text as its kind does and is what its
kind promises: between the name of a parameter and its default lies one `=`, a sign stands in front of
what it is the sign of, and so on.  Every construct starts and ends where the text can be cut; few
kinds promise anything more.
-/
import Plumbline.Proofs.Syntax.Line
import Plumbline.Syntax.Expression

namespace Plumbline.Syntax

/-- Between the name of a parameter and its default lies one `=`, and around it nothing but blanks,
comments and joined lines. -/
def SetsDefault (text : List Char) (name value : Span) : Prop :=
  ∃ before shown gap gap' rest, text = before ++ shown ++ gap ++ '=' :: (gap' ++ rest) ∧
    name.start = byteSize before ∧ name.stop = byteSize (before ++ shown) ∧
    value.start = byteSize (before ++ shown ++ gap ++ '=' :: gap') ∧
    Skips (gap ++ '=' :: (gap' ++ rest)) ('=' :: (gap' ++ rest)) ∧ Skips (gap' ++ rest) rest

/-- In the text of `whole` something stands before `part`. -/
def StandsBefore (text : List Char) (whole part : Span) : Prop :=
  ∃ before between rest, text = before ++ between ++ rest ∧ between ≠ [] ∧
    whole.start = byteSize before ∧ part.start = byteSize (before ++ between) ∧
    part.start ≤ whole.stop

/-- An opening parenthesis stands at the start of the span. -/
def OpensGroup (text : List Char) (s : Span) : Prop :=
  ∃ rest, dropBytes s.start text = '(' :: rest

/-- Single items in parentheses. -/
def Kind.isGroup : Kind → Bool
  | .parenthesized | .splatTuple | .parenthesizedSplat => true
  | _ => false

/-- Strings, and groups, which can hold one. -/
def Kind.isText : Kind → Bool
  | .string | .concatenatedString => true
  | k => k.isGroup

/-- Groups, and lists of expressions and expressions as statements, which can start with a string. -/
def Kind.holdsText : Kind → Bool
  | .expressionStatement | .expressionList => true
  | k => k.isGroup

theorem Kind.isGroup_iff {k : Kind} :
    k.isGroup = true ↔ k = .parenthesized ∨ k = .splatTuple ∨ k = .parenthesizedSplat := by
  unfold isGroup
  split <;> simp_all

theorem Kind.isText_of_isGroup {k : Kind} (h : k.isGroup = true) : k.isText = true := by
  rcases isGroup_iff.mp h with rfl | rfl | rfl <;> rfl

theorem Kind.holdsText_of_isGroup {k : Kind} (h : k.isGroup = true) : k.holdsText = true := by
  rcases isGroup_iff.mp h with rfl | rfl | rfl <;> rfl

theorem Kind.not_appliesToFirst_of_isGroup {k : Kind} (h : k.isGroup = true) :
    k.appliesToFirst = false := by
  rcases isGroup_iff.mp h with rfl | rfl | rfl <;> rfl

theorem Kind.not_isGroup_of_appliesToFirst {k : Kind} (h : k.appliesToFirst = true) :
    k.isGroup = false := by
  by_contra hgroup
  simp [not_appliesToFirst_of_isGroup (by simpa using hgroup)] at h

theorem Kind.isText_of_appliesToFirst {k : Kind} (h : k.appliesToFirst = true) :
    k.isText = false ∧ k.holdsText = false := by
  unfold appliesToFirst at h
  split at h
  case h_9 => exact absurd h Bool.false_ne_true
  all_goals exact ⟨rfl, rfl⟩

/-! ### Where trees start -/

namespace Tree

variable {t : Tree} {k : Kind} {f : Option Field} {s : Span} {cs : List Tree}

mutual

/-- Where a tree starts, or what stands in its parentheses if that starts before. -/
def earliest : Tree → Nat
  | .node k _ s cs => if k.isGroup then earliestIn s.start cs else s.start

/-- Byte `start`, or where the first of the trees starts that is no comment if that is before. -/
def earliestIn (start : Nat) : List Tree → Nat
  | [] => start
  | c :: cs => if c.kind == .comment then earliestIn start cs else min start c.earliest

end

theorem earliest_node (hk : k.isGroup = false) : (Tree.node k f s cs).earliest = s.start := by
  rw [earliest, if_neg (by simp [hk])]

theorem earliest_of_not_isGroup (hk : t.kind.isGroup = false) : t.earliest = t.span.start := by
  cases t with
  | node => exact earliest_node hk

theorem earliestIn_eq (n : Nat) (cs : List Tree) :
    earliestIn n cs = ((cs.find? (·.kind != .comment)).map (min n ·.earliest)).getD n := by
  induction cs with
  | nil => rfl
  | cons c cs ih =>
      rw [earliestIn, List.find?_cons]
      by_cases hc : c.kind = .comment
      · simp [hc, ih]
      · have hcontent : (c.kind != .comment) = true := by simpa using hc
        simp [hc, hcontent]

theorem earliest_of_isGroup {c : Tree} (hk : k.isGroup = true)
    (hc : cs.find? (·.kind != .comment) = some c) :
    (Tree.node k f s cs).earliest = min s.start c.earliest := by
  rw [earliest, if_pos hk, earliestIn_eq, hc]
  rfl

theorem le_earliest_of_isGroup {n : Nat} (hk : k.isGroup = true) (hs : n ≤ s.start)
    (h : ∀ c ∈ cs, n ≤ c.earliest) : n ≤ (Tree.node k f s cs).earliest := by
  rw [earliest, if_pos hk, earliestIn_eq]
  cases hc : cs.find? (·.kind != .comment) with
  | none => exact hs
  | some c => exact Nat.le_min.mpr ⟨hs, h c (List.mem_of_find?_eq_some hc)⟩

theorem earliest_le_start (t : Tree) : t.earliest ≤ t.span.start := by
  cases t with
  | node k f s cs =>
      show _ ≤ s.start
      rw [earliest, earliestIn_eq]
      split
      · cases cs.find? (·.kind != .comment) with
        | none => exact Nat.le_refl _
        | some c => exact Nat.min_le_left _ _
      · exact Nat.le_refl _

/-- What is no group starts where another tree does, and so not before what stands in that. -/
theorem earliest_le_of_start {u : Tree} (hk : u.kind.isGroup = false)
    (h : u.span.start = t.span.start) : t.earliest ≤ u.earliest := by
  rw [earliest_of_not_isGroup hk, h]
  exact earliest_le_start t

theorem earliest_withField (f : Field) (t : Tree) : (t.withField f).earliest = t.earliest := by
  cases t with
  | node => rfl

end Tree

/-! ### Places in the text -/

/-- A byte at which the text can be cut. -/
def IsPlace (text : List Char) (n : Nat) : Prop :=
  ∃ before after, text = before ++ after ∧ byteSize before = n

theorem isPlace_of_isIn {text : List Char} {c : Cursor} (h : c.IsIn text) :
    IsPlace text c.pos.byte := by
  obtain ⟨before, htext, hbyte⟩ := h
  exact ⟨before, c.rest, htext, hbyte.symm⟩

/-- A byte at which the text can be cut, not behind the byte `hi`. -/
def EndsWithin (text : List Char) (n hi : Nat) : Prop := n ≤ hi ∧ IsPlace text n

/-- The text can be cut at both ends of the stretch. -/
structure IsStretch (text : List Char) (s : Span) : Prop where
  start : IsPlace text s.start
  stop : IsPlace text s.stop

/-- The stretch goes forward and lies inside of another one. -/
structure LiesIn (part whole : Span) : Prop where
  start : whole.start ≤ part.start
  forward : part.start ≤ part.stop
  stop : part.stop ≤ whole.stop

theorem LiesIn.trans {a b c : Span} (h : LiesIn a b) (h' : LiesIn b c) : LiesIn a c :=
  ⟨h'.start.trans h.start, h.forward, h.stop.trans h'.stop⟩

/-- A string that a construct over the span starts with does not go on behind it. -/
def HoldsText (text : List Char) (s : Span) (cs : List Tree) : Prop :=
  ∀ c, cs.find? (·.kind != .comment) = some c → c.kind.isText = true →
    EndsWithin text c.span.stop s.stop

/-- At byte `n` of the text stands `word`. -/
def StandsAt (text : List Char) (n : Nat) (word : List Char) : Prop :=
  ∃ before after, text = before ++ (word ++ after) ∧ byteSize before = n

theorem StandsAt.isPlace {text : List Char} {n : Nat} {word : List Char} (h : StandsAt text n word) :
    IsPlace text n := by
  obtain ⟨before, after, htext, hbyte⟩ := h
  exact ⟨before, _, htext, hbyte⟩

/-! ### Where constructs lie -/

/-- Constructs with a part that they apply to or that a star is bound to. -/
def Kind.hasOperand (k : Kind) : Bool := k.appliesToFirst || k == .listSplat

/-- Constructs with a part that can stand for all of them, or that they apply to. -/
def Kind.hasCore (k : Kind) : Bool :=
  k.hasOperand || k.isGroup || k == .unary || k == .keywordArgument

/-- The part of a construct that can stand for all of it, or that it applies to. -/
def Kind.core? (k : Kind) (cs : List Tree) : Option Tree :=
  if k.appliesToFirst then cs.head?
  else if k.isGroup then cs.find? (·.kind != .comment)
  else match k with
    | .listSplat => cs.getLast?
    | .unary => cs.find? fun c => c.field == some .argument
    | .keywordArgument => cs.find? fun c => c.field == some .value
    | _ => none

/-- How a construct of kind `k` lies in the text. -/
structure IsPlaced (text : List Char) (k : Kind) (s : Span) (cs : List Tree) : Prop where
  stretch : IsStretch text s
  forward : ∀ c, k.core? cs = some c → c.span.start ≤ c.span.stop
  operand : k.hasOperand = true → ∀ c, k.core? cs = some c → LiesIn c.span s
  /-- A call ends with a parenthesis. -/
  closed : k = .call → StandsAt text (s.stop - 1) [')']

section IsPlaced

variable {text : List Char} {k : Kind} {s s' : Span} {c : Tree} {cs ds : List Tree}

theorem Kind.core?_eq_none (hk : k.hasCore = false) : k.core? cs = none := by
  simp only [hasCore, hasOperand, Bool.or_eq_false_iff, beq_eq_false_iff_ne] at hk
  obtain ⟨⟨⟨⟨hfirst, hsplat⟩, hgroup⟩, hunary⟩, hkeyword⟩ := hk
  unfold core?
  rw [if_neg (by simp [hfirst]), if_neg (by simp [hgroup])]
  split <;> first | rfl | contradiction

theorem Kind.core?_of_isGroup (hk : k.isGroup = true) :
    k.core? cs = cs.find? (·.kind != .comment) := by
  rcases Kind.isGroup_iff.mp hk with rfl | rfl | rfl <;> rfl

theorem IsStretch.isPlaced (h : IsStretch text s) (hk : k.hasCore = false) :
    IsPlaced text k s cs where
  stretch := h
  forward c hc := by simp [Kind.core?_eq_none hk] at hc
  operand _ c hc := by simp [Kind.core?_eq_none hk] at hc
  closed hk' := by subst hk'; exact absurd hk (by decide)

theorem IsStretch.isPlaced_of_operand (h : IsStretch text s) (hcore : k.core? cs = some c)
    (hc : LiesIn c.span s) (hclosed : k = .call → StandsAt text (s.stop - 1) [')']) :
    IsPlaced text k s cs where
  stretch := h
  forward d hd := by
    obtain rfl := Option.some.inj (hcore.symm.trans hd)
    exact hc.forward
  operand _ d hd := by
    obtain rfl := Option.some.inj (hcore.symm.trans hd)
    exact hc
  closed := hclosed

theorem IsStretch.isPlaced_of_group (h : IsStretch text s) (hk : k.isGroup = true)
    (hcore : ∀ c, cs.find? (·.kind != .comment) = some c → c.span.start ≤ c.span.stop) :
    IsPlaced text k s cs where
  stretch := h
  forward c hc := hcore c (Kind.core?_of_isGroup hk ▸ hc)
  operand hk' := by rcases Kind.isGroup_iff.mp hk with rfl | rfl | rfl <;> exact absurd hk' (by decide)
  closed hk' := by subst hk'; exact absurd hk (by decide)

/-- A construct that ends at the same place, around an operand that took another's place. -/
theorem IsPlaced.replace {d : Tree} (h : IsPlaced text k s (c :: cs)) (hk : k.appliesToFirst = true)
    (hstart : IsPlace text s'.start) (hd : LiesIn d.span s') (hstop : s'.stop = s.stop) :
    IsPlaced text k s' (d :: cs) :=
  IsStretch.isPlaced_of_operand ⟨hstart, hstop ▸ h.stretch.stop⟩ (if_pos hk) hd
    fun hcall => hstop ▸ h.closed hcall

theorem IsPlaced.first (h : IsPlaced text k s (c :: cs)) (hk : k.appliesToFirst = true) :
    LiesIn c.span s :=
  h.operand (by simp [Kind.hasOperand, hk]) c (if_pos hk)

theorem IsPlaced.last (h : IsPlaced text .listSplat s cs) (hc : cs.getLast? = some c) :
    LiesIn c.span s :=
  h.operand rfl c hc

end IsPlaced

/-- The next thing behind byte `n` of the text that counts is a colon by itself. -/
def EndsHead (text : List Char) (n : Nat) : Prop :=
  ∃ before rest after, text = before ++ rest ∧ byteSize before = n ∧ Skips rest (':' :: after) ∧
    after.head? ≠ some '='

/-- The words that are constants. -/
def constantWords : List String := ["True", "False", "None"]

/-- A text that is read as a name, which is free to be given to a class or is that of a constant. -/
structure IsTypeName (w : List Char) : Prop where
  name : IsName w
  free : String.ofList w ∈ constantWords ∨ String.ofList w ∉ reservedWords

/-- Kinds of single words. -/
def Kind.isWord : Kind → Bool
  | .identifier | .trueLiteral | .falseLiteral | .noneLiteral => true
  | _ => false

theorem Kind.isWord_iff {k : Kind} : k.isWord = true ↔
    k = .identifier ∨ k = .trueLiteral ∨ k = .falseLiteral ∨ k = .noneLiteral := by
  unfold isWord
  split <;> simp_all

/-- Can a word be read as a construct of the kind? -/
def Kind.spells (k : Kind) (word : String) : Bool :=
  match k with
  | .identifier => !constantWords.contains word
  | .trueLiteral => word == "True"
  | .falseLiteral => word == "False"
  | .noneLiteral => word == "None"
  | _ => false

/-- Kinds of parameters that have neither a type nor a default. -/
def Kind.isBare : Kind → Bool
  | .identifier | .listSplatPattern | .dictionarySplatPattern => true
  | _ => false

/-- No type is written behind the parameter, which ends with its name. -/
structure Tree.IsUntyped (text : List Char) (t : Tree) : Prop where
  cut : IsPlace text t.span.stop
  noType : ¬ StandsAt text t.span.stop [':', ' ']
  endsWithName : ∀ name, t.kind ≠ .identifier →
    t.children.find? (·.kind = .identifier) = some name → name.span.stop = t.span.stop

/-- The tree is the type that is written behind byte `n` in front of a colon, if that is one word. -/
def SpellsResult (text : List Char) (n : Nat) (t : Tree) : Prop :=
  ∀ before w rest after, text = before ++ (" -> ".toList ++ (w ++ rest)) → byteSize before = n →
    IsTypeName w → EndsName rest → Skips rest (':' :: after) → after.head? ≠ some '=' →
      t.span.text text = String.ofList w

theorem EndsHead.isPlace {text : List Char} {n : Nat} (h : EndsHead text n) : IsPlace text n := by
  obtain ⟨before, rest, _, htext, hbyte, -⟩ := h
  exact ⟨before, rest, htext, hbyte⟩

/-- In front of a colon stands no arrow. -/
theorem EndsHead.noArrow {text : List Char} {n : Nat} (h : EndsHead text n) :
    ¬ StandsAt text n [' ', '-'] := by
  obtain ⟨before, rest, after, htext, hbyte, hskips, -⟩ := h
  rintro ⟨before', after', htext', hbyte'⟩
  obtain ⟨-, rfl⟩ := append_inj_of_byteSize (htext.symm.trans htext') (hbyte.trans hbyte'.symm)
  cases hskips with
  | blank _ hskips =>
      have hcolon := hskips.eq_of_counts (by decide) (by decide)
      exact absurd (List.cons.inj hcolon).1 (by decide)

theorem EndsHead.spellsResult {text : List Char} {n : Nat} (h : EndsHead text n) (t : Tree) :
    SpellsResult text n t := by
  intro before w rest after htext hbyte
  exact absurd ⟨before, "> ".toList ++ (w ++ rest), htext, hbyte⟩ h.noArrow

/-- What the head of a function says behind its parameters. -/
structure IsHead (text : List Char) (cs : List Tree) (params : Tree) : Prop where
  kind : params.kind = .parameters
  /-- A function without a result type goes on with its colon. -/
  ends : (∃ c ∈ cs, c.field = some .returnType) ∨ EndsHead text params.span.stop
  spells : ∀ c, cs.find? (fun c => c.field == some .returnType) = some c →
    SpellsResult text params.span.stop c

/-- Can a part of kind `k'` play the role `f` in a construct of kind `k`?  Only roles whose parts are
looked into are told apart. -/
def Kind.gives (k : Kind) (f : Field) (k' : Kind) : Bool :=
  match k, f with
  | .functionDefinition, .body | .classDefinition, .body => k' == .block
  | .functionDefinition, .parameters => k' == .parameters
  | .classDefinition, .superclasses | .assignment, .left => k' != .string
  | .decoratedDefinition, .definition => k' == .functionDefinition || k' == .classDefinition
  | _, _ => true

/-- Kinds with such roles. -/
def Kind.hasRoles : Kind → Bool
  | .functionDefinition | .classDefinition | .assignment | .decoratedDefinition => true
  | _ => false

theorem Kind.gives_of_not_hasRoles {k : Kind} (h : k.hasRoles = false) (f : Field) (k' : Kind) :
    k.gives f k' = true := by
  unfold gives
  split <;> first | rfl | exact absurd h (by decide)

/-- The part is of a kind that can play its role in a construct of kind `k`. -/
def Tree.IsGiven (k : Kind) (t : Tree) : Prop := ∀ f, t.field = some f → k.gives f t.kind = true

theorem Tree.isGiven_of_field {k : Kind} {t : Tree} (h : t.field = none) : t.IsGiven k :=
  fun f hf => by simp [h] at hf

theorem Tree.isGiven_withField {k : Kind} {f : Field} {t : Tree} (h : k.gives f t.kind = true) :
    (t.withField f).IsGiven k := by
  cases t with
  | node k' f' s cs =>
      rintro _ ⟨⟩
      exact h

/-- What the kind of a construct promises of it. -/
structure Promises (text : List Char) (k : Kind) (s : Span) (cs : List Tree) : Prop where
  /-- A default belongs to a name and lies behind that. -/
  default : k = .defaultParameter → ∃ name value,
    cs.find? (fun c => c.field == some .name) = some name ∧
    cs.find? (fun c => c.field == some .value) = some value ∧
    SetsDefault text name.span value.span ∧ name.span.stop ≤ value.earliest
  /-- What is called typed has a type. -/
  typed : (k = .typedParameter ∨ k = .typedDefaultParameter) → ∃ c ∈ cs, c.field = some .type
  /-- A parameter without a type has none written behind it. -/
  untyped : k = .parameters → ∀ c ∈ cs, c.kind.isBare = true → c.IsUntyped text
  /-- What stands behind the parameters of a function is its result type or its colon. -/
  function : k = .functionDefinition → ∀ params,
    cs.find? (fun c => c.field == some .parameters) = some params → IsHead text cs params
  /-- A sign stands in front of what it is the sign of. -/
  sign : k = .unary → ∀ c ∈ cs, c.field = some .argument → StandsBefore text s c.span
  /-- What applies to an operand starts where that does. -/
  first : k.appliesToFirst = true → ∃ c rest, cs = c :: rest ∧ c.span.start = s.start
  /-- A group starts with its parenthesis. -/
  group : k.isGroup = true → OpensGroup text s
  /-- A string does not go on behind what holds it. -/
  held : k.holdsText = true → HoldsText text s cs
  /-- A word is a constant or a name, as it is spelled. -/
  word : k.isWord = true → k.spells (s.text text) = true
  /-- Parts that are looked into are of kinds that can be looked into. -/
  roles : ∀ c ∈ cs, c.IsGiven k

/-- Kinds that promise nothing. -/
def Kind.isPlain (k : Kind) : Bool :=
  !(k == .defaultParameter || k == .typedParameter || k == .typedDefaultParameter ||
    k == .parameters || k.hasCore || k.holdsText || k.isWord || k.hasRoles)

theorem isGiven_of_not_hasRoles {k : Kind} (h : k.hasRoles = false) (cs : List Tree) :
    ∀ c ∈ cs, c.IsGiven k :=
  fun c _ f _ => Kind.gives_of_not_hasRoles h f c.kind

theorem Kind.not_hasRoles_of_appliesToFirst {k : Kind} (h : k.appliesToFirst = true) :
    k.hasRoles = false := by
  unfold hasRoles
  split <;> first | rfl | exact absurd h (by decide)

theorem Kind.not_hasRoles_of_holdsText {k : Kind} (h : k.holdsText = true) : k.hasRoles = false := by
  unfold hasRoles
  split <;> first | rfl | exact absurd h (by decide)

theorem Kind.not_hasCore_of_hasRoles {k : Kind} (h : (k.hasRoles && k != .functionDefinition) = true) :
    k.hasCore = false := by
  cases k <;> first | rfl | exact absurd h (by decide)

theorem Kind.hasCore_of_isPlain {k : Kind} (h : k.isPlain = true) : k.hasCore = false := by
  simp [isPlain] at h
  simp [h]

theorem Kind.not_isGroup_of_not_hasCore {k : Kind} (h : k.hasCore = false) : k.isGroup = false := by
  simp [hasCore] at h
  simp [h]

theorem Kind.not_isGroup_of_isPlain {k : Kind} (h : k.isPlain = true) : k.isGroup = false :=
  not_isGroup_of_not_hasCore (hasCore_of_isPlain h)

theorem promises_of_isPlain {text : List Char} {k : Kind} {s : Span} {cs : List Tree}
    (h : k.isPlain = true) : Promises text k s cs where
  default hk := by subst hk; exact absurd h (by decide)
  typed hk := by rcases hk with rfl | rfl <;> exact absurd h (by decide)
  untyped hk := by subst hk; exact absurd h (by decide)
  function hk := by subst hk; exact absurd h (by decide)
  sign hk := by subst hk; exact absurd h (by decide)
  first hk := by simp [Kind.isPlain, Kind.hasCore, Kind.hasOperand, hk] at h
  group hk := by simp [Kind.isPlain, Kind.holdsText_of_isGroup hk] at h
  held hk := by simp [Kind.isPlain, hk] at h
  word hk := by simp [Kind.isPlain, hk] at h
  roles := isGiven_of_not_hasRoles (by simp [Kind.isPlain] at h; simp [h]) cs

/-- What holds a part and promises nothing else of it. -/
theorem promises_of_holder {text : List Char} {k : Kind} {s : Span} {cs : List Tree}
    (hk : k = .listSplat ∨ k = .keywordArgument) : Promises text k s cs where
  default hk' := by rcases hk with rfl | rfl <;> exact absurd hk' (by decide)
  typed hk' := by rcases hk with rfl | rfl <;> exact absurd hk' (by decide)
  untyped hk' := by rcases hk with rfl | rfl <;> exact absurd hk' (by decide)
  function hk' := by rcases hk with rfl | rfl <;> exact absurd hk' (by decide)
  sign hk' := by rcases hk with rfl | rfl <;> exact absurd hk' (by decide)
  first hk' := by rcases hk with rfl | rfl <;> exact absurd hk' (by decide)
  group hk' := by rcases hk with rfl | rfl <;> exact absurd hk' (by decide)
  held hk' := by rcases hk with rfl | rfl <;> exact absurd hk' (by decide)
  word hk' := by rcases hk with rfl | rfl <;> exact absurd hk' (by decide)
  roles := isGiven_of_not_hasRoles (by rcases hk with rfl | rfl <;> rfl) cs

theorem promises_of_first {text : List Char} {k : Kind} {s : Span} {c : Tree} {cs : List Tree}
    (hk : k.appliesToFirst = true) (h : c.span.start = s.start) : Promises text k s (c :: cs) where
  default hk' := by subst hk'; exact absurd hk (by decide)
  typed hk' := by rcases hk' with rfl | rfl <;> exact absurd hk (by decide)
  untyped hk' := by subst hk'; exact absurd hk (by decide)
  function hk' := by subst hk'; exact absurd hk (by decide)
  sign hk' := by subst hk'; exact absurd hk (by decide)
  first _ := ⟨c, cs, rfl, h⟩
  group hk' := by simp [Kind.not_appliesToFirst_of_isGroup hk'] at hk
  held hk' := by simp [(Kind.isText_of_appliesToFirst hk).2] at hk'
  word hk' := by rcases Kind.isWord_iff.mp hk' with rfl | rfl | rfl | rfl <;> exact absurd hk (by decide)
  roles := isGiven_of_not_hasRoles (Kind.not_hasRoles_of_appliesToFirst hk) _

theorem promises_of_group {text : List Char} {k : Kind} {s : Span} {cs : List Tree}
    (hk : k.isGroup = true) (h : OpensGroup text s) (hheld : HoldsText text s cs) :
    Promises text k s cs where
  default hk' := by subst hk'; exact absurd hk (by decide)
  typed hk' := by rcases hk' with rfl | rfl <;> exact absurd hk (by decide)
  untyped hk' := by subst hk'; exact absurd hk (by decide)
  function hk' := by subst hk'; exact absurd hk (by decide)
  sign hk' := by subst hk'; exact absurd hk (by decide)
  first hk' := by simp [Kind.not_appliesToFirst_of_isGroup hk] at hk'
  group _ := h
  held _ := hheld
  word hk' := by rcases Kind.isGroup_iff.mp hk with rfl | rfl | rfl <;> exact absurd hk' (by decide)
  roles := isGiven_of_not_hasRoles (Kind.not_hasRoles_of_holdsText (Kind.holdsText_of_isGroup hk)) cs

/-- What promises nothing but to hold its string. -/
theorem promises_of_held {text : List Char} {k : Kind} {s : Span} {cs : List Tree}
    (hk : (k.holdsText && !k.isGroup) = true) (hheld : HoldsText text s cs) :
    Promises text k s cs where
  default hk' := by subst hk'; exact absurd hk (by decide)
  typed hk' := by rcases hk' with rfl | rfl <;> exact absurd hk (by decide)
  untyped hk' := by subst hk'; exact absurd hk (by decide)
  function hk' := by subst hk'; exact absurd hk (by decide)
  sign hk' := by subst hk'; exact absurd hk (by decide)
  first hk' := by cases k <;> first | exact absurd hk (by decide) | exact absurd hk' (by decide)
  group hk' := by simp [hk'] at hk
  held _ := hheld
  word hk' := by rcases Kind.isWord_iff.mp hk' with rfl | rfl | rfl | rfl <;> exact absurd hk (by decide)
  roles := isGiven_of_not_hasRoles (Kind.not_hasRoles_of_holdsText (by simp at hk; exact hk.1)) cs

theorem promises_of_typed {text : List Char} {k : Kind} {s : Span} {cs : List Tree}
    (hk : k = .typedParameter ∨ k = .typedDefaultParameter) (h : ∃ c ∈ cs, c.field = some .type) :
    Promises text k s cs where
  default hk' := by rcases hk with rfl | rfl <;> exact absurd hk' (by decide)
  typed _ := h
  untyped hk' := by rcases hk with rfl | rfl <;> exact absurd hk' (by decide)
  function hk' := by rcases hk with rfl | rfl <;> exact absurd hk' (by decide)
  sign hk' := by rcases hk with rfl | rfl <;> exact absurd hk' (by decide)
  first hk' := by rcases hk with rfl | rfl <;> exact absurd hk' (by decide)
  group hk' := by rcases hk with rfl | rfl <;> exact absurd hk' (by decide)
  held hk' := by rcases hk with rfl | rfl <;> exact absurd hk' (by decide)
  word hk' := by rcases hk with rfl | rfl <;> exact absurd hk' (by decide)
  roles := isGiven_of_not_hasRoles (by rcases hk with rfl | rfl <;> rfl) cs

theorem promises_of_parameters {text : List Char} {s : Span} {cs : List Tree}
    (h : ∀ c ∈ cs, c.kind.isBare = true → c.IsUntyped text) :
    Promises text .parameters s cs where
  default := nofun
  typed hk := absurd hk (by decide)
  untyped _ := h
  function := nofun
  sign := nofun
  first := nofun
  group := nofun
  held := nofun
  word := nofun
  roles := isGiven_of_not_hasRoles rfl cs

theorem promises_of_function {text : List Char} {s : Span} {cs : List Tree}
    (h : ∀ params, cs.find? (fun c => c.field == some .parameters) = some params →
      IsHead text cs params) (hroles : ∀ c ∈ cs, c.IsGiven .functionDefinition) :
    Promises text .functionDefinition s cs where
  default := nofun
  typed hk := absurd hk (by decide)
  untyped := nofun
  function _ := h
  sign := nofun
  first := nofun
  group := nofun
  held := nofun
  word := nofun
  roles := hroles

/-- What promises nothing but the kinds of its parts. -/
theorem promises_of_roles {text : List Char} {k : Kind} {s : Span} {cs : List Tree}
    (hk : (k.hasRoles && k != .functionDefinition) = true) (hroles : ∀ c ∈ cs, c.IsGiven k) :
    Promises text k s cs := by
  refine ⟨?_, ?_, ?_, ?_, ?_, ?_, ?_, ?_, ?_, hroles⟩
  all_goals intro hk'
  case refine_2 => rcases hk' with rfl | rfl <;> exact absurd hk (by decide)
  case refine_6 | refine_7 | refine_8 | refine_9 =>
    cases k <;> first | exact absurd hk (by decide) | exact absurd hk' (by decide)
  all_goals subst hk'; exact absurd hk (by decide)

/-- Every construct in the tree lies as its kind does and is what its kind promises. -/
inductive Tree.Sound (text : List Char) : Tree → Prop where
  | node {k : Kind} {f : Option Field} {s : Span} {cs : List Tree} (placed : IsPlaced text k s cs)
      (promises : Promises text k s cs) (parts : ∀ c ∈ cs, Tree.Sound text c) :
      Tree.Sound text (.node k f s cs)

/-- Every one of the trees is sound. -/
def AllSound (text : List Char) (cs : List Tree) : Prop := ∀ c ∈ cs, c.Sound text

section AllSound

variable {text : List Char} {c : Tree} {cs ds : List Tree}

@[simp] theorem allSound_nil : AllSound text [] := fun _ h => absurd h List.not_mem_nil

@[simp] theorem allSound_cons : AllSound text (c :: cs) ↔ c.Sound text ∧ AllSound text cs :=
  List.forall_mem_cons

@[simp] theorem allSound_append :
    AllSound text (cs ++ ds) ↔ AllSound text cs ∧ AllSound text ds :=
  List.forall_mem_append

theorem allSound_reverse : AllSound text cs.reverse ↔ AllSound text cs :=
  ⟨fun h c hc => h c (List.mem_reverse.mpr hc), fun h c hc => h c (List.mem_reverse.mp hc)⟩

theorem AllSound.dropLast (h : AllSound text cs) : AllSound text cs.dropLast :=
  fun c hc => h c (List.dropLast_subset cs hc)

theorem AllSound.getLast? (h : AllSound text cs) (hc : cs.getLast? = some c) : c.Sound text :=
  h c (List.mem_of_getLast? hc)

end AllSound

namespace Tree

variable {text : List Char} {t u : Tree} {k : Kind} {f : Option Field} {s : Span} {cs ds : List Tree}

theorem Sound.placed (h : Sound text (.node k f s cs)) : IsPlaced text k s cs := by
  cases h with
  | node placed promises parts => exact placed

theorem Sound.promises (h : Sound text (.node k f s cs)) : Promises text k s cs := by
  cases h with
  | node placed promises parts => exact promises

theorem Sound.parts (h : Sound text (.node k f s cs)) : AllSound text cs := by
  cases h with
  | node placed promises parts => exact parts

theorem Sound.stretch (h : t.Sound text) : IsStretch text t.span := by
  cases h with
  | node placed promises parts => exact placed.stretch

theorem Sound.children (h : t.Sound text) : AllSound text t.children := by
  cases h with
  | node placed promises parts => exact parts

theorem sound_plain (hk : k.isPlain = true) (hs : IsStretch text s) (h : AllSound text cs) :
    Sound text (.node k f s cs) :=
  .node (hs.isPlaced (Kind.hasCore_of_isPlain hk)) (promises_of_isPlain hk) h

theorem sound_leaf (hk : k.isPlain = true) (hs : IsStretch text s) : Sound text (leaf k s) :=
  sound_plain hk hs allSound_nil

theorem sound_word (hk : k.isWord = true) (hs : IsStretch text s)
    (hspells : k.spells (s.text text) = true) : Sound text (leaf k s) := by
  rcases Kind.isWord_iff.mp hk with rfl | rfl | rfl | rfl
  all_goals exact .node (hs.isPlaced rfl) ⟨nofun, by simp, nofun, nofun, nofun, nofun, nofun, nofun,
    fun _ => hspells, nofun⟩ allSound_nil

@[simp] theorem span_withField (f : Field) (t : Tree) : (t.withField f).span = t.span := by
  cases t with
  | node => rfl

@[simp] theorem field_withField (f : Field) (t : Tree) : (t.withField f).field = some f := by
  cases t with
  | node => rfl

/-- The tree itself stands in for another one that there may not be. -/
theorem Sound.getD {o : Option Tree} (h : t.Sound text) (ho : ∀ u, o = some u → u.Sound text) :
    (o.getD t).Sound text := by
  cases o with
  | none => exact h
  | some u => exact ho u rfl

/-- What part of another construct a tree is makes no difference to it. -/
theorem Sound.inField (h : Sound text (.node k f s cs)) (f' : Option Field) :
    Sound text (.node k f' s cs) :=
  .node h.placed h.promises h.parts

theorem Sound.withField (h : t.Sound text) (f : Field) : (t.withField f).Sound text := by
  cases t with
  | node => exact h.inField (some f)

/-- A star and what it is bound to. -/
theorem sound_splat (hs : IsStretch text s) (hcs : AllSound text cs)
    (h : ∀ c, cs.getLast? = some c → LiesIn c.span s) : Sound text (.node .listSplat f s cs) :=
  .node ⟨hs, fun c hc => (h c hc).forward, fun _ => h, nofun⟩ (promises_of_holder (Or.inl rfl)) hcs

/-- A group read as another kind of group. -/
theorem sound_group {k' : Kind} {ds : List Tree} (h : Sound text (.node k f s cs))
    (hk : k.isGroup = true) (hk' : k'.isGroup = true) (hheld : HoldsText text s ds)
    (hcore : ∀ c, ds.find? (·.kind != .comment) = some c → c.span.start ≤ c.span.stop)
    (hds : AllSound text ds) : Sound text (.node k' f s ds) :=
  .node (h.placed.stretch.isPlaced_of_group hk' hcore)
    (promises_of_group hk' (h.promises.group hk) hheld) hds

/-! ### Patterns -/

mutual

theorem sound_toPattern? :
    {t u : Tree} → t.Sound text → Grammar.toPattern? t = some u → u.Sound text ∧ u.span = t.span
  | .node k f s cs, u, h, heq => by
      have hgroup : ∀ k' : Kind, k'.isPlain = true →
          (Grammar.toPatterns? cs).map (Tree.node k' f s) = some u →
            u.Sound text ∧ u.span = s := by
        intro k' hk' heq
        obtain ⟨ps, hps, rfl⟩ := Option.map_eq_some_iff.mp heq
        exact ⟨sound_plain hk' h.stretch (sound_toPatterns? h.parts hps), rfl⟩
      unfold Grammar.toPattern? at heq
      split at heq
      case h_4 =>
        split at heq
        · obtain rfl := Option.some.inj heq
          exact ⟨sound_plain (by decide) h.stretch h.parts, rfl⟩
        · exact absurd heq (by simp)
      case h_5 | h_6 | h_7 | h_8 => exact hgroup .tuplePattern (by decide) heq
      case h_9 => exact hgroup .listPattern (by decide) heq
      case h_12 => exact absurd heq (by simp)
      all_goals
        obtain rfl := Option.some.inj heq
        exact ⟨h, rfl⟩

theorem sound_toPatterns? : {cs ps : List Tree} → AllSound text cs →
    Grammar.toPatterns? cs = some ps → AllSound text ps
  | [], ps, _, heq => by
      obtain rfl := Option.some.inj heq
      exact allSound_nil
  | t :: ts, ps, h, heq => by
      unfold Grammar.toPatterns? at heq
      obtain ⟨p, hp, heq⟩ := Option.bind_eq_some_iff.mp heq
      obtain ⟨rest, hrest, heq⟩ := Option.bind_eq_some_iff.mp heq
      obtain rfl := Option.some.inj heq
      rw [allSound_cons] at h ⊢
      exact ⟨(sound_toPattern? h.1 hp).1, sound_toPatterns? h.2 hrest⟩

end

/-- A group is no pattern, and a string is none. -/
theorem kind_toPattern? (heq : Grammar.toPattern? t = some u) :
    (u.kind.isGroup || u.kind == .string) = false := by
  obtain ⟨k, f, s, cs⟩ := t
  have hmapped : ∀ k' : Kind, (k'.isGroup || k' == .string) = false →
      (Grammar.toPatterns? cs).map (Tree.node k' f s) = some u →
        (u.kind.isGroup || u.kind == .string) = false := by
    intro k' hk' heq
    obtain ⟨ps, -, rfl⟩ := Option.map_eq_some_iff.mp heq
    exact hk'
  unfold Grammar.toPattern? at heq
  split at heq
  case h_4 =>
    split at heq
    · obtain rfl := Option.some.inj heq
      rfl
    · exact absurd heq (by simp)
  case h_5 | h_6 | h_7 | h_8 | h_9 => exact hmapped _ (by decide) heq
  case h_12 => exact absurd heq (by simp)
  all_goals
    obtain rfl := Option.some.inj heq
    rfl

theorem isGroup_toPattern? (heq : Grammar.toPattern? t = some u) : u.kind.isGroup = false :=
  (Bool.or_eq_false_iff.mp (kind_toPattern? heq)).1

theorem ne_string_of_toPattern? (heq : Grammar.toPattern? t = some u) : u.kind ≠ .string := by
  simpa using (Bool.or_eq_false_iff.mp (kind_toPattern? heq)).2

end Tree

end Plumbline.Syntax
