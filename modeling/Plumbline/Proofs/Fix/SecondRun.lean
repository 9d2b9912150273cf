/-
Running the plans once more.

A plan is not carried out where the text already is as the plan wants it, and each kind of plan has a
test of its own for that.  The tests look at the module that is read from the text again.  So a second
run changes nothing if what the plans wrote is found again there: the line of an import by itself, an
annotation behind its name or its parameters, a comment among those above its line, the flag of a
record (`isSatisfied_of_foundAt`).  What a plan wrote stands in the outcome where the plans after it
have moved it, so that only the place has to be found again (`second_run`).

It need not be found there.  A sign is no part of the number that `frozen` is set to, so that only the
number is replaced, and `-True` is not what a frozen record is known by (`sign_of_flag_kept`).
-/
import Plumbline.Proofs.Fix.Written

namespace Plumbline

open Syntax (Tree IsPlace StandsAt LineStart TakesIn importOf importText)

namespace Syntax

theorem StandsAt.front {text word more : List Char} {n : Nat} (h : StandsAt text n (word ++ more)) :
    StandsAt text n word := by
  obtain ⟨before, after, rfl, hbyte⟩ := h
  exact ⟨before, more ++ after, by simp, hbyte⟩

end Syntax

namespace Edit

open Text (EndsLine)

variable {text : List Char} {n : Nat} {note : String}

/-! ### Comments above comments -/

/-- Whole lines that are comments. -/
def AreComments (block : List Char) : Prop :=
  ∃ lines : List (List Char), block = lines.flatMap (· ++ ['\n']) ∧
    ∀ line ∈ lines, '\n' ∉ line ∧ (Text.trim (Text.dropReturn line)).head? = some '#'

theorem endsLine_append_lines {before : List Char} (hbefore : EndsLine before)
    (lines : List (List Char)) : EndsLine (before ++ lines.flatMap (· ++ ['\n'])) := by
  rcases List.eq_nil_or_concat lines with rfl | ⟨front, line, rfl⟩
  · simpa using hbefore
  · rw [List.concat_eq_append, List.flatMap_append, List.flatMap_singleton, ← List.append_assoc,
      ← List.append_assoc]
    exact Text.endsLine_append_newLine _

/-- A comment is found above other comments. -/
theorem hasComment_append_comments {before block : List Char} {comment : String}
    (hbefore : EndsLine before) (hblock : AreComments block)
    (h : hasComment before comment = true) : hasComment (before ++ block) comment = true := by
  obtain ⟨lines, rfl, hlines⟩ := hblock
  induction lines using List.reverseRecOn with
  | nil => simpa using h
  | append_singleton front line ih =>
      obtain ⟨hfront, hline⟩ := List.forall_mem_append.mp hlines
      obtain ⟨hwhole, hhash⟩ := hline line (by simp)
      have hfound := ih hfront
      rw [List.flatMap_append, List.flatMap_singleton, ← List.append_assoc]
      unfold hasComment at hfound ⊢
      rw [Text.lines_append_line (endsLine_append_lines hbefore front) hwhole, List.reverse_concat,
        List.map_cons, List.takeWhile_cons_of_pos (by rw [hhash]; rfl), List.contains_cons, hfound,
        Bool.or_true]

/-- The `size` bytes at byte `n` are a line but for blanks in front, and between that line and the
line of byte `anchor` there are only comments. -/
def IsAbove (text : List Char) (n size anchor : Nat) : Prop :=
  ∃ above blanks shown block line, EndsLine above ∧ (∀ c ∈ blanks, c = ' ' ∨ c = '\t') ∧
    AreComments block ∧ CutsLine text anchor (above ++ blanks ++ shown ++ block) line ∧
    byteSize (above ++ blanks) = n ∧ byteSize shown = size

/-- A comment is known that is a line above the line that it is about. -/
theorem injectComment_of_isAbove {anchor : Nat} (hnote : IsNote note)
    (habove : IsAbove text n (byteSize (commentOf note ++ "\n").toList) anchor)
    (h : StandsAt text n (commentOf note ++ "\n").toList) :
    injectComment text anchor note = none := by
  obtain ⟨above, blanks, shown, block, line, hends, hblanks, hblock, hcut, hbyte, hsize⟩ := habove
  obtain ⟨before, after, htext, hbefore⟩ := h
  have hsame : above ++ blanks ++ (shown ++ (block ++ line)) =
      before ++ ((commentOf note ++ "\n").toList ++ after) := by
    rw [← htext, hcut.whole]
    simp
  obtain ⟨-, hrest⟩ := append_inj_of_byteSize hsame (hbyte.trans hbefore.symm)
  obtain ⟨hshown, -⟩ := append_inj_of_byteSize hrest hsize
  have hline : blanks ++ shown = commentLine note blanks ++ ['\n'] := by
    have hindent : indentation blanks = blanks := by
      unfold indentation
      rw [List.takeWhile_eq_self_iff]
      exact fun c hc => by simpa using hblanks c hc
    rw [commentLine, hindent, hshown, String.toList_append, ← List.append_assoc]
    rfl
  rw [List.append_assoc above, hline] at hcut
  have hlast : EndsLine (above ++ (commentLine note blanks ++ ['\n'])) := by
    rw [← List.append_assoc]
    exact Text.endsLine_append_newLine _
  rw [injectComment_eq_none_iff hcut]
  refine hasComment_append_comments hlast hblock ?_
  rw [hasComment_append_commentLine hends hnote]
  exact Or.inl rfl

/-! ### Imports and records -/

theorem hasImport_of_mem {m : Module} {M name : String} {span : Span}
    (h : .importing (importOf M.toList name.toList span) ∈ m.body) : hasImport m M name = true := by
  have hmem : importOf M.toList name.toList span ∈ m.imports :=
    List.mem_filterMap.mpr ⟨_, h, rfl⟩
  exact List.any_eq_true.mpr ⟨_, hmem, by simp [importOf]⟩

/-- What the decorator of a record says of its being frozen. -/
def flag? : Expr → Option Expr
  | .call _ _ keywords _ => (keywords.find? (·.1 == "frozen")).map (·.2)
  | _ => none

theorem freeze_of_flag? {d : Expr} {span : Span} (h : flag? d = some (.literal (.bool true) span)) :
    freeze d = none := by
  cases d with
  | call f args keywords s =>
      obtain ⟨⟨name, value⟩, hfind, rfl⟩ := Option.map_eq_some_iff.mp h
      unfold freeze
      dsimp only
      rw [hfind]
  | _ => exact absurd h (by simp [flag?])

/-- Where `True` is written and a word is read, the record is frozen. -/
theorem freeze_of_standsAt {t : Tree} {value : Expr} (ht : t.Sound text)
    (hflag : flag? (Lower.expr text t) = some value) (hword : value.isWord = true)
    (hspan : value.span.start = n ∧ value.span.stop = n + 4) (h : StandsAt text n "True".toList) :
    freeze (Lower.expr text t) = none := by
  have hcall := Lower.callExtends_expr ht
  generalize Lower.expr text t = d at hflag hcall ⊢
  have htruth : Lower.TellsTruth text value := by
    cases d with
    | call f args keywords s =>
        obtain ⟨keyword, hfind, rfl⟩ := Option.map_eq_some_iff.mp hflag
        exact (hcall.2.2 keyword (List.mem_of_find?_eq_some hfind)).truth
    | _ => exact absurd hflag (by simp [flag?])
  obtain ⟨before, after, rfl, rfl⟩ := h
  have htext : value.span.text (before ++ ("True".toList ++ after)) = "True" := by
    have hfour : byteSize before + 4 = byteSize (before ++ "True".toList) := by
      rw [byteSize_append]
      rfl
    rw [Span.text, hspan.1, hspan.2, hfour, ← List.append_assoc, sliceBytes_append]
    rfl
  exact freeze_of_flag? (hflag.trans (congrArg some (htruth hword htext)))

end Edit

/-- What lies where the line of an import stands does not take that line in. -/
theorem Syntax.Tree.not_takesIn {text : String} {tree : Tree} {source name : List Char} {n : Nat}
    {s : Stmt} (path : Path) (htree : Syntax.parse text = .ok tree)
    (hs : s ∈ (Module.ofTree path "" text tree).body) (himport : Edit.isImport s = true)
    (hspan : s.span.start = n ∧ s.span.stop = n + byteSize (importText source name)) :
    ∀ t ∈ tree.children, ¬ TakesIn source name n t := by
  obtain ⟨state, houtline⟩ := Syntax.outlined_parse htree
  have hlaid := (Syntax.areLaid_append.mp houtline.laid).choose_spec.1
  have hs : s ∈ Lower.stmts text.toList [] false tree.children := hs
  rw [Lower.stmts_eq] at hs
  obtain ⟨u, hu, hlowered⟩ := List.mem_filterMap.mp hs
  have hplace := (Lower.isLowered_stmt? hlowered).span_of_isImport himport
  rw [hplace] at hspan
  have hpos : 0 < byteSize (importText source name) := by
    rw [Syntax.importText_eq]
    exact byteSize_pos (List.cons_ne_nil _ _)
  rintro t ht ⟨hstart, hstop, hover⟩
  by_cases heq : t = u
  · subst heq
    omega
  · -- Different trees of a file lie apart.
    have hapart : t.span.stop ≤ u.span.start ∨ u.span.stop ≤ t.span.start := by
      obtain ⟨front, back, hchildren⟩ := List.append_of_mem hu
      have hpairs := hlaid.pairwise
      rw [hchildren] at hpairs ht
      obtain ⟨-, hback, hfront⟩ := List.pairwise_append.mp hpairs
      rcases List.mem_append.mp ht with ht | ht
      · exact Or.inl (hfront t ht u (by simp))
      · rcases List.mem_cons.mp ht with rfl | ht
        · exact absurd rfl heq
        · exact Or.inr ((List.pairwise_cons.mp hback).1 t ht)
    omega

namespace Plan

open Edit

variable {path : Path} {source text out : String} {m m' : Module} {plan : Plan}

/-- An import is one of names, and a note makes one line. -/
def IsProper : Plan → Prop
  | addImport source name => Syntax.IsDottedName source.toList ∧ Syntax.IsName name.toList
  | injectComment _ note => IsNote note
  | _ => True

/-- At byte `n` of the text is the place that the plan names in the module of the text. -/
def FoundAt (text : List Char) (m : Module) (n : Nat) : Plan → Prop
  | addImport source name => (∃ before after, text = before ++ after ∧ byteSize before = n ∧
      Text.EndsLine before) ∧ ∃ s ∈ m.body, Edit.isImport s = true ∧
      s.span.start = n ∧ s.span.stop = n + byteSize (importText source.toList name.toList)
  | addReturnType function _ => ∃ f, m.findFunction? function = some f ∧ f.paramsSpan.stop = n
  | addParameterType function parameter _ => ∃ f p, m.findFunction? function = some f ∧
      f.param? parameter = some p ∧ p.nameSpan.stop = n
  | freezeRecord className => ∃ c d value, m.findClass? className = some c ∧
      c.dataclassDecorator? = some d ∧ flag? d.expr = some value ∧ value.isWord = true ∧
      value.span.start = n ∧ value.span.stop = n + 4
  | injectComment anchor note => ∃ span, anchorSpan? m anchor = some span ∧
      IsAbove text n (byteSize (commentOf note ++ "\n").toList) span.start

/-- The line of an import that stands where an import is found is that import. -/
theorem import_of_foundAt {source name called : String} {n : Nat}
    (hm : Module.parse out path called = .ok m) (hproper : (addImport source name).IsProper)
    (hfound : (addImport source name).FoundAt out.toList m n)
    (h : StandsAt out.toList n (addImport source name).word.toList) :
    ∃ front span rest,
      m.body = front ++ .importing (importOf source.toList name.toList span) :: rest := by
  obtain ⟨⟨before, after, htext, hbyte, hends⟩, s, hs, himport, hspan⟩ := hfound
  obtain ⟨tree, htree, rfl⟩ := Module.parse_eq_ok hm
  obtain ⟨front, back, htext', hfront⟩ := h
  obtain ⟨rfl, -⟩ := append_inj_of_byteSize (htext.symm.trans htext') (hbyte.trans hfront.symm)
  have hwhole : out.toList = before ++ (importText source.toList name.toList ++ '\n' :: back) := by
    rw [htext']
    show before ++ (("from " ++ source ++ " import " ++ name ++ "\n").toList ++ back) = _
    rw [importLine_eq]
    simp
  have hline := importLine_of_endsLine hproper.1 hproper.2 hwhole hends
  rw [hbyte] at hline
  rcases import_read path hline htree with ⟨front, i, rest, hbody, hi, -⟩ | ⟨t, ht, htaken⟩
  · exact ⟨front, i.span, rest, hi ▸ hbody⟩
  · exact absurd htaken (Tree.not_takesIn path htree hs himport hspan t ht)

/-- **What a plan writes is known as what it wants**, if it stands where the plan names its place. -/
theorem isSatisfied_of_foundAt {n : Nat} (hm : Module.parse out path "" = .ok m)
    (hproper : plan.IsProper) (hfound : plan.FoundAt out.toList m n)
    (h : StandsAt out.toList n plan.word.toList) : plan.IsSatisfied path out := by
  refine ⟨m, hm, ?_⟩
  cases plan with
  | addImport source name =>
      obtain ⟨front, span, rest, hbody⟩ := import_of_foundAt hm hproper hfound h
      have hmem : Stmt.importing (importOf source.toList name.toList span) ∈ m.body := by
        rw [hbody]
        simp
      exact congrArg Except.ok (if_pos (hasImport_of_mem hmem))
  | addReturnType function type =>
      obtain ⟨f, hf, rfl⟩ := hfound
      have hreturns : f.returns.isSome = true := by
        by_contra hnone
        have hnone : f.returns = none := by simpa using hnone
        rw [word, String.toList_append] at h
        have harrow : StandsAt out.toList f.paramsSpan.stop ([' ', '-'] ++ ['>', ' ']) := h.front
        exact (function_endsHead hm hf hnone).noArrow harrow.front
      simp only [edit?, hf, Edit.addReturnType, if_pos hreturns]
  | addParameterType function parameter type =>
      obtain ⟨f, p, hf, hp, rfl⟩ := hfound
      have hhint : p.hint.isSome = true := by
        by_contra hnone
        have hnone : p.hint = none := by simpa using hnone
        rw [word, String.toList_append] at h
        exact (param_lacksType hm hf (List.mem_of_find?_eq_some hp) hnone).2 h.front
      simp only [edit?, hf, hp, Edit.addParameterType, if_pos hhint]
  | freezeRecord className =>
      obtain ⟨c, d, value, hc, hd, hflag, hword, hspan⟩ := hfound
      obtain ⟨t, ht, hexpr⟩ := (isReadFrom_findClass? hm hc).2 d (List.mem_of_find?_eq_some hd)
      rw [hexpr] at hflag
      have hfreeze := freeze_of_standsAt ht hflag hword hspan h
      simp only [edit?, hc, hd, hexpr, hfreeze]
  | injectComment anchor note =>
      obtain ⟨span, hspan, habove⟩ := hfound
      simp only [edit?, hspan, injectComment_of_isAbove hproper habove h]

/-- The plan is carried out as one of several, and what it writes, as the plans after it have moved it,
is in the module `m'` of the outcome where the plan names its place. -/
def FindsAgain (path : Path) (source : String) (plans : List Plan) (out : String) (m' : Module)
    (plan : Plan) : Prop :=
  ∃ front rest text e n, plans = front ++ plan :: rest ∧ applyAll path source front = .ok text ∧
    plan.editIn? path text = some e ∧
    carried? path (byteSize plan.word.toList) rest (plan.textAfter path text) (plan.place e) = some n ∧
    plan.FoundAt out.toList m' n

/-- What is found again stands there. -/
theorem FindsAgain.foundAt {plans : List Plan} (h : applyAll path source plans = .ok out)
    (hfound : plan.FindsAgain path source plans out m') :
    ∃ n, plan.FoundAt out.toList m' n ∧ StandsAt out.toList n plan.word.toList := by
  obtain ⟨front, rest, text, e, n, rfl, htext, hedit, hcarried, hfound⟩ := hfound
  refine ⟨n, hfound, ?_⟩
  rw [applyAll_append_eq_bind, htext] at h
  have h : applyAll path text (plan :: rest) = .ok out := h
  rw [applyAll_of_isValid (isValid_of_applyAll htext), List.foldlM_cons] at h
  cases hplan : plan.applyTo path text with
  | error error =>
      rw [hplan] at h
      exact nomatch h
  | ok next =>
      rw [hplan] at h
      have hstands : StandsAt next.toList (plan.place e) plan.word.toList := by
        obtain ⟨m, hm, hin⟩ := Option.bind_eq_some_iff.mp hedit
        have hm := eq_ok_of_toOption hm
        have hin := eq_ok_of_toOption (Option.join_eq_some_iff.mp hin)
        rw [(applyTo_eq_textAfter hplan).1, textAfter, hedit, Option.map_some, Option.getD_some,
          String.toList_ofList]
        exact standsAt_place hm hin
      rw [← (applyTo_eq_textAfter hplan).1] at hcarried
      exact standsAt_carried h hstands hcarried

/-- What is found again is known. -/
theorem FindsAgain.isSatisfied {plans : List Plan} (hproper : plan.IsProper)
    (h : applyAll path source plans = .ok out) (hm : Module.parse out path "" = .ok m')
    (hfound : plan.FindsAgain path source plans out m') : plan.IsSatisfied path out := by
  obtain ⟨n, hplace, hstands⟩ := hfound.foundAt h
  exact isSatisfied_of_foundAt hm hproper hplace hstands

/-- A record that is not frozen, with a method that says nothing of what it returns. -/
def openRecord : String := "@dataclass\nclass A:\n    def f(self):\n        return 1\n"

/-- The record when the method says what it returns. -/
def typedRecord : String := "@dataclass\nclass A:\n    def f(self) -> int:\n        return 1\n"

/-- The record when it is frozen as well. -/
def closedRecord : String :=
  "@dataclass(frozen=True)\nclass A:\n    def f(self) -> int:\n        return 1\n"

/-- Does the module have the result type and the flag where they are written? -/
def isClosed (m : Module) : Bool :=
  ((m.findFunction? "A.f").any fun f => f.paramsSpan.stop == 48) &&
    (m.findClass? "A").any fun c => c.dataclassDecorator?.any fun d => (flag? d.expr).any fun value =>
      value.isWord && value.span.start == 18 && value.span.stop == 22

/-- A record that is not frozen, because of a number with a sign. -/
def signedFlag : String := "@dataclass(frozen=-1)\nclass A:\n    x: int\n"

/-- The sign of the number is kept, and what is written behind it is not known as `True`. -/
theorem sign_of_flag_kept :
    applyAll "a.py" signedFlag [freezeRecord "A"] =
      .ok "@dataclass(frozen=-True)\nclass A:\n    x: int\n" ∧
    applyAll "a.py" "@dataclass(frozen=-True)\nclass A:\n    x: int\n" [freezeRecord "A"] =
      .ok "@dataclass(frozen=True)\nclass A:\n    x: int\n" :=
  ⟨eq_ok_of_toOption (by decide +kernel),
    eq_ok_of_toOption (by decide +kernel)⟩

end Plan

end Plumbline
