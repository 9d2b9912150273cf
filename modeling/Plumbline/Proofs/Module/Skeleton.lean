/-
Comments do not matter to skeletons.

Heads of statements are lowered from parts that are spelled on one line or are expressions, and their
blocks from blocks, so two trees that differ by comments have one skeleton.
-/
import Plumbline.Proofs.Module.Commented

namespace Plumbline

open Syntax (Kind Field Tree Room SameText IsCommented AreCommented)

namespace Lower

variable {a b : List Char} {room : Room} {t u : Tree} {cs ds : List Tree}

/-! ### Parts -/

/-- What plays a part other than that of a block or a definition is spelled the same. -/
theorem child?_spelled (h : IsCommented a b room t u) (hk : t.kind ≠ .string) (hroom : t.kind.room ≠ .lines)
    {f : Field} (hf : f ≠ .body ∧ f ≠ .definition) :
    (t.child? f = none ∧ u.child? f = none) ∨ ∃ c d, t.child? f = some c ∧ u.child? f = some d ∧
      IsCommented a b t.kind.room c d ∧ SameText a b c.span d.span := by
  rcases h.child? hk f with hnone | ⟨c, d, hc, hd, hcommented⟩
  · exact Or.inl hnone
  · refine Or.inr ⟨c, d, hc, hd, hcommented, hcommented.spelled ?_⟩
    have hfield : c.field = some f := by simpa using List.find?_some hc
    rw [hfield]
    cases hr : t.kind.room with
    | lines => exact absurd hr hroom
    | blocks => cases f <;> first | rfl | exact absurd rfl hf.1 | exact absurd rfl hf.2
    | nothing => rfl

theorem annotated_hint? (h : IsCommented a b room t u) (hk : t.kind ≠ .string)
    (hroom : t.kind.room ≠ .lines) {f : Field} (hf : f ≠ .body ∧ f ≠ .definition) (mark : String) :
    Skeleton.annotated mark (hint? a f t) = Skeleton.annotated mark (hint? b f u) := by
  unfold hint?
  rcases child?_spelled h hk hroom hf with ⟨hnone, hnone'⟩ | ⟨c, d, hc, hd, -, hspelled⟩
  · rw [hnone, hnone']
    rfl
  · rw [hc, hd]
    exact congrArg (mark ++ ·) hspelled.text

/-! ### Imports -/

theorem importedName?_eq {t u : Tree} (h : IsCommented a b room t u) :
    importedName? a t = importedName? b u := by
  have hspelled : t.kind.room = .nothing → t.span.text a = u.span.text b := fun hk =>
    (h.spelled (Room.admits_of_nothing hk)).text
  unfold importedName?
  rw [h.kind]
  split
  · rename_i hk
    rw [hspelled (by rw [hk]; rfl)]
  · rename_i hk
    rw [hspelled (by rw [hk]; rfl)]
  · rename_i hk
    have hstring : t.kind ≠ .string := by rw [hk]; exact nofun
    have hlines : t.kind.room ≠ .lines := by rw [hk]; exact nofun
    rcases child?_spelled h hstring hlines (f := .name) ⟨nofun, nofun⟩ with
      ⟨hnone, hnone'⟩ | ⟨c, d, hc, hd, -, hname⟩
    · rw [hnone, hnone']
      rfl
    · rcases child?_spelled h hstring hlines (f := .asName) ⟨nofun, nofun⟩ with
        ⟨hnone, hnone'⟩ | ⟨c', d', hc', hd', -, halias⟩
      · simp [hc, hd, hnone, hnone', hname.text]
      · simp [hc, hd, hc', hd', hname.text, halias.text]
  · rfl

theorem importedNames_eq (h : IsCommented a b room t u) (hk : t.kind ≠ .string) :
    importedNames a t = importedNames b u := by
  have hnames := (h.children hk).filter (p := fun c => c.field == some .name)
    (fun hc => by rw [hc.field]) fun _ => rfl
  unfold importedNames Tree.childrenWith
  generalize t.children.filter _ = cs at hnames
  generalize u.children.filter _ = ds at hnames
  induction hnames with
  | nil => rfl
  | cons hc _ ih => rw [List.filterMap_cons, List.filterMap_cons, importedName?_eq hc, ih]

theorem skeleton_importing {i i' : Import} (hmodule : i.fromModule = i'.fromModule)
    (hlevel : i.level = i'.level) (hnames : i.names = i'.names) (hwildcard : i.wildcard = i'.wildcard) :
    Skeleton.stmt (.importing i) = Skeleton.stmt (.importing i') := by
  obtain ⟨_, _, _, _, _⟩ := i
  obtain ⟨_, _, _, _, _⟩ := i'
  subst hmodule hlevel hnames hwildcard
  rfl

theorem skeleton_fromImport (h : IsCommented a b room t u) (hk : t.kind = .importFrom) :
    Skeleton.stmt (.importing (fromImport a t)) = Skeleton.stmt (.importing (fromImport b u)) := by
  have hstring : t.kind ≠ .string := by rw [hk]; exact nofun
  have hlines : t.kind.room ≠ .lines := by rw [hk]; exact nofun
  have hnames := importedNames_eq h hstring
  have hwildcard : (t.children.any fun c => c.kind = .wildcardImport) =
      u.children.any fun c => c.kind = .wildcardImport :=
    ((h.children hstring).any (fun hc => by rw [hc.kind]) fun _ => rfl).symm
  rcases child?_spelled h hstring hlines (f := .moduleName) ⟨nofun, nofun⟩ with
    ⟨hnone, hnone'⟩ | ⟨c, d, hc, hd, -, hmodule⟩
  · exact skeleton_importing (by simp [fromImport, hnone, hnone']) (by simp [fromImport, hnone, hnone'])
      hnames hwildcard
  · exact skeleton_importing (by simp [fromImport, hc, hd, hmodule.text])
      (by simp [fromImport, hc, hd, hmodule.text]) hnames hwildcard

/-! ### Parameters -/

theorem paramTarget_eq (h : IsCommented a b room t u) (hs : SameText a b t.span u.span) :
    (paramTarget a t).1 = (paramTarget b u).1 ∧ (paramTarget a t).2.1 = (paramTarget b u).2.1 := by
  have hnamed : t.kind ≠ .string →
      ((t.children.find? fun c => c.kind = .identifier).getD t).span.text a =
        ((u.children.find? fun c => c.kind = .identifier).getD u).span.text b := by
    intro hk
    rcases (h.children hk).find? (p := fun c => c.kind = .identifier) (fun hc => by rw [hc.kind])
      (fun _ => rfl) with ⟨hnone, hnone'⟩ | ⟨c, d, hc, hd, hname⟩
    · rw [hnone, hnone']
      exact hs.text
    · rw [hc, hd]
      have hidentifier : c.kind = .identifier := by simpa using List.find?_some hc
      exact (hname.spelled (Room.admits_of_nothing (by rw [hidentifier]; rfl))).text
  unfold paramTarget
  rw [h.kind]
  split
  · rename_i hk
    exact ⟨hnamed (by rw [hk]; exact nofun), rfl⟩
  · rename_i hk
    exact ⟨hnamed (by rw [hk]; exact nofun), rfl⟩
  · exact ⟨hs.text, rfl⟩

/-- A default or a value. -/
theorem child?_expr (h : IsCommented a b room t u) (hk : t.kind ≠ .string) (f : Field) :
    ((t.child? f).map fun c => Skeleton.expr (expr a c)) =
      (u.child? f).map fun c => Skeleton.expr (expr b c) := by
  rcases h.child? hk f with ⟨hnone, hnone'⟩ | ⟨c, d, hc, hd, hcommented⟩
  · rw [hnone, hnone']
    rfl
  · rw [hc, hd]
    exact congrArg some (sameExpr_expr hcommented)

theorem skeleton_parameter {p p' : Param} (hkind : p.kind = p'.kind) (hname : p.name = p'.name)
    (hhint : Skeleton.annotated ":" p.hint = Skeleton.annotated ":" p'.hint)
    (hdefault : p.default.map Skeleton.expr = p'.default.map Skeleton.expr) :
    Skeleton.parameter p = Skeleton.parameter p' := by
  have hvalue : ∀ p : Param, Skeleton.parameter p = " [" ++ Skeleton.param p.kind ++ " " ++ p.name ++
      Skeleton.annotated ":" p.hint ++ ((p.default.map Skeleton.expr).elim "" ("=" ++ ·)) ++ "]" := by
    rintro ⟨name, kind, hint, default, span, nameSpan⟩
    cases default <;> rfl
  rw [hvalue, hvalue, hkind, hname, hhint, hdefault]

theorem skeleton_param? (h : IsCommented a b room t u) :
    (param? a t).map Skeleton.parameter = (param? b u).map Skeleton.parameter := by
  have hspelled : t.kind.room = .nothing → SameText a b t.span u.span := fun hk =>
    h.spelled (Room.admits_of_nothing hk)
  have hdefault : t.kind ≠ .string → t.kind.room ≠ .lines →
      Option.map Skeleton.parameter ((t.child? .name).map fun name =>
        { name := name.span.text a, kind := .positional, hint := hint? a .type t
          default := (t.child? .value).map (expr a), span := t.span, nameSpan := name.span }) =
      Option.map Skeleton.parameter ((u.child? .name).map fun name =>
        { name := name.span.text b, kind := .positional, hint := hint? b .type u
          default := (u.child? .value).map (expr b), span := u.span, nameSpan := name.span }) := by
    intro hstring hlines
    rcases child?_spelled h hstring hlines (f := .name) ⟨nofun, nofun⟩ with
      ⟨hnone, hnone'⟩ | ⟨c, d, hc, hd, -, hname⟩
    · rw [hnone, hnone']
      rfl
    · rw [hc, hd]
      refine congrArg some (skeleton_parameter rfl hname.text
        (annotated_hint? h hstring hlines (f := .type) ⟨nofun, nofun⟩ ":") ?_)
      rw [Option.map_map, Option.map_map]
      exact child?_expr h hstring .value
  have hsplat : SameText a b t.span u.span →
      Skeleton.parameter { name := (paramTarget a t).1, kind := (paramTarget a t).2.1, span := t.span
                           nameSpan := (paramTarget a t).2.2 } =
        Skeleton.parameter { name := (paramTarget b u).1, kind := (paramTarget b u).2.1, span := u.span
                             nameSpan := (paramTarget b u).2.2 } := fun hs =>
    skeleton_parameter (paramTarget_eq h hs).2 (paramTarget_eq h hs).1 rfl rfl
  unfold param?
  rw [h.kind]
  split
  · rename_i hk
    exact congrArg some (skeleton_parameter rfl (hspelled (by rw [hk]; rfl)).text rfl rfl)
  · rename_i hk
    have hhint := annotated_hint? h (by rw [hk]; exact nofun) (by rw [hk]; exact nofun) (f := .type)
      ⟨nofun, nofun⟩ ":"
    cases h with
    | node hne _ _ _ => exact absurd hk hne
    | first hs hc _ =>
        obtain ⟨hname, hkind⟩ := paramTarget_eq hc (hc.spelled rfl)
        exact congrArg some (skeleton_parameter hkind hname hhint rfl)
    | text => exact absurd hk nofun
  · rename_i hk
    exact hdefault (by rw [hk]; exact nofun) (by rw [hk]; exact nofun)
  · rename_i hk
    exact hdefault (by rw [hk]; exact nofun) (by rw [hk]; exact nofun)
  · rename_i hk
    exact congrArg some (hsplat (hspelled (by rw [hk]; rfl)))
  · rename_i hk
    exact congrArg some (hsplat (hspelled (by rw [hk]; rfl)))
  · rfl

theorem skeleton_params (h : IsCommented a b room t u) (hk : t.kind ≠ .string) :
    (t.children.filterMap (param? a)).map Skeleton.parameter =
      (u.children.filterMap (param? b)).map Skeleton.parameter := by
  rw [List.map_filterMap, List.map_filterMap]
  exact ((h.children hk).filterMap (fun hc => (skeleton_param? hc).symm) fun _ => rfl).symm

/-! ### Heads -/

theorem sameExpr_map {es es' : List Expr} (h : List.Forall₂ SameExpr es es') :
    es.map Skeleton.expr = es'.map Skeleton.expr := by
  induction h with
  | nil => rfl
  | cons he _ ih => rw [List.map_cons, List.map_cons, ih, show Skeleton.expr _ = Skeleton.expr _ from he]

/-- Expressions each behind a blank. -/
theorem skeleton_join {es es' : List Expr} (h : es.map Skeleton.expr = es'.map Skeleton.expr) :
    String.join (es.map fun e => " " ++ Skeleton.expr e) =
      String.join (es'.map fun e => " " ++ Skeleton.expr e) := by
  have hmap : ∀ es : List Expr, (es.map fun e => " " ++ Skeleton.expr e) =
      (es.map Skeleton.expr).map (" " ++ ·) := fun es => by rw [List.map_map]; rfl
  rw [hmap, hmap, h]

theorem content?_expr (h : IsCommented a b room t u) (hk : t.kind ≠ .string) :
    (t.content?.map fun c => Skeleton.expr (expr a c)) = u.content?.map fun c => Skeleton.expr (expr b c) := by
  rcases (h.children hk).find? (p := fun c => c.kind != .comment) (fun hc => by rw [hc.kind])
    (fun _ => rfl) with ⟨hnone, hnone'⟩ | ⟨c, d, hc, hd, hcommented⟩
  · rw [Tree.content?, Tree.content?, hnone, hnone']
    rfl
  · rw [Tree.content?, Tree.content?, hc, hd]
    exact congrArg some (sameExpr_expr hcommented)

theorem skeleton_decorators (h : IsCommented a b room t u) (hk : t.kind ≠ .string) :
    Skeleton.decorators (decorators a t) = Skeleton.decorators (decorators b u) := by
  have hone : ∀ source (ts : List Tree), ((ts.filter (·.kind = .decorator)).filterMap fun d =>
      d.content?.map fun e => ({ expr := expr source e, span := d.span } : Decorator)).map
        (fun d => " @" ++ Skeleton.expr d.expr) = ts.filterMap fun d => if d.kind = .decorator then
          (d.content?.map fun e => Skeleton.expr (expr source e)).map (" @" ++ ·) else none := by
    intro source ts
    rw [List.filterMap_filter, List.map_filterMap]
    refine List.filterMap_congr fun d _ => ?_
    by_cases hd : d.kind = .decorator
    · simp [hd, Function.comp_def]
    · simp [hd]
  unfold Skeleton.decorators decorators
  rw [hone, hone]
  refine congrArg String.join ((h.children hk).filterMap (fun hc => ?_) fun _ => rfl).symm
  rw [hc.kind]
  split
  · rename_i hdecorator
    rw [content?_expr hc (by rw [hdecorator]; exact nofun)]
  · rfl

/-- The items of a list, apart from some of them that no comment is among. -/
theorem skeleton_filtered {p : Tree → Bool} (hp : ∀ {t u}, IsCommented a b room t u → p u = p t)
    (hcomment : ∀ s, p (.leaf .comment s) = false) (h : AreCommented a b room cs ds) :
    ((cs.filter p).map (expr a)).map Skeleton.expr = ((ds.filter p).map (expr b)).map Skeleton.expr := by
  have hfiltered := h.filter hp hcomment
  refine sameExpr_map ?_
  rw [List.forall₂_map_left_iff, List.forall₂_map_right_iff]
  exact hfiltered.imp fun _ _ hc => sameExpr_expr hc

theorem skeleton_bases (h : IsCommented a b room t u) (hk : t.kind = .classDefinition) :
    (bases a t).map Skeleton.expr = (bases b u).map Skeleton.expr := by
  have hstring : t.kind ≠ .string := by rw [hk]; exact nofun
  unfold bases
  rcases h.child? hstring .superclasses with ⟨hnone, hnone'⟩ | ⟨c, d, hc, hd, hargs⟩
  · rw [hnone, hnone']
  · have hfield : c.field = some .superclasses := by simpa using List.find?_some hc
    have hgiven := h.given hstring (List.mem_of_find?_eq_some hc) _ hfield
    rw [hk] at hgiven
    rw [hc, hd]
    exact skeleton_filtered (fun h => by rw [h.kind]) (fun _ => rfl)
      (hargs.children (by simpa [Kind.gives] using hgiven))

theorem skeleton_headExprs (h : AreCommented a b room cs ds) :
    (headExprs a cs).map Skeleton.expr = (headExprs b ds).map Skeleton.expr := by
  unfold headExprs
  rw [List.map_filterMap, List.map_filterMap]
  refine List.filterMap_congr fun f _ => ?_
  rcases h.find? (p := fun c => c.field == some f) (fun hc => by rw [hc.field]) (fun _ => rfl) with
    ⟨hnone, hnone'⟩ | ⟨c, d, hc, hd, hcommented⟩
  · rw [hnone, hnone']
    rfl
  · rw [hc, hd]
    exact congrArg some (sameExpr_expr hcommented)

mutual

theorem skeleton_clauseHeadsOf {room : Room} {t u : Tree} (h : IsCommented a b room t u) :
    (clauseHeadsOf a t).map Skeleton.expr = (clauseHeadsOf b u).map Skeleton.expr := by
  match t, u, h with
  | .node k f s cs, .node k' f' s' ds, h =>
      obtain rfl : k' = k := h.kind
      unfold clauseHeadsOf
      by_cases hitem : k' = .withItem
      · subst hitem
        have hvalue := child?_expr h nofun .value
        rw [if_pos rfl, if_pos rfl, ← Option.toList_map, ← Option.toList_map, Option.map_map,
          Option.map_map]
        exact congrArg Option.toList hvalue
      · rw [if_neg hitem, if_neg hitem]
        split
        · rename_i hclause
          have hparts : AreCommented a b k'.room cs ds := h.children (by rintro rfl; exact absurd hclause nofun)
          rw [List.map_append, List.map_append, skeleton_headExprs hparts, skeleton_clauseHeads hparts]
        · rfl
termination_by sizeOf u

theorem skeleton_clauseHeads {room : Room} {cs ds : List Tree} (h : AreCommented a b room cs ds) :
    (clauseHeads a cs).map Skeleton.expr = (clauseHeads b ds).map Skeleton.expr := by
  match cs, ds, h with
  | _, [], h =>
      cases h
      rfl
  | c :: cs, d :: ds, .cons hc h =>
      rw [clauseHeads, clauseHeads, List.map_append, List.map_append, skeleton_clauseHeadsOf hc,
        skeleton_clauseHeads h]
  | cs, _ :: ds, .comment h =>
      have hrest := skeleton_clauseHeads h
      exact hrest
termination_by sizeOf ds

end

theorem skeleton_headsIn (h : AreCommented a b room cs ds) :
    (headsIn a cs).map Skeleton.expr = (headsIn b ds).map Skeleton.expr := by
  rw [headsIn, headsIn, List.map_append, List.map_append, skeleton_headExprs h, skeleton_clauseHeads h]

/-! ### Statements without blocks -/

theorem skeleton_assign {x y : Assign} (htargets : x.targets = y.targets)
    (hhint : Skeleton.annotated ":" x.hint = Skeleton.annotated ":" y.hint)
    (hvalue : x.value.map Skeleton.expr = y.value.map Skeleton.expr) :
    Skeleton.stmt (.assign x) = Skeleton.stmt (.assign y) := by
  have hshape : ∀ x : Assign, Skeleton.stmt (.assign x) =
      "(assign " ++ Quoted.list (x.targets.map Quoted.encode) ++ Skeleton.annotated ":" x.hint ++
        ((x.value.map Skeleton.expr).elim "" (" " ++ ·)) ++ ")" := by
    rintro ⟨targets, hint, value, span⟩
    cases value <;> rfl
  rw [hshape, hshape, htargets, hhint, hvalue]

/-- The names among some parts. -/
theorem identifiers_eq (h : AreCommented a b room cs ds) :
    (cs.filter (·.kind = .identifier)).map (·.span.text a) =
      (ds.filter (·.kind = .identifier)).map (·.span.text b) := by
  have hone : ∀ source (ts : List Tree), (ts.filter (·.kind = .identifier)).map (·.span.text source) =
      ts.filterMap fun t => if t.kind = .identifier then some (t.span.text source) else none := by
    intro source ts
    rw [← List.filterMap_eq_map, List.filterMap_filter]
    exact List.filterMap_congr fun t _ => by simp
  rw [hone, hone]
  refine (h.filterMap (fun hc => ?_) fun _ => rfl).symm
  rw [hc.kind]
  split
  · rename_i hk
    rw [(hc.spelled (Room.admits_of_nothing (by rw [hk]; rfl))).text]
  · rfl

theorem skeleton_assignment (h : IsCommented a b room t u) (hk : t.kind = .assignment)
    (s s' : Span) : Skeleton.stmt (.assign (assignment a t s)) = Skeleton.stmt (.assign (assignment b u s')) := by
  have hstring : t.kind ≠ .string := by rw [hk]; exact nofun
  have hlines : t.kind.room ≠ .lines := by rw [hk]; exact nofun
  refine skeleton_assign ?_ (annotated_hint? h hstring hlines (f := .type) ⟨nofun, nofun⟩ ":") ?_
  · unfold assignment
    dsimp only
    rcases child?_spelled h hstring hlines (f := .left) ⟨nofun, nofun⟩ with
      ⟨hnone, hnone'⟩ | ⟨c, d, hc, hd, hleft, hspelled⟩
    · rw [hnone, hnone']
    · have hfield : c.field = some .left := by simpa using List.find?_some hc
      have hgiven := h.given hstring (List.mem_of_find?_eq_some hc) _ hfield
      rw [hk] at hgiven
      rw [hc, hd]
      dsimp only
      rw [hleft.kind, hspelled.text]
      split
      · rfl
      · exact identifiers_eq (hleft.children (by simpa [Kind.gives] using hgiven))
  · unfold assignment
    rw [Option.map_map, Option.map_map]
    exact child?_expr h hstring .right

theorem skeleton_returning {x y : Return} (h : x.value.map Skeleton.expr = y.value.map Skeleton.expr) :
    Skeleton.stmt (.returning x) = Skeleton.stmt (.returning y) := by
  have hshape : ∀ x : Return, Skeleton.stmt (.returning x) =
      "(return" ++ ((x.value.map Skeleton.expr).elim "" (" " ++ ·)) ++ ")" := by
    rintro ⟨value, span⟩
    cases value <;> rfl
  rw [hshape, hshape, h]

theorem skeleton_exprStmt {e e' : Expr} (h : SameExpr e e') :
    Skeleton.stmt (.expr e) = Skeleton.stmt (.expr e') :=
  congrArg (fun text => "(expr " ++ text ++ ")") h

theorem skeleton_other {s s' : Span} (h : s.stop - s.start = s'.stop - s'.start) :
    Skeleton.stmt (.other s) = Skeleton.stmt (.other s') :=
  congrArg (fun n : Nat => "(other " ++ toString n ++ ")") h

/-- One statement as a block. -/
theorem skeleton_one {x y : Stmt} (h : Skeleton.stmt x = Skeleton.stmt y) :
    Skeleton.block (some x).toList = Skeleton.block (some y).toList :=
  congrArg (· ++ "") h

theorem skeleton_simple? (h : IsCommented a b room t u) (hs : SameText a b t.span u.span) :
    Skeleton.block (simple? a t).toList = Skeleton.block (simple? b u).toList := by
  unfold simple?
  rw [h.kind]
  split
  case h_1 hk =>
    exact skeleton_one (skeleton_importing rfl rfl (importedNames_eq h (by rw [hk]; exact nofun)) rfl)
  case h_2 hk => exact skeleton_one (skeleton_fromImport h hk)
  case h_3 hk =>
    exact skeleton_one (skeleton_importing rfl rfl (importedNames_eq h (by rw [hk]; exact nofun)) rfl)
  case h_4 hk =>
    refine skeleton_one (skeleton_returning ?_)
    rw [Option.map_map, Option.map_map]
    exact content?_expr h (by rw [hk]; exact nofun)
  case h_5 hk =>
    have hstring : t.kind ≠ .string := by rw [hk]; exact nofun
    rcases (h.children hstring).find? (p := fun c => c.kind != .comment) (fun hc => by rw [hc.kind])
      (fun _ => rfl) with ⟨hnone, hnone'⟩ | ⟨c, d, hc, hd, hinner⟩
    · rw [Tree.content?, Tree.content?, hnone, hnone']
      rfl
    · rw [Tree.content?, Tree.content?, hc, hd]
      refine skeleton_one ?_
      dsimp only
      rw [hinner.kind]
      split
      case h_1 hassign => exact skeleton_assignment hinner hassign _ _
      case h_2 => exact skeleton_other hs.length
      case h_3 => exact skeleton_exprStmt (sameExpr_expr hinner)
  case h_6 => rfl
  case h_7 => rfl
  case h_8 => rfl
  case h_9 => exact skeleton_one (skeleton_other hs.length)

/-! ### Definitions -/

/-- Heads of functions with one skeleton. -/
structure SameFunction (x y : FunctionHead) : Prop where
  name : x.name = y.name
  qualname : x.qualname = y.qualname
  isAsync : x.isAsync = y.isAsync
  decorators : Skeleton.decorators x.decorators = Skeleton.decorators y.decorators
  params : x.params.map Skeleton.parameter = y.params.map Skeleton.parameter
  returns : Skeleton.annotated " -> " x.returns = Skeleton.annotated " -> " y.returns

/-- Heads of classes with one skeleton. -/
structure SameClass (x y : ClassHead) : Prop where
  name : x.name = y.name
  qualname : x.qualname = y.qualname
  decorators : Skeleton.decorators x.decorators = Skeleton.decorators y.decorators
  bases : x.bases.map Skeleton.expr = y.bases.map Skeleton.expr

theorem skeleton_functionDef {x y : FunctionHead} {body body' : List Stmt} (h : SameFunction x y)
    (hbody : Skeleton.block body = Skeleton.block body') :
    Skeleton.stmt (.functionDef x body) = Skeleton.stmt (.functionDef y body') := by
  show "(def " ++ x.qualname ++ " async=" ++ Skeleton.bool x.isAsync ++
      Skeleton.decorators x.decorators ++ String.join (x.params.map Skeleton.parameter) ++
      Skeleton.annotated " -> " x.returns ++ "\x7b" ++ Skeleton.block body ++ "\x7d)" =
    "(def " ++ y.qualname ++ " async=" ++ Skeleton.bool y.isAsync ++
      Skeleton.decorators y.decorators ++ String.join (y.params.map Skeleton.parameter) ++
      Skeleton.annotated " -> " y.returns ++ "\x7b" ++ Skeleton.block body' ++ "\x7d)"
  rw [h.qualname, h.isAsync, h.decorators, h.params, h.returns, hbody]

theorem skeleton_classDef {x y : ClassHead} {body body' : List Stmt} (h : SameClass x y)
    (hbody : Skeleton.block body = Skeleton.block body') :
    Skeleton.stmt (.classDef x body) = Skeleton.stmt (.classDef y body') := by
  show "(class " ++ x.qualname ++ Skeleton.decorators x.decorators ++
      String.join (x.bases.map fun e => " " ++ Skeleton.expr e) ++ "\x7b" ++ Skeleton.block body ++
      "\x7d)" =
    "(class " ++ y.qualname ++ Skeleton.decorators y.decorators ++
      String.join (y.bases.map fun e => " " ++ Skeleton.expr e) ++ "\x7b" ++ Skeleton.block body' ++
      "\x7d)"
  rw [h.qualname, h.decorators, skeleton_join h.bases, hbody]

theorem skeleton_compound {x y : CompoundHead} {bs bs' : List (List Stmt)} (hkind : x.kind = y.kind)
    (hheads : x.heads.map Skeleton.expr = y.heads.map Skeleton.expr)
    (hblocks : Skeleton.blockList bs = Skeleton.blockList bs') :
    Skeleton.stmt (.compound x bs) = Skeleton.stmt (.compound y bs') := by
  show "(" ++ Skeleton.compound x.kind ++ String.join (x.heads.map fun e => " " ++ Skeleton.expr e) ++
      Skeleton.blockList bs ++ ")" =
    "(" ++ Skeleton.compound y.kind ++ String.join (y.heads.map fun e => " " ++ Skeleton.expr e) ++
      Skeleton.blockList bs' ++ ")"
  rw [hkind, skeleton_join hheads, hblocks]

theorem functionHead?_rel (h : IsCommented a b room t u) (hk : t.kind = .functionDefinition)
    (scope : List String) (inClass : Bool) {ds ds' : List Decorator}
    (hds : Skeleton.decorators ds = Skeleton.decorators ds') (header header' : Span) :
    Option.Rel SameFunction (functionHead? a scope inClass ds header t)
      (functionHead? b scope inClass ds' header' u) := by
  have hstring : t.kind ≠ .string := by rw [hk]; exact nofun
  have hlines : t.kind.room ≠ .lines := by rw [hk]; exact nofun
  have hreturns := annotated_hint? h hstring hlines (f := .returnType) ⟨nofun, nofun⟩ " -> "
  have hasync : (t.child? .async).isSome = (u.child? .async).isSome := by
    rcases h.child? hstring .async with ⟨hnone, hnone'⟩ | ⟨c, d, hc, hd, -⟩
    · rw [hnone, hnone']
    · rw [hc, hd]
      rfl
  unfold functionHead?
  rcases child?_spelled h hstring hlines (f := .name) ⟨nofun, nofun⟩ with
    ⟨hnone, hnone'⟩ | ⟨c, d, hc, hd, -, hname⟩
  · rw [hnone, hnone']
    exact .none
  · rcases h.child? hstring .parameters with ⟨hnone, hnone'⟩ | ⟨p, q, hp, hq, hparams⟩
    · rw [hc, hd, hnone, hnone']
      exact .none
    · have hfield : p.field = some .parameters := by simpa using List.find?_some hp
      have hgiven := h.given hstring (List.mem_of_find?_eq_some hp) _ hfield
      rw [hk] at hgiven
      have hkind : p.kind = .parameters := by simpa [Kind.gives] using hgiven
      rw [hc, hd, hp, hq]
      refine .some ⟨hname.text, ?_, hasync, hds, ?_, hreturns⟩
      · exact congrArg (fun name => ".".intercalate (scope ++ [name])) hname.text
      · exact skeleton_params hparams (by rw [hkind]; exact nofun)

theorem classHead?_rel (h : IsCommented a b room t u) (hk : t.kind = .classDefinition)
    (scope : List String) {ds ds' : List Decorator}
    (hds : Skeleton.decorators ds = Skeleton.decorators ds') (header header' : Span) :
    Option.Rel SameClass (classHead? a scope ds header t) (classHead? b scope ds' header' u) := by
  have hstring : t.kind ≠ .string := by rw [hk]; exact nofun
  have hlines : t.kind.room ≠ .lines := by rw [hk]; exact nofun
  unfold classHead?
  rcases child?_spelled h hstring hlines (f := .name) ⟨nofun, nofun⟩ with
    ⟨hnone, hnone'⟩ | ⟨c, d, hc, hd, -, hname⟩
  · rw [hnone, hnone']
    exact .none
  · rw [hc, hd]
    refine .some ⟨hname.text, ?_, hds, skeleton_bases h hk⟩
    exact congrArg (fun name => ".".intercalate (scope ++ [name])) hname.text

/-! ### Statements -/

theorem skeleton_block_append (xs ys : List Stmt) :
    Skeleton.block (xs ++ ys) = Skeleton.block xs ++ Skeleton.block ys := by
  induction xs with
  | nil => exact (String.empty_append).symm
  | cons x xs ih =>
      show Skeleton.stmt x ++ Skeleton.block (xs ++ ys) = Skeleton.stmt x ++ Skeleton.block xs ++ Skeleton.block ys
      rw [ih, String.append_assoc]

theorem skeleton_blockList_append (xs ys : List (List Stmt)) :
    Skeleton.blockList (xs ++ ys) = Skeleton.blockList xs ++ Skeleton.blockList ys := by
  induction xs with
  | nil => exact (String.empty_append).symm
  | cons x xs ih =>
      show "\x7b" ++ Skeleton.block x ++ "\x7d" ++ Skeleton.blockList (xs ++ ys) =
        "\x7b" ++ Skeleton.block x ++ "\x7d" ++ Skeleton.blockList xs ++ Skeleton.blockList ys
      rw [ih]
      simp only [String.append_assoc]

/-- A function of which the heads and the bodies have one skeleton. -/
theorem skeleton_function {o o' : Option FunctionHead} (h : Option.Rel SameFunction o o')
    {body body' : FunctionHead → List Stmt}
    (hbody : ∀ x y, SameFunction x y → Skeleton.block (body x) = Skeleton.block (body' y)) :
    Skeleton.block (o.map fun x => Stmt.functionDef x (body x)).toList =
      Skeleton.block (o'.map fun y => Stmt.functionDef y (body' y)).toList := by
  cases h with
  | none => rfl
  | some h => exact skeleton_one (skeleton_functionDef h (hbody _ _ h))

theorem skeleton_class {o o' : Option ClassHead} (h : Option.Rel SameClass o o')
    {body body' : ClassHead → List Stmt}
    (hbody : ∀ x y, SameClass x y → Skeleton.block (body x) = Skeleton.block (body' y)) :
    Skeleton.block (o.map fun x => Stmt.classDef x (body x)).toList =
      Skeleton.block (o'.map fun y => Stmt.classDef y (body' y)).toList := by
  cases h with
  | none => rfl
  | some h => exact skeleton_one (skeleton_classDef h (hbody _ _ h))

/-- The body of a definition is a block. -/
theorem body_kind {k : Kind} (hk : k = .functionDefinition ∨ k = .classDefinition)
    (h : ∀ c ∈ cs, c.IsGiven k) : ∀ c ∈ cs, c.field = some .body → c.kind = .block := by
  intro c hc hfield
  have hgiven := h c hc _ hfield
  rcases hk with rfl | rfl <;> simpa [Kind.gives] using hgiven

/-- What stands between lines and has no blocks is spelled on them. -/
theorem lines_admits {k : Kind} (f : Option Field) (hfunction : k ≠ .functionDefinition)
    (hclass : k ≠ .classDefinition) (hdecorated : k ≠ .decoratedDefinition)
    (hcompound : compoundKind? k = none) : Room.lines.admits f k = false := by
  by_cases hroom : k.room = .blocks
  · have hclause : k.goesOn = true := by
      unfold Kind.room at hroom
      split at hroom <;> first | rfl | contradiction
    rw [Room.admits, hclause, Bool.not_true, Bool.and_false]
  · rw [Room.admits, beq_eq_false_iff_ne.mpr hroom, Bool.false_and]

mutual

/-- **Comments do not matter to statements.** -/
theorem skeleton_stmt? {t u : Tree} (h : IsCommented a b .lines t u) (scope : List String)
    (inClass : Bool) : Skeleton.block (stmt? a scope inClass t).toList =
      Skeleton.block (stmt? b scope inClass u).toList := by
  match t, u, h with
  | .node k f s cs, .node k' f' s' ds, h =>
      obtain rfl : k' = k := h.kind
      unfold stmt?
      dsimp only
      split
      · have hparts : AreCommented a b .blocks cs ds := h.children nofun
        refine skeleton_function (functionHead?_rel h rfl scope inClass rfl s s') fun x y hxy => ?_
        rw [hxy.name]
        exact skeleton_body hparts (body_kind (Or.inl rfl) fun c hc => h.given nofun hc) _ _
      · have hparts : AreCommented a b .blocks cs ds := h.children nofun
        refine skeleton_class (classHead?_rel h rfl scope rfl s s') fun x y hxy => ?_
        rw [hxy.name]
        exact skeleton_body hparts (body_kind (Or.inr rfl) fun c hc => h.given nofun hc) _ _
      · have hparts : AreCommented a b .blocks cs ds := h.children nofun
        exact skeleton_definition? hparts (fun c hc => h.given nofun hc)
          (skeleton_decorators h nofun) scope inClass s s'
      · split
        · rename_i kind hkind
          have hparts : AreCommented a b k'.room cs ds := h.children (by rintro rfl; exact absurd hkind nofun)
          exact skeleton_one (skeleton_compound rfl (skeleton_headsIn hparts)
            (skeleton_blocks hparts scope inClass))
        · rename_i _ hfunction hclass hdecorated _ hkind
          exact skeleton_simple? h (h.spelled (lines_admits f hfunction hclass hdecorated hkind))
termination_by sizeOf u

theorem skeleton_stmts {cs ds : List Tree} (h : AreCommented a b .lines cs ds) (scope : List String)
    (inClass : Bool) :
    Skeleton.block (stmts a scope inClass cs) = Skeleton.block (stmts b scope inClass ds) := by
  match cs, ds, h with
  | _, [], h =>
      cases h
      rfl
  | c :: cs, d :: ds, .cons hc h =>
      rw [stmts, stmts, skeleton_block_append, skeleton_block_append,
        skeleton_stmt? hc scope inClass, skeleton_stmts h scope inClass]
  | cs, .node _ _ s _ :: ds, .comment h =>
      have hrest := skeleton_stmts h scope inClass
      rw [hrest]
      exact (String.empty_append).symm
termination_by sizeOf ds

/-- The body of a definition. -/
theorem skeleton_body {room : Room} {cs ds : List Tree} (h : AreCommented a b room cs ds)
    (hbody : ∀ c ∈ cs, c.field = some .body → c.kind = .block) (scope : List String) (inClass : Bool) :
    Skeleton.block (body a scope inClass cs) = Skeleton.block (body b scope inClass ds) := by
  match cs, ds, h with
  | _, [], h =>
      cases h
      rfl
  | .node k f s cs' :: cs, .node k' f' s' ds' :: ds, .cons hc h =>
      obtain rfl : f' = f := hc.field
      unfold body
      split
      · rename_i hf
        obtain rfl : k = .block := hbody _ List.mem_cons_self hf
        have hlines : AreCommented a b .lines cs' ds' := hc.children nofun
        exact skeleton_stmts hlines scope inClass
      · exact skeleton_body h (fun c hc => hbody c (List.mem_cons_of_mem _ hc)) scope inClass
  | cs, .node _ _ s _ :: ds, .comment h =>
      have hrest := skeleton_body h hbody scope inClass
      exact hrest
termination_by sizeOf ds

theorem skeleton_definition? {cs ds : List Tree} (h : AreCommented a b .blocks cs ds)
    (hgiven : ∀ c ∈ cs, c.IsGiven .decoratedDefinition) {es es' : List Decorator}
    (hes : Skeleton.decorators es = Skeleton.decorators es') (scope : List String) (inClass : Bool)
    (header header' : Span) :
    Skeleton.block (definition? a scope inClass es header cs).toList =
      Skeleton.block (definition? b scope inClass es' header' ds).toList := by
  match cs, ds, h with
  | _, [], h =>
      cases h
      rfl
  | .node k f s cs' :: cs, .node k' f' s' ds' :: ds, .cons hc h =>
      obtain rfl : f' = f := hc.field
      obtain rfl : k' = k := hc.kind
      unfold definition?
      split
      · rename_i hf
        have hkind := hgiven _ List.mem_cons_self _ hf
        dsimp only
        split
        · have hparts : AreCommented a b .blocks cs' ds' := hc.children nofun
          refine skeleton_function (functionHead?_rel hc rfl scope inClass hes header header')
            fun x y hxy => ?_
          rw [hxy.name]
          exact skeleton_body hparts (body_kind (Or.inl rfl) fun c hcs => hc.given nofun hcs) _ _
        · have hparts : AreCommented a b .blocks cs' ds' := hc.children nofun
          refine skeleton_class (classHead?_rel hc rfl scope hes header header') fun x y hxy => ?_
          rw [hxy.name]
          exact skeleton_body hparts (body_kind (Or.inr rfl) fun c hcs => hc.given nofun hcs) _ _
        · rename_i hfunction hclass
          rcases Bool.or_eq_true_iff.mp hkind with hkind | hkind
          · exact absurd (eq_of_beq hkind) hfunction
          · exact absurd (eq_of_beq hkind) hclass
      · exact skeleton_definition? h (fun c hc => hgiven c (List.mem_cons_of_mem _ hc)) hes scope
          inClass header header'
  | cs, .node _ _ s _ :: ds, .comment h =>
      have hrest := skeleton_definition? h hgiven hes scope inClass header header'
      exact hrest
termination_by sizeOf ds

theorem skeleton_blocks {room : Room} {cs ds : List Tree} (h : AreCommented a b room cs ds)
    (scope : List String) (inClass : Bool) :
    Skeleton.blockList (blocks a scope inClass cs) = Skeleton.blockList (blocks b scope inClass ds) := by
  match cs, ds, h with
  | _, [], h =>
      cases h
      rfl
  | .node k f s cs' :: cs, .node k' f' s' ds' :: ds, .cons hc h =>
      obtain rfl : k' = k := hc.kind
      have hrest := skeleton_blocks h scope inClass
      unfold blocks
      rw [skeleton_blockList_append, skeleton_blockList_append, hrest]
      refine congrArg (· ++ _) ?_
      split
      · rename_i hk
        subst hk
        have hlines : AreCommented a b .lines cs' ds' := hc.children nofun
        exact congrArg (fun text => "\x7b" ++ text ++ "\x7d" ++ "") (skeleton_stmts hlines scope inClass)
      · split
        · rename_i hclause
          have hparts : AreCommented a b k'.room cs' ds' :=
            hc.children (by rintro rfl; exact absurd hclause nofun)
          exact skeleton_blocks hparts scope inClass
        · rfl
  | cs, .node _ _ s _ :: ds, .comment h =>
      have hrest := skeleton_blocks h scope inClass
      exact hrest
termination_by sizeOf ds

end

end Lower

end Plumbline
