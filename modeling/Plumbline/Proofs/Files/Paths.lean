/-
Where paths lead.

A path is a text, and a place is a list of names.  Everything that is said about files is said about
places, so what is needed of the functions that build paths is where their results lead: a name
joined to a path leads one name further down, and the draft of a file lies beside it.

`components` drops what counts for nothing and `ofComponents` writes the rest out again.  That the
two agree is needed because `withFileName` goes through both.
-/
import Plumbline.Files.Disk
import Plumbline.Proofs.Text.Slice

namespace Plumbline

namespace Path

/-- A text that can be the name of a file or directory. -/
structure IsName (s : String) : Prop where
  noSlash : '/' ∉ s.toList
  notVoid : isVoid s = false
  notUp : s ≠ ".."

theorem IsName.ne_slash {s : String} (h : IsName s) : s ≠ "/" := by
  rintro rfl
  exact h.noSlash (by decide)

theorem IsName.ne_dot {s : String} (h : IsName s) : s ≠ "." := by
  rintro rfl
  exact absurd h.notVoid (by decide)

/-! ### Segments -/

theorem segments_append_slash (a b : String) :
    segments (a ++ "/" ++ b) = segments a ++ segments b := by
  have hlist : (a ++ "/" ++ b).toList = a.toList ++ '/' :: b.toList := by simp
  unfold segments
  rw [hlist, Text.split_append_cons, List.map_append]

theorem segments_of_noSlash {s : String} (h : '/' ∉ s.toList) : segments s = [s] := by
  unfold segments
  rw [Text.split_of_not_mem h]
  simp

theorem noSlash_of_mem_segments {p s : String} (h : s ∈ segments p) : '/' ∉ s.toList := by
  obtain ⟨part, hpart, rfl⟩ := List.mem_map.mp h
  rw [String.toList_ofList]
  exact Text.not_mem_of_mem_split hpart

theorem segments_ne_nil (p : Path) : segments p ≠ [] := by
  unfold segments
  simpa using Text.split_ne_nil '/' p.toList

/-! ### Components of joined paths -/

theorem components_eq (p : Path) :
    p.components =
      (if p.isAbsolute then ["/"] else if p.segments.head? == some "." then ["."] else []) ++
        p.segments.filter (!isVoid ·) := by
  unfold components
  by_cases habs : p.isAbsolute = true
  · simp [habs]
  · by_cases hdot : (p.segments.head? == some ".") = true
    · simp [habs, hdot]
    · simp [habs, hdot]

theorem isAbsolute_append {p : Path} (h : p ≠ "") (q : String) :
    isAbsolute (p ++ q) = isAbsolute p := by
  have hne : p.toList ≠ [] := by simpa using h
  unfold isAbsolute
  rw [String.toList_append]
  cases hp : p.toList with
  | nil => exact absurd hp hne
  | cons c cs => rfl

theorem isAbsolute_of_noSlash {s : String} (h : '/' ∉ s.toList) : isAbsolute s = false := by
  unfold isAbsolute
  cases hs : s.toList with
  | nil => rfl
  | cons c cs =>
      have hne : c ≠ '/' := fun heq => h (by simp [hs, heq])
      simpa using hne

/-- A joined name is a segment of its own; a slash at the end of the path it is joined to has no
segment after it any more. -/
theorem segments_join {name : String} (hname : IsName name) (p : Path) :
    (p.join name).isAbsolute = p.isAbsolute ∧
      ∃ front, (p.join name).segments = front ++ [name] ∧
        (p.segments = front ∨ p.segments = front ++ [""]) := by
  have hrel : isAbsolute name = false := isAbsolute_of_noSlash hname.noSlash
  have hself : segments name = [name] := segments_of_noSlash hname.noSlash
  unfold join
  rw [if_neg (by simp [hrel])]
  by_cases hempty : p.isEmpty = true
  · have hp : p = "" := by simpa using hempty
    subst hp
    exact ⟨hrel, [], hself, Or.inr (by decide)⟩
  · have hne : p ≠ "" := by simpa using hempty
    rw [if_neg hempty]
    by_cases hslash : (p.toList.getLast? == some '/') = true
    · rw [if_pos hslash]
      -- The path ends in a slash already: write it as the text before the slash and the slash.
      obtain ⟨front, hfront⟩ := List.getLast?_eq_some_iff.mp (beq_iff_eq.mp hslash)
      have hp : p = String.ofList front ++ "/" := by
        apply String.toList_injective
        simp [hfront]
      refine ⟨isAbsolute_append hne _, segments (String.ofList front), ?_, Or.inr ?_⟩
      · rw [hp, segments_append_slash, hself]
      · have := segments_append_slash (String.ofList front) ""
        rw [String.append_empty] at this
        rw [hp, this]
        congr 1
    · rw [if_neg hslash]
      refine ⟨?_, segments p, ?_, Or.inl rfl⟩
      · rw [String.append_assoc]
        exact isAbsolute_append hne _
      · rw [segments_append_slash, hself]

/-- **A joined name is the last component.** -/
theorem components_join {name : String} (hname : IsName name) (p : Path) :
    (p.join name).components = p.components ++ [name] := by
  obtain ⟨habs, front, hjoin, hp⟩ := segments_join hname p
  have hhead : ((p.join name).segments.head? == some ".") = (p.segments.head? == some ".") := by
    cases front with
    | nil =>
        have hdot : name ≠ "." := hname.ne_dot
        rcases hp with hp | hp
        · exact absurd hp (segments_ne_nil p)
        · simp [hp, hjoin, hdot]
    | cons s rest => rcases hp with hp | hp <;> simp [hp, hjoin]
  have hfilter : (p.join name).segments.filter (!isVoid ·) =
      p.segments.filter (!isVoid ·) ++ [name] := by
    rcases hp with hp | hp
    · simp [hp, hjoin, hname.notVoid]
    · simp [hp, hjoin, hname.notVoid, show isVoid "" = true by decide]
  rw [components_eq, components_eq, habs, hhead, hfilter, List.append_assoc]

/-- **A joined name leads one name further down.** -/
theorem placeFrom_join {name : String} (hname : IsName name) (cwd : Place) (p : Path) :
    (p.join name).placeFrom cwd = p.placeFrom cwd ++ [name] := by
  unfold placeFrom
  rw [components_join hname, List.foldl_append]
  simp [hname.ne_slash, hname.ne_dot, hname.notUp]

/-! ### Paths written from components -/

/-- Components that can follow each other in a path. -/
structure AreNamed (parts : List String) : Prop where
  noSlash : ∀ s ∈ parts, '/' ∉ s.toList
  notVoid : ∀ s ∈ parts, isVoid s = false

theorem areNamed_filter_segments (p : Path) : AreNamed (p.segments.filter (!isVoid ·)) where
  noSlash s hs := noSlash_of_mem_segments (List.mem_filter.mp hs).1
  notVoid s hs := by simpa using (List.mem_filter.mp hs).2

theorem AreNamed.filter {parts : List String} (h : AreNamed parts) :
    parts.filter (!isVoid ·) = parts := by
  rw [List.filter_eq_self]
  intro s hs
  simp [h.notVoid s hs]

theorem segments_intercalate {parts : List String} (hne : parts ≠ [])
    (h : ∀ s ∈ parts, '/' ∉ s.toList) : segments ("/".intercalate parts) = parts := by
  induction parts with
  | nil => exact absurd rfl hne
  | cons s rest ih =>
      have hs : segments s = [s] := segments_of_noSlash (h s (by simp))
      cases rest with
      | nil => simpa using hs
      | cons t rest =>
          have hrest := ih (by simp) fun x hx => h x (by simp [hx])
          rw [String.intercalate_cons_cons, segments_append_slash, hs, hrest]
          rfl

/-- A path that starts with a name is not absolute. -/
theorem isAbsolute_intercalate {s : String} {rest : List String} (hslash : '/' ∉ s.toList)
    (hne : s ≠ "") : isAbsolute ("/".intercalate (s :: rest)) = false := by
  cases rest with
  | nil => simpa using isAbsolute_of_noSlash hslash
  | cons t rest =>
      rw [String.intercalate_cons_cons, String.append_assoc, isAbsolute_append hne]
      exact isAbsolute_of_noSlash hslash

/-- What components of a path look like: perhaps the root or a dot, and then names. -/
theorem components_shape (p : Path) :
    ∃ lead named, p.components = lead ++ named ∧ AreNamed named ∧
      (lead = ["/"] ∨ lead = ["."] ∨ lead = []) := by
  refine ⟨_, _, components_eq p, areNamed_filter_segments p, ?_⟩
  by_cases habs : p.isAbsolute = true
  · simp [habs]
  · by_cases hdot : (p.segments.head? == some ".") = true
    · simp [habs, hdot]
    · simp [habs, hdot]

/-- **Writing components out and reading them again changes nothing.** -/
theorem components_ofComponents {lead named : List String} (hnamed : AreNamed named)
    (hlead : lead = ["/"] ∨ lead = ["."] ∨ lead = []) :
    (ofComponents (lead ++ named)).components = lead ++ named := by
  rcases hlead with rfl | rfl | rfl
  · -- An absolute path: the slash in front makes an empty segment of its own.
    show components ("/" ++ "/".intercalate named) = "/" :: named
    have hsegs : segments ("/" ++ "/".intercalate named) =
        "" :: segments ("/".intercalate named) := by
      simpa [show segments "" = [""] by decide] using
        segments_append_slash "" ("/".intercalate named)
    have hslash : isAbsolute ("/" ++ "/".intercalate named) = true := by
      rw [isAbsolute_append (by decide)]
      decide
    rw [components_eq, if_pos hslash, hsegs]
    cases named with
    | nil => simp [show segments "" = [""] by decide, show isVoid "" = true by decide]
    | cons s rest =>
        rw [segments_intercalate (by simp) hnamed.noSlash]
        simpa [show isVoid "" = true by decide] using hnamed.filter
  · show components ("/".intercalate ("." :: named)) = "." :: named
    have hsegs : segments ("/".intercalate ("." :: named)) = "." :: named := by
      refine segments_intercalate (by simp) fun s hs => ?_
      rcases List.mem_cons.mp hs with rfl | hs'
      · decide
      · exact hnamed.noSlash s hs'
    rw [components_eq, isAbsolute_intercalate (by decide) (by decide), hsegs]
    simpa [show isVoid "." = true by decide] using hnamed.filter
  · rw [List.nil_append]
    cases named with
    | nil => decide
    | cons s rest =>
        have hvoid : isVoid s = false := hnamed.notVoid s (by simp)
        have hslash : '/' ∉ s.toList := hnamed.noSlash s (by simp)
        have hne : s ≠ "" ∧ s ≠ "." := by
          constructor <;> (rintro rfl; exact absurd hvoid (by decide))
        have hroot : s ≠ "/" := by
          rintro rfl
          exact hslash (by decide)
        have hwritten : ofComponents (s :: rest) = "/".intercalate (s :: rest) := by
          unfold ofComponents
          split
          · rename_i heq
            exact absurd (List.cons.inj heq).1 hroot
          · rfl
        rw [hwritten, components_eq, isAbsolute_intercalate hslash hne.1,
          segments_intercalate (by simp) hnamed.noSlash, hnamed.filter]
        simp [hne.2]

/-! ### Drafts -/

/-- What `fileName?` finds is the last of the names, and can be joined again. -/
theorem components_of_fileName? {p : Path} {name : String} (h : p.fileName? = some name) :
    ∃ lead named, p.components = lead ++ named ++ [name] ∧ AreNamed named ∧ IsName name ∧
      (lead = ["/"] ∨ lead = ["."] ∨ lead = []) := by
  obtain ⟨lead, named, hparts, hnamed, hlead⟩ := components_shape p
  unfold fileName? at h
  obtain ⟨hlast, hname⟩ := Option.filter_eq_some_iff.mp h
  simp only [Bool.and_eq_true, bne_iff_ne, ne_eq] at hname
  obtain ⟨⟨hroot, hdot⟩, hup⟩ := hname
  rw [hparts] at hlast
  -- The last component is no mark at the front, so it is one of the names.
  have hne : named ≠ [] := by
    rintro rfl
    rcases hlead with rfl | rfl | rfl
    · exact hroot (by simpa using hlast.symm)
    · exact hdot (by simpa using hlast.symm)
    · simp at hlast
  obtain ⟨front, hfront⟩ : ∃ front, named = front ++ [name] := by
    refine List.getLast?_eq_some_iff.mp ?_
    rw [List.getLast?_append, List.getLast?_eq_some_getLast hne, Option.some_or] at hlast
    rw [List.getLast?_eq_some_getLast hne, hlast]
  subst hfront
  refine ⟨lead, front, by rw [hparts, List.append_assoc], ⟨?_, ?_⟩, ⟨?_, ?_, hup⟩, hlead⟩
  · exact fun s hs => hnamed.noSlash s (by simp [hs])
  · exact fun s hs => hnamed.notVoid s (by simp [hs])
  · exact hnamed.noSlash name (by simp)
  · exact hnamed.notVoid name (by simp)

/-! ### Lists of paths -/

theorem same_self (p : Path) : same p p = true := beq_self_eq_true p.components

/-- A path that is inserted is listed, however it is written, and nothing else has changed. -/
theorem any_same_insert (path file : Path) (list : List Path) :
    (Path.insert path list).any (same file) = (same file path || list.any (same file)) := by
  induction list with
  | nil => rfl
  | cons q rest ih =>
      unfold Path.insert
      split
      · rename_i hsame
        have heq : same file path = same file q := by
          unfold same
          rw [beq_iff_eq.mp hsame]
        rw [List.any_cons, heq, ← Bool.or_assoc, Bool.or_self]
      · split
        · rfl
        · rw [List.any_cons, ih, List.any_cons, Bool.or_left_comm]

end Path

namespace Disk

open Plumbline.Path

/-- The name of the draft of a file. -/
def draftName (name : String) : String := "." ++ name ++ ".archfix-tmp"

theorem isName_draftName {name : String} (h : '/' ∉ name.toList) : IsName (draftName name) := by
  have hlist : (draftName name).toList = '.' :: (name.toList ++ ".archfix-tmp".toList) := by
    simp [draftName]
  have hlong : 3 ≤ (draftName name).toList.length := by
    rw [hlist]
    simp
  have hne : ∀ s : String, s.toList.length < 3 → draftName name ≠ s := by
    intro s hs heq
    rw [heq] at hlong
    omega
  refine ⟨?_, ?_, hne ".." (by decide)⟩
  · rw [hlist]
    simp [h]
  · simp [isVoid, hne "" (by decide), hne "." (by decide)]

theorem draftName_injective {a b : String} (h : draftName a = draftName b) : a = b := by
  have hlist := congrArg String.toList h
  simp only [draftName, String.toList_append, List.append_assoc] at hlist
  exact String.toList_inj.mp (List.append_inj' (List.append_inj hlist rfl).2 rfl).1

theorem head?_draftName (name : String) : (draftName name).toList.head? = some '.' := by
  simp [draftName]

/-- The name of a draft, joined to some path, is the draft. -/
theorem draftPath_eq_join (path : Path) :
    IsName (draftName (path.fileName?.getD "")) ∧
      ∃ dir : Path, draftPath path = dir.join (draftName (path.fileName?.getD "")) := by
  constructor
  · apply isName_draftName
    cases hfile : path.fileName? with
    | none => decide
    | some name =>
        obtain ⟨_, _, _, _, hname, _⟩ := components_of_fileName? hfile
        exact hname.noSlash
  · show ∃ dir, path.withFileName (draftName _) = Path.join dir (draftName _)
    unfold withFileName
    split
    · exact ⟨_, rfl⟩
    · exact ⟨_, rfl⟩

/-- **The draft of a file lies beside it.** -/
theorem placeFrom_draftPath {path : Path} {name : String} (h : path.fileName? = some name)
    (cwd : Place) :
    ∃ dir : Place, path.placeFrom cwd = dir ++ [name] ∧
      (draftPath path).placeFrom cwd = dir ++ [draftName name] := by
  obtain ⟨lead, named, hparts, hnamed, hname, hlead⟩ := components_of_fileName? h
  have hparent : path.parent? = some (ofComponents (lead ++ named)) := by
    unfold parent?
    rw [hparts]
    split
    · rename_i heq
      simp at heq
    · rename_i heq
      have : name = "/" := by
        have := congrArg List.getLast? heq
        simpa using this
      exact absurd this hname.ne_slash
    · rw [List.dropLast_concat]
  have hdraft : draftPath path = (ofComponents (lead ++ named)).join (draftName name) := by
    unfold draftPath withFileName
    rw [h, hparent]
    rfl
  refine ⟨(ofComponents (lead ++ named)).placeFrom cwd, ?_, ?_⟩
  · unfold placeFrom
    rw [hparts, components_ofComponents hnamed hlead, List.foldl_append]
    simp [hname.ne_slash, hname.ne_dot, hname.notUp]
  · rw [hdraft, placeFrom_join (isName_draftName hname.noSlash)]

end Disk

end Plumbline
