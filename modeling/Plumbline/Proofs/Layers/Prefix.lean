/-
Which configured prefix gives a path its layer.

An entry of the configuration matches a path if its prefix, in normal form, is not empty and is the
path without the ending of source files, or goes before a slash in it.  The prefixes are sorted by
their length in bytes, longest first, and the first that matches decides.  The forms that match one
path are all parts of it from its start on, so the one with the most bytes is the longest in every
sense, and two of the same length are the same (`prefix_of_byteSize_le`).  Among entries with the
same form the sort keeps their order (`filter_sorted`), which is that of their keys in every
configuration that was read from a file (`inKeyOrder_load`).
-/
import Plumbline.Config.Load
import Plumbline.Layers.Basic
import Plumbline.Proofs.Text.Cursor

namespace Plumbline

/-! ### Forms that match -/

namespace Layer

theorem covers_iff {form path : List Char} :
    covers form path = true ↔ path = form ∨ ∃ rest, path = form ++ '/' :: rest := by
  unfold covers
  rw [Bool.or_eq_true, beq_iff_eq, List.isPrefixOf_iff_prefix]
  refine or_congr_right ⟨?_, ?_⟩
  · rintro ⟨rest, rfl⟩
    exact ⟨rest, by simp⟩
  · rintro ⟨rest, rfl⟩
    exact ⟨rest, by simp⟩

theorem prefix_of_covers {form path : List Char} (h : covers form path = true) : form <+: path := by
  rcases covers_iff.mp h with rfl | ⟨rest, rfl⟩
  · exact List.prefix_refl _
  · exact List.prefix_append _ _

/-- **Of two forms that match one path, the one with fewer bytes is a part of the other.** -/
theorem prefix_of_byteSize_le {a b path : List Char} (ha : covers a path = true)
    (hb : covers b path = true) (hle : byteSize a ≤ byteSize b) : a <+: b := by
  rcases List.prefix_or_prefix_of_prefix (prefix_of_covers ha) (prefix_of_covers hb) with h | h
  · exact h
  · obtain ⟨rest, rfl⟩ := h
    have hrest : rest = [] := by
      by_cases hrest : rest = []
      · exact hrest
      · have hpos := byteSize_pos hrest
        rw [byteSize_append] at hle
        omega
    simp [hrest]

end Layer

/-! ### Entries -/

namespace LayerConfig

/-- The normal form of the prefix of an entry. -/
@[irreducible] def form (e : String × String) : List Char := Layer.normalizePrefix e.1.toList

/-- The entry matches the path: its form is not empty, and it is the path without the ending of
source files, or a slash follows it there. -/
structure Matches (e : String × String) (path : List Char) : Prop where
  nonempty : form e ≠ []
  fits : Layer.moduleForm path = form e ∨ ∃ rest, Layer.moduleForm path = form e ++ '/' :: rest

theorem Matches.covers {e : String × String} {path : List Char} (h : Matches e path) :
    Layer.covers (form e) (Layer.moduleForm path) = true := Layer.covers_iff.mpr h.fits

/-- The entries are in the order of their keys, and no two of them have the same key. -/
def InKeyOrder (paths : List (String × String)) : Prop := paths.Pairwise fun a b => a.1 < b.1

/-- The entry that gives the path its layer: of those that match it, the one with the longest form,
and of those with this form, the first. -/
structure Decides (paths : List (String × String)) (path : List Char) (e : String × String) :
    Prop where
  listed : e ∈ paths
  matches_path : Matches e path
  longest : ∀ e' ∈ paths, Matches e' path → (form e').length ≤ (form e).length
  first : ∀ e' ∈ paths, form e' = form e → e' = e ∨ e.1 < e'.1

/-- Only one entry decides. -/
theorem Decides.eq {paths : List (String × String)} {path : List Char} {e e' : String × String}
    (h : Decides paths path e) (h' : Decides paths path e') : e = e' := by
  have hlength : (form e).length = (form e').length := Nat.le_antisymm
    (h'.longest e h.listed h.matches_path) (h.longest e' h'.listed h'.matches_path)
  have hform : form e = form e' := by
    have ha := Layer.prefix_of_covers h.matches_path.covers
    have hb := Layer.prefix_of_covers h'.matches_path.covers
    exact (List.prefix_of_prefix_length_le ha hb (Nat.le_of_eq hlength)).eq_of_length hlength
  rcases h.first e' h'.listed hform.symm with heq | hlt
  · exact heq.symm
  · rcases h'.first e h.listed hform with heq | hgt
    · exact heq
    · exact absurd hgt (String.lt_asymm hlt)

end LayerConfig

/-! ### The order of the prefixes -/

namespace LayerClassifier

open LayerConfig

variable {config : ProjectConfig} {paths : List (String × String)} {path : List Char}

/-- What an entry is sorted as. -/
def normalEntry (e : String × String) : List Char × Layer := (form e, ⟨e.2⟩)

theorem normalEntry_eq (e : String × String) :
    (Layer.normalizePrefix e.1.toList, Layer.mk e.2) = normalEntry e := by
  rw [normalEntry, form]

/-- Is the form of the entry not empty? -/
def isKept (e : String × String) : Bool := !(form e).isEmpty

theorem isKept_iff {e : String × String} : isKept e = true ↔ form e ≠ [] := by
  unfold isKept
  generalize form e = l
  simp

theorem normalPrefixes_eq (paths : List (String × String)) :
    normalPrefixes paths = (paths.filter isKept).map normalEntry := by
  unfold normalPrefixes
  rw [List.map_congr_left fun e _ => normalEntry_eq e, List.filter_map,
    show (fun x : List Char × Layer => !x.1.isEmpty) ∘ normalEntry = isKept from rfl]

/-- The prefixes that are kept are those of the entries whose form is not empty. -/
theorem mem_normalPrefixes {x : List Char × Layer} :
    x ∈ normalPrefixes paths ↔ ∃ e ∈ paths, form e ≠ [] ∧ normalEntry e = x := by
  rw [normalPrefixes_eq, List.mem_map]
  constructor
  · rintro ⟨e, he, hx⟩
    obtain ⟨hmem, hkept⟩ := List.mem_filter.mp he
    exact ⟨e, hmem, isKept_iff.mp hkept, hx⟩
  · rintro ⟨e, hmem, hform, hx⟩
    exact ⟨e, List.mem_filter.mpr ⟨hmem, isKept_iff.mpr hform⟩, hx⟩

/-- Has the first of two prefixes at least as many bytes? -/
def isLonger (a b : List Char × Layer) : Bool := byteSize b.1 ≤ byteSize a.1

theorem isLonger_trans (a b c : List Char × Layer) (h : isLonger a b = true)
    (h' : isLonger b c = true) : isLonger a c = true := by
  simp only [isLonger, decide_eq_true_eq] at h h' ⊢
  exact Nat.le_trans h' h

theorem isLonger_total (a b : List Char × Layer) : (isLonger a b || isLonger b a) = true := by
  simp only [isLonger, Bool.or_eq_true, decide_eq_true_eq]
  exact Nat.le_total _ _

/-- **Sorting keeps the order of prefixes with the same form.** -/
theorem filter_sorted (prefixes : List (List Char × Layer)) (form : List Char) :
    (prefixes.mergeSort isLonger).filter (·.1 == form) = prefixes.filter (·.1 == form) := by
  have hsame : (prefixes.filter (·.1 == form)).Pairwise fun a b => isLonger a b = true := by
    refine List.pairwise_of_forall_mem_list ?_
    intro a ha b hb
    have ha := beq_iff_eq.mp (List.mem_filter.mp ha).2
    have hb := beq_iff_eq.mp (List.mem_filter.mp hb).2
    simp [isLonger, ha, hb]
  have hsub : (prefixes.filter (·.1 == form)).Sublist (prefixes.mergeSort isLonger) :=
    List.sublist_mergeSort isLonger_trans isLonger_total hsame List.filter_sublist
  have hfilter := hsub.filter (·.1 == form)
  rw [List.filter_filter, show (fun a : List Char × Layer => a.1 == form && a.1 == form) =
    (·.1 == form) by simp] at hfilter
  exact (hfilter.eq_of_length
    ((List.mergeSort_perm prefixes isLonger).filter (·.1 == form)).length_eq.symm).symm

/-- The first of the prefixes with one form is that of the first entry with this form. -/
theorem exists_first_entry {x : List Char × Layer}
    (h : (normalPrefixes paths).find? (·.1 == x.1) = some x) :
    ∃ front e back, paths = front ++ e :: back ∧ form e ≠ [] ∧ normalEntry e = x ∧
      ∀ a ∈ front, form a ≠ form e := by
  rw [normalPrefixes_eq, List.find?_map, Option.map_eq_some_iff] at h
  obtain ⟨e, he, rfl⟩ := h
  rw [List.find?_filter, List.find?_eq_some_iff_append] at he
  obtain ⟨hform, front, back, hpaths, hfront⟩ := he
  rw [decide_eq_true_eq, isKept_iff] at hform
  refine ⟨front, e, back, hpaths, hform.1, rfl, ?_⟩
  intro a ha heq
  have hnot := hfront a ha
  rw [Bool.not_eq_true', decide_eq_false_iff_not, isKept_iff] at hnot
  exact hnot ⟨heq ▸ hform.1, beq_iff_eq.mpr heq⟩

/-- No prefix that covers the path has more bytes than the one that is found. -/
theorem byteSize_le_of_find? {prefixes : List (List Char × Layer)} {x y : List Char × Layer}
    {module : List Char}
    (h : (prefixes.mergeSort isLonger).find? (fun e => Layer.covers e.1 module) = some x)
    (hy : y ∈ prefixes) (hcovers : Layer.covers y.1 module = true) :
    byteSize y.1 ≤ byteSize x.1 := by
  obtain ⟨-, before, after, hsorted, hbefore⟩ := List.find?_eq_some_iff_append.mp h
  have hpairs := List.pairwise_mergeSort isLonger_trans isLonger_total prefixes
  have hmem : y ∈ prefixes.mergeSort isLonger := List.mem_mergeSort.mpr hy
  rw [hsorted] at hmem hpairs
  rcases List.mem_append.mp hmem with hmem | hmem
  · have hnot := hbefore y hmem
    rw [hcovers] at hnot
    cases hnot
  · rcases List.mem_cons.mp hmem with rfl | hmem
    · exact Nat.le_refl _
    · have hlonger := List.rel_of_pairwise_cons (List.pairwise_append.mp hpairs).2.1 hmem
      simpa only [isLonger, decide_eq_true_eq] using hlonger

/-- The prefix that is found is the first one with its form, also among the unsorted ones. -/
theorem find?_form_of_find? {prefixes : List (List Char × Layer)} {x : List Char × Layer}
    {module : List Char}
    (h : (prefixes.mergeSort isLonger).find? (fun e => Layer.covers e.1 module) = some x) :
    prefixes.find? (·.1 == x.1) = some x := by
  obtain ⟨hcovers, before, after, hsorted, hbefore⟩ := List.find?_eq_some_iff_append.mp h
  rw [← List.head?_filter, ← filter_sorted, List.head?_filter, List.find?_eq_some_iff_append]
  refine ⟨beq_self_eq_true _, before, after, hsorted, ?_⟩
  intro a ha
  have hnot := hbefore a ha
  rw [Bool.not_eq_true', beq_eq_false_iff_ne]
  intro hform
  rw [hform, hcovers] at hnot
  cases hnot

/-- The prefix that is found is that of the entry that decides. -/
theorem exists_decides_of_find? (hkeys : InKeyOrder paths) {x : List Char × Layer}
    (h : ((normalPrefixes paths).mergeSort isLonger).find?
      (fun e => Layer.covers e.1 (Layer.moduleForm path)) = some x) :
    ∃ e, Decides paths path e ∧ normalEntry e = x := by
  obtain ⟨front, e, back, rfl, hform, rfl, hfront⟩ := exists_first_entry (find?_form_of_find? h)
  have hcovers : Layer.covers (form e) (Layer.moduleForm path) = true :=
    List.find?_some (p := fun y : List Char × Layer => Layer.covers y.1 _) h
  refine ⟨e, ⟨by simp, ⟨hform, Layer.covers_iff.mp hcovers⟩, ?_, ?_⟩, rfl⟩
  · intro e' he' hmatches
    have hle := byteSize_le_of_find? h
      (mem_normalPrefixes.mpr ⟨e', he', hmatches.nonempty, rfl⟩) hmatches.covers
    exact (Layer.prefix_of_byteSize_le hmatches.covers hcovers hle).length_le
  · intro e' he' hsame
    rcases List.mem_append.mp he' with hmem | hmem
    · exact absurd hsame (hfront e' hmem)
    · rcases List.mem_cons.mp hmem with rfl | hmem
      · exact .inl rfl
      · exact .inr (List.rel_of_pairwise_cons (List.pairwise_append.mp hkeys).2.1 hmem)

theorem byPrefix?_eq (config : ProjectConfig) (path : List Char) :
    (ofConfig config).byPrefix? path =
      (((normalPrefixes config.layers.paths).mergeSort isLonger).find?
        (fun e => Layer.covers e.1 (Layer.moduleForm path))).map (·.2) := rfl

/-- **A path has a layer by its prefix exactly if an entry matches it, and the layer is that of
the entry with the longest form, the first in the order of the keys among those with this form.** -/
theorem longest_prefix_decides (config : ProjectConfig) (hkeys : InKeyOrder config.layers.paths)
    (path : List Char) :
    (((ofConfig config).byPrefix? path).isSome = true ↔
        ∃ e ∈ config.layers.paths, Matches e path) ∧
      ∀ layer, (ofConfig config).byPrefix? path = some layer ↔
        ∃ e, Decides config.layers.paths path e ∧ layer = ⟨e.2⟩ := by
  rw [byPrefix?_eq]
  cases h : ((normalPrefixes config.layers.paths).mergeSort isLonger).find?
      (fun e => Layer.covers e.1 (Layer.moduleForm path)) with
  | none =>
    have hnone : ∀ e ∈ config.layers.paths, ¬ Matches e path := by
      intro e he hmatches
      have hnot := List.find?_eq_none.mp h (normalEntry e)
        (List.mem_mergeSort.mpr (mem_normalPrefixes.mpr ⟨e, he, hmatches.nonempty, rfl⟩))
      exact hnot hmatches.covers
    refine ⟨⟨nofun, ?_⟩, fun layer => ⟨nofun, ?_⟩⟩
    · rintro ⟨e, he, hmatches⟩
      exact absurd hmatches (hnone e he)
    · rintro ⟨e, hdecides, -⟩
      exact absurd hdecides.matches_path (hnone e hdecides.listed)
  | some x =>
    obtain ⟨e, hdecides, rfl⟩ := exists_decides_of_find? hkeys h
    refine ⟨⟨fun _ => ⟨e, hdecides.listed, hdecides.matches_path⟩, fun _ => rfl⟩,
      fun layer => ⟨?_, ?_⟩⟩
    · intro hlayer
      exact ⟨e, hdecides, (Option.some.inj hlayer).symm⟩
    · rintro ⟨e', hdecides', rfl⟩
      rw [hdecides.eq hdecides']
      rfl

/-- Two notations of one prefix, and a shorter prefix. -/
def twoNotations : ProjectConfig :=
  { layers := { paths := [("svc", "UseCase"), ("svc.a", "Interface"), ("svc/a/", "Domain")] } }

theorem longest_prefix_decides_two_notations :
    LayerConfig.InKeyOrder twoNotations.layers.paths ∧
      (ofConfig twoNotations).byPrefix? "svc/a/x.py".toList = some ⟨"Interface"⟩ := by
  have hkeys : InKeyOrder twoNotations.layers.paths := by
    unfold InKeyOrder
    decide +kernel
  refine ⟨hkeys, ((longest_prefix_decides twoNotations hkeys _).2 _).mpr
    ⟨("svc.a", "Interface"), ⟨by decide, ⟨by decide +kernel, .inr ⟨['x'], by decide +kernel⟩⟩,
      ?_, ?_⟩, rfl⟩⟩
  · have hlengths : ∀ e' ∈ twoNotations.layers.paths,
        (form e').length ≤ (form ("svc.a", "Interface")).length := by decide +kernel
    exact fun e' he' _ => hlengths e' he'
  · decide +kernel

end LayerClassifier

/-! ### Configurations that were read -/

namespace Decode

theorem fst_of_mem_insertPair {α : Type} {key : String} {value : α} {pairs : List (String × α)}
    {p : String × α} (h : p ∈ insertPair key value pairs) : p.1 = key ∨ p ∈ pairs := by
  induction pairs with
  | nil =>
    rw [insertPair, List.mem_singleton] at h
    exact .inl (h ▸ rfl)
  | cons q rest ih =>
    obtain ⟨k, v⟩ := q
    rw [insertPair] at h
    split at h
    · rcases List.mem_cons.mp h with rfl | h
      · exact .inl rfl
      · exact .inr h
    · split at h
      · rcases List.mem_cons.mp h with rfl | h
        · exact .inr (List.mem_cons_self ..)
        · exact (ih h).imp_right (List.mem_cons_of_mem _)
      · rcases List.mem_cons.mp h with rfl | h
        · exact .inl rfl
        · exact .inr (List.mem_cons_of_mem _ h)

/-- Putting a pair in its place keeps the order of the keys. -/
theorem pairwise_insertPair {α : Type} (key : String) (value : α) {pairs : List (String × α)}
    (h : pairs.Pairwise fun a b => a.1 < b.1) :
    (insertPair key value pairs).Pairwise fun a b => a.1 < b.1 := by
  induction pairs with
  | nil => exact List.pairwise_singleton _ _
  | cons q rest ih =>
    obtain ⟨k, v⟩ := q
    obtain ⟨hfirst, hrest⟩ := List.pairwise_cons.mp h
    rw [insertPair]
    split
    · rename_i hlt
      refine List.pairwise_cons.mpr ⟨?_, h⟩
      intro p hp
      rcases List.mem_cons.mp hp with rfl | hp
      · exact hlt
      · exact String.lt_trans hlt (hfirst p hp)
    · rename_i hnlt
      split
      · rename_i hgt
        refine List.pairwise_cons.mpr ⟨?_, ih hrest⟩
        intro p hp
        rcases fst_of_mem_insertPair hp with heq | hp
        · exact heq ▸ hgt
        · exact hfirst p hp
      · rename_i hngt
        have hkey : key = k :=
          String.le_antisymm (String.not_lt.mp hngt) (String.not_lt.mp hnlt)
        exact List.pairwise_cons.mpr ⟨hkey ▸ hfirst, hrest⟩

theorem pairwise_foldl_insertPair {α : Type} (written : List (String × α))
    {pairs : List (String × α)} (h : pairs.Pairwise fun a b => a.1 < b.1) :
    (written.foldl (fun acc p => insertPair p.1 p.2 acc) pairs).Pairwise fun a b => a.1 < b.1 := by
  induction written generalizing pairs with
  | nil => exact h
  | cons p rest ih => exact ih (pairwise_insertPair p.1 p.2 h)

theorem pairwise_dictionary? {α : Type} {value? : Json → Option α} {j : Json}
    {pairs : List (String × α)} (h : dictionary? value? j = some pairs) :
    pairs.Pairwise fun a b => a.1 < b.1 := by
  cases j with
  | obj fields =>
    rw [dictionary?, Option.bind_eq_bind, Option.bind_eq_some_iff] at h
    obtain ⟨written, -, h⟩ := h
    rw [← Option.some.inj h]
    exact pairwise_foldl_insertPair written .nil
  | null | bool | int | float | str | arr | unrepresentable => cases h

theorem eq_of_orDefault? {α : Type} {value? : Json → Option α} {default x : α}
    {field : Option Json} (h : orDefault? value? default field = some x) :
    x = default ∨ ∃ j, value? j = some x := by
  cases field with
  | none => exact .inl (Option.some.inj h).symm
  | some j => exact .inr ⟨j, h⟩

theorem inKeyOrder_layers? {d : Dialect} {j : Json} {layers : LayerConfig}
    (h : layers? d j = some layers) : LayerConfig.InKeyOrder layers.paths := by
  simp only [layers?, Option.bind_eq_bind, Option.bind_eq_some_iff] at h
  obtain ⟨fields, -, h⟩ := h
  split at h
  · simp only [Option.bind_eq_some_iff] at h
    obtain ⟨_, -, _, -, written, hpaths, _, -, _, -, h⟩ := h
    rw [← Option.some.inj h]
    rcases eq_of_orDefault? hpaths with rfl | ⟨j, hj⟩
    · exact .nil
    · exact pairwise_dictionary? hj
  · cases h

theorem inKeyOrder_config? {d : Dialect} {j : Json} {config : ProjectConfig}
    (h : config? d j = some config) : LayerConfig.InKeyOrder config.layers.paths := by
  simp only [config?, Option.bind_eq_bind, Option.bind_eq_some_iff] at h
  obtain ⟨fields, -, h⟩ := h
  split at h
  · simp only [Option.bind_eq_some_iff] at h
    obtain ⟨layers, hlayers, _, -, _, -, _, -, h⟩ := h
    rw [← Option.some.inj h]
    rcases eq_of_orDefault? hlayers with rfl | ⟨j, hj⟩
    · exact .nil
    · exact inKeyOrder_layers? hj
  · cases h

end Decode

namespace ProjectConfig

/-- **The prefixes of a configuration that was read are in the order of their keys.** -/
theorem inKeyOrder_load (p : Project) : LayerConfig.InKeyOrder (load p).layers.paths := by
  unfold load
  cases hsections : ((rootText? p "archfix.toml").bind Toml.parse?).bind
      (Decode.config? .sections) with
  | some config =>
    obtain ⟨j, -, hj⟩ := Option.bind_eq_some_iff.mp hsections
    exact Decode.inKeyOrder_config? hj
  | none =>
    cases hbraces : ((rootText? p ".archfixrc.json").bind Json.parse?).bind
        (Decode.config? .braces) with
    | some config =>
      obtain ⟨j, -, hj⟩ := Option.bind_eq_some_iff.mp hbraces
      exact Decode.inKeyOrder_config? hj
    | none => exact .nil

end ProjectConfig

end Plumbline
