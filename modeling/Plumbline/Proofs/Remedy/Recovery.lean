/-
What a recovery leaves.

A recovery puts back the entries of the manifest, last first: it reads the snapshot of an entry,
replaces the file, removes the snapshot and saves the manifest without the entry.  One such step
(`after_recoverEntry`) gives the file its content and takes away its draft; what is needed for the
entries before it is still there (`Recoverable.later`).  So each step writes over what a later
snapshot of the same file has put there, and in the end the first entry of a file has the last word
(`recovered_concat`).

The removal of a snapshot is the one operation that may fail: nobody looks at its answer.
-/
import Plumbline.Proofs.Files.Draft
import Plumbline.Proofs.Remedy.Manifest

namespace Plumbline

namespace Disk

instance (d : Disk) (path : Path) : Decidable (d.Writable path) :=
  decidable_of_iff' _ (writable_iff d path)

instance (d : Disk) (path : Path) : Decidable (d.Replaceable path) :=
  decidable_of_iff' _ (replaceable_iff d path)

/-- The file at `path` can be read. -/
def Readable (d : Disk) (path : Path) : Prop := ∃ content, d.Holds path content

instance (d : Disk) (path : Path) : Decidable (d.Readable path) :=
  match hread : d.tree.read (d.place path) with
  | .ok content =>
    decidable_of_iff (d.tree.locate d.cwd path = .ok (d.place path))
      ⟨fun hloc => ⟨content, hloc, hread⟩, fun ⟨_, h⟩ => h.located⟩
  | .error _ => isFalse fun ⟨_, h⟩ => nomatch hread.symm.trans h.read

end Disk

namespace BackupStore

open DiskM Disk FileTree

variable {dir : Path} {d d' : Disk} {e : ManifestEntry} {content : ByteArray}
  {front left : List ManifestEntry} {q : Place}

/-! ### One entry -/

/-- Of the operations that put back `n` entries, six for each, only the fourth may have a fault,
which removes the snapshot. -/
def OnlyRemovalsFail (d : Disk) (n : Nat) : Prop :=
  ∀ i < n, ∀ j < 6, j ≠ 3 → d.faults (d.steps + (6 * i + j)) = none

theorem OnlyRemovalsFail.later {n : Nat} (h : OnlyRemovalsFail d (n + 1))
    (hfaults : d'.faults = d.faults) (hsteps : d'.steps = d.steps + 6) : OnlyRemovalsFail d' n := by
  intro i hi j hj hne
  have hfault := h (i + 1) (by omega) j hj hne
  rw [hfaults, hsteps, show d.steps + 6 + (6 * i + j) = d.steps + (6 * (i + 1) + j) by omega]
  exact hfault

theorem OnlyRemovalsFail.first {n : Nat} (h : OnlyRemovalsFail d (n + 1)) {j : Nat} (hj : j < 6)
    (hne : j ≠ 3) : d.faults (d.steps + j) = none := by
  simpa using h 0 (by omega) j hj hne

/-- From `d` to `d'` an entry was put back whose snapshot held `content`, and `left` are the entries
that are left. -/
structure TakenBack (dir : Path) (left : List ManifestEntry) (e : ManifestEntry)
    (content : ByteArray) (d d' : Disk) : Prop where
  ways : KeepsWays d d'
  faults : d'.faults = d.faults
  steps : d'.steps = d.steps + 6
  manifest : d'.Holds (manifestPath dir) (manifestText left).toUTF8
  files : ∀ q, q ≠ d.place (dir.join e.id) → q ≠ d.place (manifestPath dir) →
    q ≠ d.place (draftPath (manifestPath dir)) → d'.tree.file? q =
      if q = d.place e.path then some content
      else if q = d.place (draftPath e.path) then none else d.tree.file? q

/-- **An entry is put back** if its snapshot can be read and its file and the manifest can be
replaced. -/
theorem after_recoverEntry (hstored : d.Holds (dir.join e.id) content)
    (hrestores : d.Replaceable e.path) (hsaves : d.Replaceable (manifestPath dir)) {n : Nat}
    (hfaults : OnlyRemovalsFail d (n + 1)) (left : List ManifestEntry) :
    After (recoverEntry dir left e) d fun r d' => r = .ok () ∧ TakenBack dir left e content d d' := by
  have hfault {j : Nat} (hj : j < 6) (hne : j ≠ 3) : d.faults (d.steps + j) = none :=
    hfaults.first hj hne
  refine after_bind ((hstored.after_read (hfault (by decide : 0 < 6) (by decide))).imp ?_)
  rintro _ _ ⟨rfl, rfl⟩
  have hways₁ := keepsWays_step d
  refine after_bind (((hways₁.replaceable hrestores).after_replaced
    (hfault (by decide : 1 < 6) (by decide)) (hfault (by decide : 2 < 6) (by decide)) content).imp ?_)
  rintro _ d₂ ⟨rfl, hfile⟩
  refine after_bind ((after_remove_elsewhere (dir.join e.id) d₂).imp ?_)
  rintro _ d₃ ⟨hways₃, hfaults₃, hsteps₃, hfiles₃⟩
  have hways := (hways₁.trans hfile.ways).trans hways₃
  have hsame : d₃.faults = d.faults := hfaults₃.trans hfile.faults
  have hcount : d₃.steps = d.steps + 4 := by
    have hsteps₂ : d₂.steps = d.steps + 1 + 2 := hfile.steps
    omega
  refine after_bind (((hways.replaceable hsaves).after_replaced ?_ ?_
    (manifestText left).toUTF8).imp ?_)
  · rw [hsame, hcount]
    exact hfault (by decide) (by decide)
  · rw [hsame, hcount]
    exact hfault (by decide : 5 < 6) (by decide)
  rintro _ d₄ ⟨rfl, hmanifest⟩
  refine ⟨rfl, hways.trans hmanifest.ways, hmanifest.faults.trans hsame, ?_, hmanifest.holds, ?_⟩
  · show d₄.steps = d.steps + 6
    rw [hmanifest.steps, hcount]
  · intro q hsnapshot hlisted hdraft
    show d₄.tree.file? q = _
    rw [hmanifest.files, hways.place, hways.place, if_neg hlisted, if_neg hdraft, hfiles₃, hfile.files]
    · rfl
    · rw [(hways₁.trans hfile.ways).place]
      exact hsnapshot

/-! ### Entries that can be put back -/

/-- What is needed to put back an entry: its snapshot is a file in the directory of the store that
can be read, its file lies elsewhere and can be replaced, and so can the manifest. -/
@[mk_iff]
structure Restorable (dir : Path) (d : Disk) (e : ManifestEntry) : Prop where
  stored : d.Readable (dir.join e.id)
  inside : d.place dir <+: d.place (dir.join e.id)
  notManifest : d.place (dir.join e.id) ≠ d.place (manifestPath dir)
  notDraft : d.place (dir.join e.id) ≠ d.place (draftPath (manifestPath dir))
  outside : ¬ d.place dir <+: d.place e.path
  restores : d.Replaceable e.path
  saves : d.Replaceable (manifestPath dir)

/-- What is needed to put back entries: none of them shares its snapshot with another, and none of
their files is the draft of one. -/
@[mk_iff]
structure Recoverable (dir : Path) (d : Disk) (entries : List ManifestEntry) : Prop where
  each : ∀ e ∈ entries, Restorable dir d e
  distinct : entries.Pairwise fun a b => d.place (dir.join a.id) ≠ d.place (dir.join b.id)
  undrafted : ∀ a ∈ entries, ∀ b ∈ entries, d.place (draftPath a.path) ≠ d.place b.path

instance (dir : Path) (d : Disk) (e : ManifestEntry) : Decidable (Restorable dir d e) :=
  decidable_of_iff' _ (restorable_iff dir d e)

instance (dir : Path) (d : Disk) (entries : List ManifestEntry) :
    Decidable (Recoverable dir d entries) :=
  decidable_of_iff' _ (recoverable_iff dir d entries)

namespace Restorable

theorem below_manifest (dir : Path) (d : Disk) : d.place dir <+: d.place (manifestPath dir) := by
  unfold place
  rw [place_manifest]
  exact List.prefix_append _ _

theorem below_manifest_draft (dir : Path) (d : Disk) :
    d.place dir <+: d.place (draftPath (manifestPath dir)) := by
  unfold place
  rw [place_manifest_draft]
  exact List.prefix_append _ _

/-- The directory of the store is one. -/
theorem isDir (h : Restorable dir d e) : d.tree.isDir (d.place dir) = true := by
  have hplace : (d.place (manifestPath dir)).dropLast = d.place dir := by
    unfold place
    rw [place_manifest, List.dropLast_concat]
  rw [← hplace]
  exact isDir_dropLast h.saves.file.way

theorem outside_draft (h : Restorable dir d e) : ¬ d.place dir <+: d.place (draftPath e.path) :=
  h.restores.not_below_draft h.isDir h.outside

end Restorable

namespace TakenBack

/-- Outside of the directory of the store, the file of the entry and its draft have changed. -/
theorem files_outside (h : TakenBack dir left e content d d') (hrestorable : Restorable dir d e)
    (hq : ¬ d.place dir <+: q) : d'.tree.file? q =
      if q = d.place e.path then some content
      else if q = d.place (draftPath e.path) then none else d.tree.file? q := by
  refine h.files q ?_ ?_ ?_
  · rintro rfl
    exact hq hrestorable.inside
  · rintro rfl
    exact hq (Restorable.below_manifest dir d)
  · rintro rfl
    exact hq (Restorable.below_manifest_draft dir d)

/-- The snapshot of another entry has not changed. -/
theorem file?_snapshot (h : TakenBack dir left e content d d') (hrestorable : Restorable dir d e)
    {other : ManifestEntry} (hother : Restorable dir d other)
    (hne : d.place (dir.join other.id) ≠ d.place (dir.join e.id)) :
    d'.tree.file? (d.place (dir.join other.id)) = d.tree.file? (d.place (dir.join other.id)) := by
  rw [h.files _ hne hother.notManifest hother.notDraft, if_neg, if_neg]
  · intro heq
    exact hrestorable.outside_draft (heq ▸ hother.inside)
  · intro heq
    exact hrestorable.outside (heq ▸ hother.inside)

end TakenBack

namespace Recoverable

theorem ne_last (h : Recoverable dir d (front ++ [e])) {other : ManifestEntry}
    (hother : other ∈ front) : d.place (dir.join other.id) ≠ d.place (dir.join e.id) :=
  (List.pairwise_append.mp h.distinct).2.2 other hother e (List.mem_singleton_self e)

/-- When the last entry was put back, the others still can be. -/
theorem later (h : Recoverable dir d (front ++ [e])) (hback : TakenBack dir left e content d d') :
    Recoverable dir d' front := by
  have hmem {a : ManifestEntry} (ha : a ∈ front) : a ∈ front ++ [e] := List.mem_append_left _ ha
  have hlast := h.each e (by simp)
  have hplace := hback.ways.place
  refine ⟨fun a ha => ?_, ?_, fun a ha b hb => ?_⟩
  · have hthis := h.each a (hmem ha)
    obtain ⟨stored, hheld⟩ := hthis.stored
    exact
      { stored := ⟨stored, hback.ways.holds hheld
          (hback.file?_snapshot hlast hthis (h.ne_last ha))⟩
        inside := by rw [hplace, hplace]; exact hthis.inside
        notManifest := by rw [hplace, hplace]; exact hthis.notManifest
        notDraft := by rw [hplace, hplace]; exact hthis.notDraft
        outside := by rw [hplace, hplace]; exact hthis.outside
        restores := hback.ways.replaceable hthis.restores
        saves := hback.ways.replaceable hthis.saves }
  · simp only [hplace]
    exact (List.pairwise_append.mp h.distinct).1
  · rw [hplace, hplace]
    exact h.undrafted a (hmem ha) b (hmem hb)

end Recoverable

/-! ### All entries -/

/-- What the file at a place outside of the store holds when entries were put back: the content of
the first snapshot of this file.  Drafts are gone, and other files are what they were. -/
def recovered (dir : Path) (d : Disk) (entries : List ManifestEntry) (q : Place) :
    Option ByteArray :=
  match entries.find? fun e => d.place e.path = q with
  | some e => d.tree.file? (d.place (dir.join e.id))
  | none =>
    if entries.any fun e => d.place (draftPath e.path) = q then none else d.tree.file? q

/-- **The first entry of a file has the last word**: putting back the last entry, and then the
others, gives every file what its first entry says. -/
theorem recovered_concat (h : Recoverable dir d (front ++ [e]))
    (hheld : d.Holds (dir.join e.id) content) (hback : TakenBack dir left e content d d')
    (hq : ¬ d.place dir <+: q) : recovered dir d' front q = recovered dir d (front ++ [e]) q := by
  have hlast := h.each e (by simp)
  unfold recovered
  simp only [hback.ways.place, List.find?_append, List.any_append]
  cases hfirst : front.find? fun e => d.place e.path = q with
  | some first =>
      have hmem := List.mem_of_find?_eq_some hfirst
      exact hback.file?_snapshot hlast (h.each first (List.mem_append_left _ hmem)) (h.ne_last hmem)
  | none =>
      rw [hback.files_outside hlast hq]
      by_cases hfile : d.place e.path = q
      · -- No entry before the last one is for this file, and it is the draft of none.
        have hdraft : front.any (fun a => d.place (draftPath a.path) = q) = false := by
          rw [List.any_eq_false]
          intro a ha
          rw [decide_eq_true_eq, ← hfile]
          exact h.undrafted a (List.mem_append_left _ ha) e (by simp)
        simp [hfile, hdraft, hheld.file?]
      · by_cases hdraft : d.place (draftPath e.path) = q
        · simp [hfile, hdraft, Ne.symm hfile]
        · simp [hfile, hdraft, Ne.symm hfile, Ne.symm hdraft]

/-- The files that were put back, with that of one more entry. -/
def listFile (restored : List Path) (e : ManifestEntry) : List Path :=
  if restored.any (Path.same e.path) then restored else restored ++ [e.path]

/-- **A recovery does what the entries say.** -/
theorem after_recoverEntries (todo : List ManifestEntry) (restored : List Path)
    (h : Recoverable dir d todo.reverse) (hfaults : OnlyRemovalsFail d todo.length) :
    After (recoverEntries dir todo restored) d fun r d' =>
      r = (.ok (todo.foldl listFile restored), []) ∧ KeepsWays d d' ∧
      (todo = [] ∧ d' = d ∨ d'.Holds (manifestPath dir) (manifestText []).toUTF8) ∧
      ∀ q, ¬ d.place dir <+: q → d'.tree.file? q = recovered dir d todo.reverse q := by
  induction todo generalizing d restored with
  | nil => exact ⟨rfl, .refl d, Or.inl ⟨rfl, rfl⟩, fun _ _ => rfl⟩
  | cons e rest ih =>
      rw [List.reverse_cons] at h
      have hlast := h.each e (by simp)
      obtain ⟨content, hheld⟩ := hlast.stored
      refine after_bind ((after_recoverEntry hheld hlast.restores hlast.saves hfaults
        rest.reverse).imp ?_)
      rintro _ d₁ ⟨rfl, hback⟩
      refine (ih _ (h.later hback) (hfaults.later hback.faults hback.steps)).imp ?_
      rintro _ d' ⟨rfl, hways, hmanifest, hfiles⟩
      refine ⟨rfl, hback.ways.trans hways, Or.inr ?_, fun q hq => ?_⟩
      · rcases hmanifest with ⟨rfl, rfl⟩ | hmanifest
        · exact hback.manifest
        · exact hmanifest
      · rw [List.reverse_cons, ← recovered_concat h hheld hback hq]
        exact hfiles q (by rw [hback.ways.place]; exact hq)

theorem after_recover {entries : List ManifestEntry} (h : Recoverable dir d entries)
    (hfaults : OnlyRemovalsFail d entries.length) :
    After (recover { dir := some dir, entries }) d fun r d' =>
      r = (.ok (entries.reverse.foldl listFile []), { dir := some dir, entries := [] }) ∧
      KeepsWays d d' ∧
      (entries = [] ∧ d' = d ∨ d'.Holds (manifestPath dir) (manifestText []).toUTF8) ∧
      ∀ q, ¬ d.place dir <+: q → d'.tree.file? q = recovered dir d entries q := by
  refine after_bind ((after_recoverEntries entries.reverse [] (by rwa [List.reverse_reverse])
    (by rwa [List.length_reverse])).imp ?_)
  rintro _ d' ⟨rfl, hways, hmanifest, hfiles⟩
  rw [List.reverse_reverse] at hfiles
  exact ⟨rfl, hways, hmanifest.imp_left (And.imp_left List.reverse_eq_nil_iff.mp), hfiles⟩

/-! ### The list of files -/

theorem same_trans {p x y : Path} (h : Path.same p y = true) (h' : Path.same p x = true) :
    Path.same y x = true := by
  unfold Path.same at *
  rw [beq_iff_eq] at *
  rw [← h, h']

/-- No file is listed twice. -/
theorem countP_listFile {restored : List Path} (h : ∀ p, restored.countP (Path.same p) ≤ 1)
    (e : ManifestEntry) (p : Path) : (listFile restored e).countP (Path.same p) ≤ 1 := by
  unfold listFile
  by_cases hlisted : restored.any (Path.same e.path) = true
  · rw [if_pos hlisted]
    exact h p
  · rw [if_neg hlisted, List.countP_append, List.countP_singleton]
    by_cases hsame : Path.same p e.path = true
    · have hnone : restored.countP (Path.same p) = 0 := by
        rw [List.countP_eq_zero]
        intro x hx hp
        exact hlisted (List.any_eq_true.mpr ⟨x, hx, same_trans hsame hp⟩)
      rw [hnone, if_pos hsame]
    · rw [if_neg hsame]
      exact h p

theorem countP_foldl_listFile (todo : List ManifestEntry) {restored : List Path}
    (h : ∀ p, restored.countP (Path.same p) ≤ 1) (p : Path) :
    (todo.foldl listFile restored).countP (Path.same p) ≤ 1 := by
  induction todo generalizing restored with
  | nil => exact h p
  | cons e rest ih => exact ih (countP_listFile h e)

theorem mem_listFile {restored : List Path} {e : ManifestEntry} {p : Path}
    (h : p ∈ listFile restored e) : p ∈ restored ∨ p = e.path := by
  unfold listFile at h
  split at h
  · exact Or.inl h
  · simpa using h

theorem subset_listFile (restored : List Path) (e : ManifestEntry) :
    restored ⊆ listFile restored e := by
  unfold listFile
  split
  · exact List.Subset.refl _
  · exact List.subset_append_left _ _

theorem any_listFile (restored : List Path) (e : ManifestEntry) :
    (listFile restored e).any (Path.same e.path) = true := by
  unfold listFile
  by_cases hlisted : restored.any (Path.same e.path) = true
  · rw [if_pos hlisted, hlisted]
  · rw [if_neg hlisted, List.any_append]
    simp [Path.same]

theorem mem_foldl_listFile {todo : List ManifestEntry} {restored : List Path} {p : Path}
    (h : p ∈ todo.foldl listFile restored) : p ∈ restored ∨ ∃ e ∈ todo, p = e.path := by
  induction todo generalizing restored with
  | nil => exact Or.inl h
  | cons e rest ih =>
      rcases ih h with hmem | ⟨e', he', heq⟩
      · exact (mem_listFile hmem).imp_right fun heq => ⟨e, List.mem_cons_self, heq⟩
      · exact Or.inr ⟨e', List.mem_cons_of_mem e he', heq⟩

theorem subset_foldl_listFile (todo : List ManifestEntry) (restored : List Path) :
    restored ⊆ todo.foldl listFile restored := by
  induction todo generalizing restored with
  | nil => exact List.Subset.refl _
  | cons e rest ih => exact List.Subset.trans (subset_listFile restored e) (ih _)

/-- The file of each entry is listed. -/
theorem any_foldl_listFile {todo : List ManifestEntry} (restored : List Path) {e : ManifestEntry}
    (h : e ∈ todo) : (todo.foldl listFile restored).any (Path.same e.path) = true := by
  induction todo generalizing restored with
  | nil => exact absurd h List.not_mem_nil
  | cons e' rest ih =>
      rcases List.mem_cons.mp h with rfl | hmem
      · obtain ⟨p, hp, hsame⟩ := List.any_eq_true.mp (any_listFile restored e)
        exact List.any_eq_true.mpr ⟨p, subset_foldl_listFile rest _ hp, hsame⟩
      · exact ih _ hmem

/-- **Each file of the entries is listed once, and no other is.** -/
theorem listed_once (todo : List ManifestEntry) :
    (∀ e ∈ todo, (todo.foldl listFile []).countP (Path.same e.path) = 1) ∧
      ∀ p ∈ todo.foldl listFile [], ∃ e ∈ todo, p = e.path := by
  refine ⟨fun e he => ?_, fun p hp => (mem_foldl_listFile hp).resolve_left List.not_mem_nil⟩
  have hpos : 0 < (todo.foldl listFile []).countP (Path.same e.path) := by
    rw [List.countP_pos_iff]
    exact List.any_eq_true.mp (any_foldl_listFile [] he)
  have hle : (todo.foldl listFile []).countP (Path.same e.path) ≤ 1 :=
    countP_foldl_listFile todo (by simp) e.path
  omega

/-! ### What a recovery promises -/

theorem entries_reopened_of_saved (h : d.Holds (manifestPath dir) (manifestText []).toUTF8) :
    (reopened dir d).entries = [] := by
  have hnone : entriesOf (manifestText []) = [] :=
    entriesOf_manifestText (List.forall_mem_nil _)
  rw [reopened_of_holds h, hnone]

/-- **A recovery gives each listed file the content of its first snapshot.**  If the entries of the
manifest can be put back and nothing but the removal of a snapshot fails, the recovery succeeds.  It
lists each listed path once and nothing else, nothing is pending any more, neither in memory nor on
the disk, and outside of the store no file changes but the listed ones and their drafts, which are
gone. -/
theorem oldest_snapshot_has_last_word (dir : Path) (d : Disk)
    (h : Recoverable dir d (reopened dir d).entries)
    (hfaults : OnlyRemovalsFail d (reopened dir d).entries.length) :
    After (recover (reopened dir d)) d fun r d' =>
      (∃ restored, r.1 = .ok restored ∧
        (∀ e ∈ (reopened dir d).entries, restored.countP (Path.same e.path) = 1) ∧
        ∀ p ∈ restored, ∃ e ∈ (reopened dir d).entries, p = e.path) ∧
      r.2 = { dir := some dir, entries := [] } ∧ (reopened dir d').entries = [] ∧
      (∀ e ∈ (reopened dir d).entries, ∃ oldest content,
        (reopened dir d).entries.find? (fun e' => d.place e'.path = d.place e.path) = some oldest ∧
        d.Holds (dir.join oldest.id) content ∧ d'.Holds e.path content) ∧
      (∀ e ∈ (reopened dir d).entries, d'.tree.file? (d.place (draftPath e.path)) = none) ∧
      ∀ q, ¬ d.place dir <+: q → (∀ e ∈ (reopened dir d).entries, q ≠ d.place e.path) →
        (∀ e ∈ (reopened dir d).entries, q ≠ d.place (draftPath e.path)) →
        d'.tree.file? q = d.tree.file? q := by
  generalize hentries : (reopened dir d).entries = entries at h hfaults
  have hstore : reopened dir d = { dir := some dir, entries } := by
    have hdir := dir_reopened dir d
    generalize reopened dir d = s at hentries hdir
    obtain ⟨sdir, sentries⟩ := s
    obtain rfl : sdir = some dir := hdir
    obtain rfl : sentries = entries := hentries
    rfl
  rw [hstore]
  refine (after_recover h hfaults).imp ?_
  rintro _ d' ⟨rfl, hways, hmanifest, hfiles⟩
  obtain ⟨honce, honly⟩ := listed_once entries.reverse
  refine ⟨⟨_, rfl, fun e he => honce e (List.mem_reverse.mpr he), fun p hp => ?_⟩, rfl, ?_, ?_, ?_, ?_⟩
  · obtain ⟨e, he, heq⟩ := honly p hp
    exact ⟨e, List.mem_reverse.mp he, heq⟩
  · rcases hmanifest with ⟨hnil, rfl⟩ | hsaved
    · exact hentries.trans hnil
    · exact entries_reopened_of_saved hsaved
  · intro e he
    cases holdest : entries.find? fun e' => d.place e'.path = d.place e.path with
    | none => exact absurd (List.find?_eq_none.mp holdest e he) (by simp)
    | some oldest =>
        obtain ⟨content, hheld⟩ := (h.each oldest (List.mem_of_find?_eq_some holdest)).stored
        refine ⟨oldest, content, rfl, hheld, (h.each e he).restores.file.holds hways ?_⟩
        rw [hfiles _ (h.each e he).outside, recovered, holdest]
        exact hheld.file?
  · intro e he
    have hunlisted : entries.find? (fun e' => d.place e'.path = d.place (draftPath e.path)) = none := by
      rw [List.find?_eq_none]
      intro e' he' heq
      exact h.undrafted e he e' he' (of_decide_eq_true heq).symm
    rw [hfiles _ (h.each e he).outside_draft, recovered, hunlisted]
    exact if_pos (List.any_eq_true.mpr ⟨e, he, decide_eq_true rfl⟩)
  · intro q hq hunlisted hnodraft
    have hnone : entries.find? (fun e' => d.place e'.path = q) = none := by
      rw [List.find?_eq_none]
      exact fun e' he' heq => hunlisted e' he' (of_decide_eq_true heq).symm
    rw [hfiles q hq, recovered, hnone]
    refine if_neg fun hany => ?_
    obtain ⟨e, he, heq⟩ := List.any_eq_true.mp hany
    exact hnodraft e he (of_decide_eq_true heq).symm

/-- A store in `/b` that lists these entries, beside a project in `/p`. -/
def interrupted (entries : List ManifestEntry) (files : List (Place × String)) : Disk where
  tree :=
    { files := (["b", "manifest.json"], (manifestText entries).toUTF8) ::
        files.map fun f => (f.1, f.2.toUTF8)
      dirs := [["b"], ["p"]] }

def entryOf (id : String) (path : Path) : ManifestEntry := { id, path, createdAt := ⟨0, 0⟩ }

theorem reopened_interrupted {entries : List ManifestEntry} {files : List (Place × String)}
    (htimes : ∀ e ∈ entries, e.createdAt = ⟨0, 0⟩)
    (hmanifest : (interrupted entries files).Writable (manifestPath "/b")) :
    reopened "/b" (interrupted entries files) = { dir := some "/b", entries } := by
  have hplace : Path.placeFrom [] (manifestPath "/b") = ["b", "manifest.json"] := by decide +kernel
  have hheld : (interrupted entries files).Holds (manifestPath "/b") (manifestText entries).toUTF8 := by
    refine hmanifest.holds (.refl _) ?_
    show List.lookup (Path.placeFrom [] (manifestPath "/b")) _ = _
    rw [hplace, interrupted, List.lookup_cons_self]
  rw [reopened_of_holds hheld, entriesOf_manifestText]
  intro e he
  rw [htimes e he]
  exact ⟨by decide +kernel, by decide⟩

/-- Two snapshots of one file, with one of another file between them. -/
def interleaved : List ManifestEntry :=
  [entryOf "s1" "/p/a.py", entryOf "s2" "/p/b.py", entryOf "s3" "/p/a.py"]

def interleavedDisk : Disk :=
  interrupted interleaved
    [(["b", "s1"], "x = 1\n"), (["b", "s2"], "y = 1\n"), (["b", "s3"], "x = 2\n"),
     (["p", "a.py"], "x = 3\n"), (["p", "b.py"], "y = 2\n"), (["p", "c.py"], "z = 1\n")]

theorem reopened_interleaved :
    reopened "/b" interleavedDisk = { dir := some "/b", entries := interleaved } :=
  reopened_interrupted (by decide) (by decide +kernel)

/-- Of two snapshots of a file the first one is put back, and another file stays what it was. -/
theorem oldest_snapshot_of_two_has_last_word :
    Recoverable "/b" interleavedDisk (reopened "/b" interleavedDisk).entries ∧
    OnlyRemovalsFail interleavedDisk (reopened "/b" interleavedDisk).entries.length ∧
    After (recover (reopened "/b" interleavedDisk)) interleavedDisk fun r d' =>
      (∃ restored, r.1 = .ok restored ∧ restored.countP (Path.same "/p/a.py") = 1) ∧
      d'.Holds "/p/a.py" "x = 1\n".toUTF8 ∧
      d'.tree.file? ["p", "c.py"] = interleavedDisk.tree.file? ["p", "c.py"] := by
  have hall : Recoverable "/b" interleavedDisk (reopened "/b" interleavedDisk).entries := by
    rw [reopened_interleaved]
    decide +kernel
  have hfaults : OnlyRemovalsFail interleavedDisk (reopened "/b" interleavedDisk).entries.length :=
    fun _ _ _ _ _ => rfl
  refine ⟨hall, hfaults, (oldest_snapshot_has_last_word "/b" interleavedDisk hall hfaults).imp ?_⟩
  rintro r d' ⟨⟨restored, hok, honce, -⟩, -, -, holdest, -, hother⟩
  rw [reopened_interleaved] at honce holdest hother
  refine ⟨⟨restored, hok, honce (entryOf "s1" "/p/a.py") List.mem_cons_self⟩, ?_, ?_⟩
  · obtain ⟨oldest, content, hfind, hheld, hback⟩ :=
      holdest (entryOf "s1" "/p/a.py") List.mem_cons_self
    have hfirst : interleaved.find? (fun e' => interleavedDisk.place e'.path =
        interleavedDisk.place (entryOf "s1" "/p/a.py").path) =
          some (entryOf "s1" "/p/a.py") := by decide +kernel
    have hstored : interleavedDisk.tree.file?
        (interleavedDisk.place (Path.join "/b" (entryOf "s1" "/p/a.py").id)) =
          some "x = 1\n".toUTF8 := by decide +kernel
    rw [hfirst] at hfind
    rw [← Option.some.inj hfind] at hheld
    rw [← Option.some.inj (hheld.file?.symm.trans hstored)]
    exact hback
  · exact hother ["p", "c.py"] (by decide +kernel) (by decide +kernel) (by decide +kernel)

/-- A project with a file where the draft of another one goes. -/
def draftBeside : Disk :=
  interrupted [entryOf "s1" "/p/a.py"]
    [(["b", "s1"], "x = 1\n"), (["p", "a.py"], "x = 2\n"),
     (["p", ".a.py.archfix-tmp"], "draft\n")]

/-- Two entries with one snapshot. -/
def sharedSnapshot : Disk :=
  interrupted [entryOf "s1" "/p/a.py", entryOf "s1" "/p/b.py"]
    [(["b", "s1"], "x = 1\n"), (["p", "a.py"], "x = 2\n"), (["p", "b.py"], "x = 3\n")]

/-- Two entries for one file, under two paths. -/
def twoPaths : Disk :=
  interrupted [entryOf "s1" "/p/a.py", entryOf "s2" "/p/../p/a.py"]
    [(["b", "s1"], "x = 1\n"), (["b", "s2"], "x = 2\n"), (["p", "a.py"], "x = 3\n")]

/-- An entry whose snapshot is a file of the project. -/
def snapshotOutside : Disk :=
  interrupted [entryOf "../p/c.py" "/p/a.py"] [(["p", "a.py"], "x = 1\n"), (["p", "c.py"], "x = 2\n")]

/-- All snapshots that the manifest lists can be read, and no operation fails. -/
def Intact (d : Disk) : Prop :=
  d.Sound ∧ ∀ e ∈ (reopened "/b" d).entries, d.Readable (Path.join "/b" e.id)

/-- What a recovery answers, and the disk that it leaves. -/
def afterRecovery (d : Disk) : (Except BackupError (List Path) × BackupStore) × Disk :=
  (recover (reopened "/b" d)).run d

/-- A recovery cannot promise this much of any manifest.  A file that lies where the draft of a
listed one goes is lost, and so is one that an entry has for its snapshot; of two entries with one
snapshot the first is not put back; and a file that is listed under two paths is listed twice. -/
theorem recovery_needs_conditions :
    (Intact draftBeside ∧ (afterRecovery draftBeside).1.1 = .ok ["/p/a.py"] ∧
      draftBeside.tree.file? ["p", ".a.py.archfix-tmp"] = some "draft\n".toUTF8 ∧
      (afterRecovery draftBeside).2.tree.file? ["p", ".a.py.archfix-tmp"] = none) ∧
    (Intact snapshotOutside ∧ (afterRecovery snapshotOutside).1.1 = .ok ["/p/a.py"] ∧
      snapshotOutside.tree.file? ["p", "c.py"] = some "x = 2\n".toUTF8 ∧
      (afterRecovery snapshotOutside).2.tree.file? ["p", "c.py"] = none) ∧
    (Intact sharedSnapshot ∧
      (afterRecovery sharedSnapshot).1.1 = .error (.restoreFailed "/p/a.py" .notFound)) ∧
    Intact twoPaths ∧ (afterRecovery twoPaths).1.1 = .ok ["/p/../p/a.py", "/p/a.py"] ∧
    twoPaths.place "/p/../p/a.py" = twoPaths.place "/p/a.py" := by
  have hdraft : reopened "/b" draftBeside =
      { dir := some "/b", entries := [entryOf "s1" "/p/a.py"] } :=
    reopened_interrupted (by decide) (by decide +kernel)
  have houtside : reopened "/b" snapshotOutside =
      { dir := some "/b", entries := [entryOf "../p/c.py" "/p/a.py"] } :=
    reopened_interrupted (by decide) (by decide +kernel)
  have hshared : reopened "/b" sharedSnapshot =
      { dir := some "/b", entries := [entryOf "s1" "/p/a.py", entryOf "s1" "/p/b.py"] } :=
    reopened_interrupted (by decide) (by decide +kernel)
  have hpaths : reopened "/b" twoPaths =
      { dir := some "/b", entries := [entryOf "s1" "/p/a.py", entryOf "s2" "/p/../p/a.py"] } :=
    reopened_interrupted (by decide) (by decide +kernel)
  unfold Intact afterRecovery
  rw [hdraft, houtside, hshared, hpaths]
  refine ⟨⟨⟨fun _ => rfl, ?_⟩, ?_, ?_, ?_⟩, ⟨⟨fun _ => rfl, ?_⟩, ?_, ?_, ?_⟩,
    ⟨⟨fun _ => rfl, ?_⟩, ?_⟩, ⟨fun _ => rfl, ?_⟩, ?_, ?_⟩
  all_goals decide +kernel

end BackupStore

end Plumbline
