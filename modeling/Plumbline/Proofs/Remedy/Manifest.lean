/-
A manifest that is written lists what it was written with.

Only the times of the entries could be lost on the way: the years that can be told are limited, and
a manifest with one time that cannot be read lists nothing.  So whatever is listed has the name and
the path of an entry that was written (`exists_of_mem_entriesOf`), and if all times can be told, the
entries come back as they were (`entriesOf_manifestText`).

`reopened` is the store that a run would find on a disk whose operations no longer fail.
-/
import Plumbline.Proofs.Remedy.Store
import Plumbline.Proofs.Text.Json
import Plumbline.Proofs.Text.Timestamp

namespace Plumbline

open DiskM Disk

/-! ### Entries -/

/-- A time that can be written so that it is read back. -/
structure Timestamp.IsTellable (t : Timestamp) : Prop where
  year : isYear (civilDate t.days).1 = true
  nanos : t.nanos < nanosPerSecond

namespace BackupStore

/-- An entry with its time as it is read back. -/
def reread? (e : ManifestEntry) : Option ManifestEntry :=
  (Timestamp.parse? e.createdAt.render).map fun t => { e with createdAt := t }

theorem entry?_entryJson (e : ManifestEntry) : entry? (entryJson e) = reread? e := by
  unfold reread?
  cases h : Timestamp.parse? e.createdAt.render <;>
    simp [ entry?, entryJson, Decode.fields?, Decode.string?, h]

theorem reread?_of_isTellable {e : ManifestEntry} (h : e.createdAt.IsTellable) :
    reread? e = some e := by
  rw [reread?, Timestamp.parse?_render h.year h.nanos]
  rfl

theorem isPlain_entryJson (e : ManifestEntry) : Json.isPlain (entryJson e) = true := rfl

theorem arePlain_entries (entries : List ManifestEntry) :
    Json.arePlain (entries.map entryJson) = true := by
  induction entries with
  | nil => rfl
  | cons e rest ih => rw [List.map_cons, Json.arePlain, isPlain_entryJson, ih]; rfl

/-- **What a manifest lists** are the entries it was written with, as their times are read back. -/
theorem entriesOf_manifestText_eq (entries : List ManifestEntry) :
    entriesOf (manifestText entries) = (entries.mapM reread?).getD [] := by
  have hplain : Json.isPlain (.obj [("entries", .arr (entries.map entryJson))]) = true := by
    simp [Json.isPlain, Json.arePlainFields, arePlain_entries]
  have hread : manifest? (.obj [("entries", .arr (entries.map entryJson))]) =
      entries.mapM reread? := by
    have hitems : (entries.map entryJson).mapM entry? = entries.mapM reread? := by
      rw [List.mapM_map, show entry? ∘ entryJson = reread? from funext entry?_entryJson]
    simp [manifest?, Decode.fields?, Decode.list?, hitems]
  rw [entriesOf, manifestText, Json.parse?_pretty hplain, Option.bind_some, hread]

/-- **Entries whose times can be told come back as they were.** -/
theorem entriesOf_manifestText {entries : List ManifestEntry}
    (h : ∀ e ∈ entries, e.createdAt.IsTellable) : entriesOf (manifestText entries) = entries := by
  have hall : entries.mapM reread? = some entries := by
    induction entries with
    | nil => rfl
    | cons e rest ih =>
        have hrest := ih fun e' he' => h e' (List.mem_cons_of_mem e he')
        rw [List.mapM_cons, reread?_of_isTellable (h e List.mem_cons_self), hrest]
        rfl
  rw [entriesOf_manifestText_eq, hall]
  rfl

theorem mem_of_mem_mapM {α β : Type} {f : α → Option β} {as : List α} {bs : List β} {b : β}
    (h : as.mapM f = some bs) (hb : b ∈ bs) : ∃ a ∈ as, f a = some b := by
  induction as generalizing bs with
  | nil =>
      obtain rfl : [] = bs := Option.some.inj h
      exact absurd hb (by simp)
  | cons a as ih =>
      rw [List.mapM_cons] at h
      obtain ⟨first, hfirst, h⟩ := Option.bind_eq_some_iff.mp h
      obtain ⟨rest, hrest, h⟩ := Option.bind_eq_some_iff.mp h
      obtain rfl : first :: rest = bs := Option.some.inj h
      rcases List.mem_cons.mp hb with rfl | hmem
      · exact ⟨a, List.mem_cons_self, hfirst⟩
      · obtain ⟨a', ha', hf⟩ := ih hrest hmem
        exact ⟨a', List.mem_cons_of_mem a ha', hf⟩

/-- What is listed was written, up to its time. -/
theorem exists_of_mem_entriesOf {entries : List ManifestEntry} {e : ManifestEntry}
    (h : e ∈ entriesOf (manifestText entries)) : ∃ e' ∈ entries, e.id = e'.id ∧ e.path = e'.path := by
  rw [entriesOf_manifestText_eq] at h
  cases hall : entries.mapM reread? with
  | none =>
      rw [hall] at h
      exact absurd h (by simp)
  | some listed =>
      rw [hall] at h
      obtain ⟨e', he', hreread⟩ := mem_of_mem_mapM hall h
      obtain ⟨t, -, rfl⟩ := Option.map_eq_some_iff.mp hreread
      exact ⟨e', he', rfl, rfl⟩

/-! ### Reopening a store -/

theorem fromUTF8?_toUTF8 (s : String) : String.fromUTF8? s.toUTF8 = some s :=
  dif_pos s.isValidUTF8

end BackupStore

/-- The disk when its operations no longer fail. -/
def Disk.repaired (d : Disk) : Disk := { d with faults := fun _ => none }

theorem Disk.sound_repaired (d : Disk) : d.repaired.Sound := fun _ => rfl

namespace BackupStore

/-- The store that is found in a directory. -/
def reopened (dir : Path) (d : Disk) : BackupStore := ((onDisk dir).run d.repaired).1

theorem dir_reopened (dir : Path) (d : Disk) : (reopened dir d).dir = some dir := by
  have hafter : After (onDisk dir) d.repaired fun s _ => s.dir = some dir := by
    refine after_bind ((after_readText _ _).imp fun r _ _ => ?_)
    cases r <;> rfl
  exact hafter

/-- A manifest that can be read lists what stands in it. -/
theorem reopened_of_holds {dir : Path} {d : Disk} {text : String}
    (h : d.Holds (manifestPath dir) text.toUTF8) :
    reopened dir d = { dir := some dir, entries := entriesOf text } := by
  have hread : After (readText (manifestPath dir)) d.repaired fun r d' =>
      r = .ok text ∧ d' = { d.repaired with steps := d.steps + 1 } := by
    refine after_get (after_look_ok rfl ?_)
    show (d.tree.locate d.cwd (manifestPath dir) >>= d.tree.readText) = _
    rw [h.located]
    show d.tree.readText _ = _
    rw [FileTree.readText, h.read]
    simp only [fromUTF8?_toUTF8]
  have hafter : After (onDisk dir) d.repaired fun s _ =>
      s = { dir := some dir, entries := entriesOf text } := by
    refine after_bind (hread.imp ?_)
    rintro _ _ ⟨rfl, -⟩
    rfl
  exact hafter

/-- Whatever a store lists when it is reopened stands in its manifest. -/
theorem holds_of_mem_reopened {dir : Path} {d : Disk} {e : ManifestEntry}
    (h : e ∈ (reopened dir d).entries) : ∃ content text, d.Holds (manifestPath dir) content ∧
      String.fromUTF8? content = some text ∧ e ∈ entriesOf text := by
  have hafter : After (onDisk dir) d.repaired fun s _ => e ∈ s.entries →
      ∃ content text, d.Holds (manifestPath dir) content ∧
        String.fromUTF8? content = some text ∧ e ∈ entriesOf text := by
    refine after_bind ((after_readText _ _).imp ?_)
    rintro (cause | text) d' ⟨-, hread⟩ hmem
    · exact absurd hmem List.not_mem_nil
    · obtain ⟨content, hheld, htext⟩ := hread text rfl
      exact ⟨content, text, ⟨hheld.located, hheld.read⟩, htext, hmem⟩
  exact hafter h

end BackupStore

end Plumbline
