/-
Batches are as full as they can be.

The files of a call are split into batches from left to right, and a batch is closed only when the next
path no longer fits (`full_fillBatches`).  That leaves no choice: of two splits in which every batch is
closed for that reason, neither can have a first batch that goes on where the other one's ends
(`Full.prefix_head`), so there is one such split, and it is the one that is made.
-/
import Mathlib.Data.List.Chain
import Plumbline.Remedy.Formatter

namespace Plumbline.Formatter

/-- Bytes that the paths of a batch take among the arguments. -/
def batchSize : List Path → Nat
  | [] => 0
  | p :: batch => argSize p + batchSize batch

@[simp] theorem batchSize_nil : batchSize [] = 0 := rfl

@[simp] theorem batchSize_cons (p : Path) (batch : List Path) :
    batchSize (p :: batch) = argSize p + batchSize batch := rfl

@[simp] theorem batchSize_append (batch more : List Path) :
    batchSize (batch ++ more) = batchSize batch + batchSize more := by
  induction batch with
  | nil => simp
  | cons p batch ih => simp [ih, Nat.add_assoc]

/-- The first path of the batch `next` no longer fits into `batch`. -/
def Overflows (budget : Nat) (batch next : List Path) : Prop :=
  ∃ p rest, next = p :: rest ∧ budget < batchSize batch + argSize p

/-- The batches are the files, each batch in turn as full as the budget allows. -/
structure Full (budget : Nat) (files : List Path) (batches : List (List Path)) : Prop where
  /-- No file is lost, none is repeated, and they keep their order. -/
  files : batches.flatten = files
  nonempty : ∀ batch ∈ batches, batch ≠ []
  /-- Only a path that is too long by itself takes a batch over the budget. -/
  alone : ∀ batch ∈ batches, budget < batchSize batch → ∃ p, batch = [p]
  /-- A batch is closed because the next path does not fit. -/
  closed : batches.IsChain (Overflows budget)

section Filling

variable {budget : Nat}

/-- The batch under construction is where the first batch starts. -/
theorem exists_fillBatches (batch : List Path) (used : Nat) (files : List Path) :
    ∃ more rest, fillBatches budget batch used files = (batch ++ more) :: rest := by
  induction files generalizing batch used with
  | nil => exact ⟨[], [], by rw [fillBatches, List.append_nil]⟩
  | cons p files ih =>
      by_cases hover : used + argSize p > budget
      · refine ⟨[], fillBatches budget [p] (argSize p) files, ?_⟩
        rw [fillBatches, if_pos hover, List.append_nil]
      · obtain ⟨more, rest, heq⟩ := ih (batch ++ [p]) (used + argSize p)
        refine ⟨p :: more, rest, ?_⟩
        rw [fillBatches, if_neg hover, heq, List.append_assoc, List.singleton_append]

/-- **What the loop keeps.** A batch under construction that is within the budget, or holds one path
only, becomes the first of batches that are full. -/
theorem full_fillBatches (batch files : List Path) (hne : batch ≠ [])
    (halone : budget < batchSize batch → ∃ p, batch = [p]) :
    Full budget (batch ++ files) (fillBatches budget batch (batchSize batch) files) := by
  induction files generalizing batch with
  | nil =>
      rw [fillBatches]
      exact ⟨by simp, by simpa using hne, by simpa using halone, .singleton batch⟩
  | cons p files ih =>
      by_cases hover : batchSize batch + argSize p > budget
      · -- the batch is closed, and a new one starts with the path
        have hrest : Full budget (p :: files) (fillBatches budget [p] (argSize p) files) :=
          ih [p] (by simp) fun _ => ⟨p, rfl⟩
        obtain ⟨more, rest, heq⟩ : ∃ more rest,
            fillBatches budget [p] (argSize p) files = ([p] ++ more) :: rest :=
          exists_fillBatches [p] (argSize p) files
        rw [fillBatches, if_pos hover]
        refine ⟨?_, ?_, ?_, ?_⟩
        · rw [List.flatten_cons, hrest.files]
        · exact List.forall_mem_cons.mpr ⟨hne, hrest.nonempty⟩
        · exact List.forall_mem_cons.mpr ⟨halone, hrest.alone⟩
        · have hclosed := hrest.closed
          rw [heq] at hclosed ⊢
          exact .cons_cons ⟨p, more, rfl, hover⟩ hclosed
      · have hsize : batchSize batch + argSize p = batchSize (batch ++ [p]) := by simp
        have hfits : ¬ budget < batchSize (batch ++ [p]) := by omega
        have hmore := ih (batch ++ [p]) (by simp) fun h => absurd h hfits
        rw [fillBatches, if_neg hover, hsize]
        rwa [List.append_assoc, List.singleton_append] at hmore

/-- The first batch of a full split does not go on where the first batch of another one ends. -/
theorem Full.prefix_head {files batch batch' : List Path} {rest rest' : List (List Path)}
    (h : Full budget files (batch :: rest)) (h' : Full budget files (batch' :: rest'))
    (hfront : batch <+: batch') : batch = batch' := by
  obtain ⟨more, rfl⟩ := hfront
  cases more with
  | nil => rw [List.append_nil]
  | cons p more =>
      exfalso
      -- the path behind the shorter batch is the first of the next batch there
      have hflat : rest.flatten = p :: more ++ rest'.flatten := by
        have hfiles := h.files.trans h'.files.symm
        simpa using hfiles
      obtain ⟨next, rest, rfl⟩ : ∃ next rest₁, rest = next :: rest₁ := by
        cases rest with
        | nil => exact absurd hflat (by simp)
        | cons next rest => exact ⟨next, rest, rfl⟩
      obtain ⟨q, tail, rfl, hover⟩ := (List.isChain_cons_cons.mp h.closed).1
      obtain rfl : q = p := by
        have hhead : (q :: tail ++ rest.flatten).head? = (p :: more ++ rest'.flatten).head? :=
          congrArg List.head? hflat
        simpa using hhead
      have hsize : batchSize (batch ++ q :: more) = batchSize batch + (argSize q + batchSize more) := by
        simp
      obtain ⟨r, hr⟩ := h'.alone _ List.mem_cons_self (by omega)
      have hne := h.nonempty batch List.mem_cons_self
      cases batch with
      | nil => exact hne rfl
      | cons b batch => simp at hr

/-- Full batches behind a first one are full batches of the other files. -/
theorem Full.tail {files batch : List Path} {rest : List (List Path)}
    (h : Full budget files (batch :: rest)) : Full budget rest.flatten rest where
  files := rfl
  nonempty b hb := h.nonempty b (List.mem_cons_of_mem _ hb)
  alone b hb := h.alone b (List.mem_cons_of_mem _ hb)
  closed := h.closed.tail

/-- Files are split into full batches in one way only. -/
theorem Full.unique {files : List Path} {bs cs : List (List Path)} (hb : Full budget files bs)
    (hc : Full budget files cs) : bs = cs := by
  induction bs generalizing files cs with
  | nil =>
      obtain rfl : files = [] := hb.files.symm
      cases cs with
      | nil => rfl
      | cons c cs =>
          have hnil := List.flatten_eq_nil_iff.mp hc.files c List.mem_cons_self
          exact absurd hnil (hc.nonempty c List.mem_cons_self)
  | cons b bs ih =>
      cases cs with
      | nil =>
          obtain rfl : files = [] := hc.files.symm
          have hnil := List.flatten_eq_nil_iff.mp hb.files b List.mem_cons_self
          exact absurd hnil (hb.nonempty b List.mem_cons_self)
      | cons c cs =>
          have hfiles : b ++ bs.flatten = c ++ cs.flatten := by
            simpa using hb.files.trans hc.files.symm
          have hhead : b = c := by
            rcases List.prefix_or_prefix_of_prefix (List.prefix_append b bs.flatten)
                (hfiles ▸ List.prefix_append c cs.flatten) with hle | hle
            · exact hb.prefix_head hc hle
            · exact (hc.prefix_head hb hle).symm
          subst hhead
          have hrest : bs.flatten = cs.flatten := List.append_cancel_left hfiles
          rw [ih hb.tail (hrest ▸ hc.tail)]

end Filling

/-- **Files are split into batches as full as the budget allows.** The batches are the files in their
order, none is empty, only a single path takes more than the budget, and no batch could have taken the
first path of the next one; and there are no other batches of which all this is true. -/
theorem full_iff_eq_batches (budget : Nat) (files : List Path) (bs : List (List Path)) :
    Full budget files bs ↔ bs = batches budget files := by
  have hfull : Full budget files (batches budget files) := by
    cases files with
    | nil => exact ⟨rfl, by simp [batches], by simp [batches], .nil⟩
    | cons p files => exact full_fillBatches [p] files (by simp) fun _ => ⟨p, rfl⟩
  constructor
  · exact fun h => h.unique hfull
  · rintro rfl
    exact hfull

/-- A path that is too long stands alone. -/
example : batches 12 ["a.py", "bb.py", "ccc.py", "a_very_long_name.py"] =
    [["a.py", "bb.py"], ["ccc.py"], ["a_very_long_name.py"]] := by decide +kernel

end Plumbline.Formatter
