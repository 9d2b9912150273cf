/-
What becomes of a module.

A source is divided at a byte if only statements and blocks go on over it: no bracket is open there,
and no line joined to the next one.  If it is divided where the new line goes in, then whatever is
spelled in the source is spelled the same in the outcome, so the tree of the outcome is that of the
source with a comment, and the skeleton stays.
-/
import Plumbline.Proofs.Insertion.Reading
import Plumbline.Proofs.Module.Skeleton

namespace Plumbline

namespace Syntax

/-! ### Divided sources -/

namespace Tree

mutual

/-- Does nothing in a part of a construct with such room go on over byte `n`, apart from statements
and blocks? -/
def isDivided (n : Nat) (room : Room) : Tree → Bool
  | .node k f s cs => (s.stop ≤ n || n ≤ s.start || room.admits f k) && areDivided n k.room cs

def areDivided (n : Nat) (room : Room) : List Tree → Bool
  | [] => true
  | t :: ts => t.isDivided n room && areDivided n room ts

end

end Tree

namespace CommentPlace

variable {i : CommentPlace} {n : Nat} {room : Room} {t u : Tree} {cs ds : List Tree}

/-- What lies on one side of the new line is spelled the same. -/
theorem sameText_moveSpan {s : Span} (h : s.stop ≤ i.start ∨ i.start ≤ s.start) :
    SameText i.source i.outcome s (i.moveSpan s) := by
  by_cases hle : s.stop ≤ s.start
  · have hmoved : (i.moveSpan s).stop ≤ (i.moveSpan s).start := by
      unfold moveSpan
      dsimp only
      split <;> split <;> omega
    refine ⟨?_, ?_⟩
    · rw [Span.text, Span.text, sliceBytes_of_le _ hle, sliceBytes_of_le _ hmoved]
    · rw [Nat.sub_eq_zero_of_le hle, Nat.sub_eq_zero_of_le hmoved]
  · rcases h with hstop | hstart
    · have hmoved : i.moveSpan s = s := by
        unfold moveSpan
        rw [if_pos (by omega), if_pos hstop, if_pos (by omega)]
      rw [hmoved]
      refine ⟨?_, rfl⟩
      rw [Span.text, Span.text, source, outcome, List.append_assoc, sliceBytes_front _ _ hstop,
        sliceBytes_front _ _ hstop]
    · have hmoved : (i.moveSpan s).start = s.start + byteSize i.line ∧
          (i.moveSpan s).stop = s.stop + byteSize i.line := by
        unfold moveSpan
        exact ⟨if_neg (by omega), if_neg (by omega)⟩
      obtain ⟨a, ha⟩ := Nat.exists_eq_add_of_le hstart
      obtain ⟨b, hb⟩ := Nat.exists_eq_add_of_le (show i.start ≤ s.stop by omega)
      refine ⟨?_, by omega⟩
      have hline : i.start + byteSize i.line = byteSize (i.before ++ i.line) := (byteSize_append _ _).symm
      rw [Span.text, Span.text, hmoved.1, hmoved.2, ha, hb, Nat.add_right_comm i.start a,
        Nat.add_right_comm i.start b, hline]
      unfold source outcome start
      rw [sliceBytes_back, sliceBytes_back]

mutual

theorem IsMoved.isCommented {n : Nat} {room : Room} {t u : Tree} (h : i.IsMoved n t u)
    (hsound : t.Sound i.source) (hdivided : t.isDivided i.start room = true) :
    IsCommented i.source i.outcome room t u := by
  match t, u, h with
  | .node k f s cs, .node k' f' s' ds, h =>
      obtain rfl : k' = k := h.kind
      obtain rfl : f' = f := h.field
      obtain rfl : s' = i.moveSpan s := h.span
      rw [Tree.isDivided, Bool.and_eq_true] at hdivided
      obtain ⟨hspan, hparts⟩ := hdivided
      have hspelled : room.admits f' k' = false → SameText i.source i.outcome s (i.moveSpan s) :=
        fun hroom => sameText_moveSpan (by simpa [hroom] using hspan)
      by_cases hstring : k' = .string
      · subst hstring
        exact .text (hspelled (Room.admits_of_nothing rfl))
      · by_cases htyped : k' = .typedParameter
        · subst htyped
          have hspelled := hspelled (Room.admits_of_nothing rfl)
          cases h with
          | node hk _ => exact absurd hk nofun
          | @first _ _ _ c d cs ds _ _ _ hc hrest =>
              obtain ⟨hfirst, hothers⟩ := allSound_cons.mp hsound.parts
              rw [Tree.areDivided, Bool.and_eq_true] at hparts
              exact .first hspelled (hc.isCommented hfirst hparts.1)
                (AreMoved.areCommented hrest hothers hparts.2)
        · have hall : i.AreMoved n cs ds := h.children hstring
          exact .node htyped hspelled hsound.promises.roles
            (AreMoved.areCommented hall hsound.parts hparts)
termination_by sizeOf u

theorem AreMoved.areCommented {n : Nat} {room : Room} {cs ds : List Tree} (h : i.AreMoved n cs ds)
    (hsound : AllSound i.source cs) (hdivided : Tree.areDivided i.start room cs = true) :
    AreCommented i.source i.outcome room cs ds := by
  match cs, ds, h with
  | _, [], h =>
      cases h
      exact .nil
  | c :: cs, d :: ds, .cons hc h =>
      rw [Tree.areDivided, Bool.and_eq_true] at hdivided
      rw [allSound_cons] at hsound
      exact .cons (hc.isCommented hsound.1 hdivided.1) (AreMoved.areCommented h hsound.2 hdivided.2)
  | cs, _ :: ds, .leaf h => exact .comment (AreMoved.areCommented h hsound hdivided)
termination_by sizeOf ds

end

/-- The tree of a source file is that of a module. -/
theorem kind_parse {text : String} {t : Tree} (h : parse text = .ok t) : t.kind = .module := by
  unfold parse at h
  split at h
  · rename_i hdone
    cases h
    exact Parser.Answers.node (· = .module) rfl _ _ _ hdone
  · exact absurd h nofun

/-- **A comment between two statements leaves the skeleton as it was.** -/
theorem skeleton_outcome {text text' : String} (h : text.toList = i.source)
    (h' : text'.toList = i.outcome) {t t' : Tree} (ht : parse text = .ok t) (ht' : parse text' = .ok t')
    (hdivided : Tree.areDivided i.start .lines t.children = true) (path : Path) (name : String) :
    (Module.ofTree path name text' t').skeleton = (Module.ofTree path name text t).skeleton := by
  have hmoved := isMoved_parse h h' ht ht'
  have hsound := sound_parse ht
  rw [h] at hsound
  have hparts : i.AreMoved 1 t.children t'.children :=
    hmoved.children (by rw [kind_parse ht]; exact nofun)
  have hchildren := AreMoved.areCommented hparts hsound.children hdivided
  have hskeleton := Lower.skeleton_stmts hchildren [] false
  rw [← h, ← h'] at hskeleton
  exact hskeleton.symm

end CommentPlace

end Syntax

end Plumbline
