import Mathlib.Data.List.Basic
import Mathlib.Logic.Function.Basic

/-!
# Painting

A picture has a value at every place. Strokes put values at places, one after the other, and the
last stroke at a place is the one that is seen.
-/

namespace Painting

variable {κ β : Type*} [DecidableEq κ]

/-- The picture after some strokes. -/
def paint (f : κ → β) (strokes : List (κ × β)) : κ → β :=
  strokes.foldl (fun f stroke => Function.update f stroke.1 stroke.2) f

variable {f : κ → β} {strokes : List (κ × β)} {k : κ} {b : β}

lemma paint_cons (stroke : κ × β) :
    paint f (stroke :: strokes) = paint (Function.update f stroke.1 stroke.2) strokes := rfl

lemma paint_append (f : κ → β) (strokes strokes' : List (κ × β)) :
    paint f (strokes ++ strokes') = paint (paint f strokes) strokes' := List.foldl_append

/-- A place without a stroke keeps its value. -/
lemma paint_of_notMem (h : ∀ stroke ∈ strokes, stroke.1 ≠ k) : paint f strokes k = f k := by
  induction strokes generalizing f with
  | nil => rfl
  | cons stroke strokes ih =>
    obtain ⟨hstroke, hstrokes⟩ := List.forall_mem_cons.mp h
    rw [paint_cons, ih hstrokes, Function.update_of_ne hstroke.symm]

/-- At a place with a stroke, one of the strokes is seen. -/
lemma exists_paint_eq (h : ∃ stroke ∈ strokes, stroke.1 = k) :
    ∃ stroke ∈ strokes, stroke.1 = k ∧ paint f strokes k = stroke.2 := by
  induction strokes generalizing f with
  | nil =>
    obtain ⟨stroke, hmem, -⟩ := h
    exact absurd hmem List.not_mem_nil
  | cons stroke strokes ih =>
    by_cases hrest : ∃ stroke ∈ strokes, stroke.1 = k
    · obtain ⟨last, hmem, hk, hpaint⟩ := ih hrest
      exact ⟨last, List.mem_cons_of_mem _ hmem, hk, hpaint⟩
    · have hk : stroke.1 = k := by
        obtain ⟨first, hmem, hk⟩ := h
        rcases List.mem_cons.mp hmem with rfl | hmem
        · exact hk
        · exact absurd ⟨first, hmem, hk⟩ hrest
      refine ⟨stroke, List.mem_cons_self, hk, ?_⟩
      subst hk
      rw [paint_cons, paint_of_notMem, Function.update_self]
      exact fun stroke' hmem heq => hrest ⟨stroke', hmem, heq⟩

/-- What all strokes at a place put there is seen. -/
lemma paint_eq_of_forall (hmem : (k, b) ∈ strokes)
    (hall : ∀ stroke ∈ strokes, stroke.1 = k → stroke.2 = b) : paint f strokes k = b := by
  obtain ⟨stroke, hstroke, hk, hpaint⟩ := exists_paint_eq (f := f) ⟨(k, b), hmem, rfl⟩
  rw [hpaint, hall stroke hstroke hk]

/-- One stroke at each of some places, with the value that a picture has there. -/
lemma paint_map (f g : κ → β) (ks : List κ) (k : κ) :
    paint f (ks.map fun k => (k, g k)) k = if k ∈ ks then g k else f k := by
  split_ifs with hk
  · have hmem : (k, g k) ∈ ks.map fun k => (k, g k) := List.mem_map.mpr ⟨k, hk, rfl⟩
    refine paint_eq_of_forall hmem ?_
    intro stroke hstroke hplace
    obtain ⟨k', -, rfl⟩ := List.mem_map.mp hstroke
    exact congrArg g hplace
  · apply paint_of_notMem
    intro stroke hstroke hplace
    obtain ⟨k', hk', rfl⟩ := List.mem_map.mp hstroke
    exact hk (hplace ▸ hk')

end Painting
