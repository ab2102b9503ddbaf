import Mathlib.Data.List.Basic

/-!
# Painting in order

A picture is a list of strokes, each of which covers some points with one colour. The strokes are
painted in the order of the list, so what is seen at a point is the last stroke that covers it.

A picture made of layers shows, at a point, what the last layer shows that shows anything there.
-/

namespace Painting

/-- Some points, and their colour. -/
structure Stroke (P C : Type) where
  covers : P → Bool
  colour : C

variable {P C : Type} {strokes strokes' : List (Stroke P C)} {p : P} {c : C}

/-- What is seen at a point. -/
def seen (strokes : List (Stroke P C)) (p : P) : Option C :=
  (strokes.reverse.find? fun s => s.covers p).map Stroke.colour

/-- What is painted later is seen first. -/
theorem seen_append : seen (strokes ++ strokes') p = (seen strokes' p).or (seen strokes p) := by
  unfold seen
  rw [List.reverse_append, List.find?_append]
  cases strokes'.reverse.find? fun s => s.covers p <;> rfl

theorem seen_eq_none : seen strokes p = none ↔ ∀ s ∈ strokes, s.covers p = false := by
  unfold seen
  rw [Option.map_eq_none_iff, List.find?_eq_none]
  simp

/-- What is seen was painted. -/
theorem seen_some (h : seen strokes p = some c) :
    ∃ s ∈ strokes, s.covers p = true ∧ s.colour = c := by
  obtain ⟨s, hs, hc⟩ := Option.map_eq_some_iff.mp h
  have hcovers : s.covers p = true :=
    List.find?_some (p := fun s : Stroke P C => s.covers p) hs
  exact ⟨s, List.mem_reverse.mp (List.mem_of_find?_eq_some hs), hcovers, hc⟩

/-- Where all strokes are of one colour, it is the one seen. -/
theorem seen_of_all (hall : ∀ s ∈ strokes, s.covers p = true → s.colour = c)
    (hsome : ∃ s ∈ strokes, s.covers p = true) : seen strokes p = some c := by
  rcases h : seen strokes p with _ | c'
  · obtain ⟨s, hs, hcovers⟩ := hsome
    rw [seen_eq_none.mp h s hs] at hcovers
    cases hcovers
  · obtain ⟨s, hs, hcovers, rfl⟩ := seen_some h
    rw [hall s hs hcovers]

/-- The layers of a picture, the first at the bottom. -/
def layered (layers : List (Option C)) : Option C := layers.foldl (fun below c => c.or below) none

/-- **A layered picture.** It shows what its topmost layer shows that shows anything. -/
theorem seen_flatten (layers : List (List (Stroke P C))) (p : P) :
    seen layers.flatten p = layered (layers.map fun layer => seen layer p) := by
  unfold layered
  rw [List.foldl_map]
  suffices h : ∀ below : List (Stroke P C), seen (below ++ layers.flatten) p
      = layers.foldl (fun below layer => (seen layer p).or below) (seen below p) from h []
  induction layers with
  | nil =>
      intro below
      rw [List.flatten_nil, List.append_nil]
      rfl
  | cons layer layers ih =>
      intro below
      rw [List.flatten_cons, ← List.append_assoc, ih, List.foldl_cons, seen_append]

end Painting
