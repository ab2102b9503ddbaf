import Mathlib.Data.List.Forall2

/-!
# Mapping a function that may fail

`mapM` in `Option`: there is a result when the function has one for every element, and then the
two lists correspond element by element.
-/

namespace PartialMap

variable {α β γ : Type} {f : α → Option β}

theorem mapM_some_iff {l : List α} {bs : List β} :
    l.mapM f = some bs ↔ List.Forall₂ (fun a b => f a = some b) l bs := by
  induction l generalizing bs with
  | nil =>
      rw [List.forall₂_nil_left_iff, List.mapM_nil]
      exact ⟨fun h => (Option.some.inj h).symm, fun h => congrArg some h.symm⟩
  | cons a l ih =>
      rw [List.mapM_cons, List.forall₂_cons_left_iff]
      simp only [Option.bind_eq_bind, Option.bind_eq_some_iff, ih, Option.pure_def,
        Option.some.injEq]
      constructor
      · intro h
        obtain ⟨b, hb, bs', hbs, rfl⟩ := h
        exact ⟨b, bs', hb, hbs, rfl⟩
      · intro h
        obtain ⟨b, bs', hb, hbs, rfl⟩ := h
        exact ⟨b, hb, bs', hbs, rfl⟩

theorem mapM_isSome_iff {l : List α} : (l.mapM f).isSome ↔ ∀ a ∈ l, (f a).isSome := by
  induction l with
  | nil => exact ⟨fun _ _ ha => absurd ha List.not_mem_nil, fun _ => rfl⟩
  | cons a l ih =>
      rw [List.mapM_cons, List.forall_mem_cons, ← ih]
      cases f a <;> cases l.mapM f <;> simp

/-- What comes of the results comes of the list of them. -/
theorem mapM_map {l : List α} {bs : List β} (g : β → γ) (h : l.mapM f = some bs) :
    (l.mapM fun a => (f a).map g) = some (bs.map g) := by
  rw [mapM_some_iff] at h ⊢
  refine List.forall₂_map_right_iff.mpr (h.imp ?_)
  intro a b hab
  rw [hab]
  rfl

/-- A list in pieces. -/
theorem mapM_flatten {ls : List (List α)} {bs : List β} (h : ls.flatten.mapM f = some bs) :
    ∃ bss, (ls.mapM fun l => l.mapM f) = some bss ∧ bss.flatten = bs := by
  induction ls generalizing bs with
  | nil => exact ⟨[], rfl, Option.some.inj h⟩
  | cons l ls ih =>
      rw [List.flatten_cons, List.mapM_append] at h
      obtain ⟨cs, hcs, h⟩ := Option.bind_eq_some_iff.mp h
      obtain ⟨ds, hds, h⟩ := Option.bind_eq_some_iff.mp h
      obtain ⟨bss, hbss, rfl⟩ := ih hds
      refine ⟨cs :: bss, ?_, Option.some.inj h⟩
      rw [List.mapM_cons, hcs, hbss]
      rfl

end PartialMap
