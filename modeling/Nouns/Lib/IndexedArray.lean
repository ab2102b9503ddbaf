import Mathlib.Data.List.Nodup
import Mathlib.Tactic.Common

/-!
# Arrays that know where their elements are

A set kept as an array together with the position of each element, so that an element is
added at the end and removed by moving the last one into its place. `Enumerates` says that
the array lists the set, each element once, and that the positions are the inverse.

The rules take the new array and the new positions by what they hold at the cells and
elements in use, so that it does not matter in which order, or how often, they are written.
-/

namespace IndexedArray

variable {T : Type}

/-- The first `n` cells of `slot` list the elements, each once, and `pos` says where. -/
structure Enumerates (slot : ℕ → T) (n : ℕ) (pos : T → ℕ) (mem : T → Prop) : Prop where
  lists : ∀ i, i < n → mem (slot i) ∧ pos (slot i) = i
  finds : ∀ t, mem t → pos t < n ∧ slot (pos t) = t

variable {slot slot' : ℕ → T} {n : ℕ} {pos pos' : T → ℕ} {mem mem' : T → Prop}

/-- Cells and positions not in use do not matter. -/
theorem Enumerates.congr (h : Enumerates slot n pos mem) (hslot : ∀ i, i < n → slot' i = slot i)
    (hpos : ∀ t, mem t → pos' t = pos t) (hmem : ∀ t, mem' t ↔ mem t) :
    Enumerates slot' n pos' mem' := by
  refine ⟨?_, ?_⟩
  · intro i hi
    obtain ⟨hm, hp⟩ := h.lists i hi
    rw [hslot i hi, hmem, hpos _ hm]
    exact ⟨hm, hp⟩
  · intro t ht
    have hm := (hmem t).mp ht
    obtain ⟨hlt, hs⟩ := h.finds t hm
    rw [hpos t hm, hslot _ hlt]
    exact ⟨hlt, hs⟩

/-- A new element goes to the end. -/
theorem Enumerates.push {t : T} (h : Enumerates slot n pos mem) (hnew : ¬ mem t)
    (hslot : ∀ i, i < n → slot' i = slot i) (hlast : slot' n = t)
    (hpos : ∀ x, mem x → pos' x = pos x) (ht : pos' t = n)
    (hmem : ∀ x, mem' x ↔ mem x ∨ x = t) : Enumerates slot' (n + 1) pos' mem' := by
  refine ⟨?_, ?_⟩
  · intro i hi
    rcases Nat.lt_succ_iff_lt_or_eq.mp hi with hi | rfl
    · obtain ⟨hm, hp⟩ := h.lists i hi
      rw [hslot i hi, hpos _ hm]
      exact ⟨(hmem _).mpr (.inl hm), hp⟩
    · rw [hlast]
      exact ⟨(hmem t).mpr (.inr rfl), ht⟩
  · intro x hx
    rcases (hmem x).mp hx with hm | rfl
    · obtain ⟨hlt, hs⟩ := h.finds x hm
      rw [hpos x hm, hslot _ hlt]
      exact ⟨Nat.lt_succ_of_lt hlt, hs⟩
    · rw [ht]
      exact ⟨Nat.lt_succ_self n, hlast⟩

/--
An element is removed: the last one takes its place. That is nothing if it is the last
one itself.
-/
theorem Enumerates.swapPop [DecidableEq T] {t : T} (h : Enumerates slot (n + 1) pos mem)
    (ht : mem t) (hslot : ∀ i, i < n → slot' i = if i = pos t then slot n else slot i)
    (hpos : ∀ x, mem x → x ≠ t → pos' x = if x = slot n then pos t else pos x)
    (hmem : ∀ x, mem' x ↔ mem x ∧ x ≠ t) : Enumerates slot' n pos' mem' := by
  obtain ⟨hplt, hpt⟩ := h.finds t ht
  obtain ⟨hlast, hposlast⟩ := h.lists n (Nat.lt_succ_self n)
  refine ⟨?_, ?_⟩
  · intro i hi
    by_cases hip : i = pos t
    · -- the cell of `t`, which is not the last one
      have hne : slot n ≠ t := by
        intro hsame
        subst hsame
        omega
      rw [hslot i hi, if_pos hip, hpos _ hlast hne, if_pos rfl]
      exact ⟨(hmem _).mpr ⟨hlast, hne⟩, hip.symm⟩
    · obtain ⟨hm, hp⟩ := h.lists i (by omega)
      have hne : slot i ≠ t := by
        intro heq
        rw [heq] at hp
        exact hip hp.symm
      have hnl : slot i ≠ slot n := by
        intro heq
        rw [heq, hposlast] at hp
        omega
      rw [hslot i hi, if_neg hip, hpos _ hm hne, if_neg hnl]
      exact ⟨(hmem _).mpr ⟨hm, hne⟩, hp⟩
  · intro x hx
    obtain ⟨hm, hne⟩ := (hmem x).mp hx
    rw [hpos x hm hne]
    by_cases hxl : x = slot n
    · have hp : pos t ≠ n := by
        intro heq
        rw [heq] at hpt
        exact hne (hxl.trans hpt)
      rw [if_pos hxl, hslot _ (by omega), if_pos rfl]
      exact ⟨by omega, hxl.symm⟩
    · obtain ⟨hlt, hs⟩ := h.finds x hm
      have hpn : pos x ≠ n := by
        intro heq
        rw [heq] at hs
        exact hxl hs.symm
      have hpp : pos x ≠ pos t := by
        intro heq
        rw [heq, hpt] at hs
        exact hne hs.symm
      rw [if_neg hxl, hslot _ (by omega), if_neg hpp]
      exact ⟨by omega, hs⟩

/-- There is something to remove. -/
theorem Enumerates.pos_of_mem {t : T} (h : Enumerates slot n pos mem) (ht : mem t) : 0 < n :=
  Nat.lt_of_le_of_lt (Nat.zero_le _) (h.finds t ht).1

theorem Enumerates.nodup (h : Enumerates slot n pos mem) : ((List.range n).map slot).Nodup := by
  refine List.Nodup.map_on ?_ List.nodup_range
  intro i hi j hj heq
  have hpi := (h.lists i (List.mem_range.mp hi)).2
  have hpj := (h.lists j (List.mem_range.mp hj)).2
  rw [← hpi, ← hpj, heq]

theorem Enumerates.mem_iff (h : Enumerates slot n pos mem) (t : T) :
    t ∈ (List.range n).map slot ↔ mem t := by
  constructor
  · intro ht
    obtain ⟨i, hi, rfl⟩ := List.mem_map.mp ht
    exact (h.lists i (List.mem_range.mp hi)).1
  · intro ht
    obtain ⟨hlt, hs⟩ := h.finds t ht
    exact List.mem_map.mpr ⟨pos t, List.mem_range.mpr hlt, hs⟩

end IndexedArray
