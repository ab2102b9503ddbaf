import Mathlib.Data.List.Induction
import Mathlib.Data.List.Perm.Subperm
import Mathlib.Logic.Function.Basic
import Mathlib.Tactic.Common

/-!
# Logs of keyed entries

A store that writes every entry of a log under the entry's key. An entry whose key comes
again is lost, and nothing else is: the store holds as many entries of each kind as the log
exactly if no two entries have the same key.
-/

namespace KeyedLog

variable {K V W C : Type} [DecidableEq K]

/-- What is stored once the entries of a log are written, one after the other. -/
def written (l : List (K × V)) : K → Option V :=
  l.foldl (fun m e => Function.update m e.1 (some e.2)) fun _ => none

variable {l : List (K × V)} {k : K} {v : V}

@[simp] theorem written_nil : written ([] : List (K × V)) = fun _ => none := rfl

@[simp] theorem written_concat {e : K × V} :
    written (l ++ [e]) = Function.update (written l) e.1 (some e.2) := by
  unfold written
  rw [List.foldl_append]
  rfl

/-- What is stored was written. -/
theorem mem_of_written (h : written l k = some v) : (k, v) ∈ l := by
  induction l using List.reverseRecOn with
  | nil => cases h
  | append_singleton l e ih =>
      rw [written_concat, Function.update_apply] at h
      split at h
      · next hk =>
          cases h
          subst hk
          exact List.mem_append_right _ List.mem_cons_self
      · exact List.mem_append_left _ (ih h)

/-- What is written under a key of its own stays. -/
theorem written_of_nodup (hd : (l.map Prod.fst).Nodup) (hm : (k, v) ∈ l) :
    written l k = some v := by
  induction l using List.reverseRecOn with
  | nil => cases hm
  | append_singleton l e ih =>
      rw [List.map_append, List.nodup_append] at hd
      obtain ⟨hl, -, hne⟩ := hd
      rw [written_concat]
      rcases List.mem_append.mp hm with hm | hm
      · have hk : k ≠ e.1 := hne k (List.mem_map_of_mem hm) e.1 List.mem_cons_self
        rw [Function.update_of_ne hk]
        exact ih hl hm
      · obtain rfl := List.mem_singleton.mp hm
        exact Function.update_self _ _ _

/-- The stored values of class `c` are, one to one and seen through `f`, the values `ws`. -/
def OneToOne (cls : V → C) (c : C) (f : V → W) (m : K → Option V) (ws : List W) : Prop :=
  ∃ ks : List K, ks.Nodup ∧ ks.map (fun k => (m k).map f) = ws.map some
    ∧ ∀ k v, m k = some v → (cls v = c ↔ k ∈ ks)

variable [DecidableEq C]

/-- The entries of class `c`. -/
def ofClass (cls : V → C) (c : C) (l : List (K × V)) : List (K × V) :=
  l.filter fun e => cls e.2 = c

variable {cls : V → C} {f : V → W}

omit [DecidableEq K] in
theorem mem_ofClass {c : C} {e : K × V} : e ∈ ofClass cls c l ↔ e ∈ l ∧ cls e.2 = c := by
  simp [ofClass]

theorem oneToOne_of_nodup (hd : (l.map Prod.fst).Nodup) (c : C) :
    OneToOne cls c f (written l) ((ofClass cls c l).map fun e => f e.2) := by
  refine ⟨(ofClass cls c l).map Prod.fst, hd.sublist (List.filter_sublist.map _), ?_, ?_⟩
  · rw [List.map_map, List.map_map]
    refine List.map_congr_left ?_
    intro e he
    show (written l e.1).map f = some (f e.2)
    rw [written_of_nodup hd (mem_ofClass.mp he).1]
    rfl
  · intro k v hv
    constructor
    · intro hc
      exact List.mem_map.mpr ⟨(k, v), mem_ofClass.mpr ⟨mem_of_written hv, hc⟩, rfl⟩
    · intro hk
      obtain ⟨e, he, rfl⟩ := List.mem_map.mp hk
      obtain ⟨hm, hc⟩ := mem_ofClass.mp he
      rw [written_of_nodup hd hm] at hv
      exact Option.some.inj hv ▸ hc

/-- As many stored values as there are entries: the entries of a class have different keys. -/
theorem OneToOne.perm {c : C}
    (h : OneToOne cls c f (written l) ((ofClass cls c l).map fun e => f e.2)) :
    ((ofClass cls c l).map Prod.fst).Nodup
      ∧ ∀ k ∈ (ofClass cls c l).map Prod.fst, ∃ v, written l k = some v ∧ cls v = c := by
  obtain ⟨ks, hnodup, hvals, hcls⟩ := h
  have hstored : ∀ k ∈ ks, ∃ v, written l k = some v ∧ cls v = c := by
    intro k hk
    have hmem : (written l k).map f ∈ ks.map fun k => (written l k).map f :=
      List.mem_map_of_mem hk
    rw [hvals] at hmem
    obtain ⟨w, -, hw⟩ := List.mem_map.mp hmem
    obtain ⟨v, hv, -⟩ := Option.map_eq_some_iff.mp hw.symm
    exact ⟨v, hv, (hcls k v hv).mpr hk⟩
  have hsub : ks ⊆ (ofClass cls c l).map Prod.fst := by
    intro k hk
    obtain ⟨v, hv, hc⟩ := hstored k hk
    exact List.mem_map.mpr ⟨(k, v), mem_ofClass.mpr ⟨mem_of_written hv, hc⟩, rfl⟩
  have hlen : ((ofClass cls c l).map Prod.fst).length ≤ ks.length := by
    have := congrArg List.length hvals
    simp only [List.length_map] at this ⊢
    omega
  have hperm := (hnodup.subperm hsub).perm_of_length_le hlen
  exact ⟨hperm.nodup_iff.mp hnodup, fun k hk => hstored k (hperm.mem_iff.mpr hk)⟩

/-- **Nothing is lost exactly if no key comes twice.** -/
theorem oneToOne_iff : (∀ c, OneToOne cls c f (written l) ((ofClass cls c l).map fun e => f e.2))
    ↔ (l.map Prod.fst).Nodup := by
  refine ⟨?_, fun hd c => oneToOne_of_nodup hd c⟩
  intro h
  have hkeys : ∀ e ∈ l, ∃ v, written l e.1 = some v ∧ cls v = cls e.2 := fun e he =>
    (h (cls e.2)).perm.2 e.1 (List.mem_map_of_mem (mem_ofClass.mpr ⟨he, rfl⟩))
  refine List.pairwise_map.mpr (List.pairwise_iff_getElem.mpr ?_)
  intro i j hi hj hij heq
  -- the value under the key they share is of both classes
  obtain ⟨v, hv, hc⟩ := hkeys l[i] (List.getElem_mem hi)
  obtain ⟨v', hv', hc'⟩ := hkeys l[j] (List.getElem_mem hj)
  rw [← heq, hv] at hv'
  obtain rfl := Option.some.inj hv'
  have hnodup := (h (cls l[i].2)).perm.1
  have hapart := List.pairwise_iff_getElem.mp
    (List.pairwise_filter.mp (List.pairwise_map.mp hnodup)) i j hi hj hij
  exact hapart (by simp) (by simp [← hc, hc']) heq

end KeyedLog
