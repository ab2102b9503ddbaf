import Mathlib.Data.List.Nodup
import Mathlib.Data.List.Sort

/-!
# Maps in insertion order

JavaScript's `Map`: a key that is new goes behind the others, one that is there keeps its
place. No key is there twice, so looking up is the same from either end. An object is such
a map as well, but its entries are listed with the keys that are array indices in front.
-/

@[ext] structure JsMap (K V : Type) where
  entries : List (K × V)
  nodup : (entries.map Prod.fst).Nodup

namespace JsMap

variable {K V : Type} [DecidableEq K]

/-- `m.keys()` -/
def keys (m : JsMap K V) : List K := m.entries.map Prod.fst

/-- `m.size` -/
def size (m : JsMap K V) : Nat := m.entries.length

/-- `m.get(k)` -/
def get? (m : JsMap K V) (k : K) : Option V := (m.entries.find? fun e => e.1 = k).map Prod.snd

/-- `m.has(k)` -/
def has (m : JsMap K V) (k : K) : Bool := (m.get? k).isSome

theorem get?_eq_some {m : JsMap K V} {k : K} {v : V} : m.get? k = some v ↔ (k, v) ∈ m.entries := by
  obtain ⟨entries, hnodup⟩ := m
  unfold get?
  simp only
  induction entries with
  | nil => simp
  | cons e es ih =>
      obtain ⟨hnot, hrest⟩ := List.nodup_cons.mp hnodup
      by_cases he : e.1 = k
      · rw [List.find?_cons_of_pos (by simpa using he), List.mem_cons]
        constructor
        · intro h
          obtain rfl := Option.some.inj h
          exact .inl (by rw [← he])
        · intro hin
          rcases hin with heq | hmem
          · rw [← heq]
            rfl
          · exact absurd (List.mem_map.mpr ⟨_, hmem, he.symm⟩) hnot
      · rw [List.find?_cons_of_neg (by simpa using he), ih hrest, List.mem_cons]
        constructor
        · exact .inr
        · intro hin
          rcases hin with heq | hmem
          · exact absurd (by rw [← heq]) he
          · exact hmem

theorem has_iff {m : JsMap K V} {k : K} : m.has k = true ↔ k ∈ m.keys := by
  rw [has, Option.isSome_iff_exists]
  simp only [get?_eq_some, keys, List.mem_map, Prod.exists, exists_and_right, exists_eq_right]

/-- `m.set(k, v)`, for a key that is not there -/
def push (m : JsMap K V) (k : K) (v : V) (h : m.has k = false) : JsMap K V where
  entries := m.entries ++ [(k, v)]
  nodup := by
    rw [List.map_append, List.nodup_append]
    refine ⟨m.nodup, List.nodup_singleton _, ?_⟩
    intro a ha b hb heq
    subst heq
    obtain rfl : a = k := by simpa using hb
    rw [← Bool.not_eq_true, has_iff] at h
    exact h ha

/-- `m.set(k, v)`, for a key that is there -/
def replace (m : JsMap K V) (k : K) (v : V) : JsMap K V where
  entries := m.entries.map fun e => if e.1 = k then (k, v) else e
  nodup := by
    have hkeys : (m.entries.map fun e => if e.1 = k then (k, v) else e).map Prod.fst
        = m.entries.map Prod.fst := by
      rw [List.map_map]
      refine List.map_congr_left ?_
      intro e _
      simp only [Function.comp_apply]
      split
      · next h => exact h.symm
      · rfl
    rw [hkeys]
    exact m.nodup

/-- `m.set(k, v)` -/
def set (m : JsMap K V) (k : K) (v : V) : JsMap K V :=
  if h : m.has k = false then m.push k v h else m.replace k v

/-- A new key goes behind the others. -/
theorem entries_set {m : JsMap K V} {k : K} {v : V} (h : m.has k = false) :
    (m.set k v).entries = m.entries ++ [(k, v)] := by
  rw [set, dif_pos h]
  rfl

theorem size_set {m : JsMap K V} {k : K} {v : V} (h : m.has k = false) :
    (m.set k v).size = m.size + 1 := by
  rw [size, entries_set h, List.length_append]
  rfl

theorem get?_set {m : JsMap K V} {k : K} {v : V} (h : m.has k = false) {k' : K} {v' : V} :
    (m.set k v).get? k' = some v' ↔ m.get? k' = some v' ∨ (k' = k ∧ v' = v) := by
  rw [get?_eq_some, get?_eq_some, entries_set h, List.mem_append, List.mem_singleton,
    Prod.mk.injEq]

/-- The other keys keep their values. -/
theorem get?_set_of_ne {m : JsMap K V} {k k' : K} {v : V} (hne : k' ≠ k) :
    (m.set k v).get? k' = m.get? k' := by
  ext v'
  rw [get?_eq_some, get?_eq_some]
  by_cases h : m.has k = false
  · rw [entries_set h, List.mem_append, List.mem_singleton, Prod.mk.injEq]
    exact or_iff_left fun he => hne he.1
  · rw [set, dif_neg h]
    show (k', v') ∈ m.entries.map _ ↔ _
    rw [List.mem_map]
    constructor
    · intro hin
      obtain ⟨e, he, heq⟩ := hin
      split at heq
      · exact absurd (congrArg Prod.fst heq).symm hne
      · rwa [← heq]
    · exact fun he => ⟨_, he, if_neg hne⟩

/-- A key that was set has the value it was set to. -/
theorem get?_set_self {m : JsMap K V} {k : K} {v : V} : (m.set k v).get? k = some v := by
  rw [get?_eq_some]
  by_cases h : m.has k = false
  · rw [entries_set h]
    exact List.mem_append_right _ (List.mem_singleton_self _)
  · rw [set, dif_neg h]
    obtain ⟨e, he, hk⟩ := List.mem_map.mp (has_iff.mp (Bool.eq_true_of_not_eq_false h))
    exact List.mem_map.mpr ⟨e, he, if_pos hk⟩

theorem has_set_self {m : JsMap K V} {k : K} {v : V} : (m.set k v).has k = true := by
  rw [has, get?_set_self]
  rfl

theorem get?_eq_none {m : JsMap K V} {k : K} : m.get? k = none ↔ k ∉ m.keys := by
  rw [← has_iff, has, Option.not_isSome_iff_eq_none]

theorem mem_keys_set {m : JsMap K V} {k k' : K} {v : V} :
    k' ∈ (m.set k v).keys ↔ k' = k ∨ k' ∈ m.keys := by
  by_cases hne : k' = k
  · subst hne
    exact iff_of_true (has_iff.mp has_set_self) (.inl rfl)
  · rw [← has_iff, ← has_iff, has, has, get?_set_of_ne hne]
    exact (or_iff_right hne).symm

/-- What is set again was not set before. -/
theorem set_set {m : JsMap K V} {k : K} {v v' : V} : (m.set k v).set k v' = m.set k v' := by
  ext1
  rw [set, dif_neg (by rw [has_set_self]; exact Bool.noConfusion)]
  show (m.set k v).entries.map _ = _
  by_cases h : m.has k = false
  · rw [entries_set h, entries_set h, List.map_append]
    have hsame : (m.entries.map fun e => if e.1 = k then (k, v') else e) = m.entries := by
      refine (List.map_congr_left fun e he => if_neg ?_).trans (List.map_id _)
      intro hk
      rw [← Bool.not_eq_true, has_iff] at h
      exact h (List.mem_map.mpr ⟨e, he, hk⟩)
    rw [hsame, List.map_singleton, if_pos rfl]
  · rw [set, dif_neg h, set, dif_neg h]
    show (m.entries.map _).map _ = m.entries.map _
    rw [List.map_map]
    refine List.map_congr_left ?_
    intro e _
    by_cases hk : e.1 = k
    · rw [Function.comp_apply, if_pos hk, if_pos hk, if_pos rfl]
    · rw [Function.comp_apply, if_neg hk, if_neg hk]

/-! ## Deleting -/

/-- `new Map()` -/
def empty : JsMap K V := ⟨[], List.nodup_nil⟩

/-- `m.delete(k)` -/
def delete (m : JsMap K V) (k : K) : JsMap K V where
  entries := m.entries.filter fun e => e.1 ≠ k
  nodup := m.nodup.sublist (List.filter_sublist.map _)

theorem mem_keys_delete {m : JsMap K V} {k k' : K} :
    k' ∈ (m.delete k).keys ↔ k' ∈ m.keys ∧ k' ≠ k := by
  simp only [keys, delete, List.mem_map, List.mem_filter, decide_eq_true_eq]
  constructor
  · intro h
    obtain ⟨e, ⟨he, hne⟩, rfl⟩ := h
    exact ⟨⟨e, he, rfl⟩, hne⟩
  · intro h
    obtain ⟨⟨e, he, rfl⟩, hne⟩ := h
    exact ⟨e, ⟨he, hne⟩, rfl⟩

theorem get?_delete_of_ne {m : JsMap K V} {k k' : K} (h : k' ≠ k) :
    (m.delete k).get? k' = m.get? k' := by
  ext v
  rw [get?_eq_some, get?_eq_some, delete, List.mem_filter]
  exact and_iff_left (decide_eq_true h)

/-- Deleting one key after the other leaves the entries of the other keys. -/
theorem entries_foldl_delete {m : JsMap K V} {ks : List K} :
    (ks.foldl delete m).entries = m.entries.filter fun e => e.1 ∉ ks := by
  induction ks generalizing m with
  | nil => exact (List.filter_eq_self.mpr fun e _ => by simp).symm
  | cons k ks ih =>
      rw [List.foldl_cons, ih, delete, List.filter_filter]
      refine List.filter_congr ?_
      intro e _
      simp only [List.mem_cons, not_or, Bool.decide_and]
      exact Bool.and_comm _ _

theorem mem_keys_foldl_delete {m : JsMap K V} {ks : List K} {k : K} :
    k ∈ (ks.foldl delete m).keys ↔ k ∈ m.keys ∧ k ∉ ks := by
  simp only [keys, entries_foldl_delete, List.mem_map, List.mem_filter, decide_eq_true_eq]
  constructor
  · intro h
    obtain ⟨e, ⟨he, hks⟩, rfl⟩ := h
    exact ⟨⟨e, he, rfl⟩, hks⟩
  · intro h
    obtain ⟨⟨e, he, rfl⟩, hks⟩ := h
    exact ⟨e, ⟨he, hks⟩, rfl⟩

/-! ## Objects -/

/-- The number of a key that is an array index: digits without a leading zero, below 2³² - 1. -/
def arrayIndex? (k : String) : Option Nat :=
  let digits := k.toList
  let n := digits.foldl (fun n c => 10 * n + (c.toNat - '0'.toNat)) 0
  if digits ≠ [] ∧ digits.all Char.isDigit = true ∧ (digits = ['0'] ∨ digits.head? ≠ some '0')
      ∧ n < 4294967295 then some n else none

/-- The entries with an index, in its order, and then the others. -/
def indexedFirst {A : Type} (index : A → Option Nat) (l : List A) : List A :=
  (l.filter fun a => (index a).isSome).insertionSort (fun a b => (index a).getD 0 ≤ (index b).getD 0)
    ++ l.filter fun a => !(index a).isSome

theorem indexedFirst_perm {A : Type} (index : A → Option Nat) (l : List A) :
    (indexedFirst index l).Perm l :=
  ((List.perm_insertionSort _ _).append_right _).trans (List.filter_append_perm _ _)

/-- `Object.entries(o)` -/
def objectEntries (o : JsMap String V) : List (String × V) :=
  indexedFirst (fun e => arrayIndex? e.1) o.entries

/-- No entry is lost on the way to the front. -/
theorem objectEntries_perm (o : JsMap String V) : (objectEntries o).Perm o.entries :=
  indexedFirst_perm _ _

end JsMap
