import Mathlib.Data.Finset.Card
import Nouns.Lib.JsMap

/-!
# Numbers in order of appearance

A map that gives every key it meets the next number. A key's number is how many others
came before it was first met, so it depends on what was met and not on the map, it never
changes, and it is the key's place among the keys.
-/

namespace JsMap

variable {K : Type} [DecidableEq K]

/-- How many different keys come before the first `k`. -/
def place (seen : List K) (k : K) : Nat := (seen.takeWhile (· ≠ k)).toFinset.card

variable {seen more : List K} {k k' : K} {m : JsMap K Nat} {i : Nat}

theorem takeWhile_append_mem (h : k ∈ seen) :
    (seen ++ more).takeWhile (· ≠ k) = seen.takeWhile (· ≠ k) := by
  induction seen with
  | nil => exact absurd h List.not_mem_nil
  | cons k' seen ih =>
      by_cases heq : k' = k
      · rw [List.cons_append, List.takeWhile_cons_of_neg (by simpa using heq),
          List.takeWhile_cons_of_neg (by simpa using heq)]
      · rw [List.cons_append, List.takeWhile_cons_of_pos (by simpa using heq),
          List.takeWhile_cons_of_pos (by simpa using heq),
          ih ((List.mem_cons.mp h).resolve_left fun he => heq he.symm)]

theorem place_append (h : k ∈ seen) : place (seen ++ more) k = place seen k := by
  rw [place, place, takeWhile_append_mem h]

theorem place_new (h : k ∉ seen) : place (seen ++ [k]) k = seen.toFinset.card := by
  have htake : (seen ++ [k]).takeWhile (· ≠ k) = seen := by
    rw [List.takeWhile_append_of_pos fun k' hk' => by
      simpa using fun he : k' = k => h (he ▸ hk')]
    simp
  rw [place, htake]

/-- The next number for a key that is new. -/
def intern (m : JsMap K Nat) (k : K) : JsMap K Nat := if m.has k then m else m.set k m.size

/-- The keys of a map are those that were met, each with its place. -/
structure Numbers (m : JsMap K Nat) (seen : List K) : Prop where
  values : m.entries.map Prod.snd = List.range m.size
  mem_keys : ∀ k, k ∈ m.keys ↔ k ∈ seen
  get?_place : ∀ k, k ∈ seen → m.get? k = some (place seen k)

/-- **A number is a place among the keys.** -/
theorem Numbers.get?_iff (h : Numbers m seen) : m.get? k = some i ↔ m.keys[i]? = some k := by
  rw [get?_eq_some, keys, List.getElem?_map]
  have hvalue : ∀ (j : Nat) (e : K × Nat), m.entries[j]? = some e → e.2 = j := by
    intro j e he
    have hlt : j < m.size := (List.getElem?_eq_some_iff.mp he).1
    have hsnd := congrArg (fun l => l[j]?) h.values
    simp only [List.getElem?_map, he, Option.map_some] at hsnd
    rw [List.getElem?_range hlt] at hsnd
    exact Option.some.inj hsnd
  constructor
  · intro hmem
    obtain ⟨j, hj⟩ := List.getElem?_of_mem hmem
    obtain rfl : i = j := hvalue j _ hj
    rw [hj]
    rfl
  · intro hkey
    obtain ⟨⟨k', v⟩, he, rfl⟩ := Option.map_eq_some_iff.mp hkey
    obtain rfl : v = i := hvalue i _ he
    exact List.mem_of_getElem? he

theorem Numbers.injective (h : Numbers m seen) (hk : m.get? k = some i) (hk' : m.get? k' = some i) :
    k = k' := by
  rw [h.get?_iff] at hk hk'
  exact Option.some.inj (hk.symm.trans hk')

theorem Numbers.size_eq (h : Numbers m seen) : m.size = seen.toFinset.card := by
  have hset : m.keys.toFinset = seen.toFinset := by
    ext k
    rw [List.mem_toFinset, List.mem_toFinset]
    exact h.mem_keys k
  have hcard := List.toFinset_card_of_nodup (l := m.keys) m.nodup
  rw [hset] at hcard
  rw [hcard, keys, List.length_map]
  rfl

/-- **Meeting a key.** -/
theorem Numbers.intern (h : Numbers m seen) (k : K) : Numbers (m.intern k) (seen ++ [k]) := by
  unfold JsMap.intern
  split
  · next hhas =>
      have hk : k ∈ seen := (h.mem_keys k).mp (has_iff.mp hhas)
      have hmem : ∀ k', k' ∈ seen ++ [k] → k' ∈ seen := by
        intro k' hk'
        rcases List.mem_append.mp hk' with hk' | hk'
        · exact hk'
        · rwa [List.mem_singleton.mp hk']
      refine ⟨h.values, fun k' => (h.mem_keys k').trans ⟨List.mem_append_left _, hmem k'⟩, ?_⟩
      intro k' hk'
      rw [place_append (hmem k' hk')]
      exact h.get?_place k' (hmem k' hk')
  · next hhas =>
      have hnew : m.has k = false := by simpa using hhas
      have hk : k ∉ seen := fun hk => hhas (has_iff.mpr ((h.mem_keys k).mpr hk))
      refine ⟨?_, ?_, ?_⟩
      · rw [entries_set hnew, List.map_append, h.values, size_set hnew, List.range_succ]
        rfl
      · intro k'
        rw [keys, entries_set hnew, List.map_append, List.mem_append, List.mem_append]
        exact or_congr (h.mem_keys k') Iff.rfl
      · intro k' hk'
        rw [get?_set hnew]
        rcases List.mem_append.mp hk' with hk' | hk'
        · exact .inl (by rw [place_append hk', h.get?_place k' hk'])
        · obtain rfl := List.mem_singleton.mp hk'
          exact .inr ⟨rfl, by rw [place_new hk, h.size_eq]⟩

/-- **Meeting keys one after the other.** -/
theorem Numbers.foldl (h : Numbers m seen) (ks : List K) :
    Numbers (ks.foldl JsMap.intern m) (seen ++ ks) := by
  induction ks generalizing m seen with
  | nil => rwa [List.append_nil]
  | cons k ks ih =>
      have hnext := ih (h.intern k)
      rwa [List.append_assoc] at hnext

end JsMap
