import Mathlib.Data.List.Induction
import Mathlib.Data.Set.Function
import Mathlib.Tactic.Common

/-!
# Flags that are set, cleared and used up

One bit for each key: `set` raises it, `clear` lowers it, and `use` lowers it too but
is only legal while it is raised. The bit remembers one event of an unbounded
history. `Legal.matching` says how much that is worth: every use has a set of its
own, and nothing touched the key in between.
-/

namespace FlagTrace

variable {K : Type} [DecidableEq K]

/-- What happens to a flag. -/
inductive Mark (K : Type) where
  | set (k : K)
  | clear (k : K)
  | use (k : K)

/-- The flag concerned. -/
def Mark.key : Mark K → K
  | .set k | .clear k | .use k => k

/-- The flag of `k` after one more event. -/
def Mark.apply (k : K) (b : Bool) : Mark K → Bool
  | .set k' => if k' = k then true else b
  | .clear k' | .use k' => if k' = k then false else b

theorem Mark.apply_of_ne {k : K} {b : Bool} {m : Mark K} (h : m.key ≠ k) : m.apply k b = b := by
  cases m <;> exact if_neg h

/-- The flag of `k` after a history, earliest event first. -/
def raised (k : K) (L : List (Mark K)) : Bool := L.foldl (Mark.apply k) false

@[simp] theorem raised_nil {k : K} : raised k [] = false := rfl

@[simp] theorem raised_concat {k : K} {L : List (Mark K)} {m : Mark K} :
    raised k (L ++ [m]) = m.apply k (raised k L) := by
  simp [raised]

/-- A flag is only used while it is raised. -/
def Legal (L : List (Mark K)) : Prop :=
  ∀ (j : ℕ) k, L[j]? = some (Mark.use k) → raised k (L.take j) = true

theorem legal_nil : Legal ([] : List (Mark K)) := by
  intro j k h
  simp at h

theorem Legal.concat {L : List (Mark K)} (h : Legal L) {m : Mark K}
    (hm : ∀ k, m = .use k → raised k L = true) : Legal (L ++ [m]) := by
  intro j k hj
  rcases Nat.lt_or_ge j L.length with hlt | hge
  · rw [List.getElem?_append_left hlt] at hj
    rw [List.take_append_of_le_length (Nat.le_of_lt hlt)]
    exact h j k hj
  · obtain ⟨hlen, hval⟩ := List.getElem?_eq_some_iff.mp hj
    obtain rfl : j = L.length := by
      rw [List.length_append, List.length_singleton] at hlen
      omega
    rw [List.take_left]
    refine hm k ?_
    simpa using hval

/-- A raised flag was set at some point, and not touched since. -/
theorem raised_last {k : K} {L : List (Mark K)} (h : raised k L = true) :
    ∃ i : ℕ, L[i]? = some (Mark.set k) ∧ ∀ (j : ℕ) (m : Mark K), i < j → L[j]? = some m → m.key ≠ k := by
  induction L using List.reverseRecOn with
  | nil => simp at h
  | append_singleton L m ih =>
      rw [raised_concat] at h
      by_cases hk : m.key = k
      · -- the last event is about `k`, so it is the set
        cases m with
        | set k' =>
            obtain rfl : k' = k := hk
            refine ⟨L.length, by simp, fun j m' hj hm' => ?_⟩
            rw [List.getElem?_eq_none (by simp; omega)] at hm'
            exact absurd hm' (by simp)
        | clear k' => simp [Mark.apply, show k' = k from hk] at h
        | use k' => simp [Mark.apply, show k' = k from hk] at h
      · rw [Mark.apply_of_ne hk] at h
        obtain ⟨i, hi, hlast⟩ := ih h
        have hilt : i < L.length := (List.getElem?_eq_some_iff.mp hi).1
        refine ⟨i, by rw [List.getElem?_append_left hilt, hi], fun j m' hj hm' => ?_⟩
        rcases Nat.lt_or_ge j L.length with hlt | hge
        · rw [List.getElem?_append_left hlt] at hm'
          exact hlast j m' hj hm'
        · obtain ⟨hlen, hval⟩ := List.getElem?_eq_some_iff.mp hm'
          obtain rfl : j = L.length := by
            rw [List.length_append, List.length_singleton] at hlen
            omega
          obtain rfl : m = m' := by simpa using hval
          exact hk

/--
**Every use has a set of its own.** The uses of a legal history can be matched
injectively to earlier sets of the same flag, with nothing about that flag between.
-/
theorem Legal.matching {L : List (Mark K)} (h : Legal L) :
    ∃ source : ℕ → ℕ,
      (∀ (j : ℕ) k, L[j]? = some (Mark.use k) → source j < j ∧ L[source j]? = some (Mark.set k)
        ∧ ∀ (i : ℕ) (m : Mark K), source j < i → i < j → L[i]? = some m → m.key ≠ k)
      ∧ Set.InjOn source {j : ℕ | ∃ k, L[j]? = some (Mark.use k)} := by
  have hsome : ∀ j : ℕ, ∃ i : ℕ, ∀ k, L[j]? = some (Mark.use k) → i < j ∧ L[i]? = some (Mark.set k)
      ∧ ∀ (i' : ℕ) (m : Mark K), i < i' → i' < j → L[i']? = some m → m.key ≠ k := by
    intro j
    by_cases hj : ∃ k, L[j]? = some (Mark.use k)
    · obtain ⟨k, hk⟩ := hj
      obtain ⟨i, hi, hlast⟩ := raised_last (h j k hk)
      have hij : i < j := by
        have := (List.getElem?_eq_some_iff.mp hi).1
        rw [List.length_take] at this
        omega
      rw [List.getElem?_take_of_lt hij] at hi
      refine ⟨i, ?_⟩
      intro k' hk'
      obtain rfl : k = k' := by rw [hk] at hk'; simpa using hk'
      refine ⟨hij, hi, fun i' m hlt hlt' hm => hlast i' m hlt ?_⟩
      rw [List.getElem?_take_of_lt hlt', hm]
    · exact ⟨0, fun k hk => absurd ⟨k, hk⟩ hj⟩
  choose source hsource using hsome
  refine ⟨source, hsource, ?_⟩
  -- two uses with one set between would have the earlier use in between
  have hne : ∀ i j : ℕ, i < j → (∃ k, L[i]? = some (Mark.use k)) →
      (∃ k, L[j]? = some (Mark.use k)) → source i ≠ source j := by
    rintro i j hij ⟨k, hi⟩ ⟨k', hj⟩ heq
    obtain ⟨hlt, hset, _⟩ := hsource i k hi
    obtain ⟨_, hset', hnone⟩ := hsource j k' hj
    obtain rfl : k = k' := by rw [heq, hset'] at hset; simpa [eq_comm] using hset
    exact hnone i _ (heq ▸ hlt) hij hi rfl
  intro i hi j hj heq
  rcases Nat.lt_trichotomy i j with hlt | rfl | hlt
  · exact absurd heq (hne i j hlt hi hj)
  · rfl
  · exact absurd heq.symm (hne j i hlt hj hi)

end FlagTrace
