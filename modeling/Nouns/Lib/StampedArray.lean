import Mathlib.Logic.Function.Basic
import Mathlib.Tactic.Common

/-!
# Arrays of stamped values

A value that changes over time is kept as an array of entries, each with the time
from which it holds. The first `n` cells of `cells` are in use. Recording a value
at the time of the last entry overwrites it; recording one at a later time appends.
`valueAt` is the value that held at a time, and recording at `now` changes it at no
time before `now`.
-/

namespace StampedArray

variable {α V : Type} (time : α → ℕ) (value : α → V) (default : V)

/-- The value that held at time `t`: that of the last entry no later than `t`. -/
def valueAt (cells : ℕ → α) : ℕ → ℕ → V
  | 0, _ => default
  | n + 1, t => if time (cells n) ≤ t then value (cells n) else valueAt cells n t

/-- The entries in use get strictly later. -/
def Increasing (cells : ℕ → α) (n : ℕ) : Prop :=
  ∀ i j, i < j → j < n → time (cells i) < time (cells j)

/-- No entry in use is later than `now`. -/
def Past (cells : ℕ → α) (n now : ℕ) : Prop := ∀ i, i < n → time (cells i) ≤ now

variable {time value default}

/-- `n` strictly increasing positive times reach `n`. -/
theorem Increasing.lt_time {cells : ℕ → α} {n : ℕ} (h : Increasing time cells n)
    (hpos : ∀ i, i < n → 0 < time (cells i)) : ∀ i, i < n → i < time (cells i)
  | 0, hi => hpos 0 hi
  | i + 1, hi => by
      have h1 := h.lt_time hpos i (by omega)
      have h2 := h i (i + 1) (by omega) hi
      omega

theorem valueAt_congr {c d : ℕ → α} : ∀ {n : ℕ}, (∀ i, i < n → c i = d i) → ∀ t,
    valueAt time value default c n t = valueAt time value default d n t
  | 0, _, _ => rfl
  | n + 1, h, t => by
      simp only [valueAt]
      rw [h n (by omega), valueAt_congr (fun i hi => h i (by omega)) t]

/-- Once every entry is past, the value is the last one recorded. -/
theorem valueAt_of_past {cells : ℕ → α} {n now t : ℕ} (h : Past time cells n now) (ht : now ≤ t) :
    valueAt time value default cells n t
      = if 0 < n then value (cells (n - 1)) else default := by
  cases n with
  | zero => rfl
  | succ n =>
      have := h n (by omega)
      simp only [valueAt]
      rw [if_pos (by omega), if_pos (by omega)]
      rfl

/-- The value at `t` is that of any entry no later than `t` whose successors are. -/
theorem valueAt_eq {cells : ℕ → α} {i t : ℕ} (hi : time (cells i) ≤ t) :
    ∀ {n : ℕ}, i < n → (∀ j, i < j → j < n → t < time (cells j)) →
      valueAt time value default cells n t = value (cells i)
  | n + 1, hn, h => by
      simp only [valueAt]
      by_cases hin : i = n
      · subst hin; rw [if_pos hi]
      · have := h n (by omega) (by omega)
        rw [if_neg (by omega), valueAt_eq hi (by omega) (fun j hij hj => h j hij (by omega))]

/-- Before the first entry there was no value. -/
theorem valueAt_default {cells : ℕ → α} {t : ℕ} :
    ∀ {n : ℕ}, (∀ j, j < n → t < time (cells j)) → valueAt time value default cells n t = default
  | 0, _ => rfl
  | n + 1, h => by
      have := h n (by omega)
      simp only [valueAt]
      rw [if_neg (by omega), valueAt_default (fun j hj => h j (by omega))]

/-! ## Recording -/

section
variable {cells : ℕ → α} {n now : ℕ} {a : α}

theorem Increasing.append (h : Increasing time cells n) (hp : Past time cells n now)
    (hne : 0 < n → time (cells (n - 1)) ≠ now) (ha : time a = now) :
    Increasing time (Function.update cells n a) (n + 1) := by
  intro i j hij hj
  rw [Function.update_of_ne (by omega : i ≠ n)]
  by_cases hjn : j = n
  · subst hjn
    rw [Function.update_self, ha]
    have h1 := hp (j - 1) (by omega)
    have h2 := hne (by omega)
    rcases Nat.lt_or_ge i (j - 1) with hi | hi
    · have := h i (j - 1) hi (by omega); omega
    · obtain rfl : i = j - 1 := by omega
      omega
  · rw [Function.update_of_ne hjn]
    exact h i j hij (by omega)

theorem Past.append (hp : Past time cells n now) (ha : time a = now) :
    Past time (Function.update cells n a) (n + 1) now := by
  intro i hi
  by_cases hin : i = n
  · subst hin; rw [Function.update_self]; exact Nat.le_of_eq ha
  · rw [Function.update_of_ne hin]; exact hp i (by omega)

theorem valueAt_append {t : ℕ} (ha : t < time a) :
    valueAt time value default (Function.update cells n a) (n + 1) t
      = valueAt time value default cells n t := by
  simp only [valueAt, Function.update_self]
  rw [if_neg (by omega)]
  exact valueAt_congr (fun i hi => Function.update_of_ne (Nat.ne_of_lt hi) _ _) t

/-- Overwriting the last entry moves no time. -/
theorem time_overwrite (ha : time a = time (cells (n - 1))) (i : ℕ) :
    time (Function.update cells (n - 1) a i) = time (cells i) := by
  by_cases hin : i = n - 1
  · subst hin; rw [Function.update_self, ha]
  · rw [Function.update_of_ne hin]

theorem Increasing.overwrite (h : Increasing time cells n) (ha : time a = time (cells (n - 1))) :
    Increasing time (Function.update cells (n - 1) a) n := by
  intro i j hij hj
  rw [time_overwrite ha, time_overwrite ha]
  exact h i j hij hj

theorem Past.overwrite (hp : Past time cells n now) (ha : time a = time (cells (n - 1))) :
    Past time (Function.update cells (n - 1) a) n now := by
  intro i hi
  rw [time_overwrite ha]
  exact hp i hi

theorem valueAt_overwrite {t : ℕ} (hn : 0 < n) (ha : time a = time (cells (n - 1)))
    (ht : t < time a) :
    valueAt time value default (Function.update cells (n - 1) a) n t
      = valueAt time value default cells n t := by
  obtain ⟨m, rfl⟩ : ∃ m, n = m + 1 := ⟨n - 1, by omega⟩
  simp only [Nat.add_sub_cancel] at ha ⊢
  rw [valueAt_append ht]
  simp only [valueAt]
  rw [if_neg (by omega)]

end

end StampedArray
