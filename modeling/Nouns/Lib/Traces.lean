import Nouns.Lib.CallMachine

/-!
# Histories with what their steps did

`Runs` forgets what the steps of a history did. A `Trace` keeps their labels in order, for
statements about which calls were made; `Runs.began` finds the step at which a fact that
holds now became true, for statements about what has been so ever since.
-/

namespace CallMachine

namespace Machine

variable {W C F T E : Type} (M : Machine W C F T E)

/-- A history and the labels of its steps, first step first. -/
inductive Trace : Config W F → List (Label C F T) → Config W F → Prop where
  | refl {x : Config W F} : Trace x [] x
  | snoc {x y z : Config W F} {ls : List (Label C F T)} {l : Label C F T} :
      Trace x ls y → M.Step y l z → Trace x (ls ++ [l]) z

variable {M} {P : Config W F → Label C F T → Prop}

/-- Every history has its labels. -/
theorem Runs.trace {x y : Config W F} (h : M.Runs P x y) : ∃ ls, M.Trace x ls y := by
  induction h with
  | refl => exact ⟨[], .refl⟩
  | tail _ hs ih =>
      obtain ⟨l, -, hs⟩ := hs
      obtain ⟨ls, hls⟩ := ih
      exact ⟨ls ++ [l], hls.snoc hs⟩

/--
**Since when.** What holds now and did not at first became true at some step, and has held
ever since.
-/
theorem Runs.began {p : W → Prop} {x z : Config W F} (h : M.Runs P x z) (hx : ¬ p x.world)
    (hz : p z.world) :
    ∃ y l y', M.Runs P x y ∧ ¬ p y.world ∧ P y l ∧ M.Step y l y' ∧ p y'.world
      ∧ M.Runs (fun w l => P w l ∧ p w.world) y' z := by
  induction h with
  | refl => exact absurd hz hx
  | @tail y z hy hs ih =>
      obtain ⟨l, hl, hs⟩ := hs
      by_cases hp : p y.world
      · obtain ⟨y₁, l₁, y₂, h1, h2, h3, h4, h5, h6⟩ := ih hp
        exact ⟨y₁, l₁, y₂, h1, h2, h3, h4, h5, h6.tail ⟨hl, hp⟩ hs⟩
      · exact ⟨y, l, z, hy, hp, hl, hs, hz, .refl⟩

/-- A script whose next move passes a test gives a history and a step that does. -/
theorem script_then [∀ c w fs, Decidable (M.allowed c w fs)]
    {ok : Config W F → Label C F T → Bool} (hP : ∀ x l, ok x l = true → P x l) {x : Config W F}
    {s : List (Move C T)} {m : Move C T} {p : Config W F → Config W F → Bool}
    (h : (script M ok x s).any (fun y => (move M ok y m).any (p y)) = true) :
    ∃ y l z, M.Runs P x y ∧ M.Step y l z ∧ p y z = true := by
  obtain ⟨y, hy, h⟩ := (Option.any_eq_true _ _).mp h
  obtain ⟨z, hz, hp⟩ := (Option.any_eq_true _ _).mp h
  obtain ⟨l, -, -, hs⟩ := move_step hz
  exact ⟨y, l, z, script_runs hP hy, hs, hp⟩

end Machine

end CallMachine
