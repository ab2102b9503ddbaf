import Mathlib.Data.List.Nodup
import Mathlib.Data.List.Induction
import Mathlib.Data.List.Perm.Subperm

/-!
# Messages that come late and twice

A receiver puts what it gets in front of what it has, unless it has a message with the same
key. Whatever the order of the messages and however often each comes, it ends with what was
sent, once each, exactly if no two messages that were sent share a key.
-/

namespace Inbox

variable {A K : Type} [DecidableEq K] {key : A → K}

/-- Keep a message whose key is new. -/
def take (key : A → K) (box : List A) (a : A) : List A :=
  if key a ∈ box.map key then box else a :: box

/-- What is kept of what came: one message of every key. -/
structure Kept (key : A → K) (box came : List A) : Prop where
  nodup : (box.map key).Nodup
  subset : ∀ a ∈ box, a ∈ came
  covered : ∀ a ∈ came, ∃ b ∈ box, key b = key a

variable {box came sent : List A}

theorem Kept.take (h : Kept key box came) (a : A) : Kept key (take key box a) (came ++ [a]) := by
  have hold : ∀ b ∈ box, b ∈ came ++ [a] := fun b hb => List.mem_append_left _ (h.subset b hb)
  by_cases hk : key a ∈ box.map key
  · rw [Inbox.take, if_pos hk]
    refine ⟨h.nodup, hold, ?_⟩
    intro b hb
    rcases List.mem_append.mp hb with hb | hb
    · exact h.covered b hb
    · obtain rfl := List.mem_singleton.mp hb
      obtain ⟨c, hc, heq⟩ := List.mem_map.mp hk
      exact ⟨c, hc, heq⟩
  · rw [Inbox.take, if_neg hk]
    refine ⟨List.nodup_cons.mpr ⟨hk, h.nodup⟩, ?_, ?_⟩
    · intro b hb
      rcases List.mem_cons.mp hb with rfl | hb
      · exact List.mem_append_right _ (List.mem_singleton_self _)
      · exact hold b hb
    · intro b hb
      rcases List.mem_append.mp hb with hb | hb
      · obtain ⟨c, hc, heq⟩ := h.covered b hb
        exact ⟨c, List.mem_cons_of_mem _ hc, heq⟩
      · obtain rfl := List.mem_singleton.mp hb
        exact ⟨b, List.mem_cons_self, rfl⟩

theorem kept_foldl (came : List A) : Kept key (came.foldl (take key) []) came := by
  induction came using List.reverseRecOn with
  | nil => exact ⟨List.nodup_nil, fun _ h => h, fun _ h => absurd h List.not_mem_nil⟩
  | append_singleton came a ih =>
      rw [List.foldl_append]
      exact ih.take a

omit [DecidableEq K] in
/-- **Nothing is lost** exactly if no two messages share a key. -/
theorem Kept.perm_iff (h : Kept key box came) (hall : ∀ a, a ∈ came ↔ a ∈ sent) :
    box.Perm sent ↔ (sent.map key).Nodup := by
  constructor
  · intro hp
    exact (hp.map key).nodup_iff.mp h.nodup
  · intro hsent
    refine (List.perm_ext_iff_of_nodup h.nodup.of_map hsent.of_map).mpr fun a => ⟨?_, ?_⟩
    · intro ha
      exact (hall a).mp (h.subset a ha)
    · -- the message kept for its key was sent as well, so it is the same
      intro ha
      obtain ⟨b, hb, hk⟩ := h.covered a ((hall a).mpr ha)
      have hbs := (hall b).mp (h.subset b hb)
      rwa [List.inj_on_of_nodup_map hsent hbs ha hk] at hb

end Inbox
