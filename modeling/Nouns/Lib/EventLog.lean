import Mathlib.Data.Finset.Card
import Mathlib.Tactic.Common

/-!
# Logs of events

A source appends events to a log as its state changes, and a mirror is built from the log
alone, by handling one event after the other. `Replays` says that a log tells how the source
got from one state to another; a relation between source, mirror and log that every event
keeps then holds after every log.

A mirror often counts how many things have some property, and changes the count as one of
them gets or loses it.
-/

namespace EventLog

variable {S E M : Type}

/-- The events `es` lead from `s` to `s'`. -/
inductive Replays (step : S → E → S → Prop) : S → List E → S → Prop where
  | nil {s : S} : Replays step s [] s
  | cons {s s' s'' : S} {e : E} {es : List E} :
      step s e s' → Replays step s' es s'' → Replays step s (e :: es) s''

variable {step step' : S → E → S → Prop} {s s' s'' : S} {e : E} {es es' : List E}

theorem Replays.single (h : step s e s') : Replays step s [e] s' := .cons h .nil

theorem Replays.append (h : Replays step s es s') (h' : Replays step s' es' s'') :
    Replays step s (es ++ es') s'' := by
  induction h with
  | nil => exact h'
  | cons he _ ih => exact .cons he (ih h')

/-- Along another map of the states. -/
theorem Replays.map {S' : Type} {step' : S' → E → S' → Prop} {f : S → S'}
    (hf : ∀ {s e s'}, step s e s' → step' (f s) e (f s')) (h : Replays step s es s') :
    Replays step' (f s) es (f s') := by
  induction h with
  | nil => exact .nil
  | cons he _ ih => exact .cons (hf he) ih

/-- One more event. -/
theorem Replays.snoc (h : Replays step s es s') (he : step s' e s'') :
    Replays step s (es ++ [e]) s'' :=
  h.append (.single he)

/-- Where the source was in the middle of a log. -/
theorem Replays.split (h : Replays step s (es ++ es') s'') :
    ∃ s', Replays step s es s' ∧ Replays step s' es' s'' := by
  induction es generalizing s with
  | nil => exact ⟨s, .nil, h⟩
  | cons e es ih =>
      cases h with
      | cons he h =>
          obtain ⟨s', h₁, h₂⟩ := ih h
          exact ⟨s', .cons he h₁, h₂⟩

/-- Where the source was right before and right after an event. -/
theorem Replays.at_event (h : Replays step s (es ++ e :: es') s'') :
    ∃ s₁ s₂, Replays step s es s₁ ∧ step s₁ e s₂ ∧ Replays step s₂ es' s'' := by
  obtain ⟨s₁, h₁, h₂⟩ := h.split
  cases h₂ with
  | cons he h₂ => exact ⟨s₁, _, h₁, he, h₂⟩

/-- The last event, if there is one. -/
theorem Replays.last (h : Replays step s es s') :
    (es = [] ∧ s' = s) ∨ ∃ es' e s₁, es = es' ++ [e] ∧ Replays step s es' s₁ ∧ step s₁ e s' := by
  rcases List.eq_nil_or_concat es with rfl | ⟨es', e, rfl⟩
  · cases h
    exact .inl ⟨rfl, rfl⟩
  · rw [List.concat_eq_append] at h
    obtain ⟨s₁, s₂, h₁, he, h₂⟩ := h.at_event
    cases h₂
    exact .inr ⟨es', e, s₁, List.concat_eq_append, h₁, he⟩

/--
**The mirror rule.** A relation between the log so far, the source and the mirror holds
after a log if every event keeps it.
-/
theorem Replays.mirror {handle : M → E → M} {R : List E → S → M → Prop}
    (hstep : ∀ {l s e s' m}, step s e s' → R l s m → R (l ++ [e]) s' (handle m e))
    (h : Replays step s es s') {l : List E} {m : M} (hm : R l s m) :
    R (l ++ es) s' (es.foldl handle m) := by
  induction h generalizing l m with
  | nil => simpa using hm
  | @cons s s' s'' e es he _ ih =>
      have h := ih (hstep he hm)
      rw [List.append_assoc] at h
      exact h

/-! ## Counters -/

/-- Only one thing changes whether it counts. -/
theorem card_filter_change {A : Type} [DecidableEq A] {S : Finset A} {p q : A → Prop}
    [DecidablePred p] [DecidablePred q] {a : A} (ha : a ∈ S)
    (hother : ∀ x, x ≠ a → (q x ↔ p x)) :
    (S.filter q).card + (if p a then 1 else 0) = (S.filter p).card + (if q a then 1 else 0) := by
  have hsplit : ∀ (r : A → Prop) [DecidablePred r], (S.filter r).card
      = ((S.erase a).filter r).card + (if r a then 1 else 0) := by
    intro r _
    conv_lhs => rw [← Finset.insert_erase ha]
    rw [Finset.filter_insert]
    split
    · rw [Finset.card_insert_of_notMem (by simp)]
    · rfl
  have hrest : (S.erase a).filter q = (S.erase a).filter p :=
    Finset.filter_congr fun x hx => hother x (Finset.ne_of_mem_erase hx)
  rw [hsplit p, hsplit q, hrest]
  omega

end EventLog
