import Mathlib.Data.List.Destutter
import Mathlib.Data.List.Nodup
import Mathlib.Data.List.Perm.Basic

/-!
# Watching

Somebody looks at a thing from time to time, remembers what was there the last time, and reports
what has changed. Of a value that changes, what is reported is the list of the values seen with
the repetitions left out. Of a collection that only grows, every element that came later is
reported once, however often one looks and whatever comes between two looks.
-/

namespace Watching

/-! ## A value -/

section
variable {α : Type} (R : α → α → Prop) [DecidableRel R]

/-- What is reported: a value that is in relation to the one last reported. -/
def watch : α → List α → List α
  | _, [] => []
  | known, a :: seen => if R known a then a :: watch a seen else watch known seen

/-- **A value is reported when it changes.** -/
theorem watch_eq (known : α) (seen : List α) :
    watch R known seen = (seen.destutter' R known).tail := by
  suffices h : known :: watch R known seen = seen.destutter' R known by rw [← h, List.tail_cons]
  induction seen generalizing known with
  | nil => rfl
  | cons a seen ih =>
      rw [watch, List.destutter'_cons]
      split
      · rw [ih]
      · exact ih known

variable {R}

/--
A machine that compares what it sees with what it knows, and reports and remembers it when it
differs, reports what a watcher does.
-/
theorem foldl_watch {S A : Type} (step : S → A → S) (I : S → Prop) (known : S → α)
    (told : S → List α) (see : A → Option α) (hI : ∀ s a, I s → I (step s a))
    (hsame : ∀ s a, I s → (∀ v, see a = some v → ¬ R (known s) v) →
      told (step s a) = told s ∧ known (step s a) = known s)
    (hnew : ∀ s a v, I s → see a = some v → R (known s) v →
      told (step s a) = told s ++ [v] ∧ known (step s a) = v) {s : S} (hs : I s) (as : List A) :
    told (as.foldl step s) = told s ++ watch R (known s) (as.filterMap see) := by
  induction as generalizing s with
  | nil => exact (List.append_nil _).symm
  | cons a as ih =>
      rw [List.foldl_cons, ih (hI s a hs), List.filterMap_cons]
      rcases hsee : see a with - | v
      · obtain ⟨htold, hknown⟩ := hsame s a hs fun v hv => by rw [hsee] at hv; cases hv
        rw [htold, hknown]
      · show _ = _ ++ watch R (known s) (v :: _)
        by_cases hR : R (known s) v
        · obtain ⟨htold, hknown⟩ := hnew s a v hs hsee hR
          rw [htold, hknown, List.append_assoc, watch, if_pos hR]
          rfl
        · obtain ⟨htold, hknown⟩ := hsame s a hs fun v' hv =>
            Option.some.inj (hsee.symm.trans hv) ▸ hR
          rw [htold, hknown, watch, if_neg hR]

end

/-! ## A collection -/

section
variable {α K : Type} [DecidableEq K] (key : α → K) {a b c : List α}

/-- The elements that were not there. -/
def fresh (known seen : List α) : List α := seen.filter fun x => key x ∉ known.map key

/-- Nothing is lost, and no two elements have one key. -/
structure Grows (a b : List α) : Prop where
  kept : a ⊆ b
  nodup : (b.map key).Nodup

theorem fresh_self : fresh key a a = [] := by
  refine List.filter_eq_nil_iff.mpr ?_
  intro x hx h
  exact of_decide_eq_true h (List.mem_map_of_mem hx)

theorem mem_fresh {x : α} : x ∈ fresh key a b ↔ x ∈ b ∧ key x ∉ a.map key := by
  rw [fresh, List.mem_filter, decide_eq_true_eq]

theorem nodup_fresh (h : (b.map key).Nodup) : (fresh key a b).Nodup :=
  h.of_map.filter _

/-- What came in two steps is what came in all. -/
theorem fresh_trans (h : Grows key a b) (h' : Grows key b c) :
    (fresh key a b ++ fresh key b c).Perm (fresh key a c) := by
  refine (List.perm_ext_iff_of_nodup ?_ (nodup_fresh key h'.nodup)).mpr ?_
  · refine (nodup_fresh key h.nodup).append (nodup_fresh key h'.nodup) ?_
    intro x hx hx'
    exact ((mem_fresh key).mp hx').2 (List.mem_map_of_mem ((mem_fresh key).mp hx).1)
  · intro x
    rw [List.mem_append, mem_fresh, mem_fresh, mem_fresh]
    constructor
    · intro hx
      rcases hx with ⟨hb, ha⟩ | ⟨hc, hb⟩
      · exact ⟨h'.kept hb, ha⟩
      · exact ⟨hc, fun ha => hb (List.map_subset key h.kept ha)⟩
    · intro hx
      obtain ⟨hc, ha⟩ := hx
      by_cases hb : key x ∈ b.map key
      · obtain ⟨y, hy, heq⟩ := List.mem_map.mp hb
        obtain rfl := List.inj_on_of_nodup_map h'.nodup (h'.kept hy) hc heq
        exact .inl ⟨hy, ha⟩
      · exact .inr ⟨hc, hb⟩

/-- What is reported: at each look the elements that were not there at the look before. -/
def reports : List α → List (List α) → List α
  | _, [] => []
  | known, seen :: later => fresh key known seen ++ reports seen later

variable {key} in
/--
A machine that compares what it sees with what it saw last, and reports of what is fresh the
elements that are worth it.
-/
theorem foldl_reports {S A : Type} (step : S → A → S) (I : S → Prop) (known told : S → List α)
    (see : A → List α) (worth : α → Bool) (hI : ∀ s a, I s → I (step s a))
    (hstep : ∀ s a, I s → told (step s a) = told s ++ (fresh key (known s) (see a)).filter worth
      ∧ known (step s a) = see a) {s : S} (hs : I s) (as : List A) :
    told (as.foldl step s) = told s ++ (reports key (known s) (as.map see)).filter worth := by
  induction as generalizing s with
  | nil => exact (List.append_nil _).symm
  | cons a as ih =>
      obtain ⟨htold, hknown⟩ := hstep s a hs
      rw [List.foldl_cons, ih (hI s a hs), htold, hknown, List.map_cons, reports,
        List.filter_append, List.append_assoc]

omit [DecidableEq K] in
theorem Grows.trans (h : Grows key a b) (h' : Grows key b c) : Grows key a c :=
  ⟨List.Subset.trans h.kept h'.kept, h'.nodup⟩

omit [DecidableEq K] in
/-- What was seen last has grown from what was known, unless nothing was seen. -/
theorem grows_last {known : List α} {seen : List (List α)}
    (h : (known :: seen).IsChain (Grows key)) :
    seen.getLastD known = known ∨ Grows key known (seen.getLastD known) := by
  induction seen generalizing known with
  | nil => exact .inl List.getLastD_nil
  | cons next seen ih =>
      obtain ⟨hgrows, hrest⟩ := List.isChain_cons_cons.mp h
      rw [List.getLastD_cons]
      rcases ih hrest with heq | hlater
      · exact .inr (heq.symm ▸ hgrows)
      · exact .inr (hgrows.trans key hlater)

/-- **Everything that came later is reported once.** -/
theorem reports_perm {known : List α} {seen : List (List α)}
    (h : (known :: seen).IsChain (Grows key)) :
    (reports key known seen).Perm (fresh key known (seen.getLastD known)) := by
  induction seen generalizing known with
  | nil => rw [reports, List.getLastD_nil, fresh_self]
  | cons next seen ih =>
      obtain ⟨hgrows, hrest⟩ := List.isChain_cons_cons.mp h
      rw [reports, List.getLastD_cons]
      refine ((ih hrest).append_left _).trans ?_
      rcases grows_last key hrest with heq | hlater
      · rw [heq, fresh_self, List.append_nil]
      · exact fresh_trans key hgrows hlater

end

end Watching
