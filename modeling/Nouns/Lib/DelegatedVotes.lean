import Mathlib.Algebra.BigOperators.Group.Finset.Piecewise
import Mathlib.Algebra.Order.BigOperators.Group.Finset
import Mathlib.Data.Fintype.BigOperators
import Mathlib.Logic.Relation
import Mathlib.Tactic.Ring

/-!
# Ledgers of delegated votes

Holders of units let somebody represent them, themselves by default, and every
account has a running count of votes. What the count is for is `Backed`: an
account has one vote for each unit held by those it represents. `Bounded` is the
weaker promise that no vote exists without a unit.

The zero account holds nothing and has no votes. Representing somebody by it is a
contradiction in terms: its own entry in `delegate` means that nobody was named.
-/

namespace DelegatedVotes

variable {A : Type} [DecidableEq A]

section Sums

/-- Changing one summand. -/
theorem sum_update_mem {S : Finset A} (f : A → ℕ) {a : A} (x : ℕ) (ha : a ∈ S) :
    ∑ o ∈ S, Function.update f a x o + f a = ∑ o ∈ S, f o + x := by
  rw [Finset.sum_update_of_mem ha,
    ← Finset.sum_sdiff (Finset.singleton_subset_iff.mpr ha) (f := f), Finset.sum_singleton]
  ring

theorem sum_update [Fintype A] (f : A → ℕ) (a : A) (x : ℕ) :
    ∑ o, Function.update f a x o + f a = ∑ o, f o + x :=
  sum_update_mem f x (Finset.mem_univ a)

/-- Changing one record changes the sum of a field. -/
theorem sum_field_update [Fintype A] {R : Type} (g : R → ℕ) (f : A → R) (a : A) (x : R) :
    ∑ o, g (Function.update f a x o) + g (f a) = ∑ o, g (f o) + g x := by
  have h := sum_update (fun o => g (f o)) a (g x)
  have hf : Function.update (fun o => g (f o)) a (g x) = fun o => g (Function.update f a x o) := by
    funext o
    by_cases ho : o = a
    · subst ho; simp
    · simp [ho]
  rw [hf] at h
  exact h

/-- Giving one unit another owner changes how many units two owners have. -/
theorem count_update {ι : Type} [DecidableEq ι] {S : Finset ι} (f : ι → A) {i : ι} (x o : A)
    (hi : i ∈ S) :
    (S.filter (fun n => Function.update f i x n = o)).card + (if f i = o then 1 else 0)
      = (S.filter (fun n => f n = o)).card + (if x = o then 1 else 0) := by
  simp only [Finset.card_filter]
  have h := sum_update_mem (fun n => if f n = o then 1 else 0) (if x = o then 1 else 0) hi
  have hf : Function.update (fun n => if f n = o then 1 else 0) i (if x = o then 1 else 0)
      = fun n => if Function.update f i x n = o then 1 else 0 := by
    funext n
    by_cases hn : n = i
    · subst hn; simp
    · simp [hn]
  rw [hf] at h
  exact h

end Sums

variable [Zero A]

/-- The votes after `n` of `a`'s are taken away. -/
def take (v : A → ℕ) (a : A) (n : ℕ) : A → ℕ :=
  if a = 0 then v else Function.update v a (v a - n)

/-- The votes after `n` are given to `a`. -/
def give (v : A → ℕ) (a : A) (n : ℕ) : A → ℕ :=
  if a = 0 then v else Function.update v a (v a + n)

/-- The votes after `n` of them move. -/
def move (v : A → ℕ) (src dst : A) (n : ℕ) : A → ℕ :=
  if src = dst then v else give (take v src n) dst n

/-- Units, representatives and votes; `supply` counts the units. -/
structure Ledger (A : Type) where
  balance : A → ℕ
  delegate : A → A
  votes : A → ℕ
  supply : ℕ

namespace Ledger

/-- Who represents `o`: itself, if it named nobody. -/
def rep (L : Ledger A) (o : A) : A := if L.delegate o = 0 then o else L.delegate o

/-- A new unit for `o`. -/
def issue (L : Ledger A) (o : A) : Ledger A :=
  { L with
    balance := Function.update L.balance o (L.balance o + 1)
    votes := give L.votes (L.rep o) 1
    supply := L.supply + 1 }

/-- A unit of `o` is destroyed. -/
def retire (L : Ledger A) (o : A) : Ledger A :=
  { L with
    balance := Function.update L.balance o (L.balance o - 1)
    votes := take L.votes (L.rep o) 1
    supply := L.supply - 1 }

/-- A unit changes hands. -/
def transfer (L : Ledger A) (src dst : A) : Ledger A :=
  let balance := Function.update L.balance src (L.balance src - 1)
  { L with
    balance := Function.update balance dst (balance dst + 1)
    votes := move L.votes (L.rep src) (L.rep dst) 1 }

/-- `o` names `d`, and the votes it carries follow. -/
def redelegate (L : Ledger A) (o d : A) : Ledger A :=
  { L with
    delegate := Function.update L.delegate o d
    votes := move L.votes (L.rep o) d (L.balance o) }

/-- The operations, with what has to be checked before each. -/
inductive Step : Ledger A → Ledger A → Prop where
  | issue {L : Ledger A} {o : A} : o ≠ 0 → Step L (L.issue o)
  | retire {L : Ledger A} {o : A} :
      o ≠ 0 → 1 ≤ L.balance o → 1 ≤ L.votes (L.rep o) → Step L (L.retire o)
  | transfer {L : Ledger A} {src dst : A} :
      src ≠ 0 → dst ≠ 0 → 1 ≤ L.balance src →
      (L.rep src ≠ L.rep dst → 1 ≤ L.votes (L.rep src)) → Step L (L.transfer src dst)
  | redelegate {L : Ledger A} {o d : A} :
      o ≠ 0 → (L.rep o ≠ d → L.balance o ≤ L.votes (L.rep o)) → Step L (L.redelegate o d)

/-- The zero account takes no part. -/
structure ZeroFree (L : Ledger A) : Prop where
  balance : L.balance 0 = 0
  delegate : L.delegate 0 = 0
  votes : L.votes 0 = 0

theorem rep_ne_zero {L : Ledger A} {o : A} (ho : o ≠ 0) : L.rep o ≠ 0 := by
  unfold rep
  split <;> assumption

theorem move_zero {v : A → ℕ} {src dst : A} {n : ℕ} (h : v 0 = 0) : move v src dst n 0 = 0 := by
  have htake : take v src n 0 = 0 := by
    unfold take
    split
    · exact h
    · rename_i hs; rw [Function.update_of_ne (Ne.symm hs), h]
  unfold move
  split
  · exact h
  · unfold give
    split
    · exact htake
    · rename_i hd; rw [Function.update_of_ne (Ne.symm hd), htake]

theorem Step.zeroFree {L L' : Ledger A} (hs : Step L L') (h : L.ZeroFree) : L'.ZeroFree := by
  cases hs with
  | issue ho =>
      refine ⟨?_, h.delegate, ?_⟩
      · simp [Ledger.issue, Function.update_of_ne (Ne.symm ho), h.balance]
      · simp [Ledger.issue, give, rep_ne_zero ho, Function.update_of_ne (Ne.symm (rep_ne_zero ho)), h.votes]
  | retire ho _ _ =>
      refine ⟨?_, h.delegate, ?_⟩
      · simp [Ledger.retire, Function.update_of_ne (Ne.symm ho), h.balance]
      · simp [Ledger.retire, take, rep_ne_zero ho, Function.update_of_ne (Ne.symm (rep_ne_zero ho)), h.votes]
  | transfer hs hd _ _ =>
      refine ⟨?_, h.delegate, move_zero h.votes⟩
      simp [Ledger.transfer, Function.update_of_ne (Ne.symm hs), Function.update_of_ne (Ne.symm hd),
        h.balance]
  | redelegate ho _ =>
      refine ⟨h.balance, ?_, move_zero h.votes⟩
      simp [Ledger.redelegate, Function.update_of_ne (Ne.symm ho), h.delegate]

/-! ## No vote without a unit -/

section Totals
variable [Fintype A]

theorem sum_take {v : A → ℕ} {a : A} {n : ℕ} (ha : a ≠ 0) (hn : n ≤ v a) :
    ∑ o, take v a n o + n = ∑ o, v o := by
  have := sum_update v a (v a - n)
  simp only [take, if_neg ha]
  omega

theorem sum_give {v : A → ℕ} {a : A} {n : ℕ} (ha : a ≠ 0) :
    ∑ o, give v a n o = ∑ o, v o + n := by
  have := sum_update v a (v a + n)
  simp only [give, if_neg ha]
  omega

/-- Moving votes makes none. -/
theorem sum_move_le {v : A → ℕ} {src dst : A} {n : ℕ} (hs : src ≠ 0)
    (hn : src ≠ dst → n ≤ v src) : ∑ o, move v src dst n o ≤ ∑ o, v o := by
  unfold move
  split
  · exact le_rfl
  · rename_i hne
    have htake := sum_take hs (hn hne)
    by_cases hd : dst = 0
    · simp only [give, if_pos hd]; omega
    · have hgive := sum_give (v := take v src n) (n := n) hd
      omega

/-- Units are conserved, and there are at least as many as votes. -/
structure Bounded (L : Ledger A) : Prop where
  units : ∑ o, L.balance o = L.supply
  votes : ∑ a, L.votes a ≤ L.supply

theorem Step.bounded {L L' : Ledger A} (hs : Step L L') (h : L.Bounded) : L'.Bounded := by
  obtain ⟨hu, hv⟩ := h
  cases hs with
  | @issue o ho =>
      have hb := sum_update L.balance o (L.balance o + 1)
      have hg := sum_give (v := L.votes) (n := 1) (rep_ne_zero (L := L) ho)
      exact ⟨by simp only [Ledger.issue]; omega, by simp only [Ledger.issue]; omega⟩
  | @retire o ho hb1 hv1 =>
      have hb := sum_update L.balance o (L.balance o - 1)
      have ht := sum_take (n := 1) (rep_ne_zero (L := L) ho) hv1
      exact ⟨by simp only [Ledger.retire]; omega, by simp only [Ledger.retire]; omega⟩
  | @transfer src dst hs hd hb1 hv1 =>
      have hb := sum_update L.balance src (L.balance src - 1)
      have hb' := sum_update (Function.update L.balance src (L.balance src - 1)) dst
        (Function.update L.balance src (L.balance src - 1) dst + 1)
      have hm := sum_move_le (n := 1) (rep_ne_zero (L := L) hs) hv1
      exact ⟨by simp only [Ledger.transfer]; omega, by simp only [Ledger.transfer]; omega⟩
  | redelegate ho hv1 =>
      have hm := sum_move_le (rep_ne_zero (L := L) ho) hv1
      exact ⟨by simp only [Ledger.redelegate]; omega, by simp only [Ledger.redelegate]; omega⟩

/-! ## One vote for each unit represented -/

/-- The units held by those `a` represents. -/
def weight (L : Ledger A) (a : A) : ℕ := ∑ o, if L.rep o = a then L.balance o else 0

/-- Every account has the votes of the units it represents. -/
def Backed (L : Ledger A) : Prop := ∀ a, a ≠ 0 → L.votes a = L.weight a

theorem balance_le_weight (L : Ledger A) (o : A) : L.balance o ≤ L.weight (L.rep o) := by
  have := Finset.single_le_sum (f := fun x => if L.rep x = L.rep o then L.balance x else 0)
    (fun _ _ => Nat.zero_le _) (Finset.mem_univ o)
  simpa [weight] using this

/-- Changing one holder's units or representative changes the weights of two accounts. -/
theorem weight_change (L L' : Ledger A) {o : A} (hb : ∀ x, x ≠ o → L'.balance x = L.balance x)
    (hr : ∀ x, x ≠ o → L'.rep x = L.rep x) (a : A) :
    L'.weight a + (if L.rep o = a then L.balance o else 0)
      = L.weight a + (if L'.rep o = a then L'.balance o else 0) := by
  have h := sum_update (fun x => if L.rep x = a then L.balance x else 0) o
    (if L'.rep o = a then L'.balance o else 0)
  have hf : Function.update (fun x => if L.rep x = a then L.balance x else 0) o
      (if L'.rep o = a then L'.balance o else 0)
        = fun x => if L'.rep x = a then L'.balance x else 0 := by
    funext x
    by_cases hx : x = o
    · subst hx; simp
    · rw [Function.update_of_ne hx, hb x hx, hr x hx]
  rw [hf] at h
  exact h

theorem weight_issue (L : Ledger A) (o a : A) :
    (L.issue o).weight a = L.weight a + if L.rep o = a then 1 else 0 := by
  have hw := weight_change L (L.issue o) (o := o)
    (fun x hx => by simp [Ledger.issue, hx]) (fun _ _ => rfl) a
  have hrep : (L.issue o).rep o = L.rep o := rfl
  have hbal : (L.issue o).balance o = L.balance o + 1 := by simp [Ledger.issue]
  rw [hrep, hbal] at hw
  by_cases hra : L.rep o = a
  · simp only [if_pos hra] at hw ⊢; omega
  · simp only [if_neg hra] at hw ⊢; omega

omit [Fintype A] in
theorem votes_issue {L : Ledger A} {o : A} (ho : o ≠ 0) (a : A) :
    (L.issue o).votes a = L.votes a + if L.rep o = a then 1 else 0 := by
  simp only [Ledger.issue, give, if_neg (rep_ne_zero (L := L) ho)]
  by_cases hra : a = L.rep o
  · subst hra; simp
  · rw [Function.update_of_ne hra, if_neg (Ne.symm hra)]; rfl

theorem weight_retire (L : Ledger A) {o : A} (hb : 1 ≤ L.balance o) (a : A) :
    (L.retire o).weight a + (if L.rep o = a then 1 else 0) = L.weight a := by
  have hw := weight_change L (L.retire o) (o := o)
    (fun x hx => by simp [Ledger.retire, hx]) (fun _ _ => rfl) a
  have hrep : (L.retire o).rep o = L.rep o := rfl
  have hbal : (L.retire o).balance o = L.balance o - 1 := by simp [Ledger.retire]
  rw [hrep, hbal] at hw
  by_cases hra : L.rep o = a
  · simp only [if_pos hra] at hw ⊢; omega
  · simp only [if_neg hra] at hw ⊢; omega

omit [Fintype A] in
theorem votes_retire {L : Ledger A} {o : A} (ho : o ≠ 0) (a : A) :
    (L.retire o).votes a = L.votes a - if L.rep o = a then 1 else 0 := by
  simp only [Ledger.retire, take, if_neg (rep_ne_zero (L := L) ho)]
  by_cases hra : a = L.rep o
  · subst hra; simp
  · rw [Function.update_of_ne hra, if_neg (Ne.symm hra)]; rfl

theorem Backed.issue {L : Ledger A} {o : A} (h : L.Backed) (ho : o ≠ 0) : (L.issue o).Backed := by
  intro a ha
  rw [votes_issue ho, weight_issue, h a ha]

theorem Backed.retire {L : Ledger A} {o : A} (h : L.Backed) (ho : o ≠ 0)
    (hb : 1 ≤ L.balance o) : (L.retire o).Backed := by
  intro a ha
  have hw := L.weight_retire hb a
  rw [votes_retire ho, h a ha]
  omega

/-- What a transfer does to the weight of an account. -/
theorem weight_transfer (L : Ledger A) {src : A} (dst : A) (hb : 1 ≤ L.balance src) (a : A) :
    (L.transfer src dst).weight a + (if L.rep src = a then 1 else 0)
      = L.weight a + (if L.rep dst = a then 1 else 0) := by
  -- the unit leaves `src` first, and reaches `dst` from there
  let M : Ledger A := { L with balance := Function.update L.balance src (L.balance src - 1) }
  have h1 := weight_change L M (o := src)
    (fun x hx => by simp [M, hx]) (fun _ _ => rfl) a
  have h2 := weight_change M (L.transfer src dst) (o := dst)
    (fun x hx => by simp [M, Ledger.transfer, hx]) (fun _ _ => rfl) a
  have hr1 : M.rep src = L.rep src := rfl
  have hr2 : M.rep dst = L.rep dst := rfl
  have hr3 : (L.transfer src dst).rep dst = L.rep dst := rfl
  have hb1 : M.balance src = L.balance src - 1 := by simp [M]
  have hb2 : (L.transfer src dst).balance dst = M.balance dst + 1 := by
    simp [M, Ledger.transfer]
  rw [hr1, hb1] at h1
  rw [hr2, hr3, hb2] at h2
  split at h1 <;> split at h2 <;> simp_all <;> omega

omit [Fintype A] in
/-- Moving `n` votes between two accounts. -/
theorem move_apply {v : A → ℕ} {x y a : A} {n : ℕ} (hs : x ≠ 0) (ha : a ≠ 0)
    (hn : x ≠ y → n ≤ v x) :
    move v x y n a + (if x = a then n else 0) = v a + (if y = a then n else 0) := by
  unfold move
  by_cases hxy : x = y
  · simp [hxy]
  · have := hn hxy
    rw [if_neg hxy, give, take, if_neg hs]
    by_cases hd : y = 0
    · by_cases hsa : x = a
      · subst hsa; simp [hd, Ne.symm hs]; omega
      · simp [hd, hsa, Ne.symm ha, Ne.symm hsa]
    · by_cases hda : y = a
      · subst hda; simp [hd, hxy, Ne.symm hxy]
      · by_cases hsa : x = a
        · subst hsa; simp [hd, hda, hxy]; omega
        · simp [hd, hda, hsa, Ne.symm hda, Ne.symm hsa]

theorem Backed.transfer {L : Ledger A} {src dst : A} (h : L.Backed) (hs : src ≠ 0)
    (hb : 1 ≤ L.balance src) (hv : L.rep src ≠ L.rep dst → 1 ≤ L.votes (L.rep src)) :
    (L.transfer src dst).Backed := by
  intro a ha
  have hw := L.weight_transfer dst hb a
  have hm := move_apply (n := 1) (rep_ne_zero (L := L) hs) ha hv
  have hva : (L.transfer src dst).votes a = move L.votes (L.rep src) (L.rep dst) 1 a := rfl
  have := h a ha
  omega

/-- What naming `d` does to the weight of an account. -/
theorem weight_redelegate (L : Ledger A) {o d : A} (a : A) :
    (L.redelegate o d).weight a + (if L.rep o = a then L.balance o else 0)
      = L.weight a + (if (if d = 0 then o else d) = a then L.balance o else 0) := by
  have h := weight_change L (L.redelegate o d) (o := o) (fun _ _ => rfl)
    (fun x hx => by simp [rep, Ledger.redelegate, hx]) a
  have hr : (L.redelegate o d).rep o = if d = 0 then o else d := by
    simp [rep, Ledger.redelegate]
  rw [hr] at h
  exact h

theorem Backed.redelegate {L : Ledger A} {o d : A} (h : L.Backed) (ho : o ≠ 0)
    (hd : d ≠ 0 ∨ L.balance o = 0) (hv : L.rep o ≠ d → L.balance o ≤ L.votes (L.rep o)) :
    (L.redelegate o d).Backed := by
  intro a ha
  have hw := L.weight_redelegate (o := o) (d := d) a
  have hm := move_apply (rep_ne_zero (L := L) ho) ha hv
  have hva : (L.redelegate o d).votes a = move L.votes (L.rep o) d (L.balance o) a := rfl
  have := h a ha
  rcases hd with hd | hb
  · rw [if_neg hd] at hw; omega
  · simp only [hb, ite_self] at hw hm; rw [hb] at hva; omega

/-- No account has more votes than the units it represents. -/
def Covered (L : Ledger A) : Prop := ∀ a, a ≠ 0 → L.votes a ≤ L.weight a

/-- Unlike being backed, being covered is kept by every operation. -/
theorem Step.covered {L L' : Ledger A} (hs : Step L L') (h : L.Covered) : L'.Covered := by
  intro a ha
  have hle := h a ha
  cases hs with
  | issue ho =>
      rw [votes_issue ho, weight_issue]
      omega
  | @retire o ho hb hv =>
      have hw := L.weight_retire hb a
      rw [votes_retire ho]
      omega
  | @transfer src dst hs _ hb hv =>
      have hw := L.weight_transfer dst hb a
      have hm := move_apply (n := 1) (rep_ne_zero (L := L) hs) ha hv
      have hva : (L.transfer src dst).votes a = move L.votes (L.rep src) (L.rep dst) 1 a := rfl
      omega
  | @redelegate o d ho hv =>
      have hw := L.weight_redelegate (o := o) (d := d) a
      have hm := move_apply (rep_ne_zero (L := L) ho) ha hv
      have hva : (L.redelegate o d).votes a = move L.votes (L.rep o) d (L.balance o) a := rfl
      by_cases hd : d = 0
      · -- the votes go to nobody, the units at most to `o`
        subst hd
        rw [if_neg (Ne.symm ha)] at hm
        omega
      · rw [if_neg hd] at hw
        omega

/-- **Naming nobody loses votes.** A holder that names the zero account is no longer backed. -/
theorem not_backed_redelegate_zero {L : Ledger A} {o : A} (h : L.Backed) (ho : o ≠ 0)
    (hb : 0 < L.balance o) : ¬ (L.redelegate o 0).Backed := by
  intro h'
  have hv : L.rep o ≠ 0 → L.balance o ≤ L.votes (L.rep o) := fun hr => by
    rw [h _ hr]; exact L.balance_le_weight o
  have hw := L.weight_redelegate (o := o) (d := 0) o
  have hm := move_apply (y := 0) (rep_ne_zero (L := L) ho) ho hv
  have hva : (L.redelegate o 0).votes o = move L.votes (L.rep o) 0 (L.balance o) o := rfl
  have h1 := h o ho
  have h2 := h' o ho
  simp only [if_true] at hw
  rw [if_neg (Ne.symm ho)] at hm
  omega

/-- `a` has the votes of the units it represents, at least. -/
def BackedAt (L : Ledger A) (a : A) : Prop := L.weight a ≤ L.votes a

theorem BackedAt.issue {L : Ledger A} {o a : A} (h : L.BackedAt a) (ho : o ≠ 0) :
    (L.issue o).BackedAt a := by
  unfold BackedAt at h ⊢
  rw [votes_issue ho, weight_issue]
  omega

theorem BackedAt.retire {L : Ledger A} {o a : A} (h : L.BackedAt a) (ho : o ≠ 0)
    (hb : 1 ≤ L.balance o) : (L.retire o).BackedAt a := by
  have hw := L.weight_retire hb a
  unfold BackedAt at h ⊢
  rw [votes_retire ho]
  omega

theorem BackedAt.transfer {L : Ledger A} {src dst a : A} (h : L.BackedAt a) (ha : a ≠ 0)
    (hs : src ≠ 0) (hb : 1 ≤ L.balance src)
    (hv : L.rep src ≠ L.rep dst → 1 ≤ L.votes (L.rep src)) : (L.transfer src dst).BackedAt a := by
  have hw := L.weight_transfer dst hb a
  have hm := move_apply (n := 1) (rep_ne_zero (L := L) hs) ha hv
  have hva : (L.transfer src dst).votes a = move L.votes (L.rep src) (L.rep dst) 1 a := rfl
  unfold BackedAt at h ⊢
  omega

/-- Whoever else signs its votes away, those of `a` stay. -/
theorem BackedAt.redelegate {L : Ledger A} {o d a : A} (h : L.BackedAt a) (ha : a ≠ 0) (ho : o ≠ 0)
    (hoa : o ≠ a) (hv : L.rep o ≠ d → L.balance o ≤ L.votes (L.rep o)) :
    (L.redelegate o d).BackedAt a := by
  have hw := L.weight_redelegate (o := o) (d := d) a
  have hm := move_apply (rep_ne_zero (L := L) ho) ha hv
  have hva : (L.redelegate o d).votes a = move L.votes (L.rep o) d (L.balance o) a := rfl
  unfold BackedAt at h ⊢
  by_cases hd : d = 0
  · rw [if_pos hd, if_neg hoa] at hw
    omega
  · rw [if_neg hd] at hw
    omega

/-- In a backed ledger nobody moves votes that are not there. -/
theorem Backed.balance_le {L : Ledger A} {o : A} (h : L.Backed) (ho : o ≠ 0) :
    L.balance o ≤ L.votes (L.rep o) := by
  rw [h _ (rep_ne_zero ho)]
  exact L.balance_le_weight o

end Totals

end Ledger

end DelegatedVotes
