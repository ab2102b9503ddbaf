import Mathlib.Data.List.Chain
import Mathlib.Data.List.Induction

/-!
# Runs

A list as its runs, each a length and a value. `push` puts one more value behind a list,
`encode` does so with all of them, and `expand` writes the runs out again. Neighbouring
runs have different values, so a run ends where its value does.

`painted` lays runs side by side from a position on and leaves the runs of one value out;
what is left covers exactly the other values of the list.
-/

namespace RunLength

variable {A : Type} [DecidableEq A]

/-- The list runs stand for. -/
def expand (rs : List (Nat × A)) : List A := rs.flatMap fun r => List.replicate r.1 r.2

/-- One more value: the last run grows, or a new one begins. -/
def push (rs : List (Nat × A)) (a : A) : List (Nat × A) :=
  match rs.getLast? with
  | none => [(1, a)]
  | some last => if last.2 ≠ a then rs ++ [(1, a)] else rs.dropLast ++ [(last.1 + 1, a)]

def encode (l : List A) : List (Nat × A) := l.foldl push []

/-- No run is empty. -/
def Positive (rs : List (Nat × A)) : Prop := ∀ r ∈ rs, 0 < r.1

variable {rs rs' : List (Nat × A)} {l : List A} {a : A}

omit [DecidableEq A] in
@[simp] theorem expand_append : expand (rs ++ rs') = expand rs ++ expand rs' := List.flatMap_append

omit [DecidableEq A] in
@[simp] theorem expand_singleton {n : Nat} : expand [(n, a)] = List.replicate n a := by
  simp [expand]

omit [DecidableEq A] in
theorem expand_cons {r : Nat × A} : expand (r :: rs) = List.replicate r.1 r.2 ++ expand rs := by
  simp [expand]

theorem expand_push : expand (push rs a) = expand rs ++ [a] := by
  unfold push
  cases h : rs.getLast? with
  | none =>
      obtain rfl := List.getLast?_eq_none_iff.mp h
      rfl
  | some last =>
      obtain ⟨init, rfl⟩ := List.getLast?_eq_some_iff.mp h
      dsimp only
      split
      · rw [expand_append, expand_singleton]
        rfl
      · next heq =>
          obtain rfl := not_not.mp heq
          rw [List.dropLast_concat, expand_append, expand_append, expand_singleton,
            show [last] = [(last.1, last.2)] from rfl, expand_singleton, List.replicate_succ',
            List.append_assoc]

theorem Positive.push (h : Positive rs) : Positive (push rs a) := by
  unfold RunLength.push
  cases hlast : rs.getLast? with
  | none =>
      intro r hr
      obtain rfl := List.mem_singleton.mp hr
      exact Nat.one_pos
  | some last =>
      dsimp only
      split
      · intro r hr
        rcases List.mem_append.mp hr with hr | hr
        · exact h r hr
        · obtain rfl := List.mem_singleton.mp hr
          exact Nat.one_pos
      · intro r hr
        rcases List.mem_append.mp hr with hr | hr
        · exact h r (List.dropLast_subset rs hr)
        · obtain rfl := List.mem_singleton.mp hr
          exact Nat.succ_pos _

theorem encode_concat : encode (l ++ [a]) = push (encode l) a := by
  unfold encode
  rw [List.foldl_append]
  rfl

/-- **Nothing is lost.** -/
theorem expand_encode (l : List A) : expand (encode l) = l := by
  induction l using List.reverseRecOn with
  | nil => rfl
  | append_singleton l a ih => rw [encode_concat, expand_push, ih]

theorem encode_positive (l : List A) : Positive (encode l) := by
  induction l using List.reverseRecOn with
  | nil => exact fun _ h => absurd h List.not_mem_nil
  | append_singleton l a ih =>
      rw [encode_concat]
      exact ih.push

/-- Neighbouring runs have different values. -/
def Alternating (rs : List (Nat × A)) : Prop := rs.IsChain fun r r' => r.2 ≠ r'.2

theorem Alternating.push (h : Alternating rs) : Alternating (push rs a) := by
  unfold RunLength.push
  cases hlast : rs.getLast? with
  | none => exact List.isChain_singleton _
  | some last =>
      obtain ⟨init, rfl⟩ := List.getLast?_eq_some_iff.mp hlast
      dsimp only
      split
      · next hne =>
          refine List.IsChain.append h (List.isChain_singleton _) ?_
          intro r hr r' hr'
          obtain rfl : r = last := Option.some.inj (hr.symm.trans hlast)
          obtain rfl := Option.some.inj hr'
          exact hne
      · next heq =>
        -- the run before the last differs from it still: the value is the same
        obtain rfl := not_not.mp heq
        obtain ⟨hinit, -, hbefore⟩ := List.isChain_append.mp h
        rw [List.dropLast_concat]
        refine List.IsChain.append hinit (List.isChain_singleton _) ?_
        intro r hr r' hr'
        obtain rfl := Option.some.inj hr'
        exact hbefore r hr last rfl

theorem encode_alternating (l : List A) : Alternating (encode l) := by
  induction l using List.reverseRecOn with
  | nil => exact List.isChain_nil
  | append_singleton l a ih =>
      rw [encode_concat]
      exact ih.push

theorem encode_replicate (n : Nat) (a : A) : encode (List.replicate (n + 1) a) = [(n + 1, a)] := by
  induction n with
  | zero => rfl
  | succ n ih =>
      rw [List.replicate_succ', encode_concat, ih]
      simp [push]

theorem encode_ne_nil (h : l ≠ []) : encode l ≠ [] := by
  intro hnil
  have hl := expand_encode l
  rw [hnil] at hl
  exact h hl.symm

omit [DecidableEq A] in
theorem Positive.mem_expand (h : Positive rs) {r : Nat × A} (hr : r ∈ rs) : r.2 ∈ expand rs :=
  List.mem_flatMap.mpr ⟨r, hr, List.mem_replicate.mpr ⟨Nat.ne_of_gt (h r hr), rfl⟩⟩

omit [DecidableEq A] in
theorem length_le_expand {r : Nat × A} (hr : r ∈ rs) : r.1 ≤ (expand rs).length := by
  obtain ⟨before, after, rfl⟩ := List.append_of_mem hr
  rw [expand_append, expand_cons, List.length_append, List.length_append, List.length_replicate]
  omega

omit [DecidableEq A] in
theorem Positive.eq_nil (h : Positive rs) (hlen : (expand rs).length = 0) : rs = [] := by
  refine List.eq_nil_iff_forall_not_mem.mpr ?_
  intro r hr
  have hpos := h r hr
  have hle := length_le_expand hr
  omega

omit [DecidableEq A] in
/-- Every position is in a run. -/
theorem run_at {x : Nat} (hx : x < (expand rs).length) : ∃ before r after, rs = before ++ r :: after
    ∧ (expand before).length ≤ x ∧ x < (expand before).length + r.1 := by
  induction rs generalizing x with
  | nil => exact absurd hx (Nat.not_lt_zero x)
  | cons r rs ih =>
      rw [expand_cons, List.length_append, List.length_replicate] at hx
      by_cases hin : x < r.1
      · exact ⟨[], r, rs, rfl, Nat.zero_le x, by simpa [expand] using hin⟩
      · obtain ⟨before, r', after, rfl, hlo, hlt⟩ := ih (x := x - r.1) (by omega)
        refine ⟨r :: before, r', after, rfl, ?_⟩
        rw [expand_cons, List.length_append, List.length_replicate]
        omega

section
variable {before after : List (Nat × A)} {r : Nat × A}

/-- A run, in the list. -/
theorem encode_split (h : encode l = before ++ r :: after) :
    l = expand before ++ (List.replicate r.1 r.2 ++ expand after) := by
  rw [← expand_cons, ← expand_append, ← h, expand_encode]

theorem length_split (h : encode l = before ++ r :: after) :
    l.length = (expand before).length + (r.1 + (expand after).length) := by
  have hlength := congrArg List.length (encode_split h)
  rwa [List.length_append, List.length_append, List.length_replicate] at hlength

/-- The values in a run. -/
theorem getElem?_run (h : encode l = before ++ r :: after) {x : Nat}
    (hlo : (expand before).length ≤ x) (hlt : x < (expand before).length + r.1) :
    l[x]? = some r.2 := by
  rw [encode_split h, List.getElem?_append_right hlo,
    List.getElem?_append_left (by rw [List.length_replicate]; omega),
    List.getElem?_replicate_of_lt (by omega)]

/-- Behind a run comes another value. -/
theorem getElem?_behind_run (h : encode l = before ++ r :: after)
    (hlt : (expand before).length + r.1 < l.length) :
    ∃ a, l[(expand before).length + r.1]? = some a ∧ a ≠ r.2 := by
  rcases after with - | ⟨next, after⟩
  · have hlength := length_split h
    have hnil : (expand ([] : List (Nat × A))).length = 0 := rfl
    omega
  · have hchain := encode_alternating l
    rw [h] at hchain
    have hne : r.2 ≠ next.2 := (List.isChain_cons_cons.mp (List.isChain_append.mp hchain).2.1).1
    have hnext : encode l = (before ++ [r]) ++ next :: after := by rw [h, List.append_assoc]; rfl
    have hpos : 0 < next.1 := encode_positive l next (by
      rw [hnext]
      exact List.mem_append_right _ List.mem_cons_self)
    have hplace : (expand (before ++ [r])).length = (expand before).length + r.1 := by
      rw [expand_append, List.length_append, expand_singleton, List.length_replicate]
    refine ⟨next.2, ?_, hne.symm⟩
    rw [← hplace]
    exact getElem?_run hnext (Nat.le_refl _) (by omega)

/-- Before a run stands another value. -/
theorem getElem?_before_run (h : encode l = before ++ r :: after) (hpos : 0 < (expand before).length) :
    ∃ a, l[(expand before).length - 1]? = some a ∧ a ≠ r.2 := by
  rcases List.eq_nil_or_concat before with rfl | ⟨before, last, rfl⟩
  · exact absurd hpos (Nat.lt_irrefl 0)
  · rw [List.concat_eq_append] at *
    have hchain := encode_alternating l
    rw [h] at hchain
    have hne : last.2 ≠ r.2 := (List.isChain_append.mp hchain).2.2 last
      (List.getLast?_concat ..) r rfl
    have hlast : encode l = before ++ last :: (r :: after) := by rw [h, List.append_assoc]; rfl
    have hlpos : 0 < last.1 := encode_positive l last (by
      rw [hlast]
      exact List.mem_append_right _ List.mem_cons_self)
    have hplace : (expand (before ++ [last])).length = (expand before).length + last.1 := by
      rw [expand_append, List.length_append, expand_singleton, List.length_replicate]
    refine ⟨last.2, getElem?_run hlast ?_ ?_, hne⟩
    · omega
    · omega

/-- **A run ends where its value does.** -/
theorem reaches_iff (h : encode l = before ++ r :: after) {x c : Nat}
    (hlo : (expand before).length ≤ x) (hlt : x < (expand before).length + r.1) (hc : c < l.length) :
    (∀ k, min x c ≤ k → k ≤ max x c → l[k]? = l[x]?)
      ↔ (expand before).length ≤ c ∧ c < (expand before).length + r.1 := by
  rw [getElem?_run h hlo hlt]
  constructor
  · intro hsame
    constructor
    · refine Nat.le_of_not_lt fun hbefore => ?_
      obtain ⟨a, ha, hne⟩ := getElem?_before_run h (by omega)
      exact hne (Option.some.inj (ha.symm.trans (hsame _ (by omega) (by omega))))
    · refine Nat.lt_of_not_le fun hbehind => ?_
      obtain ⟨a, ha, hne⟩ := getElem?_behind_run h (by omega)
      exact hne (Option.some.inj (ha.symm.trans (hsame _ (by omega) (by omega))))
  · intro hin k hk hk'
    exact getElem?_run h (by omega) (by omega)

end

/-- The values in the first run. -/
theorem getElem?_head {r : Nat × A} (h : (encode l).head? = some r) {x : Nat} (hx : x < r.1) :
    l[x]? = some r.2 := by
  obtain ⟨rest, hrest⟩ := List.head?_eq_some_iff.mp h
  have hsplit : encode l = [] ++ r :: rest := hrest
  exact getElem?_run hsplit (Nat.zero_le x) (by simpa [expand] using hx)

/-- The values in the last run. -/
theorem getElem?_getLast {r : Nat × A} (h : (encode l).getLast? = some r) {x : Nat}
    (hx : l.length - r.1 ≤ x) (hlt : x < l.length) : l[x]? = some r.2 := by
  obtain ⟨init, hinit⟩ := List.getLast?_eq_some_iff.mp h
  have hlength := length_split hinit
  have hnil : (expand ([] : List (Nat × A))).length = 0 := rfl
  exact getElem?_run hinit (by omega) (by omega)

/-- Behind the first run comes another value. -/
theorem getElem?_behind_head {r : Nat × A} (h : (encode l).head? = some r) (hlt : r.1 < l.length) :
    ∃ a, l[r.1]? = some a ∧ a ≠ r.2 := by
  obtain ⟨rest, hrest⟩ := List.head?_eq_some_iff.mp h
  have hplace : (expand ([] : List (Nat × A))).length + r.1 = r.1 := Nat.zero_add r.1
  rw [← hplace] at hlt ⊢
  have hsplit : encode l = [] ++ r :: rest := hrest
  exact getElem?_behind_run hsplit hlt

/-- Before the last run stands another value. -/
theorem getElem?_before_getLast {r : Nat × A} (h : (encode l).getLast? = some r)
    (hlt : r.1 < l.length) : ∃ a, l[l.length - r.1 - 1]? = some a ∧ a ≠ r.2 := by
  obtain ⟨init, hinit⟩ := List.getLast?_eq_some_iff.mp h
  have hlength := length_split hinit
  have hnil : (expand ([] : List (Nat × A))).length = 0 := rfl
  have hplace : l.length - r.1 = (expand init).length := by omega
  rw [hplace]
  exact getElem?_before_run hinit (by omega)

/-! ## Placing -/

/-- The runs that do not have value `skip`, each with the place of its first cell. -/
def painted (skip : A) : List (Nat × A) → Nat → List (Nat × Nat × A)
  | [], _ => []
  | (n, a) :: rs, x =>
      if a = skip then painted skip rs (x + n) else (x, n, a) :: painted skip rs (x + n)

/-- **What is placed covers the list, but for the skipped value.** -/
theorem mem_painted {skip : A} {x : Nat} {c : Nat} :
    (∃ start n, (start, n, a) ∈ painted skip rs x ∧ start ≤ c ∧ c < start + n)
      ↔ x ≤ c ∧ (expand rs)[c - x]? = some a ∧ a ≠ skip := by
  induction rs generalizing x with
  | nil => simp [painted, expand]
  | cons r rs ih =>
      obtain ⟨n, b⟩ := r
      have htail := ih (x := x + n)
      rw [expand_cons]
      by_cases hin : c < x + n
      · -- inside the first run: nothing that comes later starts as early
        have hnone : ¬ ∃ start m, (start, m, a) ∈ painted skip rs (x + n)
            ∧ start ≤ c ∧ c < start + m := fun h => by
          have := (htail.mp h).1
          omega
        by_cases hb : b = skip
        · rw [painted, if_pos hb]
          constructor
          · exact fun h => absurd h hnone
          · intro hp
            obtain ⟨hx, hget, hne⟩ := hp
            rw [List.getElem?_append_left (by simp; omega),
              List.getElem?_replicate_of_lt (by omega)] at hget
            exact absurd (Option.some.inj hget ▸ hb) hne
        · rw [painted, if_neg hb]
          constructor
          · intro hp
            obtain ⟨start, m, hmem, hle, hlt⟩ := hp
            rcases List.mem_cons.mp hmem with heq | hmem
            · obtain ⟨rfl, rfl, rfl⟩ := by simpa [Prod.mk.injEq] using heq
              refine ⟨hle, ?_, hb⟩
              rw [List.getElem?_append_left (by simp; omega),
                List.getElem?_replicate_of_lt (by omega)]
            · exact absurd ⟨start, m, hmem, hle, hlt⟩ hnone
          · intro hp
            obtain ⟨hx, hget, hne⟩ := hp
            rw [List.getElem?_append_left (by simp; omega),
              List.getElem?_replicate_of_lt (by omega)] at hget
            obtain rfl := Option.some.inj hget
            exact ⟨x, n, List.mem_cons_self, hx, hin⟩
      · have hget : x ≤ c → (List.replicate n b ++ expand rs)[c - x]?
            = (expand rs)[c - (x + n)]? := fun hx => by
          rw [List.getElem?_append_right (by simp; omega), List.length_replicate, Nat.sub_sub]
        have hhead : (∃ start m, (start, m, a) ∈ painted skip ((n, b) :: rs) x ∧ start ≤ c
            ∧ c < start + m)
            ↔ ∃ start m, (start, m, a) ∈ painted skip rs (x + n) ∧ start ≤ c ∧ c < start + m := by
          rw [painted]
          split
          · exact Iff.rfl
          · constructor
            · intro hp
              obtain ⟨start, m, hmem, hle, hlt⟩ := hp
              rcases List.mem_cons.mp hmem with heq | hmem
              · obtain ⟨rfl, rfl, rfl⟩ := by simpa [Prod.mk.injEq] using heq
                exact absurd hlt hin
              · exact ⟨start, m, hmem, hle, hlt⟩
            · intro hp
              obtain ⟨start, m, hmem, hle, hlt⟩ := hp
              exact ⟨start, m, List.mem_cons_of_mem _ hmem, hle, hlt⟩
        rw [hhead, htail]
        constructor
        · intro hp
          obtain ⟨hx, h, hne⟩ := hp
          exact ⟨by omega, (hget (by omega)).trans h, hne⟩
        · intro hp
          obtain ⟨hx, h, hne⟩ := hp
          exact ⟨by omega, (hget hx).symm.trans h, hne⟩

end RunLength
