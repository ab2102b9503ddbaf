import Nouns.Proof.TokenInvariant

/-!
# Past votes

`getPriorVotes` is a binary search with three ways out before it starts and one in
the middle. `getPriorVotes_eq` says that on checkpoints in order it returns the
value the array had at that block, and that it always returns. What the array has
for a block that is over never changes again, so the answer is the number of votes
the account had when the block ended.
-/

namespace Nouns.Proof

open Evm CallMachine StampedArray

/--
The loop closes in on the last checkpoint no later than `b`: the one at `lower` is
no later, those past `upper` are.
-/
theorem searchCheckpoints_eq {cps : Nat → Checkpoint} {n b : Nat}
    (hinc : Increasing Checkpoint.fromBlock cps n) :
    ∀ {fuel lower upper : Nat}, lower ≤ upper → upper < n → upper - lower ≤ fuel →
      (cps lower).fromBlock ≤ b → (∀ j, upper < j → j < n → b < (cps j).fromBlock) →
      NounsToken.searchCheckpoints cps b fuel lower upper
        = .ok (valueAt Checkpoint.fromBlock Checkpoint.votes 0 cps n b) := by
  intro fuel
  induction fuel with
  | zero =>
      intro lower upper hle hu hf hlo hhi
      obtain rfl : lower = upper := by omega
      rw [NounsToken.searchCheckpoints, if_neg (Nat.lt_irrefl _),
        valueAt_eq hlo hu (fun j hj => hhi j hj)]
  | succ fuel ih =>
      intro lower upper hle hu hf hlo hhi
      rw [NounsToken.searchCheckpoints]
      split
      · rename_i hlt
        -- the midpoint is rounded up, so it lies in `(lower, upper]`
        have h1 : sub upper lower = .ok (upper - lower) := sub_ok.mpr ⟨hle, rfl⟩
        have h2 : sub upper ((upper - lower) / 2) = .ok (upper - (upper - lower) / 2) :=
          sub_ok.mpr ⟨by omega, rfl⟩
        rw [bind_ok]
        refine ⟨_, h1, ?_⟩
        rw [bind_ok]
        refine ⟨_, h2, ?_⟩
        generalize hc : upper - (upper - lower) / 2 = center
        have hlc : lower < center := by omega
        have hcu : center ≤ upper := by omega
        dsimp only
        split
        · -- the early return: this checkpoint was written in block `b`
          rename_i heq
          rw [valueAt_eq (i := center) (by omega) (by omega)
            (fun j hj hjn => by have := hinc center j hj hjn; omega)]
        · split
          · exact ih hcu hu (by omega) (by omega) hhi
          · have h3 : sub center 1 = .ok (center - 1) := sub_ok.mpr ⟨by omega, rfl⟩
            rw [bind_ok]
            refine ⟨_, h3, ih (by omega) (by omega) (by omega) hlo ?_⟩
            intro j hj hjn
            rcases Nat.lt_or_ge center j with hcj | hcj
            · have := hinc center j hcj hjn; omega
            · obtain rfl : j = center := by omega
              omega
      · obtain rfl : lower = upper := by omega
        rw [valueAt_eq hlo hu (fun j hj => hhi j hj)]

/-- **The search is right.** It always returns, and what the checkpoints have for the block. -/
theorem getPriorVotes_eq {now : Nat} {s : NounsToken} (h : CheckpointsOk now s) {block : Block}
    (a : Address) {b : Nat} (hb : b < block.number) :
    s.getPriorVotes block a b = .ok (s.votesAt a b) := by
  have hinc := h.increasing a
  unfold NounsToken.getPriorVotes NounsToken.votesAt
  rw [bind_ok]
  refine ⟨(), require_ok.mpr hb, ?_⟩
  dsimp only
  generalize s.checkpoints a = cps at *
  generalize s.numCheckpoints a = n at *
  split
  · rename_i h0; subst h0; rfl
  · split
    · rename_i h0 hlast
      rw [valueAt_eq hlast (by omega) (fun j _ _ => by omega)]
    · split
      · rename_i h0 _ hfirst
        rw [valueAt_default]
        intro j hj
        rcases Nat.eq_zero_or_pos j with hz | hz
        · subst hz; exact hfirst
        · have := hinc 0 j hz hj; omega
      · exact searchCheckpoints_eq hinc (by omega) (by omega) (by omega) (by omega)
          (fun j hj hjn => by omega)

/-! ## The end of a block -/

/--
Block `b` ended in `x`: in the history of `z`, the clock went from a block no later
than `b` at `x` to a later one.
-/
structure EndOfBlock (g : Genesis) (b : Nat) (x z : Config TokenWorld TokenFrame) : Prop where
  before : TokenRuns g x
  last : x.world.block.number ≤ b
  after : ∃ t y, tokenMachine.Step x (.tick t) y ∧ b < y.world.block.number
    ∧ tokenMachine.Runs Free y z

/-- What a block that is over recorded stays recorded. -/
theorem EndOfBlock.votesAt {g : Genesis} {b : Nat} {x z : Config TokenWorld TokenFrame}
    (h : EndOfBlock g b x z) (a : Address) :
    z.world.token.votesAt a b = x.world.token.getCurrentVotes a
      ∧ CheckpointsOk z.world.block.number z.world.token ∧ b < z.world.block.number := by
  obtain ⟨t, y, hs, hy, hz⟩ := h.after
  have hx := (tokenInv_runs h.before).checkpoints
  have hold : x.world.token.votesAt a b = x.world.token.getCurrentVotes a :=
    hx.currentVotes a h.last
  cases hs with
  | @tick _ w _ ht =>
      obtain ⟨rfl, hn⟩ := tokenMachine_tick ht
      refine (tokenMachine_keeps (I := fun now s =>
        s.votesAt a b = w.token.getCurrentVotes a ∧ CheckpointsOk now s ∧ b < now) ?_ ?_).runs hz
          ⟨hold, hx.later hn, hy⟩
      · intro m c s s' fs hI hc _
        obtain ⟨h1, h2⟩ := (call_effects hc).records hI.2.1
        exact ⟨(h2 a b hI.2.2).trans hI.1, h1, hI.2.2⟩
      · intro now now' s hle hI
        exact ⟨hI.1, hI.2.1.later hle, by omega⟩

/-- Only the clock changes the block. -/
theorem block_keeps (block : Block) :
    tokenMachine.Keeps (fun _ l => ∀ t, l ≠ .tick t) (fun w _ => w.block = block)
      (fun w _ _ => w.block = block) where
  enter := by
    intro tx w fs o hI _ _ he
    obtain ⟨s, _, rfl | rfl⟩ := tokenMachine_enter he
    · exact hI
    · exact ⟨hI, hI⟩
  resume := by
    intro f w fs o hI _ hr
    rw [tokenMachine_resume hr]
    exact hI
  failed := by
    intro f w fs o hJ hr
    rw [tokenMachine_resume hr]
    exact hJ
  tick := fun _ hP _ => absurd rfl (hP _)

/-- Every block since deployment that is over has ended somewhere. -/
theorem exists_endOfBlock {g : Genesis} {b : Nat} {z : Config TokenWorld TokenFrame}
    (h : TokenRuns g z) (hg : g.block.number ≤ b) (hb : b < z.world.block.number) :
    ∃ x, EndOfBlock g b x z := by
  have hclock : ∀ {x l y}, tokenMachine.Step x l y → x.world.block.number ≤ b →
      ¬ y.world.block.number ≤ b → ∃ t, l = .tick t := by
    intro x l y hs hx hy
    cases l with
    | tick t => exact ⟨t, rfl⟩
    | _ => exact absurd ((block_keeps x.world.block).step rfl (by simp) hs ▸ hx) hy
  obtain ⟨x, t, y, hx, hlast, hs, hy, hz⟩ := h.last (p := fun w => w.block.number ≤ b) hclock hg
    (Nat.not_le_of_lt hb)
  exact ⟨x, hx, hlast, t, y, hs, Nat.lt_of_not_le hy, hz⟩

/-- Nothing was recorded for the blocks before deployment. -/
theorem votesAt_before_deploy {g : Genesis} {z : Config TokenWorld TokenFrame}
    (h : TokenRuns g z) (a : Address) {b : Nat} (hb : b < g.block.number) :
    z.world.token.votesAt a b = 0 ∧ b < z.world.block.number := by
  have := (tokenMachine_keeps (I := fun now s =>
    CheckpointsOk now s ∧ s.votesAt a b = 0 ∧ b < now) ?_ ?_).runs h
      ⟨(tokenInv_deploy g.block_pos).checkpoints, rfl, hb⟩
  · exact this.2
  · intro m c s s' fs hI hc _
    obtain ⟨h1, h2⟩ := (call_effects hc).records hI.1
    exact ⟨h1, (h2 a b hI.2.2).trans hI.2.1, hI.2.2⟩
  · intro now now' s hle hI
    exact ⟨hI.1.later hle, hI.2.1, by omega⟩

theorem EndOfBlock.later {g : Genesis} {b : Nat} {x z z' : Config TokenWorld TokenFrame}
    (h : EndOfBlock g b x z) (hz : tokenMachine.Runs Free z z') : EndOfBlock g b x z' := by
  obtain ⟨t, y, h1, h2, h3⟩ := h.after
  exact ⟨h.before, h.last, t, y, h1, h2, h3.trans hz⟩

/--
**Vote history is exact and immutable.** At every point `z` of every history of the
token and for every block `b` that is over there: `getPriorVotes` returns, and
returns what the account's votes were when `b` ended, whichever later point asks;
for a block before deployment it returns zero. No later point `z'` gets another
answer. Checkpoints are strictly increasing, one a block at most.
-/
theorem getPriorVotes_exact (g : Genesis) (z : Config TokenWorld TokenFrame)
    (hz : TokenRuns g z) (a : Address) :
    (∀ b x, EndOfBlock g b x z →
      z.world.token.getPriorVotes z.world.block a b = .ok (x.world.token.getCurrentVotes a))
    ∧ (∀ b, g.block.number ≤ b → b < z.world.block.number → ∃ x, EndOfBlock g b x z)
    ∧ (∀ b, b < g.block.number → z.world.token.getPriorVotes z.world.block a b = .ok 0)
    ∧ (∀ b z', b < z.world.block.number → tokenMachine.Runs Free z z' →
      z'.world.token.getPriorVotes z'.world.block a b
        = z.world.token.getPriorVotes z.world.block a b)
    ∧ (∀ i j, i < j → j < z.world.token.numCheckpoints a →
      (z.world.token.checkpoints a i).fromBlock < (z.world.token.checkpoints a j).fromBlock) := by
  have hended : ∀ b x z', EndOfBlock g b x z' →
      z'.world.token.getPriorVotes z'.world.block a b = .ok (x.world.token.getCurrentVotes a) := by
    intro b x z' hx
    obtain ⟨hv, hz', hb⟩ := hx.votesAt a
    rw [getPriorVotes_eq hz' a hb, hv]
  have hbefore : ∀ b z', TokenRuns g z' → b < g.block.number →
      z'.world.token.getPriorVotes z'.world.block a b = .ok 0 := by
    intro b z' hz' hb
    obtain ⟨hv, hlt⟩ := votesAt_before_deploy hz' a hb
    rw [getPriorVotes_eq (tokenInv_runs hz').checkpoints a hlt, hv]
  refine ⟨fun b x hx => hended b x z hx, fun b hg hb => exists_endOfBlock hz hg hb,
    fun b hb => hbefore b z hz hb, ?_, (tokenInv_runs hz).checkpoints.increasing a⟩
  intro b z' hb hz'
  rcases Nat.lt_or_ge b g.block.number with hg | hg
  · rw [hbefore b z' (hz.trans hz') hg, hbefore b z hz hg]
  · obtain ⟨x, hx⟩ := exists_endOfBlock hz hg hb
    rw [hended b x z' (hx.later hz'), hended b x z hx]

/-- Nouns 0 and 1 are minted in block 1; in block 2 the minter gives its Noun away. -/
def giveaway : List (Machine.Move TokenTx Block) :=
  [.enter (smallTx (.ofNat 4) .mint), .tick ⟨2, 20⟩,
    .enter (smallTx (.ofNat 4) (.transferFrom (.ofNat 4) (.ofNat 7) 1)), .tick ⟨3, 30⟩]

/-- There, the minter has no votes left but had one at the end of block 1. -/
theorem getPriorVotes_exact_giveaway :
    ∃ z, TokenRuns smallGenesis z ∧ z.world.token.getCurrentVotes (.ofNat 4) = 0
      ∧ z.world.token.getPriorVotes z.world.block (.ofNat 4) 1 = .ok 1
      ∧ ∃ x, EndOfBlock smallGenesis 1 x z ∧ x.world.token.getCurrentVotes (.ofNat 4) = 1 := by
  obtain ⟨z, hz, hp⟩ := Machine.script_exists (M := tokenMachine) Machine.anything_free
    (x := ⟨smallGenesis.world, []⟩) (m := giveaway)
    (p := fun z => z.world.block = ⟨3, 30⟩ ∧ z.world.token.getCurrentVotes (.ofNat 4) = 0
      ∧ (z.world.token.getPriorVotes ⟨3, 30⟩ (.ofNat 4) 1).toOption = some 1) (by decide +kernel)
  obtain ⟨hb, h0, h1⟩ := of_decide_eq_true hp
  obtain ⟨hend, hover, -⟩ := getPriorVotes_exact smallGenesis z hz (.ofNat 4)
  obtain ⟨x, hx⟩ := hover 1 (by decide) (by rw [hb]; decide)
  have hx1 := hend 1 x hx
  rw [hb] at hx1
  rw [hx1] at h1
  obtain h1 : x.world.token.getCurrentVotes (.ofNat 4) = 1 := Option.some.inj h1
  exact ⟨z, hz, h0, by rw [hb, hx1, h1], x, hx, h1⟩

end Nouns.Proof
