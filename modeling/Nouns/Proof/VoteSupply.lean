import Nouns.Proof.VoteHistory

/-!
# No vote without a Noun

The votes of all accounts together never exceed the Nouns there are, at any point
of any history. What `getPriorVotes` returns for a block that is over are the votes
of one such point.
-/

namespace Nouns.Proof

open Evm DelegatedVotes CallMachine

/-- The votes of any set of accounts, at any time. -/
theorem TokenInv.sum_votes_le {now : Nat} {s : NounsToken} (h : TokenInv now s)
    (A : Finset Address) : ∑ a ∈ A, s.getCurrentVotes a ≤ s.totalSupply := by
  calc ∑ a ∈ A, s.getCurrentVotes a
      ≤ ∑ a, s.getCurrentVotes a := Finset.sum_le_univ_sum_of_nonneg (fun _ => Nat.zero_le _)
    _ ≤ s.totalSupply := h.bounded.votes

/--
**No vote is created out of nothing.** At every point `z` of every history, for
every block `b` that is over and every set of accounts: `getPriorVotes` returns
votes for each of them, which add up to no more than the supply when `b` ended,
and to nothing if `b` is before deployment.
-/
theorem priorVotes_le_supply (g : Genesis) (z : Config TokenWorld TokenFrame)
    (hz : TokenRuns g z) (b : Nat) (hb : b < z.world.block.number) (A : Finset Address) :
    ∃ votes : Address → Nat,
      (∀ a ∈ A, z.world.token.getPriorVotes z.world.block a b = .ok (votes a))
      ∧ (b < g.block.number → ∑ a ∈ A, votes a = 0)
      ∧ (g.block.number ≤ b → ∃ x, EndOfBlock g b x z)
      ∧ ∀ x, EndOfBlock g b x z → ∑ a ∈ A, votes a ≤ x.world.token.totalSupply := by
  have hok := (tokenInv_runs hz).checkpoints
  refine ⟨fun a => z.world.token.votesAt a b, fun a _ => getPriorVotes_eq hok a hb, ?_,
    fun hg => exists_endOfBlock hz hg hb, ?_⟩
  · intro hg
    exact Finset.sum_eq_zero (fun a _ => (votesAt_before_deploy hz a hg).1)
  · intro x hx
    rw [Finset.sum_congr rfl (fun a _ => (hx.votesAt a).1)]
    exact (tokenInv_runs hx.before).sum_votes_le A

/-- Right after the Nouns of block 1 changed hands, two accounts and the two Nouns of block 1. -/
theorem priorVotes_le_supply_giveaway :
    ∃ z x, TokenRuns smallGenesis z ∧ EndOfBlock smallGenesis 1 x z
      ∧ ∃ votes : Address → Nat,
        (∀ a ∈ ({.ofNat 2, .ofNat 4} : Finset Address),
          z.world.token.getPriorVotes z.world.block a 1 = .ok (votes a))
        ∧ ∑ a ∈ ({.ofNat 2, .ofNat 4} : Finset Address), votes a ≤ x.world.token.totalSupply := by
  obtain ⟨z, hz, hp⟩ := Machine.script_exists (M := tokenMachine) Machine.anything_free
    (x := ⟨smallGenesis.world, []⟩) (m := giveaway) (p := fun z => 1 < z.world.block.number)
    (by decide +kernel)
  obtain ⟨votes, hvotes, -, hend, hle⟩ := priorVotes_le_supply smallGenesis z hz 1
    (of_decide_eq_true hp) {.ofNat 2, .ofNat 4}
  obtain ⟨x, hx⟩ := hend (by decide)
  exact ⟨z, x, hz, hx, votes, hvotes, hle x hx⟩

end Nouns.Proof
