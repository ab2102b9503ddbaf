import Nouns.Proof.IdAllocation
import Nouns.Proof.VotingPower

/-!
# When a Noun can be minted

A mint by the minter goes through if the seeder answers and neither recipient is the zero
address; nothing else in its way can revert, as long as block numbers fit 32 bits and ids
96. In particular it takes no luck to reach any id.
-/

namespace Nouns.Proof

open Evm DelegatedVotes CallMachine

variable {now : Nat} {m : Msg} {block : Block} {s s' s₁ : NounsToken} {dst : Address} {id : Nat}

/-- There are no more Nouns than ids drawn. -/
theorem TokenInv.supply_le (h : TokenInv now s) : s.totalSupply ≤ s.currentNounId_ := by
  have hcount := Finset.card_eq_sum_card_fiberwise (s := Finset.range s.currentNounId_)
    (t := Finset.univ) (f := s.owners_) fun _ _ => Finset.mem_univ _
  rw [Finset.card_range] at hcount
  have hunits : ∑ o, s.balances_ o = s.totalSupply := h.bounded.units
  rw [← hunits, hcount]
  refine Finset.sum_le_sum ?_
  intro o _
  by_cases ho : o = 0
  · subst ho
    have hzero : s.balances_ 0 = 0 := h.zero.balance
    omega
  · exact Nat.le_of_eq (h.holdings.balance o ho)

/-- Drawing an id and writing its seed concerns nothing else. -/
theorem TokenInv.drawn (h : TokenInv now s) (seed : Seed) : TokenInv now (drawn s seed) :=
  ⟨h.zero, h.bounded, h.covered, h.checkpoints.congr rfl rfl, h.holdings.drawn seed⟩

theorem beforeMint_total (hi : TokenInv block.number s) (h32 : block.number < 2 ^ 32)
    (h96 : s.totalSupply + 1 < 2 ^ 96) (hdst : dst ≠ 0) (id : Nat) :
    ∃ s', s.beforeTokenTransfer_ block 0 dst id = .ok s' := by
  have henum : ∃ s₁, s.beforeTokenTransferEnumerable_ 0 dst id = .ok s₁ := by
    simp only [NounsToken.beforeTokenTransferEnumerable_, if_true, ne_eq, hdst, not_false_eq_true]
    exact bind_total rfl (bind_total (balanceOf_eq hdst) ⟨_, rfl⟩)
  obtain ⟨s₁, h₁⟩ := henum
  have h₁' := h₁
  obtain ⟨ot, oti, at_, ai, rfl, -⟩ := beforeTokenTransferEnumerable_shape h₁
  have hnobody : s.delegates 0 = 0 := delegates_zero hi.zero.delegate
  refine bind_total h₁' (moveDelegates_total ?_ h32 ?_ ?_)
  · exact hi.checkpoints.congr rfl rfl
  · intro hsrc
    exact absurd hnobody hsrc
  · intro hne
    have hvotes := hi.votes_add_le (a := s.delegates 0) (b := s.delegates dst) hne
    show s.getCurrentVotes (s.delegates dst) + 1 < 2 ^ 96
    omega

theorem mintInto_total (hi : TokenInv block.number s) (h32 : block.number < 2 ^ 32)
    (h96 : s.totalSupply + 1 < 2 ^ 96) (hdst : dst ≠ 0) (hfree : s.owners_ id = 0)
    (creator : Address) :
    ∃ s', NounsToken.mint_ (NounsToken.beforeTokenTransfer_ block) creator dst id s = .ok s' := by
  have hnew : ¬ s.exists_ id = true := by simp [NounsToken.exists_, hfree]
  obtain ⟨s₁, h₁⟩ := beforeMint_total hi h32 h96 hdst id
  have h₁' := h₁
  obtain ⟨_, _, _, _, _, _, _, rfl⟩ := (beforeTokenTransfer_shape h₁).book
  have hadd : s.balances_ dst + 1 < 2 ^ 256 := by
    have := hi.balance_le dst
    omega
  refine bind_total (require_total hdst) (bind_total (require_total hnew) (bind_total h₁' ?_))
  exact bind_total (add_ok.mpr ⟨hadd, rfl⟩) ⟨_, rfl⟩

theorem nextNounId_eq (hroom : s.currentNounId_ + 1 < 2 ^ 256) :
    s.nextNounId = .ok { s with currentNounId_ := s.currentNounId_ + 1 } :=
  bind_ok.mpr ⟨_, add_ok.mpr ⟨hroom, rfl⟩, rfl⟩

/-- The seeder answers for the id whose turn it is. -/
def Seeded (m : Msg) (s : NounsToken) (n : Nat) : Prop :=
  ∃ seed, m.view.generateSeed s.seeder n s.descriptor = .ok seed

theorem mintTo_total (hi : TokenInv m.block.number s) (h32 : m.block.number < 2 ^ 32)
    (hroom : s.currentNounId_ + 1 < 2 ^ 96) (hdst : dst ≠ 0) (hseeded : Seeded m s s.currentNounId_)
    (h₁ : s.nextNounId = .ok s₁) : ∃ s', s₁.mintTo_ m dst s.currentNounId_ = .ok s' := by
  obtain ⟨seed, hseed⟩ := hseeded
  rw [nextNounId_eq (by omega)] at h₁
  obtain rfl := Except.ok.inj h₁
  have hsupply := hi.supply_le
  obtain ⟨s₂, h₂⟩ := mintInto_total (s := drawn s seed) (hi.drawn seed) h32
    (show s.totalSupply + 1 < 2 ^ 96 by omega) hdst
    (hi.holdings.minted _ (Nat.le_refl _)) s.owner
  exact bind_total hseed (bind_total h₂ ⟨_, rfl⟩)

/-- The reward can be given if it is nobody's turn, or the DAO's. -/
theorem mintReward_total (hi : TokenInv m.block.number s) (h32 : m.block.number < 2 ^ 32)
    (hroom : s.currentNounId_ + 1 < 2 ^ 96) (hseeded : Seeded m s s.currentNounId_)
    (hdao : IsReward s.currentNounId_ → s.noundersDAO ≠ 0) : ∃ s', s.mintReward m = .ok s' := by
  unfold NounsToken.mintReward
  split
  · next hturn =>
      have h₁ := nextNounId_eq (s := s) (by omega)
      exact bind_total h₁ (mintTo_total hi h32 hroom (hdao hturn) hseeded h₁)
  · exact ⟨s, rfl⟩

/-- A reward leaves the roles and the places to ask for seeds as they were. -/
theorem mintReward_frame (h : s.mintReward m = .ok s') : s'.minter = s.minter
    ∧ s'.seeder = s.seeder ∧ s'.descriptor = s.descriptor
    ∧ (s' = s ∨ s'.currentNounId_ = s.currentNounId_ + 1) := by
  unfold NounsToken.mintReward at h
  split at h
  · obtain ⟨s₁, h₁, h⟩ := bind_ok.mp h
    obtain ⟨seed, s₂, hminted, rfl⟩ := mintTo_shape h₁ (by
      obtain ⟨_, _, h₁⟩ := bind_ok.mp h₁
      obtain rfl := Except.ok.inj h₁
      exact h)
    obtain ⟨_, _, _, _, _, _, _, rfl⟩ := hminted.book
    exact ⟨rfl, rfl, rfl, .inr rfl⟩
  · obtain rfl := Except.ok.inj h
    exact ⟨rfl, rfl, rfl, .inl rfl⟩

/-- **The minter can mint** while seeds are drawn and both recipients exist. -/
theorem mint_total (hi : TokenInv m.block.number s) (h32 : m.block.number < 2 ^ 32)
    (hroom : s.currentNounId_ + 2 < 2 ^ 96) (hsender : m.sender = s.minter) (hminter : s.minter ≠ 0)
    (hseeded : ∀ n, Seeded m s n) (hdao : IsReward s.currentNounId_ → s.noundersDAO ≠ 0) :
    ∃ r, s.mint m = .ok r := by
  obtain ⟨s₁, h₁⟩ := mintReward_total hi h32 (by omega) (hseeded _) hdao
  obtain ⟨hm, hs, hd, hn⟩ := mintReward_frame h₁
  have heffects : Effects m.block.number (fun _ _ => False) s s₁ := mintReward_effects h₁
  have hroom₁ : s₁.currentNounId_ + 1 < 2 ^ 96 := by
    rcases hn with rfl | hn <;> omega
  have hseeded₁ : Seeded m s₁ s₁.currentNounId_ := by
    unfold Seeded
    rw [hs, hd]
    exact hseeded _
  have h₂ := nextNounId_eq (s := s₁) (by omega)
  obtain ⟨s₃, h₃⟩ := mintTo_total (heffects.inv hi) h32 hroom₁ (hm ▸ hminter)
    hseeded₁ h₂
  exact bind_total (require_total hsender) (bind_total h₁ (bind_total h₂ (bind_total h₃ ⟨_, rfl⟩)))

/-! ## Any id is reached -/

/-- Where the small token is after some mints. -/
structure MintedOn (k : Nat) (x : Config TokenWorld TokenFrame) : Prop where
  runs : TokenRuns smallGenesis x
  frames : x.frames = []
  block : x.world.block = ⟨1, 1⟩
  minter : x.world.token.minter = .ofNat 4
  noundersDAO : x.world.token.noundersDAO = .ofNat 2
  least : k ≤ x.world.token.currentNounId_
  most : x.world.token.currentNounId_ ≤ 2 * k

theorem mint_roles (h : s.mint m = .ok (s', id)) : s'.minter = s.minter ∧ s'.noundersDAO = s.noundersDAO
    ∧ s.currentNounId_ + 1 ≤ s'.currentNounId_ ∧ s'.currentNounId_ ≤ s.currentNounId_ + 2 := by
  obtain ⟨-, ⟨-, -, hd⟩ | ⟨-, -, s₁, hd, hd'⟩⟩ := mint_drew h
  · refine ⟨hd.minter, hd.noundersDAO, ?_⟩
    rw [hd.counter]
    omega
  · refine ⟨hd'.minter.trans hd.minter, hd'.noundersDAO.trans hd.noundersDAO, ?_⟩
    rw [hd'.counter, hd.counter]
    omega

/-- The minter of the small token can go on for as long as anyone cares. -/
theorem exists_mintedOn (k : Nat) (hk : k < 2 ^ 90) : ∃ x, MintedOn k x := by
  induction k with
  | zero => exact ⟨⟨smallGenesis.world, []⟩, .refl, rfl, rfl, rfl, rfl, Nat.le_refl _, Nat.le_refl _⟩
  | succ k ih =>
      obtain ⟨⟨w, fs⟩, hx⟩ := ih (by omega)
      obtain ⟨hruns, rfl, hblock, hminter, hdao, hleast, hmost⟩ := hx
      obtain ⟨⟨s', id⟩, hmint⟩ := mint_total (m := (smallTx (.ofNat 4) .mint).msg w.block)
        (tokenInv_runs hruns) (show w.block.number < 2 ^ 32 by rw [hblock]; decide)
        (show w.token.currentNounId_ + 2 < 2 ^ 96 by dsimp only at hmost; omega) hminter.symm
        (show w.token.minter ≠ 0 by rw [hminter]; decide) (fun n => ⟨_, rfl⟩)
        (fun _ => show w.token.noundersDAO ≠ 0 by rw [hdao]; decide)
      obtain ⟨hm, hd, hlo, hhi⟩ := mint_roles hmint
      have henter : tokenMachine.enter (smallTx (.ofNat 4) .mint) w = .ok (.done { w with token := s' }) :=
        bind_ok.mpr ⟨s', bind_ok.mpr ⟨_, hmint, rfl⟩, rfl⟩
      refine ⟨⟨{ w with token := s' }, []⟩, hruns.tail trivial (.enter ?_ henter .done), rfl, hblock,
        hm.trans hminter, hd.trans hdao, ?_, ?_⟩
      · show Address.ofNat 4 ≠ 0
        decide
      · dsimp only at hleast hlo ⊢
        omega
      · dsimp only at hmost hhi ⊢
        omega

end Nouns.Proof
