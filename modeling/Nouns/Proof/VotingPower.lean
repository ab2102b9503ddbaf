import Nouns.Proof.VotesBacked

/-!
# Voting power equals held Nouns

A holder whose votes are backed can move them: nothing on the way of a transfer or
a delegation reverts, as long as block numbers fit 32 bits and Nouns 96, the widths
of a checkpoint. Together with `VotesBacked` this is what holding a Noun promises.
The promise stands exactly as long as nobody who holds a Noun signs it away to the
zero address.
-/

namespace Nouns.Proof

open Evm DelegatedVotes CallMachine

variable {now : Nat} {m : Msg} {block : Block} {s s' : NounsToken}

/-! ## Moving votes that are there -/

/-- Before a block's first write there are fewer checkpoints than blocks. -/
theorem CheckpointsOk.numCheckpoints_lt (h : CheckpointsOk now s) (a : Address)
    (hlast : ¬ (0 < s.numCheckpoints a
      ∧ (s.checkpoints a (s.numCheckpoints a - 1)).fromBlock = now)) :
    s.numCheckpoints a < now := by
  rcases Nat.eq_zero_or_pos (s.numCheckpoints a) with h0 | h0
  · rw [h0]; exact h.now_pos
  · have h1 := (h.increasing a).lt_time (h.pos a) (s.numCheckpoints a - 1) (by omega)
    have h2 := h.past a (s.numCheckpoints a - 1) (by omega)
    have h3 : (s.checkpoints a (s.numCheckpoints a - 1)).fromBlock ≠ now :=
      fun heq => hlast ⟨h0, heq⟩
    omega

theorem writeCheckpoint_total (h : CheckpointsOk block.number s) (h32 : block.number < 2 ^ 32)
    (a : Address) (old new : Nat) :
    ∃ s', s.writeCheckpoint_ block a (s.numCheckpoints a) old new = .ok s' := by
  have hbn : safe32 block.number
      "ERC721Checkpointable::_writeCheckpoint: block number exceeds 32 bits" = .ok block.number :=
    bind_ok.mpr ⟨(), require_ok.mpr h32, rfl⟩
  simp only [NounsToken.writeCheckpoint_, bind_ok]
  by_cases hlast : 0 < s.numCheckpoints a
      ∧ (s.checkpoints a (s.numCheckpoints a - 1)).fromBlock = block.number
  · exact ⟨_, _, hbn, by rw [if_pos hlast]; rfl⟩
  · have hlt := h.numCheckpoints_lt a hlast
    have hadd : add 32 (s.numCheckpoints a) 1 = .ok (s.numCheckpoints a + 1) :=
      add_ok.mpr ⟨by omega, rfl⟩
    exact ⟨_, _, hbn, by rw [if_neg hlast, hadd]; rfl⟩

theorem moveDelegates_total (h : CheckpointsOk block.number s) (h32 : block.number < 2 ^ 32)
    {src dst : Address} {n : Nat} (hsrc : src ≠ 0 → src ≠ dst → n ≤ s.getCurrentVotes src)
    (hdst : src ≠ dst → s.getCurrentVotes dst + n < 2 ^ 96) :
    ∃ s', s.moveDelegates_ block src dst n = .ok s' := by
  unfold NounsToken.moveDelegates_
  split
  · rename_i hc
    have htake : ∃ s₁, (if src ≠ 0 then s.takeVotes_ block src n else .ok s) = .ok s₁
        ∧ CheckpointsOk block.number s₁ ∧ s₁.getCurrentVotes dst = s.getCurrentVotes dst := by
      by_cases h0 : src ≠ 0
      · obtain ⟨s₁, h₁⟩ := writeCheckpoint_total h h32 src (s.getCurrentVotes src)
          (s.getCurrentVotes src - n)
        have hrun : s.takeVotes_ block src n = .ok s₁ :=
          bind_ok.mpr ⟨_, bind_ok.mpr ⟨(), require_ok.mpr (hsrc h0 hc.1),
            sub_ok.mpr ⟨hsrc h0 hc.1, rfl⟩⟩, h₁⟩
        obtain ⟨_, hv, _, hr, _⟩ := takeVotes_shape h0 hc.2 hrun
        refine ⟨s₁, (if_pos h0).trans hrun, (hr h).1, ?_⟩
        rw [hv, take, if_neg h0, Function.update_of_ne (Ne.symm hc.1)]
      · exact ⟨s, if_neg h0, h, rfl⟩
    obtain ⟨s₁, hrun, hok, hv⟩ := htake
    suffices ∃ s₂, (if dst ≠ 0 then s₁.giveVotes_ block dst n else .ok s₁) = .ok s₂ by
      obtain ⟨s₂, h₂⟩ := this
      exact ⟨s₂, bind_ok.mpr ⟨s₁, hrun, h₂⟩⟩
    by_cases h0 : dst = 0
    · exact ⟨s₁, if_neg (not_not.mpr h0)⟩
    · obtain ⟨s₂, h₂⟩ := writeCheckpoint_total hok h32 dst (s₁.getCurrentVotes dst)
        (s₁.getCurrentVotes dst + n)
      have hadd : add 96 (s₁.getCurrentVotes dst) n = .ok (s₁.getCurrentVotes dst + n) :=
        add_ok.mpr ⟨hv ▸ hdst hc.1, rfl⟩
      refine ⟨s₂, (if_pos h0).trans (bind_ok.mpr ⟨_, bind_ok.mpr ⟨_, hadd, ?_⟩, h₂⟩)⟩
      exact bind_ok.mpr ⟨(), require_ok.mpr (Nat.le_add_right _ _), rfl⟩
  · exact ⟨s, rfl⟩

/-- Two accounts together have no more votes than there are Nouns. -/
theorem TokenInv.votes_add_le (h : TokenInv now s) {a b : Address} (hab : a ≠ b) :
    s.getCurrentVotes a + s.getCurrentVotes b ≤ s.totalSupply := by
  have hsum := Finset.sum_le_univ_sum_of_nonneg (s := {a, b}) (f := s.getCurrentVotes)
    (fun _ => Nat.zero_le _)
  rw [Finset.sum_pair hab] at hsum
  exact hsum.trans h.bounded.votes

theorem TokenInv.balance_le (h : TokenInv now s) (o : Address) :
    s.balances_ o ≤ s.totalSupply := by
  have := Finset.single_le_sum (f := s.balances_) (fun _ _ => Nat.zero_le _) (Finset.mem_univ o)
  exact this.trans (Nat.le_of_eq h.bounded.units)

theorem balanceOf_eq {o : Address} (ho : o ≠ 0) : s.balanceOf o = .ok (s.balances_ o) :=
  bind_ok.mpr ⟨(), require_ok.mpr ho, rfl⟩

theorem ownerOf_eq {id : Nat} (h : s.owners_ id ≠ 0) : s.ownerOf id = .ok (s.owners_ id) :=
  bind_ok.mpr ⟨(), require_ok.mpr h, rfl⟩

theorem beforeTokenTransferEnumerable_total {src dst : Address} (id : Nat) (hs : src ≠ 0)
    (hd : dst ≠ 0) (hbal : 1 ≤ s.balances_ src) :
    ∃ s', s.beforeTokenTransferEnumerable_ src dst id = .ok s' := by
  simp only [NounsToken.beforeTokenTransferEnumerable_, if_neg hs, if_neg hd]
  by_cases hsd : src = dst
  · simp only [ne_eq, hsd, not_true_eq_false, if_false]
    exact ⟨s, rfl⟩
  · have hrem : ∃ s₁, s.removeTokenFromOwnerEnumeration_ src id = .ok s₁ :=
      ⟨_, bind_ok.mpr ⟨_, balanceOf_eq hs, bind_ok.mpr ⟨_, sub_ok.mpr ⟨hbal, rfl⟩, rfl⟩⟩⟩
    obtain ⟨s₁, h₁⟩ := hrem
    simp only [ne_eq, hsd, Ne.symm hsd, not_false_eq_true, if_true]
    exact bind_total h₁ (bind_total (balanceOf_eq hd) ⟨_, rfl⟩)

theorem beforeTokenTransfer_total (hi : TokenInv block.number s) (h32 : block.number < 2 ^ 32)
    (h96 : s.totalSupply < 2 ^ 96) {src dst : Address} (id : Nat) (hs : src ≠ 0) (hd : dst ≠ 0)
    (hbal : 1 ≤ s.balances_ src) (hle : 1 ≤ s.getCurrentVotes (s.delegates src)) :
    ∃ s', s.beforeTokenTransfer_ block src dst id = .ok s' := by
  obtain ⟨s₁, h₁⟩ := beforeTokenTransferEnumerable_total id hs hd hbal
  have h₁' := h₁
  obtain ⟨ot, oti, at_, ai, rfl, _⟩ := beforeTokenTransferEnumerable_shape h₁
  have hlt : s.delegates src ≠ s.delegates dst →
      s.getCurrentVotes (s.delegates dst) + 1 < 2 ^ 96 := fun hne => by
    have := hi.votes_add_le hne
    omega
  obtain ⟨s', h'⟩ : ∃ s', NounsToken.moveDelegates_ block (s.delegates src) (s.delegates dst) 1
      { s with
        ownedTokens_ := ot
        ownedTokensIndex_ := oti
        allTokens_ := at_
        allTokensIndex_ := ai } = .ok s' := by
    refine moveDelegates_total ?_ h32 ?_ ?_
    · exact hi.checkpoints.congr rfl rfl
    · exact fun _ _ => hle
    · exact hlt
  exact ⟨s', bind_ok.mpr ⟨_, h₁', h'⟩⟩

theorem transfer_total (hi : TokenInv block.number s) (h32 : block.number < 2 ^ 32)
    (h96 : s.totalSupply < 2 ^ 96) {src dst : Address} {id : Nat} (hs : src ≠ 0)
    (hle : 1 ≤ s.getCurrentVotes (s.delegates src)) (ho : s.owners_ id = src) (hd : dst ≠ 0) :
    ∃ s', NounsToken.transfer_ (NounsToken.beforeTokenTransfer_ block) src dst id s = .ok s' := by
  have hne : s.owners_ id ≠ 0 := ho ▸ hs
  have hbal : 1 ≤ s.balances_ src := ho ▸ hi.holdings.balance_pos hne
  obtain ⟨s₁, h₁⟩ := beforeTokenTransfer_total hi h32 h96 id hs hd hbal hle
  have h₁' := h₁
  obtain ⟨_, _, _, _, _, _, _, rfl⟩ := (beforeTokenTransfer_shape h₁).book
  have hle : Function.update s.balances_ src (s.balances_ src - 1) dst ≤ s.balances_ dst := by
    by_cases hds : dst = src
    · subst hds; rw [Function.update_self]; exact Nat.sub_le _ _
    · rw [Function.update_of_ne hds]
  have hadd : Function.update s.balances_ src (s.balances_ src - 1) dst + 1 < 2 ^ 256 := by
    have := hi.balance_le dst
    omega
  refine bind_total (ownerOf_eq hne) (bind_total (a := ()) (require_ok.mpr ho) ?_)
  refine bind_total (a := ()) (require_ok.mpr hd) (bind_total h₁' ?_)
  refine bind_total (bind_ok.mpr ⟨_, ownerOf_eq hne, rfl⟩) ?_
  exact bind_total (sub_ok.mpr ⟨hbal, rfl⟩) (bind_total (add_ok.mpr ⟨hadd, rfl⟩) ⟨_, rfl⟩)

/-- Where votes are backed an owner has a vote to move. -/
theorem VotesBacked.one_le (hb : VotesBacked s) (hi : TokenInv now s) {o : Address} {id : Nat}
    (ho : o ≠ 0) (hown : s.owners_ id = o) : 1 ≤ s.getCurrentVotes (s.delegates o) := by
  have hbal : 1 ≤ s.balances_ o := hown ▸ hi.holdings.balance_pos (hown ▸ ho)
  exact hbal.trans (Ledger.Backed.balance_le (backed_ledger.mpr hb) ho)

/-- **An owner with a vote to move can always transfer.** -/
theorem transferFrom_total (hi : TokenInv m.block.number s) (h32 : m.block.number < 2 ^ 32)
    (h96 : s.totalSupply < 2 ^ 96) {dst : Address} {id : Nat} (hs : m.sender ≠ 0)
    (hle : 1 ≤ s.getCurrentVotes (s.delegates m.sender)) (ho : s.owners_ id = m.sender) (hd : dst ≠ 0) :
    ∃ s', s.transferFrom m m.sender dst id = .ok s' := by
  have hne : s.owners_ id ≠ 0 := ho ▸ hs
  have hex : s.exists_ id = true := by simp [NounsToken.exists_, hne]
  have happroved : s.getApproved id = .ok (s.tokenApprovals_ id) :=
    bind_ok.mpr ⟨(), require_ok.mpr hex, rfl⟩
  obtain ⟨s', h'⟩ := transfer_total hi h32 h96 hs hle ho hd
  refine ⟨s', bind_ok.mpr ⟨_, bind_ok.mpr ⟨(), require_ok.mpr hex, bind_ok.mpr
    ⟨_, ownerOf_eq hne, bind_ok.mpr ⟨_, happroved, rfl⟩⟩⟩, ?_⟩⟩
  refine bind_ok.mpr ⟨(), require_ok.mpr ?_, h'⟩
  simp [ho]

/-- **A holder can always delegate.** -/
theorem delegate_total (hi : TokenInv m.block.number s) (hb : VotesBacked s)
    (h32 : m.block.number < 2 ^ 32) (h96 : s.totalSupply < 2 ^ 96) (hs : m.sender ≠ 0)
    (d : Address) : ∃ s', s.delegate m d = .ok s' := by
  have hbal : s.balances_ m.sender < 2 ^ 96 := Nat.lt_of_le_of_lt (hi.balance_le _) h96
  have hle : s.balances_ m.sender ≤ s.getCurrentVotes (s.delegates m.sender) :=
    Ledger.Backed.balance_le (backed_ledger.mpr hb) hs
  generalize hd : (if d = 0 then m.sender else d) = d'
  have hlt : s.delegates m.sender ≠ d' →
      s.getCurrentVotes d' + s.balances_ m.sender < 2 ^ 96 := fun hne => by
    have := hi.votes_add_le hne
    omega
  obtain ⟨s', h'⟩ : ∃ s', NounsToken.moveDelegates_ m.block (s.delegates m.sender) d'
      (s.balances_ m.sender) (({ s with
        delegates_ := Function.update s.delegates_ m.sender d' } : NounsToken).emit
          (.delegateChanged m.sender (s.delegates m.sender) d')) = .ok s' := by
    refine moveDelegates_total ?_ h32 ?_ ?_
    · exact hi.checkpoints.congr rfl rfl
    · exact fun _ _ => hle
    · exact hlt
  refine ⟨s', ?_⟩
  unfold NounsToken.delegate
  rw [hd]
  refine bind_ok.mpr ⟨_, bind_ok.mpr ⟨_, balanceOf_eq hs, bind_ok.mpr
    ⟨(), require_ok.mpr hbal, rfl⟩⟩, h'⟩

/-! ## The promise -/

/-- What holding a Noun promises, in the world `w`. -/
structure VotingPower (w : TokenWorld) : Prop where
  /-- Every account has the votes of the Nouns it represents. -/
  backed : VotesBacked w.token
  /-- No call takes votes that are not there. -/
  never : ∀ tx : TokenTx, View.Quiet tx.view →
    w.token.call (tx.msg w.block) tx.call ≠ .error amountUnderflows
  /-- A holder can always transfer its Nouns. -/
  transfers : w.block.number < 2 ^ 32 → w.token.totalSupply < 2 ^ 96 → ∀ o view dst id, o ≠ 0 →
    w.token.owners_ id = o → dst ≠ 0 →
    ∃ s', w.token.transferFrom ⟨o, w.block, view⟩ o dst id = .ok s'
  /-- Anyone can always delegate. -/
  delegates : w.block.number < 2 ^ 32 → w.token.totalSupply < 2 ^ 96 → ∀ o view d, o ≠ 0 →
    ∃ s', w.token.delegate ⟨o, w.block, view⟩ d = .ok s'

theorem VotesBacked.votingPower {w : TokenWorld} (hi : TokenInv w.block.number w.token)
    (hb : VotesBacked w.token) : VotingPower w where
  backed := hb
  never := fun tx hv => call_avoids (m := tx.msg w.block) hv hi hb
  transfers := fun h32 h96 o view _ _ ho hown hd =>
    transferFrom_total (m := ⟨o, w.block, view⟩) hi h32 h96 ho (hb.one_le hi ho hown) hown hd
  delegates := fun h32 h96 o view d ho =>
    delegate_total (m := ⟨o, w.block, view⟩) hi hb h32 h96 ho d

/-- The condition on the steps of a history: nobody who holds a Noun signs it away. -/
def SomebodyNamed : Config TokenWorld TokenFrame → Label TokenTx TokenFrame Block → Prop
  | x, .enter tx => NamesSomebody tx.view x.world.token tx.call
  | _, _ => True

theorem votesBacked_deploy {owner noundersDAO minter descriptor seeder : Address} :
    VotesBacked (.deploy owner noundersDAO minter descriptor seeder) := by
  intro a _
  exact (Finset.sum_eq_zero fun o _ => ite_self _).symm

theorem votesBacked_runs {g : Genesis} {x : Config TokenWorld TokenFrame}
    (h : tokenMachine.Runs SomebodyNamed ⟨g.world, []⟩ x) :
    TokenInv x.world.block.number x.world.token ∧ VotesBacked x.world.token := by
  refine (tokenMachine_keeps (I := fun now s => TokenInv now s ∧ VotesBacked s) ?_ ?_).runs h
    ⟨tokenInv_deploy g.block_pos, votesBacked_deploy⟩
  · intro m c s s' fs hI hc hP
    exact ⟨(call_effects hc).inv hI.1, call_backed hI.1 hI.2 hP hc⟩
  · intro now now' s hle hI
    exact ⟨hI.1.later hle, hI.2⟩

/--
**Voting power equals held Nouns, while nobody signs Nouns away.** In every history
in which no signatory of a delegation to the zero address holds a Noun, every state
reached keeps the promise. The first step that does not meet the condition breaks it.
-/
theorem votingPower_iff (g : Genesis) (x : Config TokenWorld TokenFrame)
    (hx : tokenMachine.Runs SomebodyNamed ⟨g.world, []⟩ x) :
    VotingPower x.world
    ∧ ∀ l y, tokenMachine.Step x l y → (VotingPower y.world ↔ SomebodyNamed x l) := by
  obtain ⟨hi, hb⟩ := votesBacked_runs hx
  refine ⟨hb.votingPower hi, fun l y hs => ⟨?_, ?_⟩⟩
  · intro hy
    by_contra hP
    cases hs with
    | @enter tx w fs o _ _ he hl =>
        obtain ⟨s, hc, ho⟩ := tokenMachine_enter he
        have hnot := call_not_backed (m := tx.msg w.block) hb hP hc
        obtain rfl | rfl := ho
        · cases hl with
          | done => exact hnot hy.backed
        · cases hl with
          | call => exact hnot hy.backed
          | failed hr hl' =>
              rw [tokenMachine_resume hr] at hl'
              cases hl' with
              | done => exact hnot hy.backed
    | resume => exact hP trivial
    | tick => exact hP trivial
  · intro hP
    obtain ⟨hi', hb'⟩ := votesBacked_runs (hx.tail hP hs)
    exact hb'.votingPower hi'

/-- Whether a step is no delegation by signature. -/
def unsigned : Config TokenWorld TokenFrame → Label TokenTx TokenFrame Block → Bool
  | _, .enter ⟨_, _, .delegateBySig ..⟩ => false
  | _, _ => true

theorem unsigned_somebodyNamed (x : Config TokenWorld TokenFrame)
    (l : Label TokenTx TokenFrame Block) (h : unsigned x l = true) : SomebodyNamed x l := by
  cases l with
  | enter tx =>
      obtain ⟨sender, view, call⟩ := tx
      cases call with
      | delegateBySig => exact absurd h (by simp [unsigned])
      | _ => exact trivial
  | _ => exact trivial

/-- In block 1 two Nouns are minted, and the minter delegates to account 7. -/
theorem votingPower_iff_delegated :
    ∃ x, tokenMachine.Runs SomebodyNamed ⟨smallGenesis.world, []⟩ x
      ∧ x.world.token.getCurrentVotes (.ofNat 7) = 1 ∧ VotingPower x.world := by
  obtain ⟨x, hx, hp⟩ := Machine.script_exists (M := tokenMachine) unsigned_somebodyNamed
    (x := ⟨smallGenesis.world, []⟩)
    (m := [.enter (smallTx (.ofNat 4) .mint), .enter (smallTx (.ofNat 4) (.delegate (.ofNat 7)))])
    (p := fun x => x.world.token.getCurrentVotes (.ofNat 7) = 1) (by decide +kernel)
  exact ⟨x, hx, of_decide_eq_true hp, (votingPower_iff smallGenesis x hx).1⟩

/--
The minter, account 4, signs a delegation to the zero address. It still holds Noun 1
and still represents itself, but has no votes and cannot transfer its Noun.
-/
theorem votingPower_signedAway :
    ∃ x, TokenRuns smallGenesis x ∧ x.world.token.owners_ 1 = .ofNat 4
      ∧ x.world.token.delegates (.ofNat 4) = .ofNat 4
      ∧ x.world.token.getCurrentVotes (.ofNat 4) = 0 ∧ ¬ VotesBacked x.world.token
      ∧ x.world.token.transferFrom ⟨.ofNat 4, x.world.block, smallView⟩ (.ofNat 4) (.ofNat 7) 1
          = .error amountUnderflows := by
  obtain ⟨x, hx, hp⟩ := Machine.script_exists (M := tokenMachine) Machine.anything_free
    (x := ⟨smallGenesis.world, []⟩)
    (m := [.enter (smallTx (.ofNat 4) .mint),
      .enter (smallTx (.ofNat 9) (.delegateBySig 0 0 10 ⟨0, 4, 0⟩))])
    (p := fun x => x.world.token.owners_ 1 = .ofNat 4
      ∧ x.world.token.delegates (.ofNat 4) = .ofNat 4
      ∧ x.world.token.getCurrentVotes (.ofNat 4) = 0
      ∧ revertOf (x.world.token.transferFrom ⟨.ofNat 4, x.world.block, smallView⟩ (.ofNat 4)
        (.ofNat 7) 1) = some amountUnderflows) (by decide +kernel)
  obtain ⟨hown, hdel, hvotes, hrev⟩ := of_decide_eq_true hp
  rw [revertOf_some] at hrev
  refine ⟨x, hx, hown, hdel, hvotes, ?_, hrev⟩
  intro hb
  have hquiet : View.Quiet smallView := fun _ _ _ => avoids_ok
  exact call_avoids (m := ⟨.ofNat 4, x.world.block, smallView⟩)
    (c := .transferFrom (.ofNat 4) (.ofNat 7) 1) hquiet (tokenInv_runs hx) hb hrev

end Nouns.Proof
