import Nouns.Proof.TokenCalls

/-!
# The token's invariants

`TokenInv` collects what holds of the token's storage whatever anybody calls: its
checkpoints are in order, its votes never exceed its Nouns, neither in total nor for one
account, and its balances count the Nouns they say they count. It is kept by each
elementary effect, so by every call, so along every history.
-/

namespace Nouns.Proof

open Evm DelegatedVotes CallMachine

/-- Balances count Nouns, and only ids already drawn have owners. -/
structure Holdings (s : NounsToken) : Prop where
  minted : ∀ n, s.currentNounId_ ≤ n → s.owners_ n = 0
  balance : ∀ o, o ≠ 0 → s.balances_ o
    = ((Finset.range s.currentNounId_).filter (fun n => s.owners_ n = o)).card

/-- What holds of the token's storage in block `now`. -/
structure TokenInv (now : Nat) (s : NounsToken) : Prop where
  zero : s.ledger.ZeroFree
  bounded : s.ledger.Bounded
  covered : s.ledger.Covered
  checkpoints : CheckpointsOk now s
  holdings : Holdings s

/-! ## Holdings -/

theorem Holdings.lt_current {s : NounsToken} (h : Holdings s) {n : Nat} (hn : s.owners_ n ≠ 0) :
    n < s.currentNounId_ := by
  by_contra hlt
  exact hn (h.minted n (by omega))

/-- An owner has a positive balance. -/
theorem Holdings.balance_pos {s : NounsToken} (h : Holdings s) {n : Nat} (hn : s.owners_ n ≠ 0) :
    1 ≤ s.balances_ (s.owners_ n) := by
  rw [h.balance _ hn]
  exact Finset.card_pos.mpr ⟨n, by simp [h.lt_current hn]⟩

/-- Holdings only look at owners, balances and the id counter. -/
theorem Holdings.congr {s s' : NounsToken} (h : Holdings s) (ho : s'.owners_ = s.owners_)
    (hb : s'.balances_ = s.balances_) (hc : s'.currentNounId_ = s.currentNounId_) :
    Holdings s' := by
  refine ⟨?_, ?_⟩
  · rw [ho, hc]; exact h.minted
  · rw [ho, hb, hc]; exact h.balance

/-- A drawn id has an owner only after it is minted. -/
theorem Holdings.drawn {s : NounsToken} (h : Holdings s) (seed : Seed) :
    Holdings (drawn s seed) := by
  refine ⟨fun n hn => h.minted n (Nat.le_of_succ_le hn), ?_⟩
  intro o ho
  have hlast : s.owners_ s.currentNounId_ ≠ o := by
    rw [h.minted _ (Nat.le_refl _)]; exact Ne.symm ho
  simp only [Proof.drawn, Finset.range_add_one, Finset.filter_insert, if_neg hlast]
  exact h.balance o ho

/-- Giving a Noun with a drawn id to `dst`, with the balances moved accordingly. -/
theorem Holdings.give {s s' : NounsToken} (h : Holdings s) (id : Nat) (dst : Address)
    (hid : id < s.currentNounId_) (ho : s'.owners_ = Function.update s.owners_ id dst)
    (hc : s'.currentNounId_ = s.currentNounId_)
    (hb : ∀ o, o ≠ 0 → s'.balances_ o + (if s.owners_ id = o then 1 else 0)
      = s.balances_ o + (if dst = o then 1 else 0)) : Holdings s' := by
  refine ⟨?_, ?_⟩
  · intro n hn
    rw [hc] at hn
    rw [ho, Function.update_of_ne (by omega)]
    exact h.minted n hn
  · intro o hne
    have hcount := count_update s.owners_ dst o (Finset.mem_range.mpr hid)
    have h1 := hb o hne
    have h2 := h.balance o hne
    rw [ho, hc]
    omega

theorem Effect.holdings {now : Nat} {names : Address → Address → Prop} {s s' : NounsToken}
    (he : Effect now names s s') (h : Holdings s) : Holdings s' := by
  cases he with
  | @mint dst seed hm =>
      obtain ⟨_, _, _, _, _, _, _, rfl⟩ := hm.book
      refine (h.drawn seed).give s.currentNounId_ dst (Nat.lt_succ_self _)
        rfl rfl ?_
      intro o ho
      have hfresh : (drawn s seed).owners_ s.currentNounId_ ≠ o := by
        rw [hm.fresh]; exact Ne.symm ho
      rw [if_neg hfresh]
      by_cases hd : dst = o
      · subst hd; simp [drawn]
      · simp [drawn, hd, Ne.symm hd]
  | @burn id hb =>
      obtain ⟨_, _, _, _, _, _, _, rfl⟩ := hb.book
      have hpos := hb.balance
      refine h.give id 0 (h.lt_current hb.owner_ne) rfl rfl ?_
      intro o ho
      rw [if_neg (Ne.symm ho)]
      by_cases hd : s.owners_ id = o
      · subst hd; simp; omega
      · simp [hd, Ne.symm hd]
  | @transfer src dst id ht =>
      obtain ⟨_, _, _, _, _, _, _, rfl⟩ := ht.book
      have hpos := ht.balance
      have hown := ht.owner
      refine h.give id dst (h.lt_current (hown ▸ ht.src_ne)) rfl rfl ?_
      intro o _
      -- a transfer to oneself takes a Noun and gives it back
      simp only [Ledger.transfer, NounsToken.ledger, hown]
      by_cases hd : dst = o
      · subst hd
        by_cases hs : src = dst
        · subst hs; simp; omega
        · simp [hs, Ne.symm hs]
      · by_cases hs : src = o
        · subst hs; simp [hd, Ne.symm hd]; omega
        · simp [hd, hs, Ne.symm hd, Ne.symm hs]
  | redelegate _ hr =>
      obtain ⟨_, _, _, _, _, _, _, rfl⟩ := hr.book
      exact h.congr rfl rfl rfl
  | configure hc =>
      obtain ⟨_, _, _, _, _, _, _, _, _, _, _, _, rfl⟩ := hc
      exact h.congr rfl rfl rfl

theorem Effects.holdings {now : Nat} {names : Address → Address → Prop} {s s' : NounsToken}
    (he : Effects now names s s') (h : Holdings s) : Holdings s' := by
  induction he with
  | refl => exact h
  | tail _ he ih => exact he.holdings ih

/-! ## All of them, along every history -/

theorem Effect.inv {now : Nat} {names : Address → Address → Prop} {s s' : NounsToken}
    (he : Effect now names s s') (h : TokenInv now s) : TokenInv now s' := by
  have hl := he.ledger h.zero.delegate
  have hrest := (he.records h.checkpoints).1
  rcases hl with hl | hl
  · exact ⟨hl ▸ h.zero, hl ▸ h.bounded, hl ▸ h.covered, hrest, he.holdings h.holdings⟩
  · exact ⟨hl.zeroFree h.zero, hl.bounded h.bounded, hl.covered h.covered, hrest,
      he.holdings h.holdings⟩

theorem Effects.inv {now : Nat} {names : Address → Address → Prop} {s s' : NounsToken}
    (he : Effects now names s s') (h : TokenInv now s) : TokenInv now s' := by
  induction he with
  | refl => exact h
  | tail _ he ih => exact he.inv ih

theorem CheckpointsOk.later {now now' : Nat} {s : NounsToken} (h : CheckpointsOk now s)
    (hn : now ≤ now') : CheckpointsOk now' s :=
  ⟨Nat.lt_of_lt_of_le h.now_pos hn, h.increasing, fun a i hi => Nat.le_trans (h.past a i hi) hn,
    h.pos⟩

theorem TokenInv.later {now now' : Nat} {s : NounsToken} (h : TokenInv now s) (hn : now ≤ now') :
    TokenInv now' s :=
  ⟨h.zero, h.bounded, h.covered, h.checkpoints.later hn, h.holdings⟩

theorem tokenInv_deploy {owner noundersDAO minter descriptor seeder : Address} {now : Nat}
    (hn : 0 < now) : TokenInv now (.deploy owner noundersDAO minter descriptor seeder) where
  zero := ⟨rfl, rfl, rfl⟩
  bounded := ⟨by simp [NounsToken.ledger, NounsToken.deploy, NounsToken.totalSupply],
    by simp [NounsToken.ledger, NounsToken.deploy, NounsToken.getCurrentVotes]⟩
  covered := fun _ _ => Nat.zero_le _
  checkpoints := ⟨hn, fun _ _ _ _ hj => absurd hj (Nat.not_lt_zero _),
    fun _ _ hi => absurd hi (Nat.not_lt_zero _), fun _ _ hi => absurd hi (Nat.not_lt_zero _)⟩
  holdings := ⟨fun _ _ => rfl, fun _ _ => rfl⟩

/-- What entering the token machine amounts to. -/
theorem tokenMachine_enter {tx : TokenTx} {w : TokenWorld} {o : Outcome TokenWorld TokenFrame}
    (h : tokenMachine.enter tx w = .ok o) :
    ∃ s, w.token.call (tx.msg w.block) tx.call = .ok s
      ∧ (o = .done { w with token := s }
        ∨ o = .call { w with token := s } { w with token := s } .onERC721Received) := by
  simp only [tokenMachine, bind_ok] at h
  obtain ⟨s, hs, h⟩ := h
  refine ⟨s, hs, ?_⟩
  split at h
  · exact .inr (Except.ok.inj h).symm
  · exact .inl (Except.ok.inj h).symm

theorem tokenMachine_resume {f : TokenFrame} {b : Bool} {w : TokenWorld}
    {o : Outcome TokenWorld TokenFrame} (h : tokenMachine.resume f b w = .ok o) : o = .done w := by
  simp only [tokenMachine, bind_ok] at h
  obtain ⟨_, _, h⟩ := h
  exact (Except.ok.inj h).symm

theorem tokenMachine_tick {t : Block} {w w' : TokenWorld} (h : tokenMachine.tick t w = some w') :
    w' = { w with block := t } ∧ w.block.number ≤ t.number := by
  simp only [tokenMachine, Option.map_eq_some_iff, tick_some] at h
  obtain ⟨b, ⟨hn, _, rfl⟩, rfl⟩ := h
  exact ⟨rfl, hn⟩

/-- **The token's invariant rule.** What each effect and the clock keep, every history keeps. -/
theorem tokenMachine_keeps {P : Config TokenWorld TokenFrame → Label TokenTx TokenFrame Block → Prop}
    {I : Nat → NounsToken → Prop}
    (hcall : ∀ {m c s s' fs}, I m.block.number s → s.call m c = .ok s' →
      P ⟨⟨s, m.block⟩, fs⟩ (.enter ⟨m.sender, m.view, c⟩) → I m.block.number s')
    (htick : ∀ {now now' s}, now ≤ now' → I now s → I now' s) :
    tokenMachine.Keeps P (fun w _ => I w.block.number w.token)
      (fun w _ _ => I w.block.number w.token) where
  enter := by
    intro tx w fs o hI hP _ he
    obtain ⟨s, hs, rfl | rfl⟩ := tokenMachine_enter he
    · exact hcall (m := tx.msg w.block) hI hs hP
    · exact ⟨hcall (m := tx.msg w.block) hI hs hP, hcall (m := tx.msg w.block) hI hs hP⟩
  resume := by
    intro f w fs o hI _ hr
    rw [tokenMachine_resume hr]
    exact hI
  failed := by
    intro f w fs o hJ hr
    rw [tokenMachine_resume hr]
    exact hJ
  tick := by
    intro t w w' hI _ ht
    obtain ⟨rfl, hn⟩ := tokenMachine_tick ht
    exact htick hn hI

/-- The histories of a deployed token. -/
abbrev TokenRuns (g : Genesis) (x : Config TokenWorld TokenFrame) : Prop :=
  tokenMachine.Runs Free ⟨g.world, []⟩ x

theorem tokenInv_runs {g : Genesis} {x : Config TokenWorld TokenFrame} (h : TokenRuns g x) :
    TokenInv x.world.block.number x.world.token :=
  (tokenMachine_keeps (I := TokenInv) (fun hI hs _ => (call_effects hs).inv hI)
    (fun hn hI => hI.later hn)).runs h (tokenInv_deploy g.block_pos)

/-! ## A small token -/

/-- A token deployed in block 1, with account 4 the minter. -/
def smallGenesis : Genesis where
  owner := .ofNat 1
  noundersDAO := .ofNat 2
  minter := .ofNat 4
  descriptor := .ofNat 5
  seeder := .ofNat 6
  block := ⟨1, 1⟩
  block_pos := by decide

/-- No proxies and no contracts; a delegation counts as signed by the account its `r` names. -/
def smallView : View where
  generateSeed := fun _ _ _ => .ok ⟨0, 0, 0, 0, 0⟩
  proxies := fun _ => 0
  isContract := fun _ => false
  recover := fun _ sig => .ofNat sig.r

/-- A transaction there. -/
def smallTx (sender : Address) (call : TokenCall) : TokenTx := ⟨sender, smallView, call⟩

end Nouns.Proof
