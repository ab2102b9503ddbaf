import Nouns.Proof.TokenInvariant

/-!
# A vote for every Noun

`VotesBacked` says that the votes of an account are the Nouns of the holders it
represents. All effects keep it but one: `delegateBySig` takes the zero address for
a delegatee, which `delegate` replaces by the sender. The votes of a holder who
signed that go to nobody, while `delegates` has the holder represent itself; the
next transfer or delegation takes votes that are not there.
-/

namespace Nouns.Proof

open Evm DelegatedVotes CallMachine

variable {now : Nat} {names : Address → Address → Prop} {m : Msg} {block : Block}
  {s s' : NounsToken}

/-- Every account has the votes of the Nouns it represents. -/
def VotesBacked (s : NounsToken) : Prop :=
  ∀ a, a ≠ 0 → s.getCurrentVotes a = ∑ o, if s.delegates o = a then s.balances_ o else 0

theorem backed_ledger : s.ledger.Backed ↔ VotesBacked s := Iff.rfl

/-- The signatory of a call does not hand the votes of a Noun to the zero address. -/
def NamesSomebody (v : View) (s : NounsToken) : TokenCall → Prop
  | .delegateBySig delegatee nonce expiry sig =>
      delegatee = 0 → s.balances_ (v.recover ⟨delegatee, nonce, expiry⟩ sig) = 0
  | _ => True

/-! ## What keeps votes backed -/

theorem Redelegated.backed {o d : Address} (h : Redelegated now o d s s') (hb : VotesBacked s)
    (hd : d ≠ 0 ∨ s.balances_ o = 0) : VotesBacked s' := by
  rw [← backed_ledger, h.ledger]
  exact Ledger.Backed.redelegate (backed_ledger.mpr hb) h.delegator_ne hd h.enough

theorem Effect.backed (he : Effect now names s s') (h0 : s.delegates_ 0 = 0)
    (hb : VotesBacked s) (hn : ∀ o d, names o d → o ≠ 0 → d ≠ 0) : VotesBacked s' := by
  cases he with
  | mint hm =>
      rw [← backed_ledger, hm.ledger h0]
      exact Ledger.Backed.issue (L := s.ledger) (backed_ledger.mpr hb) hm.dst_ne
  | burn hbu =>
      rw [← backed_ledger, (hbu.ledger h0).1]
      exact Ledger.Backed.retire (backed_ledger.mpr hb) hbu.owner_ne hbu.balance
  | transfer ht =>
      rw [← backed_ledger, ht.ledger]
      exact Ledger.Backed.transfer (backed_ledger.mpr hb) ht.src_ne (ht.owner ▸ ht.balance) ht.enough
  | redelegate hod hr =>
      exact Redelegated.backed hr (s := { s with nonces := _ }) hb
        (.inl (hn _ _ hod hr.delegator_ne))
  | configure hc => rwa [← backed_ledger, hc.ledger, backed_ledger]

theorem Effects.backed (he : Effects now names s s') (hi : TokenInv now s)
    (hb : VotesBacked s) (hn : ∀ o d, names o d → o ≠ 0 → d ≠ 0) : VotesBacked s' := by
  induction he with
  | refl => exact hb
  | tail hes he ih => exact he.backed (Effects.inv hes hi).zero.delegate ih hn

/-- A call that names somebody keeps votes backed. -/
theorem call_backed {c : TokenCall} (hi : TokenInv m.block.number s) (hb : VotesBacked s)
    (hn : NamesSomebody m.view s c) (h : s.call m c = .ok s') : VotesBacked s' := by
  have hes := call_effects h
  cases c with
  | delegateBySig d nonce expiry sig =>
      obtain ⟨nonces, hr⟩ := delegateBySig_shape h
      refine hr.backed hb ?_
      by_cases hd : d = 0
      · exact .inr (hn hd)
      · exact .inl hd
  | delegate d =>
      refine hes.backed hi hb ?_
      rintro o d' ⟨rfl, rfl⟩ ho
      split
      · exact ho
      · assumption
  | _ => exact hes.backed hi hb (fun _ _ hf => hf.elim)

/-- A holder who signs its votes away breaks the count. -/
theorem call_not_backed {c : TokenCall} (hb : VotesBacked s)
    (hn : ¬ NamesSomebody m.view s c) (h : s.call m c = .ok s') : ¬ VotesBacked s' := by
  cases c with
  | delegateBySig d nonce expiry sig =>
      obtain ⟨nonces, hr⟩ := delegateBySig_shape h
      simp only [NamesSomebody, Classical.not_imp] at hn
      obtain ⟨rfl, hpos⟩ := hn
      rw [← backed_ledger, hr.ledger]
      exact Ledger.not_backed_redelegate_zero (backed_ledger.mpr hb) hr.delegator_ne
        (Nat.pos_of_ne_zero hpos)
  | _ => exact absurd trivial hn

/-! ## Votes that are not there -/

/-- The revert of `_moveDelegates` on votes that are not there. -/
abbrev amountUnderflows : Revert := .error "ERC721Checkpointable::_moveDelegates: amount underflows"

theorem writeCheckpoint_avoids {a : Address} {n old new : Nat} :
    Avoids amountUnderflows (s.writeCheckpoint_ block a n old new) := by
  unfold NounsToken.writeCheckpoint_ safe32
  refine avoids_bind (avoids_bind (avoids_require (by decide)) fun _ _ => avoids_pure) ?_
  intro _ _
  dsimp only
  split
  · exact avoids_pure
  · exact avoids_bind avoids_add fun _ _ => avoids_pure

theorem moveDelegates_avoids {src dst : Address} {n : Nat}
    (hn : src ≠ 0 → src ≠ dst → n ≤ s.getCurrentVotes src) :
    Avoids amountUnderflows (s.moveDelegates_ block src dst n) := by
  unfold NounsToken.moveDelegates_
  split
  · rename_i hc
    refine avoids_bind ?_ ?_
    · split
      · rename_i hs
        unfold NounsToken.takeVotes_ sub96
        refine avoids_bind (avoids_bind ?_ fun _ _ => avoids_sub) fun _ _ => writeCheckpoint_avoids
        -- the only place that reverts with this text
        exact fun h => absurd ((require_total (hn hs hc.1)).symm.trans h) (by simp)
      · exact avoids_ok
    · intro s₁ _
      split
      · unfold NounsToken.giveVotes_ add96
        refine avoids_bind (avoids_bind avoids_add ?_) fun _ _ => writeCheckpoint_avoids
        intro _ _
        exact avoids_bind (avoids_require (by decide)) fun _ _ => avoids_pure
      · exact avoids_ok
  · exact avoids_ok

theorem balanceOf_avoids {o : Address} : Avoids amountUnderflows (s.balanceOf o) :=
  avoids_bind (avoids_require (by decide)) fun _ _ => avoids_pure

theorem ownerOf_avoids {id : Nat} : Avoids amountUnderflows (s.ownerOf id) :=
  avoids_bind (avoids_require (by decide)) fun _ _ => avoids_pure

theorem approve_avoids {dst : Address} {id : Nat} : Avoids amountUnderflows (s.approve_ dst id) :=
  avoids_bind ownerOf_avoids fun _ _ => avoids_pure

theorem beforeTokenTransferEnumerable_avoids {src dst : Address} {id : Nat} :
    Avoids amountUnderflows (s.beforeTokenTransferEnumerable_ src dst id) := by
  unfold NounsToken.beforeTokenTransferEnumerable_
  refine avoids_bind ?_ ?_
  · split
    · exact avoids_ok
    · split
      · exact avoids_bind balanceOf_avoids fun _ _ => avoids_bind avoids_sub fun _ _ => avoids_pure
      · exact avoids_ok
  · intro s₁ _
    split
    · exact avoids_bind avoids_sub fun _ _ => avoids_bind avoids_index fun _ _ =>
        avoids_bind avoids_index fun _ _ => avoids_pure
    · split
      · exact avoids_bind balanceOf_avoids fun _ _ => avoids_pure
      · exact avoids_ok

/-- The hook moves the vote of a Noun that `src` holds. -/
theorem beforeTokenTransfer_avoids {src dst : Address} {id : Nat} (hz : s.delegates_ 0 = 0)
    (hb : VotesBacked s) (hsrc : src ≠ 0 → 1 ≤ s.balances_ src) :
    Avoids amountUnderflows (s.beforeTokenTransfer_ block src dst id) := by
  refine avoids_bind beforeTokenTransferEnumerable_avoids ?_
  intro s₁ h₁
  obtain ⟨_, _, _, _, rfl, _⟩ := beforeTokenTransferEnumerable_shape h₁
  refine moveDelegates_avoids ?_
  intro hrep _
  by_cases h0 : src = 0
  · subst h0; exact absurd (delegates_zero hz) hrep
  · exact (hsrc h0).trans (Ledger.Backed.balance_le (backed_ledger.mpr hb) h0)

theorem mint_avoids {creator dst : Address} {id : Nat} (hz : s.delegates_ 0 = 0)
    (hb : VotesBacked s) : Avoids amountUnderflows
      (NounsToken.mint_ (NounsToken.beforeTokenTransfer_ block) creator dst id s) :=
  avoids_bind (avoids_require (by decide)) fun _ _ =>
    avoids_bind (avoids_require (by decide)) fun _ _ =>
      avoids_bind (beforeTokenTransfer_avoids hz hb (fun h => absurd rfl h)) fun _ _ =>
        avoids_bind avoids_add fun _ _ => avoids_pure

theorem burn_avoids {id : Nat} (hi : TokenInv now s) (hb : VotesBacked s) :
    Avoids amountUnderflows (NounsToken.burn_ (NounsToken.beforeTokenTransfer_ block) id s) := by
  refine avoids_bind ownerOf_avoids ?_
  intro o ho
  simp only [NounsToken.ownerOf, bind_ok, require_ok] at ho
  obtain ⟨_, hne, ho⟩ := ho
  obtain rfl := Except.ok.inj ho
  refine avoids_bind (beforeTokenTransfer_avoids hi.zero.delegate hb fun _ =>
    hi.holdings.balance_pos hne) ?_
  exact fun _ _ => avoids_bind approve_avoids fun _ _ => avoids_bind avoids_sub fun _ _ => avoids_pure

theorem transfer_avoids {src dst : Address} {id : Nat} (hi : TokenInv now s)
    (hb : VotesBacked s) : Avoids amountUnderflows
      (NounsToken.transfer_ (NounsToken.beforeTokenTransfer_ block) src dst id s) := by
  refine avoids_bind ownerOf_avoids ?_
  intro o ho
  simp only [NounsToken.ownerOf, bind_ok, require_ok] at ho
  obtain ⟨_, hne, ho⟩ := ho
  obtain rfl := Except.ok.inj ho
  refine avoids_bind (avoids_require (by decide)) ?_
  intro _ hsrc
  obtain rfl := require_ok.mp hsrc
  refine avoids_bind (avoids_require (by decide)) ?_
  intro _ _
  refine avoids_bind (beforeTokenTransfer_avoids hi.zero.delegate hb fun _ =>
    hi.holdings.balance_pos hne) ?_
  exact fun _ _ => avoids_bind approve_avoids fun _ _ => avoids_bind avoids_sub fun _ _ =>
    avoids_bind avoids_add fun _ _ => avoids_pure

theorem delegate_avoids {o d : Address} (hb : VotesBacked s) :
    Avoids amountUnderflows (s.delegate_ block o d) := by
  refine avoids_bind ?_ fun n hn => moveDelegates_avoids ?_
  · exact avoids_bind balanceOf_avoids fun _ _ =>
      avoids_bind (avoids_require (by decide)) fun _ _ => avoids_pure
  · intro _ _
    simp only [NounsToken.votesToDelegate, NounsToken.balanceOf, safe96, bind_ok, require_ok] at hn
    obtain ⟨_, ⟨_, ho, hbal⟩, _, _, hn⟩ := hn
    obtain rfl := Except.ok.inj hbal
    obtain rfl := Except.ok.inj hn
    exact Ledger.Backed.balance_le (backed_ledger.mpr hb) ho

/-- The seeder does not answer with the revert of `_moveDelegates`. -/
def View.Quiet (v : View) : Prop :=
  ∀ seeder id descriptor, Avoids amountUnderflows (v.generateSeed seeder id descriptor)

theorem nextNounId_avoids : Avoids amountUnderflows s.nextNounId :=
  avoids_bind avoids_add fun _ _ => avoids_pure

theorem mintTo_avoids {dst : Address} {id : Nat} (hv : View.Quiet m.view)
    (hz : s.delegates_ 0 = 0) (hb : VotesBacked s) : Avoids amountUnderflows (s.mintTo_ m dst id) :=
  avoids_bind (hv _ _ _) fun _ _ => avoids_bind (mint_avoids hz hb) fun _ _ => avoids_pure

/-- Drawing an id leaves holders and votes alone. -/
theorem nextNounId_votes (h : s.nextNounId = .ok s') (hz : s.delegates_ 0 = 0)
    (hb : VotesBacked s) : s'.delegates_ 0 = 0 ∧ VotesBacked s' := by
  simp only [NounsToken.nextNounId, bind_ok, add_ok] at h
  obtain ⟨_, _, h⟩ := h
  obtain rfl := Except.ok.inj h
  exact ⟨hz, hb⟩

theorem mintCall_avoids (hv : View.Quiet m.view) (hi : TokenInv m.block.number s)
    (hb : VotesBacked s) : Avoids amountUnderflows (s.mint m) := by
  refine avoids_bind (avoids_require (by decide)) fun _ _ => ?_
  refine avoids_bind ?_ fun s₁ h₁ => ?_
  · unfold NounsToken.mintReward
    split
    · refine avoids_bind nextNounId_avoids fun s₁ h₁ => ?_
      obtain ⟨hz', hb'⟩ := nextNounId_votes h₁ hi.zero.delegate hb
      exact mintTo_avoids hv hz' hb'
    · exact avoids_ok
  · have hes : Effects m.block.number (fun _ _ => False) s s₁ := mintReward_effects h₁
    refine avoids_bind nextNounId_avoids fun s₂ h₂ => ?_
    obtain ⟨hz', hb'⟩ := nextNounId_votes h₂ (hes.inv hi).zero.delegate
      (hes.backed hi hb fun _ _ hf => hf.elim)
    exact avoids_bind (mintTo_avoids hv hz' hb') fun _ _ => avoids_pure

/-- **The branch is dead.** Where votes are backed no call takes votes that are not there. -/
theorem call_avoids {c : TokenCall} (hv : View.Quiet m.view) (hi : TokenInv m.block.number s)
    (hb : VotesBacked s) : Avoids amountUnderflows (s.call m c) := by
  cases c with
  | mint => exact avoids_bind (mintCall_avoids hv hi hb) fun _ _ => avoids_pure
  | burn id =>
      exact avoids_bind (avoids_require (by decide)) fun _ _ =>
        avoids_bind (burn_avoids hi hb) fun _ _ => avoids_pure
  | approve dst id =>
      exact avoids_bind ownerOf_avoids fun _ _ => avoids_bind (avoids_require (by decide)) fun _ _ =>
        avoids_bind (avoids_require (by decide)) fun _ _ => approve_avoids
  | transferFrom src dst id | safeTransferFrom src dst id =>
      refine avoids_bind ?_ fun _ _ => avoids_bind (avoids_require (by decide)) fun _ _ =>
        transfer_avoids hi hb
      exact avoids_bind (avoids_require (by decide)) fun _ _ => avoids_bind ownerOf_avoids fun _ _ =>
        avoids_bind (avoids_bind (avoids_require (by decide)) fun _ _ => avoids_pure) fun _ _ =>
          avoids_pure
  | delegate d => exact delegate_avoids hb
  | delegateBySig d nonce expiry sig =>
      refine avoids_bind (avoids_require (by decide)) fun _ _ => avoids_bind avoids_add fun _ _ =>
        avoids_bind (avoids_require (by decide)) ?_
      intro _ _
      exact avoids_bind (avoids_require (by decide)) fun _ _ => delegate_avoids hb
  | setApprovalForAll o b => exact avoids_bind (avoids_require (by decide)) fun _ _ => avoids_pure
  | setNoundersDAO a => exact avoids_bind (avoids_require (by decide)) fun _ _ => avoids_pure
  | renounceOwnership => exact avoids_bind (avoids_require (by decide)) fun _ _ => avoids_pure
  | transferOwnership a | setMinter a | lockMinter | setDescriptor a | lockDescriptor | setSeeder a
    | lockSeeder =>
      exact avoids_bind (avoids_require (by decide)) fun _ _ =>
        avoids_bind (avoids_require (by decide)) fun _ _ => avoids_pure

end Nouns.Proof
