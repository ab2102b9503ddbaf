import Nouns.Proof.TokenEffects

/-!
# What a call to the token does

Every entry point of the token is a short list of elementary effects: a Noun
minted, burned or transferred, a delegation, or a change that touches neither
Nouns nor votes. An invariant of the token is checked against these five.
-/

namespace Nouns.Proof

open Evm DelegatedVotes

/-- Whether an event tells of Nouns or votes moving. -/
def moves : TokenEvent → Bool
  | .transfer .. | .delegateChanged .. | .delegateVotesChanged .. => true
  | _ => false

/-- Only approvals, roles, locks and the log differ, and the log tells of nothing that moves. -/
def Configured (s s' : NounsToken) : Prop :=
  ∃ approvals operators owner noundersDAO minter descriptor seeder minterLock descriptorLock
      seederLock events, (∀ e ∈ events, moves e = false) ∧
    s' = { s with
      tokenApprovals_ := approvals
      operatorApprovals_ := operators
      owner := owner
      noundersDAO := noundersDAO
      minter := minter
      descriptor := descriptor
      seeder := seeder
      isMinterLocked := minterLock
      isDescriptorLocked := descriptorLock
      isSeederLocked := seederLock
      logs := s.logs ++ events }

/-- The storage `mint` leaves before it mints the Noun whose turn it is. -/
def drawn (s : NounsToken) (seed : Seed) : NounsToken :=
  { s with
    currentNounId_ := s.currentNounId_ + 1
    seeds := Function.update s.seeds s.currentNounId_ seed }

/-- The elementary effects, in block `now`; `names o d` if `o` may name `d`. -/
inductive Effect (now : Nat) (names : Address → Address → Prop) :
    NounsToken → NounsToken → Prop where
  | mint {s s' : NounsToken} {dst : Address} {seed : Seed} :
      Minted now s.owner dst s.currentNounId_ (drawn s seed) s' → Effect now names s s'
  | burn {s s' : NounsToken} {tokenId : Nat} : Burned now tokenId s s' → Effect now names s s'
  | transfer {s s' : NounsToken} {src dst : Address} {tokenId : Nat} :
      Transferred now src dst tokenId s s' → Effect now names s s'
  | redelegate {s s' : NounsToken} {o d : Address} {nonces : Address → Nat} :
      names o d → Redelegated now o d { s with nonces := nonces } s' → Effect now names s s'
  | configure {s s' : NounsToken} : Configured s s' → Effect now names s s'

/-- A run of elementary effects within one block. -/
abbrev Effects (now : Nat) (names : Address → Address → Prop) : NounsToken → NounsToken → Prop :=
  Relation.ReflTransGen (Effect now names)

variable {now : Nat} {names : Address → Address → Prop} {m : Msg} {s s₁ s' : NounsToken}

theorem Effects.single (h : Effect now names s s') : Effects now names s s' :=
  Relation.ReflTransGen.single h

theorem configured_emit {e : TokenEvent} (he : moves e = false) : Configured s (s.emit e) :=
  ⟨_, _, _, _, _, _, _, _, _, _, [e], by simpa using he, rfl⟩

/-- `_mintTo` on the id whose turn it is. -/
theorem mintTo_shape {dst : Address} (h₁ : s.nextNounId = .ok s₁)
    (h : s₁.mintTo_ m dst s.currentNounId_ = .ok s') :
    ∃ seed s₂, Minted m.block.number s.owner dst s.currentNounId_ (drawn s seed) s₂
      ∧ s' = s₂.emit (.nounCreated s.currentNounId_ seed) := by
  simp only [NounsToken.nextNounId, bind_ok, add_ok] at h₁
  obtain ⟨_, ⟨_, rfl⟩, h₁⟩ := h₁
  obtain rfl := Except.ok.inj h₁
  simp only [NounsToken.mintTo_, bind_ok] at h
  obtain ⟨seed, _, s₂, h₂, h⟩ := h
  exact ⟨seed, s₂, mint_shape h₂, (Except.ok.inj h).symm⟩

theorem mintTo_effects {dst : Address} (h₁ : s.nextNounId = .ok s₁)
    (h : s₁.mintTo_ m dst s.currentNounId_ = .ok s') : Effects m.block.number names s s' := by
  obtain ⟨seed, s₂, hm, rfl⟩ := mintTo_shape h₁ h
  exact (Effects.single (.mint hm)).tail (.configure (configured_emit rfl))

theorem mintReward_effects (h : s.mintReward m = .ok s') :
    Effects m.block.number names s s' := by
  unfold NounsToken.mintReward at h
  split at h
  · simp only [bind_ok] at h
    obtain ⟨s₁, h₁, h⟩ := h
    exact mintTo_effects h₁ h
  · obtain rfl := Except.ok.inj h
    exact .refl

theorem mint_effects {id : Nat} (h : s.mint m = .ok (s', id)) :
    Effects m.block.number names s s' := by
  simp only [NounsToken.mint, bind_ok] at h
  obtain ⟨_, _, s₁, h₁, s₂, h₂, s₃, h₃, h⟩ := h
  obtain ⟨rfl, rfl⟩ := Prod.mk.inj (Except.ok.inj h)
  exact (mintReward_effects h₁).trans (mintTo_effects h₂ h₃)

theorem burn_effects {id : Nat} (h : s.burn m id = .ok s') :
    Effects m.block.number names s s' := by
  simp only [NounsToken.burn, bind_ok] at h
  obtain ⟨_, _, s₁, h₁, h⟩ := h
  obtain rfl := Except.ok.inj h
  exact (Effects.single (.burn (burn_shape h₁))).tail (.configure (configured_emit rfl))

theorem transferFrom_shape {src dst : Address} {id : Nat}
    (h : s.transferFrom m src dst id = .ok s') : Transferred m.block.number src dst id s s' := by
  simp only [NounsToken.transferFrom, bind_ok] at h
  obtain ⟨_, _, _, _, h⟩ := h
  exact transfer_shape h

theorem delegateBySig_shape {d : Address} {nonce expiry : Nat} {sig : Signature}
    (h : s.delegateBySig m d nonce expiry sig = .ok s') :
    ∃ nonces, Redelegated m.block.number (m.view.recover ⟨d, nonce, expiry⟩ sig) d
      { s with nonces := nonces } s' := by
  simp only [NounsToken.delegateBySig, bind_ok] at h
  obtain ⟨_, _, _, _, _, _, _, _, h⟩ := h
  exact ⟨_, delegate_shape h⟩

theorem approve_configured {dst : Address} {id : Nat} (h : s.approve m dst id = .ok s') :
    Configured s s' := by
  simp only [NounsToken.approve, NounsToken.erc721Approve, NounsToken.approve_, bind_ok] at h
  obtain ⟨_, _, _, _, _, _, _, _, h⟩ := h
  obtain rfl := Except.ok.inj h
  exact ⟨_, _, _, _, _, _, _, _, _, _, [_], by simp [moves], rfl⟩

/-- The calls that touch neither Nouns nor votes. -/
def isConfig : TokenCall → Bool
  | .mint | .burn _ | .transferFrom .. | .safeTransferFrom .. | .delegate _ | .delegateBySig .. =>
      false
  | _ => true

theorem config_configured {c : TokenCall} (hc : isConfig c = true) (h : s.call m c = .ok s') :
    Configured s s' := by
  cases c with
  | mint | burn | transferFrom | safeTransferFrom | delegate | delegateBySig => simp [isConfig] at hc
  | approve dst id => exact approve_configured h
  | setApprovalForAll o b =>
      simp only [NounsToken.call, NounsToken.setApprovalForAll, bind_ok] at h
      obtain ⟨_, _, h⟩ := h
      obtain rfl := Except.ok.inj h
      exact ⟨_, _, _, _, _, _, _, _, _, _, [_], by simp [moves], rfl⟩
  | setNoundersDAO a =>
      simp only [NounsToken.call, NounsToken.setNoundersDAO, bind_ok] at h
      obtain ⟨_, _, h⟩ := h
      obtain rfl := Except.ok.inj h
      exact ⟨_, _, _, _, _, _, _, _, _, _, [_], by simp [moves], rfl⟩
  | transferOwnership a =>
      simp only [NounsToken.call, NounsToken.transferOwnership, bind_ok] at h
      obtain ⟨_, _, _, _, h⟩ := h
      obtain rfl := Except.ok.inj h
      exact ⟨_, _, _, _, _, _, _, _, _, _, [_], by simp [moves], rfl⟩
  | renounceOwnership =>
      simp only [NounsToken.call, NounsToken.renounceOwnership, bind_ok] at h
      obtain ⟨_, _, h⟩ := h
      obtain rfl := Except.ok.inj h
      exact ⟨_, _, _, _, _, _, _, _, _, _, [_], by simp [moves], rfl⟩
  | setMinter | lockMinter | setDescriptor | lockDescriptor | setSeeder | lockSeeder =>
      simp only [NounsToken.call, NounsToken.setMinter, NounsToken.lockMinter,
        NounsToken.setDescriptor, NounsToken.lockDescriptor, NounsToken.setSeeder,
        NounsToken.lockSeeder, bind_ok] at h
      obtain ⟨_, _, _, _, h⟩ := h
      obtain rfl := Except.ok.inj h
      exact ⟨_, _, _, _, _, _, _, _, _, _, [_], by simp [moves], rfl⟩

/-- Whom a call has whom name as a delegatee. -/
def Names (m : Msg) : TokenCall → Address → Address → Prop
  | .delegate delegatee => fun o d => o = m.sender ∧ d = if delegatee = 0 then m.sender else delegatee
  | .delegateBySig delegatee nonce expiry sig => fun o d =>
      o = m.view.recover ⟨delegatee, nonce, expiry⟩ sig ∧ d = delegatee
  | _ => fun _ _ => False

/-- **Every call is a run of elementary effects.** -/
theorem call_effects {c : TokenCall} (h : s.call m c = .ok s') :
    Effects m.block.number (Names m c) s s' := by
  by_cases hc : isConfig c = true
  · exact .single (.configure (config_configured hc h))
  · cases c with
    | mint =>
        simp only [NounsToken.call, bind_ok] at h
        obtain ⟨⟨s₁, id⟩, h₁, h⟩ := h
        obtain rfl := Except.ok.inj h
        exact mint_effects h₁
    | burn id => exact burn_effects h
    | transferFrom src dst id => exact .single (.transfer (transferFrom_shape h))
    | safeTransferFrom src dst id => exact .single (.transfer (transferFrom_shape h))
    | delegate d => exact .single (@Effect.redelegate _ _ s s' _ _ s.nonces ⟨rfl, rfl⟩ (delegate_shape h))
    | delegateBySig d nonce expiry sig =>
        obtain ⟨nonces, hr⟩ := delegateBySig_shape h
        exact .single (.redelegate ⟨rfl, rfl⟩ hr)
    | _ => exact absurd rfl hc

/-! ## Effects and the ledger of votes -/

theorem Configured.ledger (h : Configured s s') : s'.ledger = s.ledger := by
  obtain ⟨_, _, _, _, _, _, _, _, _, _, _, _, rfl⟩ := h
  rfl

/-- An effect is an operation of the ledger, or leaves it alone. -/
theorem Effect.ledger (h : Effect now names s s') (h0 : s.delegates_ 0 = 0) :
    s'.ledger = s.ledger ∨ Ledger.Step s.ledger s'.ledger := by
  cases h with
  | mint hm =>
      right
      rw [hm.ledger h0]
      exact .issue (L := s.ledger) hm.dst_ne
  | burn hb =>
      right
      rw [(hb.ledger h0).1]
      exact .retire hb.owner_ne hb.balance (hb.ledger h0).2
  | transfer ht =>
      right
      rw [ht.ledger]
      exact .transfer ht.src_ne ht.dst_ne ht.balance ht.enough
  | redelegate _ hr =>
      right
      rw [hr.ledger]
      exact .redelegate (L := s.ledger) hr.delegator_ne hr.enough
  | configure hc => exact .inl hc.ledger

theorem Effect.records (h : Effect now names s s') : Records now s s' := by
  cases h with
  | mint hm => exact (Records.of_eq (by rfl) (by rfl)).trans hm.records
  | burn hb => exact hb.records
  | transfer ht => exact ht.records
  | redelegate _ hr => exact (Records.of_eq (by rfl) (by rfl)).trans hr.records
  | configure hc =>
      obtain ⟨_, _, _, _, _, _, _, _, _, _, _, _, rfl⟩ := hc
      exact Records.of_eq rfl rfl

theorem Effects.records (h : Effects now names s s') : Records now s s' := by
  induction h with
  | refl => exact .refl
  | tail _ he ih => exact ih.trans he.records

end Nouns.Proof
