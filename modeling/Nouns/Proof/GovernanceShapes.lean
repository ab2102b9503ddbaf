import Nouns.Governance.System
import Nouns.Proof.TokenInvariant

/-!
# What the DAO's functions do

One lemma for each function of the DAO that writes proposals or drives the executor:
the checks it passed and the storage it leaves. `Proposal.stateOf` is what `state`
computes, without the width of the clock.
-/

namespace Nouns

open Evm

/-- The state of a proposal in a block. -/
def Proposal.stateOf (block : Block) (p : Proposal) : ProposalState :=
  if p.vetoed then .vetoed
  else if p.canceled then .canceled
  else if block.number ≤ p.startBlock then .pending
  else if block.number ≤ p.endBlock then .active
  else if p.forVotes ≤ p.againstVotes ∨ p.forVotes < p.quorumVotes then .defeated
  else if p.eta = 0 then .succeeded
  else if p.executed then .executed
  else if p.eta + GRACE_PERIOD ≤ block.timestamp then .expired
  else .queued

namespace Proof

variable {block : Block} {s s' : NounsDAO} {id : Nat}

/-! ## State -/

theorem state_ok {st : ProposalState} (h : s.state block id = .ok st) :
    id ≤ s.proposalCount ∧ (s.proposals id).stateOf block = st := by
  simp only [NounsDAO.state, bind_ok, require_ok] at h
  obtain ⟨_, hid, h⟩ := h
  refine ⟨hid, ?_⟩
  unfold Proposal.stateOf
  generalize s.proposals id = p at h ⊢
  split_ifs at h ⊢
  all_goals simp only [bind_ok, add_ok, pure, Except.pure, Except.ok.injEq] at h
  all_goals first | exact h | skip
  · obtain ⟨_, ⟨_, rfl⟩, h⟩ := h
    rw [if_pos ‹_›] at h
    exact Except.ok.inj h
  · obtain ⟨_, ⟨_, rfl⟩, h⟩ := h
    rw [if_neg ‹_›] at h
    exact Except.ok.inj h

/-- What it takes to be queued. -/
structure IsQueued (block : Block) (p : Proposal) : Prop where
  not_vetoed : p.vetoed = false
  not_canceled : p.canceled = false
  started : p.startBlock < block.number
  ended : p.endBlock < block.number
  carried : p.againstVotes < p.forVotes
  quorum : p.quorumVotes ≤ p.forVotes
  eta_ne : p.eta ≠ 0
  not_executed : p.executed = false
  fresh : block.timestamp < p.eta + GRACE_PERIOD

theorem stateOf_queued {p : Proposal} : p.stateOf block = .queued ↔ IsQueued block p := by
  unfold Proposal.stateOf
  constructor
  · intro h
    split_ifs at h with h1 h2 h3 h4 h5 h6 h7 h8
    obtain ⟨h5, h5'⟩ := not_or.mp h5
    exact ⟨by simpa using h1, by simpa using h2, by omega, by omega, by omega, by omega, h6,
      by simpa using h7, by omega⟩
  · intro hin
    obtain ⟨h1, h2, h3, h4, h5, h6, h7, h8, h9⟩ := hin
    rw [if_neg (by simp [h1]), if_neg (by simp [h2]), if_neg (by omega), if_neg (by omega),
      if_neg (by omega), if_neg h7, if_neg (by simp [h8]), if_neg (by omega)]

/-- A queued proposal's window fits the width of the clock. -/
theorem state_queued (h : s.state block id = .ok .queued) :
    (s.proposals id).eta + GRACE_PERIOD < 2 ^ 256 := by
  obtain ⟨_, hq⟩ := state_ok h
  obtain ⟨h1, h2, h3, h4, h5, h6, h7, h8, h9⟩ := stateOf_queued.mp hq
  simp only [NounsDAO.state, bind_ok, require_ok] at h
  obtain ⟨_, hid, h⟩ := h
  rw [if_neg (by simp [h1]), if_neg (by simp [h2]), if_neg (by omega), if_neg (by omega),
    if_neg (by omega), if_neg h7, if_neg (by simp [h8]), bind_ok] at h
  obtain ⟨_, hl, _⟩ := h
  exact (add_ok.mp hl).1

/-! ## Actions -/

variable {H : Type} [DecidableEq H] {hs : Hashing H} {self : Address}

/-- The action of a proposal at an index is a function of its arrays. -/
theorem action_ok {p : Proposal} {i eta : Nat} {t : Transaction} :
    p.action i eta = .ok t ↔ p.targets[i]? = some t.target ∧ p.values[i]? = some t.value
      ∧ p.signatures[i]? = some t.signature ∧ p.calldatas[i]? = some t.data ∧ t.eta = eta := by
  simp only [Proposal.action, bind_ok, index_ok]
  constructor
  · intro hin
    obtain ⟨_, h1, _, h2, _, h3, _, h4, h⟩ := hin
    obtain rfl := Except.ok.inj h
    exact ⟨h1, h2, h3, h4, rfl⟩
  · intro hin
    obtain ⟨h1, h2, h3, h4, rfl⟩ := hin
    exact ⟨_, h1, _, h2, _, h3, _, h4, rfl⟩

/-- The four arrays of a proposal go together. -/
def Proposal.Even (p : Proposal) : Prop :=
  p.targets.length = p.values.length ∧ p.targets.length = p.signatures.length
    ∧ p.targets.length = p.calldatas.length

theorem Proposal.Even.action {p : Proposal} (h : Proposal.Even p) {i : Nat}
    (hi : i < p.targets.length) (eta : Nat) : ∃ t, p.action i eta = .ok t := by
  obtain ⟨h1, h2, h3⟩ := h
  refine ⟨⟨p.targets[i], p.values[i], p.signatures[i], p.calldatas[i], eta⟩, action_ok.mpr ?_⟩
  exact ⟨List.getElem?_eq_getElem hi, List.getElem?_eq_getElem (h1 ▸ hi),
    List.getElem?_eq_getElem (h2 ▸ hi), List.getElem?_eq_getElem (h3 ▸ hi), rfl⟩

/-- The hash is that of one of the actions of `p` below `n`, at `eta`. -/
def HashOf (hs : Hashing H) (p : Proposal) (eta n : Nat) (h : H) : Prop :=
  ∃ i t, i < n ∧ p.action i eta = .ok t ∧ hs.txHash t = h

/-- Only the bits and the log of the executor differ. -/
def BitsOnly (e e' : NounsDAOExecutor H) : Prop :=
  ∃ bits logs, e' = { e with queuedTransactions := bits, logs := logs }

/-- What `cancelTransactions` does. -/
structure Cleared (hs : Hashing H) (p : Proposal) (e e' : NounsDAOExecutor H) : Prop where
  frame : BitsOnly e e'
  bits : ∀ h, e'.queuedTransactions h = true
    ↔ e.queuedTransactions h = true ∧ ¬ HashOf hs p p.eta p.targets.length h

omit [DecidableEq H] in
theorem hashOf_succ {p : Proposal} {eta n : Nat} {t : Transaction} (ht : p.action n eta = .ok t)
    (h : H) : HashOf hs p eta (n + 1) h ↔ HashOf hs p eta n h ∨ hs.txHash t = h := by
  constructor
  · intro hin
    obtain ⟨i, t', hi, ht', rfl⟩ := hin
    rcases Nat.lt_succ_iff_lt_or_eq.mp hi with hi | rfl
    · exact .inl ⟨i, t', hi, ht', rfl⟩
    · rw [ht] at ht'
      obtain rfl := Except.ok.inj ht'
      exact .inr rfl
  · intro hin
    rcases hin with ⟨i, t', hi, ht', rfl⟩ | rfl
    · exact ⟨i, t', Nat.lt_succ_of_lt hi, ht', rfl⟩
    · exact ⟨n, t, Nat.lt_succ_self n, ht, rfl⟩

omit [DecidableEq H] in
theorem not_hashOf_zero {p : Proposal} {eta : Nat} {h : H} : ¬ HashOf hs p eta 0 h := by
  intro hin
  obtain ⟨_, _, hi, _⟩ := hin
  exact absurd hi (Nat.not_lt_zero _)

theorem cancelTransactions_shape {p : Proposal} {e e' : NounsDAOExecutor H}
    (h : NounsDAO.cancelTransactions hs self p e = .ok e') : Cleared hs p e e' := by
  unfold NounsDAO.cancelTransactions at h
  have hloop := foldlM_range_ok (I := fun n e₁ => BitsOnly e e₁ ∧ ∀ h,
    e₁.queuedTransactions h = true
      ↔ e.queuedTransactions h = true ∧ ¬ HashOf hs p p.eta n h) h ?_ ?_
  · exact ⟨hloop.1, hloop.2⟩
  · exact ⟨⟨_, _, rfl⟩, fun h => by simp [not_hashOf_zero]⟩
  · rintro i e₁ e₂ _ ⟨⟨_, _, rfl⟩, hbits⟩ he
    simp only [NounsDAOExecutor.cancelTransaction, bind_ok] at he
    obtain ⟨t, ht, _, _, he⟩ := he
    obtain rfl := Except.ok.inj he
    refine ⟨⟨_, _, rfl⟩, ?_⟩
    intro h
    rw [hashOf_succ ht]
    simp only [NounsDAOExecutor.emit, Function.update_apply]
    have := hbits h
    by_cases hh : h = hs.txHash t
    · subst hh; simp
    · simp only [if_neg hh, Ne.symm hh, or_false]
      exact this

/-- What the loop of `queue` does: it takes bits that were down, all of them different. -/
structure Flagged (hs : Hashing H) (p : Proposal) (eta : Nat) (e e' : NounsDAOExecutor H) :
    Prop where
  frame : BitsOnly e e'
  bits : ∀ h, e'.queuedTransactions h = true
    ↔ e.queuedTransactions h = true ∨ HashOf hs p eta p.targets.length h
  fresh : ∀ h, HashOf hs p eta p.targets.length h → e.queuedTransactions h = false
  distinct : ∀ i j t t', i < j → j < p.targets.length → p.action i eta = .ok t →
    p.action j eta = .ok t' → hs.txHash t ≠ hs.txHash t'

theorem queueLoop_shape {p : Proposal} {eta : Nat} {e e' : NounsDAOExecutor H}
    (h : (List.range p.targets.length).foldlM (fun timelock i => do
      let t ← p.action i eta
      NounsDAO.queueOrRevertInternal hs self block t timelock) e = .ok e') :
    Flagged hs p eta e e' := by
  have hloop := foldlM_range_ok (I := fun n e₁ => BitsOnly e e₁
    ∧ (∀ h, e₁.queuedTransactions h = true ↔ e.queuedTransactions h = true ∨ HashOf hs p eta n h)
    ∧ (∀ h, HashOf hs p eta n h → e.queuedTransactions h = false)
    ∧ ∀ i j t t', i < j → j < n → p.action i eta = .ok t → p.action j eta = .ok t' →
      hs.txHash t ≠ hs.txHash t') h ?_ ?_
  · exact ⟨hloop.1, hloop.2.1, hloop.2.2.1, hloop.2.2.2⟩
  · exact ⟨⟨_, _, rfl⟩, fun h => by simp [not_hashOf_zero],
      fun _ h => absurd h not_hashOf_zero, fun _ j _ _ _ hj => absurd hj (Nat.not_lt_zero j)⟩
  · rintro n e₁ e₂ _ ⟨⟨_, _, rfl⟩, hbits, hfresh, hdist⟩ he
    simp only [NounsDAO.queueOrRevertInternal, NounsDAOExecutor.queueTransaction, bind_ok,
      require_ok] at he
    obtain ⟨t, ht, _, hfree, _, _, _, _, _, _, he⟩ := he
    obtain rfl := Except.ok.inj he
    -- the bit of the action was down, so it is no earlier action's
    have hnew : ¬ (e.queuedTransactions (hs.txHash t) = true
        ∨ HashOf hs p eta n (hs.txHash t)) := fun hor => hfree ((hbits _).mpr hor)
    refine ⟨⟨_, _, rfl⟩, ?_, ?_, ?_⟩
    · intro h
      rw [hashOf_succ ht]
      simp only [NounsDAOExecutor.emit, Function.update_apply]
      have := hbits h
      by_cases hh : h = hs.txHash t
      · subst hh; simp
      · simp only [if_neg hh, Ne.symm hh, or_false]
        exact this
    · intro h hh
      rcases (hashOf_succ ht h).mp hh with hh | rfl
      · exact hfresh h hh
      · exact Bool.eq_false_iff.mpr fun hc => hnew (.inl hc)
    · intro i j t₁ t₂ hij hj h₁ h₂
      rcases Nat.lt_succ_iff_lt_or_eq.mp hj with hj | rfl
      · exact hdist i j t₁ t₂ hij hj h₁ h₂
      · rw [ht] at h₂
        obtain rfl := Except.ok.inj h₂
        exact fun heq => hnew (.inr ⟨i, t₁, hij, h₁, heq⟩)

/-! ## Writing proposals -/

/-- Only proposal `id` and the log of the DAO differ. -/
def Wrote (id : Nat) (p : Proposal) (s s' : NounsDAO) : Prop :=
  ∃ logs, s' = { s with proposals := Function.update s.proposals id p, logs := logs }

theorem Wrote.proposals {p : Proposal} (h : Wrote id p s s') :
    s'.proposals id = p ∧ (∀ j, j ≠ id → s'.proposals j = s.proposals j)
      ∧ s'.proposalCount = s.proposalCount := by
  obtain ⟨_, rfl⟩ := h
  exact ⟨Function.update_self _ _ _, fun j hj => Function.update_of_ne hj _ _, rfl⟩

/-- What `queue` does. -/
structure Queued (hs : Hashing H) (block : Block) (id : Nat) (s : NounsDAO)
    (e : NounsDAOExecutor H) (s' : NounsDAO) (e' : NounsDAOExecutor H) : Prop where
  id_le : id ≤ s.proposalCount
  succeeded : (s.proposals id).stateOf block = .succeeded
  book : Wrote id { s.proposals id with eta := block.timestamp + e.delay } s s'
  flagged : Flagged hs (s.proposals id) (block.timestamp + e.delay) e e'
  logged : s'.logs = s.logs ++ [.proposalQueued id (block.timestamp + e.delay)]

theorem queue_shape {e e' : NounsDAOExecutor H}
    (h : s.queue hs self block id e = .ok (s', e')) : Queued hs block id s e s' e' := by
  simp only [NounsDAO.queue, bind_ok, require_ok, add_ok] at h
  obtain ⟨st, hst, _, rfl, _, ⟨_, rfl⟩, e₁, he, h⟩ := h
  obtain ⟨rfl, rfl⟩ := Prod.mk.inj (Except.ok.inj h)
  obtain ⟨hid, hsucc⟩ := state_ok hst
  exact ⟨hid, hsucc, ⟨_, rfl⟩, queueLoop_shape he, rfl⟩

/-- What `cancel` does, and what `veto` does with `vetoed` in the place of `canceled`. -/
structure Stopped (hs : Hashing H) (block : Block) (veto : Bool) (id : Nat) (s : NounsDAO)
    (e : NounsDAOExecutor H) (s' : NounsDAO) (e' : NounsDAOExecutor H) : Prop where
  id_le : id ≤ s.proposalCount
  not_executed : (s.proposals id).stateOf block ≠ .executed
  wrote : Wrote id (if veto = true then { s.proposals id with vetoed := true }
    else { s.proposals id with canceled := true }) s s'
  cleared : Cleared hs (s.proposals id) e e'
  logged : s'.logs = s.logs ++ [if veto = true then .proposalVetoed id else .proposalCanceled id]

omit [DecidableEq H] in
/-- One of the two flags goes up. -/
theorem Stopped.book {veto : Bool} {e e' : NounsDAOExecutor H}
    (h : Stopped hs block veto id s e s' e') :
    Wrote id { s.proposals id with canceled := true } s s'
      ∨ Wrote id { s.proposals id with vetoed := true } s s' := by
  cases veto with
  | false => exact .inl h.wrote
  | true => exact .inr h.wrote

theorem cancel_shape {sender : Address} {nouns : NounsToken} {e e' : NounsDAOExecutor H}
    (h : s.cancel hs self block sender nouns id e = .ok (s', e')) :
    Stopped hs block false id s e s' e' := by
  simp only [NounsDAO.cancel, bind_ok, require_ok] at h
  obtain ⟨st, hst, _, hne, _, _, _, _, e₁, he, h⟩ := h
  obtain ⟨rfl, rfl⟩ := Prod.mk.inj (Except.ok.inj h)
  obtain ⟨hid, hst⟩ := state_ok hst
  exact ⟨hid, hst ▸ hne, ⟨_, rfl⟩, cancelTransactions_shape he, rfl⟩

theorem veto_shape {sender : Address} {e e' : NounsDAOExecutor H}
    (h : s.veto hs self block sender id e = .ok (s', e')) :
    Stopped hs block true id s e s' e' := by
  simp only [NounsDAO.veto, bind_ok, require_ok] at h
  obtain ⟨_, _, _, _, st, hst, _, hne, e₁, he, h⟩ := h
  obtain ⟨rfl, rfl⟩ := Prod.mk.inj (Except.ok.inj h)
  obtain ⟨hid, hst⟩ := state_ok hst
  exact ⟨hid, hst ▸ hne, ⟨_, rfl⟩, cancelTransactions_shape he, rfl⟩

/-- What `execute` does before its loop. -/
structure Started (block : Block) (id : Nat) (s s' : NounsDAO) : Prop where
  id_le : id ≤ s.proposalCount
  queued : IsQueued block (s.proposals id)
  fits : (s.proposals id).eta + GRACE_PERIOD < 2 ^ 256
  book : s' = s.setProposal id { s.proposals id with executed := true }

theorem execute_shape (h : s.execute block id = .ok s') : Started block id s s' := by
  simp only [NounsDAO.execute, bind_ok, require_ok] at h
  obtain ⟨st, hst, _, rfl, h⟩ := h
  obtain ⟨hid, hq⟩ := state_ok hst
  exact ⟨hid, stateOf_queued.mp hq, state_queued hst, (Except.ok.inj h).symm⟩

/-- What `propose` does. -/
structure Proposed (block : Block) (id : Nat) (s s' : NounsDAO) (p : Proposal) : Prop where
  id_eq : id = s.proposalCount + 1
  even : Proposal.Even p
  startBlock : p.startBlock = block.number + s.votingDelay
  endBlock : p.endBlock = p.startBlock + s.votingPeriod
  tallies : p.forVotes = 0 ∧ p.againstVotes = 0 ∧ p.abstainVotes = 0
  eta : p.eta = 0
  flags : p.canceled = false ∧ p.vetoed = false ∧ p.executed = false
  receipts : p.receipts = (s.proposals id).receipts
  unoccupied : s.requireNoLiveProposal block p.proposer = .ok ()
  latest : s'.latestProposalIds = Function.update s.latestProposalIds p.proposer id
  book : ∃ latest logs, s' = { s with
    proposalCount := id
    proposals := Function.update s.proposals id p
    latestProposalIds := latest
    logs := logs }
  logged : ∃ description, s'.logs = s.logs ++
    [.proposalCreated id p.proposer p.targets p.values p.signatures p.calldatas p.startBlock
      p.endBlock description,
    .proposalCreatedWithRequirements id p.proposer p.targets p.values p.signatures p.calldatas
      p.startBlock p.endBlock p.proposalThreshold p.quorumVotes description]

theorem propose_shape {sender : Address} {nouns : NounsToken} {targets : List Address}
    {values : List Nat} {signatures : List String} {calldatas : List Bytes} {description : String}
    (h : s.propose sender block nouns targets values signatures calldatas description
      = .ok (s', id)) : ∃ p, Proposed block id s s' p := by
  simp only [NounsDAO.propose, bind_ok, require_ok, add_ok] at h
  obtain ⟨_, _, _, _, _, _, _, _, _, heven, _, _, _, _, _, hlive, _, ⟨_, rfl⟩, _, ⟨_, rfl⟩, _,
    ⟨_, rfl⟩, _, _, h⟩ := h
  obtain ⟨rfl, rfl⟩ := Prod.mk.inj (Except.ok.inj h)
  exact ⟨(s.proposals (s.proposalCount + 1)).write _ _ _ _ targets values signatures calldatas _ _,
    rfl, heven, rfl, rfl, ⟨rfl, rfl, rfl⟩, rfl, ⟨rfl, rfl, rfl⟩, rfl, hlive, rfl, ⟨_, _, rfl⟩,
    description, by simp [NounsDAO.emit, NounsDAO.setProposal, Proposal.write]⟩

/-- The tallies of `p` after `votes` more votes of kind `support`. -/
structure Counts (support votes : Nat) (p : Proposal) (forVotes againstVotes abstainVotes : Nat) :
    Prop where
  support_le : support ≤ 2
  against_eq : againstVotes = p.againstVotes + if support = 0 then votes else 0
  for_eq : forVotes = p.forVotes + if support = 1 then votes else 0
  abstain_eq : abstainVotes = p.abstainVotes + if support = 2 then votes else 0

/-- Whatever the kind, the votes are counted once. -/
theorem Counts.total {support votes forVotes againstVotes abstainVotes : Nat} {p : Proposal}
    (h : Counts support votes p forVotes againstVotes abstainVotes) :
    forVotes + againstVotes + abstainVotes
      = p.forVotes + p.againstVotes + p.abstainVotes + votes := by
  obtain ⟨hle, rfl, rfl, rfl⟩ := h
  split_ifs <;> omega

/-- What `castVoteInternal` does. -/
structure Voted (block : Block) (nouns : NounsToken) (voter : Address) (id votes : Nat)
    (s s' : NounsDAO) : Prop where
  id_le : id ≤ s.proposalCount
  active : (s.proposals id).stateOf block = .active
  fresh : ((s.proposals id).receipts voter).hasVoted = false
  delay_le : s.votingDelay ≤ (s.proposals id).startBlock
  counted : nouns.getPriorVotes block voter ((s.proposals id).startBlock - s.votingDelay) = .ok votes
  book : ∃ forVotes againstVotes abstainVotes support,
    Counts support votes (s.proposals id) forVotes againstVotes abstainVotes
    ∧ Wrote id { s.proposals id with
      forVotes := forVotes
      againstVotes := againstVotes
      abstainVotes := abstainVotes
      receipts := Function.update (s.proposals id).receipts voter ⟨true, support, votes⟩ } s s'
  logged : ∃ support reason, s'.logs = s.logs ++ [.voteCast voter id support votes reason]

theorem tally_shape {support votes : Nat} {p p' : Proposal} (hs : support ≤ 2)
    (h : NounsDAO.tally support votes p = .ok p') : ∃ forVotes againstVotes abstainVotes,
    Counts support votes p forVotes againstVotes abstainVotes
    ∧ p' = { p with
      forVotes := forVotes
      againstVotes := againstVotes
      abstainVotes := abstainVotes } := by
  unfold NounsDAO.tally at h
  split_ifs at h with h0 h1 h2
  · obtain ⟨_, hn, h⟩ := bind_ok.mp h
    obtain ⟨_, rfl⟩ := add_ok.mp hn
    exact ⟨_, _, _, ⟨hs, by rw [if_pos h0], by rw [if_neg (by omega), Nat.add_zero],
      by rw [if_neg (by omega), Nat.add_zero]⟩, (Except.ok.inj h).symm⟩
  · obtain ⟨_, hn, h⟩ := bind_ok.mp h
    obtain ⟨_, rfl⟩ := add_ok.mp hn
    exact ⟨_, _, _, ⟨hs, by rw [if_neg h0, Nat.add_zero], by rw [if_pos h1],
      by rw [if_neg (by omega), Nat.add_zero]⟩, (Except.ok.inj h).symm⟩
  · obtain ⟨_, hn, h⟩ := bind_ok.mp h
    obtain ⟨_, rfl⟩ := add_ok.mp hn
    exact ⟨_, _, _, ⟨hs, by rw [if_neg h0, Nat.add_zero], by rw [if_neg h1, Nat.add_zero],
      by rw [if_pos h2]⟩, (Except.ok.inj h).symm⟩
  · omega

theorem castVote_shape {nouns : NounsToken} {voter : Address} {support : Nat} {reason : String}
    (h : s.castVote block nouns voter id support reason = .ok s') :
    ∃ votes, Voted block nouns voter id votes s s' := by
  simp only [NounsDAO.castVote, NounsDAO.castVoteInternal, bind_ok, require_ok, sub_ok] at h
  obtain ⟨_, ⟨st, hst, _, rfl, _, hsup, _, hfresh, _, ⟨hle, rfl⟩, votes, hv, p, hp, h₁⟩, h⟩ := h
  obtain rfl := Except.ok.inj h₁
  obtain rfl := Except.ok.inj h
  obtain ⟨hid, hact⟩ := state_ok hst
  obtain ⟨_, _, _, hcounts, rfl⟩ := tally_shape hsup hp
  exact ⟨votes, hid, hact, hfresh, hle, hv, ⟨_, _, _, support, hcounts, _, rfl⟩, support, reason, rfl⟩

/-- Whether an event is about a proposal. -/
def tellsOfProposal : DAOEvent → Bool
  | .proposalCreated .. | .proposalCreatedWithRequirements .. | .voteCast .. | .proposalCanceled _
    | .proposalQueued .. | .proposalExecuted _ | .proposalVetoed _ => true
  | _ => false

/-- Only parameters, roles and the log of the DAO differ. -/
structure Reconfigured (s s' : NounsDAO) : Prop where
  book : ∃ admin pendingAdmin vetoer votingDelay votingPeriod threshold quorum timelock nouns logs,
    s' = { s with
      admin := admin
      pendingAdmin := pendingAdmin
      vetoer := vetoer
      votingDelay := votingDelay
      votingPeriod := votingPeriod
      proposalThresholdBPS := threshold
      quorumVotesBPS := quorum
      timelock := timelock
      nouns := nouns
      logs := logs }
  wired : s.timelock ≠ 0 → s'.timelock = s.timelock ∧ s'.nouns = s.nouns
  logged : ∃ events, (∀ e ∈ events, tellsOfProposal e = false) ∧ s'.logs = s.logs ++ events

end Proof

end Nouns
