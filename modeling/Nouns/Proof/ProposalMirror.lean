import Nouns.Proof.StatusMirror
import Nouns.Proof.UnmadeProposals
import Nouns.Proof.VoteNouns

/-!
# The subgraph's proposals and votes, entry by entry

Beside a status, the subgraph keeps what a proposal proposes and how every account voted. Of a
proposal that was made it has an entity with the terms on chain, of one that was not it has
none, and there is a vote for every receipt and no other. Proposal 0 was never made, but the
vetoer can veto it; then the handler creates an entity without any terms.
-/

namespace Nouns

open Evm CallMachine Subgraph

namespace Subgraph.Store

variable {st st' st'' : Store} {a d : Address} {g : Governance} {id : Nat} {e : Proposal}

/-- `governance.proposals` -/
def proposalsNumber (st : Store) : Int := st.getGovernanceEntity.proposals

/-! ## Handlers of the token's events -/

/-- The same proposals and votes. -/
structure SameBook (st st' : Store) : Prop where
  proposals : st'.proposals = st.proposals
  votes : st'.votes = st.votes
  number : st'.proposalsNumber = st.proposalsNumber

theorem SameBook.refl : SameBook st st := ⟨rfl, rfl, rfl⟩

theorem SameBook.trans (h : SameBook st st') (h' : SameBook st' st'') : SameBook st st'' :=
  ⟨h'.proposals.trans h.proposals, h'.votes.trans h.votes, h'.number.trans h.number⟩

theorem SameBook.saveGovernance (h : SameBook st st') (hg : g.proposals = st.proposalsNumber) :
    SameBook st (st'.saveGovernance g) := ⟨h.proposals, h.votes, hg⟩

theorem SameBook.saveAccount (h : SameBook st st') {e : Account} :
    SameBook st (st'.saveAccount a e) := ⟨h.proposals, h.votes, h.number⟩

theorem SameBook.saveDelegate (h : SameBook st st') {e : Delegate} :
    SameBook st (st'.saveDelegate d e) := ⟨h.proposals, h.votes, h.number⟩

theorem sameBook_getOrCreateAccount : SameBook st (st.getOrCreateAccount a).2 := by
  unfold getOrCreateAccount
  split
  · exact .refl
  · exact SameBook.refl.saveAccount

theorem sameBook_getOrCreateDelegate : SameBook st (st.getOrCreateDelegate d).2 := by
  unfold getOrCreateDelegate
  split
  · exact .refl
  · split
    · exact ⟨rfl, rfl, rfl⟩
    · exact SameBook.refl.saveDelegate

/-- A governance entity in the hands of a handler counts the proposals of the store. -/
theorem SameBook.countHolder (h : SameBook st st') (hg : g.proposals = st.proposalsNumber)
    (prev bal : Int) : SameBook st (countHolder prev bal g st').2
      ∧ (countHolder prev bal g st').1.proposals = st.proposalsNumber := by
  unfold Store.countHolder
  split
  · exact ⟨h.saveGovernance hg, hg⟩
  · split
    · exact ⟨h.saveGovernance hg, hg⟩
    · exact ⟨h, hg⟩

theorem SameBook.unrepresent (h : SameBook st st') (named : Option Address) (id : Nat) :
    SameBook st (st'.unrepresent named id) := by
  cases named with
  | none => exact h
  | some D => exact (h.trans sameBook_getOrCreateDelegate).saveDelegate

theorem SameBook.handleSender (h : SameBook st st') (hg : g.proposals = st.proposalsNumber)
    (src : Address) (id : Nat) (holder : Account) :
    SameBook st (st'.handleSender src id holder g).2
      ∧ (st'.handleSender src id holder g).1.proposals = st.proposalsNumber := by
  obtain ⟨hbook, hnumber⟩ := (h.unrepresent holder.delegate id).countHolder hg
    holder.tokenBalanceRaw (holder.tokenBalanceRaw - 1)
  exact ⟨hbook.saveAccount, hnumber⟩

theorem SameBook.handleReceiver (h : SameBook st st') (hg : g.proposals = st.proposalsNumber)
    (dst : Address) (holder : Account) : SameBook st (st'.handleReceiver dst id holder g) := by
  have hdelegate : SameBook st (st'.getOrCreateDelegate dst).2 :=
    h.trans sameBook_getOrCreateDelegate
  have hcount := (hdelegate.saveDelegate (d := dst) (e := {
    (st'.getOrCreateDelegate dst).1 with
    nounsRepresented := (st'.getOrCreateDelegate dst).1.nounsRepresented ++ [id] })).countHolder hg
    holder.tokenBalanceRaw (holder.tokenBalanceRaw + 1)
  exact ⟨hcount.1.proposals, hcount.1.votes, hcount.1.number⟩

theorem sameBook_handleTransfer (src dst : Address) : SameBook st (st.handleTransfer src dst id) := by
  have hcreated : SameBook st ((st.getOrCreateAccount src).2.getOrCreateAccount dst).2 :=
    sameBook_getOrCreateAccount.trans sameBook_getOrCreateAccount
  have hnumber := hcreated.number
  unfold handleTransfer
  dsimp only
  by_cases hsrc : src = 0
  · by_cases hdst : dst = 0
    · simp only [if_pos hsrc, if_pos hdst]
      exact SameBook.handleReceiver
        (SameBook.saveGovernance (SameBook.saveGovernance hcreated (by exact hnumber))
          (by exact hnumber)) (by exact hnumber) _ _
    · simp only [if_pos hsrc, if_neg hdst]
      exact SameBook.handleReceiver (SameBook.saveGovernance hcreated (by exact hnumber))
        (by exact hnumber) _ _
  · obtain ⟨hsent, hg⟩ := hcreated.handleSender hnumber src id (st.getOrCreateAccount src).1
    by_cases hdst : dst = 0
    · simp only [if_neg hsrc, if_pos hdst]
      exact SameBook.handleReceiver (SameBook.saveGovernance hsent (by exact hg)) (by exact hg) _ _
    · simp only [if_neg hsrc, if_neg hdst]
      exact hsent.handleReceiver hg _ _

/-- The token's handlers leave proposals, votes and the number of proposals alone. -/
theorem sameBook_handleTokenEvent (e : TokenEvent) : SameBook st (st.handleTokenEvent e) := by
  cases e with
  | transfer src dst id => exact sameBook_handleTransfer src dst
  | delegateChanged o from_ d =>
      exact ((sameBook_getOrCreateAccount.trans
        (sameBook_getOrCreateDelegate.trans sameBook_getOrCreateDelegate)).saveAccount
        |>.saveDelegate).saveDelegate
  | delegateVotesChanged d prev new =>
      refine (sameBook_getOrCreateDelegate.saveDelegate).saveGovernance ?_
      split <;> split <;> rfl
  | nounCreated id seed =>
      show SameBook st (st.handleNounCreated id seed)
      unfold handleNounCreated
      dsimp only
      split
      · exact ⟨rfl, rfl, rfl⟩
      · exact ⟨rfl, rfl, rfl⟩
  | _ => exact .refl

theorem sameBook_handleTokenEvents (es : List TokenEvent) :
    SameBook st (es.foldl Store.handleTokenEvent st) := by
  induction es generalizing st with
  | nil => exact .refl
  | cons e es ih => exact (sameBook_handleTokenEvent e).trans ih

/-! ## Handlers of the DAO's events -/

/-- The entity of proposal `id` is now `e`, and nothing else of the book has changed. -/
structure Rewrites (id : Nat) (e : Proposal) (st st' : Store) : Prop where
  proposals : st'.proposals = Function.update st.proposals id (some e)
  votes : st'.votes = st.votes
  number : st'.proposalsNumber = st.proposalsNumber

theorem getOrCreateProposal_found (h : st.proposals id = some e) :
    st.getOrCreateProposal id = (e, st) := by
  unfold getOrCreateProposal
  rw [h]

theorem rewrites_handleProposalCanceled (h : st.proposals id = some e) :
    Rewrites id { e with status := some .cancelled } st (st.handleProposalCanceled id) := by
  unfold handleProposalCanceled
  rw [getOrCreateProposal_found h]
  exact ⟨rfl, rfl, rfl⟩

theorem rewrites_handleProposalVetoed (h : st.proposals id = some e) :
    Rewrites id { e with status := some .vetoed } st (st.handleProposalVetoed id) := by
  unfold handleProposalVetoed
  rw [getOrCreateProposal_found h]
  exact ⟨rfl, rfl, rfl⟩

theorem rewrites_handleProposalQueued (h : st.proposals id = some e) (eta : Nat) :
    Rewrites id { e with status := some .queued, executionETA := some eta } st
      (st.handleProposalQueued id eta) := by
  unfold handleProposalQueued
  rw [getOrCreateProposal_found h]
  exact ⟨rfl, rfl, rfl⟩

theorem rewrites_handleProposalExecuted (h : st.proposals id = some e) :
    Rewrites id { e with status := some .executed, executionETA := none } st
      (st.handleProposalExecuted id) := by
  unfold handleProposalExecuted
  rw [getOrCreateProposal_found h]
  exact ⟨rfl, rfl, rfl⟩

/-- The entity of a proposal that has just been made. -/
def created (block : Block) (p : Nouns.Proposal) (description : String) : Proposal where
  proposer := some p.proposer
  targets := some p.targets
  values := some p.values
  signatures := some p.signatures
  calldatas := some p.calldatas
  createdTimestamp := some block.timestamp
  startBlock := some p.startBlock
  endBlock := some p.endBlock
  proposalThreshold := some p.proposalThreshold
  quorumVotes := some p.quorumVotes
  description := some (breakLines description)
  status := some (if p.startBlock ≤ block.number then .active else .pending)
  executionETA := none

theorem handleProposalCreated_new {p : Nouns.Proposal} (h : st.proposals id = none) (block : Block)
    (description : String) {st' : Store}
    (hst' : st' = st.handleProposalCreatedWithRequirements block id p.proposer p.targets p.values
      p.signatures p.calldatas p.startBlock p.endBlock p.proposalThreshold p.quorumVotes
      description) :
    st'.proposals = Function.update st.proposals id (some (created block p description))
      ∧ st'.votes = st.votes ∧ st'.proposalsNumber = st.proposalsNumber + 1 := by
  subst hst'
  unfold handleProposalCreatedWithRequirements getOrCreateProposal
  rw [h]
  dsimp only
  have hbook : SameBook (st.saveGovernance { st.getGovernanceEntity with
        proposals := st.getGovernanceEntity.proposals + 1 })
      ((st.saveGovernance { st.getGovernanceEntity with
        proposals := st.getGovernanceEntity.proposals + 1 }).getOrCreateDelegate p.proposer).2 :=
    sameBook_getOrCreateDelegate
  refine ⟨?_, hbook.votes, hbook.number⟩
  unfold saveProposal
  rw [hbook.proposals]
  rfl

/-- What a vote leaves behind, of the vote and of the proposal. -/
theorem handleVoteCast_found (h : st.proposals id = some e) (voter : Address)
    (support votes : Nat) (reason : String) :
    ∃ v : Vote, (st.handleVoteCast voter id support votes reason).votes
        = Function.update st.votes (voter, id) (some v)
      ∧ v.voter = voter ∧ v.proposal = id ∧ v.supportDetailed = support
      ∧ v.support = decide (support = 1) ∧ v.votesRaw = votes ∧ v.votes = votes
      ∧ (st.handleVoteCast voter id support votes reason).proposals
        = Function.update st.proposals id (some { e with
          status := if e.status = some .pending then some .active else e.status })
      ∧ (st.handleVoteCast voter id support votes reason).proposalsNumber
        = st.proposalsNumber := by
  have hbook : SameBook st (st.getOrCreateDelegate voter).2 := sameBook_getOrCreateDelegate
  unfold handleVoteCast
  rw [getOrCreateProposal_found h]
  dsimp only
  split
  · next hpending =>
      refine ⟨_, congrArg (fun v => Function.update v (voter, id) _) hbook.votes, rfl, rfl, rfl, rfl,
        rfl, rfl, ?_, hbook.number⟩
      exact congrArg (fun p => Function.update p id _) hbook.proposals
  · refine ⟨_, congrArg (fun v => Function.update v (voter, id) _) hbook.votes, rfl, rfl, rfl, rfl,
      rfl, rfl, ?_, hbook.number⟩
    exact hbook.proposals.trans (by rw [← h, Function.update_eq_self])

end Subgraph.Store

namespace Proof

/-! ## The book of the contract and that of the subgraph -/

/-- The entity `e` tells the terms `t`. -/
structure TellsTerms (t : Terms) (e : Subgraph.Proposal) : Prop where
  proposer : e.proposer = some t.proposer
  targets : e.targets = some t.targets
  values : e.values = some t.values
  signatures : e.signatures = some t.signatures
  calldatas : e.calldatas = some t.calldatas
  startBlock : e.startBlock = some t.startBlock
  endBlock : e.endBlock = some t.endBlock
  proposalThreshold : e.proposalThreshold = some t.proposalThreshold
  quorumVotes : e.quorumVotes = some t.quorumVotes

/-- The entity `e` tells of proposal `p`: its terms, and its eta while it is queued. -/
structure TellsProposal (p : Proposal) (e : Subgraph.Proposal) : Prop where
  terms : TellsTerms p.terms e
  eta : e.status = some .queued → e.executionETA = some p.eta

/-- The vote `v` tells the receipt `r` of account `a` for proposal `id`. -/
structure TellsReceipt (a : Address) (id : Nat) (r : Receipt) (v : Subgraph.Vote) : Prop where
  voter : v.voter = a
  proposal : v.proposal = id
  supportDetailed : v.supportDetailed = r.support
  support : v.support = decide (r.support = 1)
  votesRaw : v.votesRaw = r.votes
  votes : v.votes = r.votes

/-- The subgraph has the proposals that were made and the votes that were cast, and no others. -/
structure BookMirrored (s : NounsDAO) (st : Store) : Prop where
  made : ∀ id, 0 < id → id ≤ s.proposalCount →
    ∃ e, st.proposals id = some e ∧ TellsProposal (s.proposals id) e
  unmade : ∀ id, id = 0 ∨ s.proposalCount < id → st.proposals id = none
  number : st.proposalsNumber = s.proposalCount
  voted : ∀ a id, ((s.proposals id).receipts a).hasVoted = true →
    ∃ v, st.votes (a, id) = some v ∧ TellsReceipt a id ((s.proposals id).receipts a) v
  unvoted : ∀ a id, ((s.proposals id).receipts a).hasVoted = false → st.votes (a, id) = none

variable {s s' : NounsDAO} {st st' : Store} {id : Nat} {p : Proposal} {e : Subgraph.Proposal}

theorem TellsTerms.remark {t : Terms} (h : TellsTerms t e) (v : Option ProposalStatus)
    (eta : Option Nat) : TellsTerms t { e with status := v, executionETA := eta } :=
  ⟨h.proposer, h.targets, h.values, h.signatures, h.calldatas, h.startBlock, h.endBlock,
    h.proposalThreshold, h.quorumVotes⟩

theorem TellsProposal.remark {q : Proposal} (h : TellsProposal p e) (hq : q.terms = p.terms)
    {v : Option ProposalStatus} {eta : Option Nat} (hv : v = some .queued → eta = some q.eta) :
    TellsProposal q { e with status := v, executionETA := eta } :=
  ⟨hq ▸ h.terms.remark v eta, hv⟩

theorem BookMirrored.same (h : BookMirrored s st) (hst : Store.SameBook st st')
    (hp : s'.proposals = s.proposals) (hc : s'.proposalCount = s.proposalCount) :
    BookMirrored s' st' := by
  refine ⟨?_, ?_, ?_, ?_, ?_⟩
  · rw [hp, hc, hst.proposals]
    exact h.made
  · rw [hc, hst.proposals]
    exact h.unmade
  · rw [hc, hst.number]
    exact h.number
  · rw [hp, hst.votes]
    exact h.voted
  · rw [hp, hst.votes]
    exact h.unvoted

/-- Proposal `id` is written on both sides, and nobody votes. -/
theorem BookMirrored.rewrite (h : BookMirrored s st) (h0 : 0 < id) (hid : id ≤ s.proposalCount)
    (hs : Wrote id p s s') (hreceipts : p.receipts = (s.proposals id).receipts)
    (hst : Store.Rewrites id e st st') (htells : TellsProposal p e) : BookMirrored s' st' := by
  obtain ⟨hself, hother, hcount⟩ := hs.proposals
  have hsame : ∀ j, (s'.proposals j).receipts = (s.proposals j).receipts := by
    intro j
    by_cases hj : j = id
    · rw [hj, hself, hreceipts]
    · rw [hother j hj]
  refine ⟨?_, ?_, ?_, ?_, ?_⟩
  · intro j hj0 hj
    rw [hst.proposals]
    by_cases hji : j = id
    · subst hji
      rw [Function.update_self, hself]
      exact ⟨e, rfl, htells⟩
    · rw [Function.update_of_ne hji, hother j hji]
      exact h.made j hj0 (hcount ▸ hj)
  · intro j hj
    rw [hcount] at hj
    rw [hst.proposals, Function.update_of_ne (by omega)]
    exact h.unmade j hj
  · rw [hst.number, hcount]
    exact h.number
  · intro a j hv
    rw [hsame] at hv ⊢
    rw [hst.votes]
    exact h.voted a j hv
  · intro a j hv
    rw [hsame] at hv
    rw [hst.votes]
    exact h.unvoted a j hv

/-- A ballot is entered on chain and logged. -/
structure Ballot (voter : Address) (id support votes : Nat) (reason : String) (s s' : NounsDAO) :
    Prop where
  id_le : id ≤ s.proposalCount
  active : ∃ block, (s.proposals id).stateOf block = .active
  book : ∃ p, Wrote id p s s' ∧ p.terms = (s.proposals id).terms
    ∧ p.eta = (s.proposals id).eta
    ∧ p.receipts = Function.update (s.proposals id).receipts voter ⟨true, support, votes⟩
  logged : s'.logs = s.logs ++ [.voteCast voter id support votes reason]

theorem castVote_ballot {block : Block} {nouns : NounsToken} {voter : Address} {support : Nat}
    {reason : String} (h : s.castVote block nouns voter id support reason = .ok s') :
    ∃ votes, Ballot voter id support votes reason s s' := by
  simp only [NounsDAO.castVote, NounsDAO.castVoteInternal, bind_ok, require_ok, sub_ok] at h
  obtain ⟨_, ⟨st, hst, _, rfl, _, hsup, _, hfresh, _, ⟨hle, rfl⟩, votes, hv, p, hp, h₁⟩, h⟩ := h
  obtain rfl := Except.ok.inj h₁
  obtain rfl := Except.ok.inj h
  obtain ⟨hid, hact⟩ := state_ok hst
  obtain ⟨_, _, _, -, rfl⟩ := tally_shape hsup hp
  exact ⟨votes, hid, ⟨_, hact⟩, ⟨_, ⟨_, rfl⟩, rfl, rfl, rfl⟩, rfl⟩

/-- A vote is cast. -/
theorem BookMirrored.vote {voter : Address} {support votes : Nat} {reason : String}
    (h : BookMirrored s st) (h0 : 0 < id) (hv : Ballot voter id support votes reason s s') :
    BookMirrored s' (st.handleVoteCast voter id support votes reason) := by
  obtain ⟨e, he, htells⟩ := h.made id h0 hv.id_le
  obtain ⟨v, hvotes, hvoter, hproposal, hdetailed, hsupport, hraw, hcast, hproposals, hnumber⟩ :=
    Store.handleVoteCast_found he voter support votes reason
  obtain ⟨p, hw, hterms, heta, hreceipts⟩ := hv.book
  obtain ⟨hself, hother, hcount⟩ := hw.proposals
  -- the status is that of a queued proposal only if it was before
  have htells' : TellsProposal p { e with
      status := if e.status = some .pending then some .active else e.status } := by
    refine htells.remark hterms ?_
    intro hq
    rw [heta]
    refine htells.eta ?_
    split at hq
    · cases hq
    · exact hq
  refine ⟨?_, ?_, ?_, ?_, ?_⟩
  · intro j hj0 hj
    rw [hproposals]
    by_cases hji : j = id
    · subst hji
      rw [Function.update_self, hself]
      exact ⟨_, rfl, htells'⟩
    · rw [Function.update_of_ne hji, hother j hji]
      exact h.made j hj0 (hcount ▸ hj)
  · intro j hj
    have hle := hv.id_le
    rw [hcount] at hj
    rw [hproposals, Function.update_of_ne (by omega)]
    exact h.unmade j hj
  · rw [hnumber, hcount]
    exact h.number
  · intro a j hcasted
    rw [hvotes]
    by_cases hji : j = id
    · subst hji
      rw [hself, hreceipts] at hcasted ⊢
      by_cases ha : a = voter
      · subst ha
        rw [Function.update_self, Function.update_self]
        exact ⟨v, rfl, hvoter, hproposal, hdetailed, hsupport, hraw, hcast⟩
      · rw [Function.update_of_ne ha] at hcasted ⊢
        rw [Function.update_of_ne (fun heq => ha (Prod.mk.inj heq).1)]
        exact h.voted a j hcasted
    · rw [hother j hji] at hcasted ⊢
      rw [Function.update_of_ne (fun heq => hji (Prod.mk.inj heq).2)]
      exact h.voted a j hcasted
  · intro a j hnone
    rw [hvotes]
    by_cases hji : j = id
    · subst hji
      rw [hself, hreceipts] at hnone
      by_cases ha : a = voter
      · subst ha
        rw [Function.update_self] at hnone
        cases hnone
      · rw [Function.update_of_ne ha] at hnone
        rw [Function.update_of_ne (fun heq => ha (Prod.mk.inj heq).1)]
        exact h.unvoted a j hnone
    · rw [hother j hji] at hnone
      rw [Function.update_of_ne (fun heq => hji (Prod.mk.inj heq).2)]
      exact h.unvoted a j hnone

/-- A proposal is made. -/
theorem BookMirrored.propose {block b : Block} (h : BookMirrored s st)
    (hp : Proposed block id s s' p) :
    ∃ ds, s'.logs = s.logs ++ ds ∧ BookMirrored s' (ds.foldl (Store.handleDAOEvent b) st) := by
  obtain ⟨description, hlogged⟩ := hp.logged
  have hid := hp.id_eq
  refine ⟨_, hlogged, ?_⟩
  obtain ⟨hproposals, hvotes, hnumber⟩ := Store.handleProposalCreated_new (p := p)
    (h.unmade id (.inr (by omega))) b description rfl
  obtain ⟨_, _, hbook⟩ := hp.book
  have hcount : s'.proposalCount = id := by rw [hbook]
  have hself : s'.proposals id = p := by
    rw [hbook]
    exact Function.update_self ..
  have hother : ∀ j, j ≠ id → s'.proposals j = s.proposals j := by
    intro j hj
    rw [hbook]
    exact Function.update_of_ne hj ..
  have hsame : ∀ j, (s'.proposals j).receipts = (s.proposals j).receipts := by
    intro j
    by_cases hj : j = id
    · rw [hj, hself, hp.receipts]
    · rw [hother j hj]
  show BookMirrored s' (st.handleProposalCreatedWithRequirements ..)
  refine ⟨?_, ?_, ?_, ?_, ?_⟩
  · intro j hj0 hj
    rw [hproposals]
    by_cases hji : j = id
    · subst hji
      rw [Function.update_self, hself]
      refine ⟨_, rfl, ⟨rfl, rfl, rfl, rfl, rfl, rfl, rfl, rfl, rfl⟩, ?_⟩
      intro hq
      unfold Store.created at hq
      split at hq
      · cases hq
      · cases hq
    · rw [Function.update_of_ne hji, hother j hji]
      exact h.made j hj0 (by omega)
  · intro j hj
    rw [hcount] at hj
    rw [hproposals, Function.update_of_ne (by omega)]
    exact h.unmade j (by omega)
  · have hbefore := h.number
    rw [hnumber, hcount]
    omega
  · intro a j hv
    rw [hsame] at hv ⊢
    rw [hvotes]
    exact h.voted a j hv
  · intro a j hv
    rw [hsame] at hv
    rw [hvotes]
    exact h.unvoted a j hv

/-! ## Steps -/

/-- The pending executions are of proposals that were made. -/
def OfMade {H : Type} (x : GovConfig H) : Prop :=
  ∀ id i t, .execute id i t ∈ x.frames → 0 < id ∧ id ≤ x.world.dao.proposalCount

variable {H : Type} [DecidableEq H] {env : Env H} {w : Governance H} {fs : List GovernanceFrame}
  {x y : GovConfig H} {l : GovLabel} {i : Nat} {block : Block}

omit [DecidableEq H] in
/-- An event about no proposal is not handled. -/
theorem handle_unrelated {ds : List DAOEvent} (h : ∀ e ∈ ds, tellsOfProposal e = false) :
    ds.foldl (Store.handleDAOEvent block) st = st := by
  have hquiet : (ds.map fun e => (block, e)).foldl (fun st e => st.handleDAOEvent e.1 e.2) st = st :=
    handle_quiet (by simpa using h)
  rwa [List.foldl_map] at hquiet

/-- An execution goes on, or it is over and the handler marks its proposal executed. -/
theorem Act.book (ha : Act env id i w fs y) (h0 : 0 < id) (hid : id ≤ w.dao.proposalCount)
    (h : BookMirrored w.dao st) (block : Block) :
    ∃ ds, y.world.dao.logs = w.dao.logs ++ ds
      ∧ BookMirrored y.world.dao (ds.foldl (Store.handleDAOEvent block) st) := by
  cases ha with
  | calls _ _ hct =>
      obtain rfl := hct.book
      exact ⟨[], (List.append_nil _).symm, h⟩
  | finishes =>
      obtain ⟨e, he, htells⟩ := h.made id h0 hid
      refine ⟨_, rfl, ?_⟩
      show BookMirrored _ (st.handleProposalExecuted id)
      refine h.rewrite h0 hid ⟨w.dao.logs ++ [.proposalExecuted id], ?_⟩ rfl
        (Store.rewrites_handleProposalExecuted he)
        (htells.remark (q := w.dao.proposals id) rfl fun hq => by cases hq)
      rw [Function.update_eq_self]

theorem GovEffect.book (he : GovEffect env x l y) (hmade : OfMade x)
    (hvotes : votesOn l = none) (hzero : ∀ id, stops l = some id → 0 < id)
    (hgiven : GivenOut x.world) (h : BookMirrored x.world.dao st) (block : Block) :
    ∃ ds, y.world.dao.logs = x.world.dao.logs ++ ds
      ∧ BookMirrored y.world.dao (ds.foldl (Store.handleDAOEvent block) st) := by
  cases he with
  | token | administer | direct | returned | tick => exact ⟨[], (List.append_nil _).symm, h⟩
  | reconfigure hr =>
      obtain ⟨ds, hquiet, hlogs⟩ := hr.logged
      obtain ⟨_, _, _, _, _, _, _, _, _, _, hbook⟩ := hr.book
      refine ⟨ds, hlogs, ?_⟩
      rw [handle_unrelated hquiet]
      exact h.same .refl (by rw [hbook]) (by rw [hbook])
  | propose hp => exact h.propose hp
  | vote hl => exact absurd hl (by rw [hvotes]; simp)
  | @queue w fs l s e id hq =>
      have h0 : 0 < id := by
        refine Nat.pos_of_ne_zero ?_
        intro hz
        subst hz
        exact hgiven.zeroth.not_succeeded hq.succeeded
      obtain ⟨e, he, htells⟩ := h.made id h0 hq.id_le
      exact ⟨_, hq.logged, h.rewrite h0 hq.id_le hq.book rfl
        (Store.rewrites_handleProposalQueued he _) (htells.remark
          (q := { w.dao.proposals id with eta := w.block.timestamp + w.executor.delay }) rfl
          fun _ => rfl)⟩
  | @stop w fs l s e id hl hs =>
      have h0 := hzero id hl
      obtain ⟨e, he, htells⟩ := h.made id h0 hs.id_le
      refine ⟨_, hs.logged, ?_⟩
      have hw := hs.wrote
      cases hveto : vetoes l with
      | true =>
          rw [hveto, if_pos rfl] at hw
          exact h.rewrite h0 hs.id_le hw rfl (Store.rewrites_handleProposalVetoed he)
            (htells.remark (q := { w.dao.proposals id with vetoed := true }) rfl
              fun hq => by cases hq)
      | false =>
          rw [hveto, if_neg (by decide)] at hw
          exact h.rewrite h0 hs.id_le hw rfl (Store.rewrites_handleProposalCanceled he)
            (htells.remark (q := { w.dao.proposals id with canceled := true }) rfl
              fun hq => by cases hq)
  | @execute w fs l s id y hs ha =>
      have h0 : 0 < id := by
        refine Nat.pos_of_ne_zero ?_
        intro hz
        subst hz
        exact hgiven.zeroth.not_queued (stateOf_queued.mpr hs.queued)
      have hw : Wrote id { w.dao.proposals id with executed := true } w.dao s :=
        ⟨w.dao.logs, hs.book⟩
      obtain ⟨e, he, htells⟩ := h.made id h0 hs.id_le
      have hstarted : BookMirrored s st := h.rewrite h0 hs.id_le hw rfl
        ⟨by rw [← he, Function.update_eq_self], rfl, rfl⟩ ⟨htells.terms, htells.eta⟩
      obtain ⟨ds, hds, hbook⟩ := ha.book h0
        (hw.proposals.2.2.symm ▸ hs.id_le) hstarted block
      refine ⟨ds, ?_, hbook⟩
      rw [hds]
      exact congrArg (· ++ ds) (by rw [hs.book]; rfl)
  | @next w fs id i t logs y ha =>
      obtain ⟨h0, hid⟩ := hmade id i t List.mem_cons_self
      exact ha.book h0 hid h block

omit [DecidableEq H] in
theorem OfMade.keep (h : OfMade x) (hcount : x.world.dao.proposalCount ≤ y.world.dao.proposalCount)
    (hf : ∀ id i t, .execute id i t ∈ y.frames → .execute id i t ∈ x.frames) : OfMade y :=
  fun id i t hm => ⟨(h id i t (hf id i t hm)).1, Nat.le_trans (h id i t (hf id i t hm)).2 hcount⟩

theorem Act.ofMade (ha : Act env id i w fs y) (h0 : 0 < id) (hid : id ≤ w.dao.proposalCount)
    (h : OfMade ⟨w, fs⟩) : OfMade y := by
  cases ha with
  | calls _ _ hct =>
      obtain rfl := hct.book
      intro id' i' t' hm
      rcases List.mem_cons.mp hm with heq | hm
      · obtain ⟨rfl, -, -⟩ := GovernanceFrame.execute.inj heq
        exact ⟨h0, hid⟩
      · exact h id' i' t' hm
  | finishes => exact h

theorem GovEffect.ofMade (he : GovEffect env x l y) (hgiven : GivenOut x.world) (h : OfMade x) :
    OfMade y := by
  have hcount := (he.onward hgiven.dao).count
  cases he with
  | token _ hf =>
      refine h.keep hcount ?_
      intro id i t hm
      rcases hf with rfl | rfl
      · exact hm
      · simpa using hm
  | reconfigure | administer | propose | vote | queue | stop | tick =>
      exact h.keep hcount fun _ _ _ hm => hm
  | direct _ _ _ hf =>
      refine h.keep hcount ?_
      intro id i t hm
      rcases hf with rfl | ⟨t', rfl⟩
      · exact hm
      · simpa using hm
  | returned => exact h.keep hcount fun _ _ _ hm => List.mem_cons_of_mem _ hm
  | @execute w fs l s id y hs ha =>
      have h0 : 0 < id := by
        refine Nat.pos_of_ne_zero ?_
        intro hz
        subst hz
        exact hgiven.zeroth.not_queued (stateOf_queued.mpr hs.queued)
      have hkept : s.proposalCount = w.dao.proposalCount := by rw [hs.book]; rfl
      exact ha.ofMade h0 (hkept.symm ▸ hs.id_le) (h.keep (x := ⟨w, fs⟩)
        (Nat.le_of_eq hkept.symm) fun _ _ _ hm => hm)
  | @next w fs id i t logs y ha =>
      obtain ⟨h0, hid⟩ := h id i t List.mem_cons_self
      exact ha.ofMade h0 hid (h.keep (Nat.le_refl _) fun _ _ _ hm => List.mem_cons_of_mem _ hm)

/-- The ballot of a step that votes. -/
theorem step_ballot (hs : (governanceMachine env).Step x l y) (hl : votesOn l = some id) :
    ∃ voter support votes reason, Ballot voter id support votes reason x.world.dao y.world.dao := by
  cases hs with
  | @enter tx w fs o _ ha he hlands =>
      obtain ⟨sender, call⟩ := tx
      cases call with
      | castVote id' support | castVoteWithReason id' support reason =>
          obtain rfl := Option.some.inj hl
          obtain ⟨s, hs, rfl⟩ := onDAO_lands he hlands
          obtain ⟨votes, hv⟩ := castVote_ballot hs
          exact ⟨sender, support, votes, _, hv⟩
      | castVoteBySig id' support sig =>
          obtain rfl := Option.some.inj hl
          obtain ⟨s, hs, rfl⟩ := onDAO_lands he hlands
          obtain ⟨_, -, hs⟩ := bind_ok.mp hs
          obtain ⟨votes, hv⟩ := castVote_ballot hs
          exact ⟨_, support, votes, _, hv⟩
      | _ => cases hl
  | resume | tick => cases hl

/-- What a step stops was made, unless it is a veto of proposal 0. -/
theorem step_stops_made (hs : (governanceMachine env).Step x l y) (hgiven : GivenOut x.world)
    (hl : stops l = some id) (hveto : ∀ sender, l ≠ .enter ⟨sender, .veto 0⟩) : 0 < id := by
  refine Nat.pos_of_ne_zero ?_
  intro hz
  subst hz
  cases hs with
  | @enter tx w fs o _ ha he hlands =>
      obtain ⟨sender, call⟩ := tx
      cases call with
      | cancel id' =>
          obtain rfl := Option.some.inj hl
          exact hgiven.zeroth.refuses ha.1
            (show (GovernanceCall.cancel 0).about = some 0 from rfl) (by simp) he
      | veto id' =>
          obtain rfl := Option.some.inj hl
          exact hveto sender rfl
      | _ => cases hl
  | resume | tick => cases hl

/-! ## Runs -/

/-- Nobody vetoes proposal 0. -/
def SparesZeroth {H : Type} (_ : GovernanceFeed H) (l : GovLabel) : Prop :=
  ∀ sender, l ≠ .enter ⟨sender, .veto 0⟩

/-- What holds along every history of contracts and subgraph in which proposal 0 is spared. -/
structure BookInv (f : GovernanceFeed H) : Prop where
  given : GivenOut f.config.world
  pending : OfMade f.config
  book : BookMirrored f.config.world.dao f.store

variable {f g : GovernanceFeed H} {d : Deployment env}

theorem BookInv.next (h : BookInv f) (hP : SparesZeroth f l) (hs : f.Next env l g) : BookInv g := by
  cases hs with
  | @step tx y _ hs =>
      have he := step_effect hs
      obtain ⟨⟨es, hes⟩, -⟩ := step_logs hs
      refine ⟨he.givenOut h.given, he.ofMade h.given h.pending, ?_⟩
      have htold : BookMirrored f.config.world.dao (es.foldl Store.handleTokenEvent f.store) :=
        h.book.same (Store.sameBook_handleTokenEvents es) rfl rfl
      cases hl : votesOn l with
      | none =>
          obtain ⟨ds, hds, hbook⟩ := he.book h.pending hl
            (fun id hstop => step_stops_made hs h.given hstop hP) h.given htold tx.block
          rw [store_next hes hds]
          exact hbook
      | some id =>
          obtain ⟨voter, support, votes, reason, hv⟩ := step_ballot hs hl
          have h0 : 0 < id := by
            refine Nat.pos_of_ne_zero ?_
            intro hz
            subst hz
            obtain ⟨_, hactive⟩ := hv.active
            exact h.given.zeroth.not_active hactive
          rw [store_next hes hv.logged]
          exact htold.vote h0 hv

omit [DecidableEq H] in
theorem bookInv_start (d : Deployment env) (tx : EthTransaction) : BookInv (.start d tx) := by
  have hstore : (GovernanceFeed.start d tx).store
      = d.dao.logs.foldl (Store.handleDAOEvent tx.block) (.afterToken d.token.logs) :=
    handle_entries tx d.token.logs d.dao.logs Store.empty.withHouse
  rw [handle_unrelated (deployment_quiet d)] at hstore
  have hbook : Store.SameBook .empty (.afterToken d.token.logs) :=
    Store.sameBook_handleTokenEvents d.token.logs
  obtain ⟨hcount, hblank⟩ := deployment_unused d
  refine ⟨givenOut_deployment d, fun _ _ _ hm => absurd hm List.not_mem_nil, ?_⟩
  rw [hstore]
  refine ⟨?_, ?_, ?_, ?_, ?_⟩
  · intro id h0 hid
    have hid : id ≤ d.dao.proposalCount := hid
    omega
  · intro id _
    exact congrFun hbook.proposals id
  · refine hbook.number.trans ?_
    show (0 : Int) = d.dao.proposalCount
    rw [hcount]
    rfl
  · intro a id hv
    have hv : ((d.dao.proposals id).receipts a).hasVoted = true := hv
    rw [hblank] at hv
    cases hv
  · intro a id _
    exact congrFun hbook.votes (a, id)

/--
**Proposals and votes are mirrored.** At every point of every history of token and DAO, pending
calls or not, after the events logged so far the subgraph has an entity with the terms on chain
for each proposal that was made, with its eta if it shows it as queued, and for no other id; it
has a vote for each receipt, as it was cast, and no other; and it has the number of proposals.
-/
theorem book_mirrored (env : Env H) (d : Deployment env) (tx : EthTransaction)
    (f : GovernanceFeed H) (hf : GovernanceFeed.Runs env SparesZeroth (.start d tx) f) :
    BookMirrored f.config.world.dao f.store := by
  have hI : BookInv f := by
    induction hf with
    | refl => exact bookInv_start d tx
    | tail _ hs ih =>
        obtain ⟨l, hP, hs⟩ := hs
        exact ih.next hP hs
  exact hI.book

/-- Whether a step is no veto of proposal 0. -/
def sparesZeroth (_ : GovernanceFeed Transaction) : GovLabel → Bool
  | .enter ⟨_, .veto 0⟩ => false
  | _ => true

theorem sparesZeroth_spares (f : GovernanceFeed Transaction) (l : GovLabel)
    (h : sparesZeroth f l = true) : SparesZeroth f l := by
  intro sender hl
  subst hl
  cases h

/-- Account 2 votes for the payment and account 4 against it, as the subgraph then tells. -/
theorem book_mirrored_bothVote :
    ∃ f, GovernanceFeed.Runs smallEnv SparesZeroth (.start smallDeployment ⟨0, 0, ⟨1, 1⟩⟩) f
      ∧ (∃ e, f.store.proposals 1 = some e ∧ e.targets = some [.ofNat 9])
      ∧ (∃ v, f.store.votes (.ofNat 2, 1) = some v ∧ v.support = true)
      ∧ (∃ v, f.store.votes (.ofNat 4, 1) = some v ∧ v.support = false)
      ∧ f.store.votes (.ofNat 5, 1) = none := by
  obtain ⟨f, hf, hp⟩ := feedScript_exists sparesZeroth_spares
    (f := .start smallDeployment ⟨0, 0, ⟨1, 1⟩⟩) (m := bothVote)
    (p := fun f => decide (f.config.world.dao.proposalCount = 1
      ∧ (f.config.world.dao.proposals 1).targets = [.ofNat 9]
      ∧ (f.config.world.dao.proposals 1).receipts (.ofNat 2) = ⟨true, 1, 1⟩
      ∧ (f.config.world.dao.proposals 1).receipts (.ofNat 4) = ⟨true, 0, 1⟩
      ∧ ((f.config.world.dao.proposals 1).receipts (.ofNat 5)).hasVoted = false))
    (by decide +kernel)
  obtain ⟨hcount, htargets, hfor, hagainst, hnone⟩ := of_decide_eq_true hp
  have hmirrored := book_mirrored smallEnv smallDeployment ⟨0, 0, ⟨1, 1⟩⟩ f hf
  obtain ⟨e, he, htells⟩ := hmirrored.made 1 Nat.one_pos (Nat.le_of_eq hcount.symm)
  obtain ⟨v, hv, hvfor⟩ := hmirrored.voted (.ofNat 2) 1 (by rw [hfor])
  obtain ⟨v', hv', hvagainst⟩ := hmirrored.voted (.ofNat 4) 1 (by rw [hagainst])
  refine ⟨f, hf, ⟨e, he, ?_⟩, ⟨v, hv, ?_⟩, ⟨v', hv', ?_⟩, hmirrored.unvoted _ 1 hnone⟩
  · rw [htells.terms.targets]
    exact congrArg some htargets
  · rw [hvfor.support, hfor]
    rfl
  · rw [hvagainst.support, hagainst]
    rfl

end Proof

end Nouns
