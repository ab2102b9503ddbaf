import Nouns.Proof.HandlerEffects
import Nouns.Subgraph.Handlers

/-!
# What each source's handlers leave alone

The DAO's and the house's handlers leave accounts, lists of Nouns and counters as they are,
up to entities they create. The token's handlers leave votes alone, and read nothing of the
store but accounts and lists to write accounts and lists. Only a vote leaves a vote behind.
-/

namespace Nouns

open Evm Subgraph

def Proof.isVoteCast : DAOEvent → Bool
  | .voteCast .. => true
  | _ => false

namespace Subgraph.Store

variable {st st' : Store} {a d : Address} {g : Governance} {id : Nat}

/-! ## Accounts, lists and counters -/

theorem Sees.saveProposal (h : Sees st st') {e : Proposal} : Sees st (st'.saveProposal id e) :=
  ⟨h.account, h.delegate, h.nounOwner, h.counters⟩

theorem Sees.saveVote (h : Sees st st') {e : Vote} : Sees st (st'.saveVote (a, id) e) :=
  ⟨h.account, h.delegate, h.nounOwner, h.counters⟩

theorem Sees.saveGovernance (h : Sees st st') (hg : g.counters = st'.counters) :
    Sees st (st'.saveGovernance g) :=
  ⟨h.account, h.delegate, h.nounOwner, hg.trans h.counters⟩

theorem sees_getOrCreateProposal : Sees st (st.getOrCreateProposal id).2 := by
  unfold getOrCreateProposal
  split
  · exact .refl
  · exact Sees.refl.saveGovernance rfl

theorem sees_getOrCreateDelegate : Sees st (st.getOrCreateDelegate d).2 := by
  obtain ⟨st', heq, hs⟩ := st.getOrCreateDelegate_spec (d := d)
  rw [heq]
  exact hs

/-- The DAO's events tell nothing of what the token's are about. -/
theorem sees_handleDAOEvent {block : Block} {e : DAOEvent} :
    Sees st (st.handleDAOEvent block e) := by
  cases e with
  | proposalCreatedWithRequirements id proposer =>
      exact (sees_getOrCreateProposal.trans sees_getOrCreateDelegate).saveProposal
  | voteCast voter id support votes reason =>
      have h : Sees st ((st.getOrCreateProposal id).2.getOrCreateDelegate voter).2 :=
        sees_getOrCreateProposal.trans sees_getOrCreateDelegate
      show Sees st (st.handleVoteCast voter id support votes reason)
      unfold handleVoteCast
      dsimp only
      split
      · exact h.saveVote.saveProposal
      · exact h.saveVote
  | proposalCanceled id | proposalVetoed id => exact sees_getOrCreateProposal.saveProposal
  | proposalQueued id | proposalExecuted id =>
      refine Sees.saveGovernance sees_getOrCreateProposal.saveProposal ?_
      have hproposal : Sees st (st.getOrCreateProposal id).2 := sees_getOrCreateProposal
      exact hproposal.counters.symm
  | _ => exact .refl

/-! ## Lists of Nouns -/

/-- The same accounts, and the same lists of Nouns. -/
structure SameLists (st st' : Store) : Prop where
  account : st'.account = st.account
  lists : ∀ x, (st'.delegate x).nounsRepresented = (st.delegate x).nounsRepresented

theorem SameLists.trans {st'' : Store} (h : SameLists st st') (h' : SameLists st' st'') :
    SameLists st st'' :=
  ⟨h'.account.trans h.account, fun x => (h'.lists x).trans (h.lists x)⟩

theorem Sees.sameLists (h : Sees st st') : SameLists st st' :=
  ⟨h.account, fun x => by rw [h.delegate]⟩

theorem SameLists.without (h : SameLists st st') (named : Option Address) (x : Address) :
    (st'.without named id x).nounsRepresented = (st.without named id x).nounsRepresented := by
  unfold Store.without
  split
  · exact congrArg (List.filter fun n => n ≠ id) (h.lists x)
  · exact h.lists x

/-- What the token's handlers do to accounts and lists depends on nothing else. -/
theorem SameLists.handleTokenEvent (h : SameLists st st') (e : TokenEvent) :
    SameLists (st.handleTokenEvent e) (st'.handleTokenEvent e) := by
  cases e with
  | transfer src dst id =>
      obtain ⟨ha, hd, -, -⟩ := st.handleTransfer_spec src dst id
      obtain ⟨ha', hd', -, -⟩ := st'.handleTransfer_spec src dst id
      refine ⟨?_, ?_⟩
      · show (st'.handleTransfer src dst id).account = (st.handleTransfer src dst id).account
        rw [ha, ha', h.account]
      · intro x
        show ((st'.handleTransfer src dst id).delegate x).nounsRepresented
          = ((st.handleTransfer src dst id).delegate x).nounsRepresented
        rw [hd, hd']
        -- which list loses the Noun is read off the account, and accounts agree
        have hlist : (if src = 0 then st'.delegate x
              else st'.without (st'.account src).delegate id x).nounsRepresented
            = (if src = 0 then st.delegate x
              else st.without (st.account src).delegate id x).nounsRepresented := by
          split
          · exact h.lists x
          · rw [h.account]
            exact h.without _ x
        dsimp only
        split
        · exact congrArg (· ++ [id]) hlist
        · exact hlist
  | delegateChanged o from_ d =>
      obtain ⟨ha, -, -, -, hd⟩ := st.handleDelegateChanged_spec o from_ d
      obtain ⟨ha', -, -, -, hd'⟩ := st'.handleDelegateChanged_spec o from_ d
      refine ⟨?_, ?_⟩
      · show (st'.handleDelegateChanged o from_ d).account
          = (st.handleDelegateChanged o from_ d).account
        rw [ha, ha', h.account]
      · intro x
        exact (hd' x).trans (by rw [h.account, h.lists, h.lists, h.lists, ← hd x]; rfl)
  | delegateVotesChanged d prev new =>
      obtain ⟨ha, -, hd, -, -⟩ := st.handleDelegateVotesChanged_spec d prev new
      obtain ⟨ha', -, hd', -, -⟩ := st'.handleDelegateVotesChanged_spec d prev new
      exact ⟨ha'.trans (h.account.trans ha.symm),
        fun x => (hd' x).trans ((h.lists x).trans (hd x).symm)⟩
  | nounCreated id seed =>
      have hs : SameLists st (st.handleNounCreated id seed) := handleNounCreated_spec.sameLists
      have hs' : SameLists st' (st'.handleNounCreated id seed) := handleNounCreated_spec.sameLists
      exact ⟨hs'.account.trans (h.account.trans hs.account.symm),
        fun x => (hs'.lists x).trans ((h.lists x).trans (hs.lists x).symm)⟩
  | _ => exact h

theorem SameLists.handleTokenEvents (h : SameLists st st') (es : List TokenEvent) :
    SameLists (es.foldl Store.handleTokenEvent st) (es.foldl Store.handleTokenEvent st') := by
  induction es generalizing st st' with
  | nil => exact h
  | cons e es ih => exact ih (h.handleTokenEvent e)

theorem sameLists_handleDAOEvents {block : Block} (es : List DAOEvent) :
    SameLists st (es.foldl (Store.handleDAOEvent block) st) := by
  induction es generalizing st with
  | nil => exact ⟨rfl, fun _ => rfl⟩
  | cons e es ih => exact sees_handleDAOEvent.sameLists.trans ih

/-! ## Votes -/

theorem votes_getOrCreateAccount : (st.getOrCreateAccount a).2.votes = st.votes := by
  unfold getOrCreateAccount
  split
  · rfl
  · rfl

theorem votes_getOrCreateDelegate : (st.getOrCreateDelegate d).2.votes = st.votes := by
  unfold getOrCreateDelegate
  split
  · rfl
  · split
    · rfl
    · rfl

theorem votes_getOrCreateProposal : (st.getOrCreateProposal id).2.votes = st.votes := by
  unfold getOrCreateProposal
  split
  · rfl
  · rfl

theorem votes_countHolder {prev bal : Int} {g : Governance} :
    (countHolder prev bal g st).2.votes = st.votes := by
  unfold countHolder
  split
  · rfl
  · split
    · rfl
    · rfl

theorem votes_unrepresent {named : Option Address} : (st.unrepresent named id).votes = st.votes := by
  cases named with
  | none => rfl
  | some D => exact votes_getOrCreateDelegate

theorem votes_handleSender (src : Address) {holder : Account} {g : Governance} :
    (handleSender src id holder g st).2.votes = st.votes :=
  votes_countHolder.trans votes_unrepresent

theorem votes_handleReceiver {dst : Address} {holder : Account} {g : Governance} :
    (handleReceiver dst id holder g st).votes = st.votes :=
  votes_countHolder.trans votes_getOrCreateDelegate

theorem votes_handleTransfer {src dst : Address} :
    (st.handleTransfer src dst id).votes = st.votes := by
  unfold handleTransfer
  dsimp only
  rw [votes_handleReceiver]
  have hcreated : ((st.getOrCreateAccount src).2.getOrCreateAccount dst).2.votes = st.votes :=
    votes_getOrCreateAccount.trans votes_getOrCreateAccount
  by_cases hsrc : src = 0
  · by_cases hdst : dst = 0
    · simp only [if_pos hsrc, if_pos hdst]
      exact hcreated
    · simp only [if_pos hsrc, if_neg hdst]
      exact hcreated
  · by_cases hdst : dst = 0
    · simp only [if_neg hsrc, if_pos hdst]
      exact (votes_handleSender src).trans hcreated
    · simp only [if_neg hsrc, if_neg hdst]
      exact (votes_handleSender src).trans hcreated

/-- The token's handlers leave votes alone. -/
theorem votes_handleTokenEvent (e : TokenEvent) : (st.handleTokenEvent e).votes = st.votes := by
  cases e with
  | transfer src dst id => exact votes_handleTransfer
  | delegateChanged o from_ d =>
      exact votes_getOrCreateDelegate.trans
        (votes_getOrCreateDelegate.trans votes_getOrCreateAccount)
  | delegateVotesChanged d prev new => exact votes_getOrCreateDelegate
  | nounCreated id seed =>
      show (st.handleNounCreated id seed).votes = st.votes
      unfold handleNounCreated
      dsimp only
      split
      · rfl
      · rfl
  | _ => rfl

/-- Only votes leave votes behind. -/
theorem votes_handleDAOEvent {block : Block} {e : DAOEvent} (he : Proof.isVoteCast e = false) :
    (st.handleDAOEvent block e).votes = st.votes := by
  cases e with
  | proposalCreatedWithRequirements id proposer =>
      exact votes_getOrCreateDelegate.trans votes_getOrCreateProposal
  | voteCast => simp [Proof.isVoteCast] at he
  | proposalCanceled id | proposalVetoed id | proposalQueued id | proposalExecuted id =>
      exact votes_getOrCreateProposal
  | _ => rfl

theorem votes_handleTokenEvents (es : List TokenEvent) :
    (es.foldl Store.handleTokenEvent st).votes = st.votes := by
  induction es generalizing st with
  | nil => rfl
  | cons e es ih => exact ih.trans (votes_handleTokenEvent e)

theorem votes_handleDAOEvents {block : Block} {es : List DAOEvent}
    (hes : ∀ e ∈ es, Proof.isVoteCast e = false) :
    (es.foldl (Store.handleDAOEvent block) st).votes = st.votes := by
  induction es generalizing st with
  | nil => rfl
  | cons e es ih =>
      have hhead : (st.handleDAOEvent block e).votes = st.votes :=
        votes_handleDAOEvent (hes e List.mem_cons_self)
      exact (ih fun e' he' => hes e' (List.mem_cons_of_mem _ he')).trans hhead

/-- What a vote leaves behind, with the list of its voter. -/
theorem votes_handleVoteCast (st : Store) (voter : Address) (id support votes : Nat)
    (reason : String) :
    ∃ v : Vote, (st.handleVoteCast voter id support votes reason).votes
        = Function.update st.votes (voter, id) (some v)
      ∧ v.proposal = id ∧ v.votesRaw = votes
      ∧ v.nouns = (st.delegate voter).nounsRepresented := by
  obtain ⟨st₂, hgot, hs⟩ := (st.getOrCreateProposal id).2.getOrCreateDelegate_spec (d := voter)
  have hkept : st₂.votes = st.votes := by
    have hvotes : ((st.getOrCreateProposal id).2.getOrCreateDelegate voter).2.votes
        = (st.getOrCreateProposal id).2.votes := votes_getOrCreateDelegate
    rw [hgot] at hvotes
    exact hvotes.trans votes_getOrCreateProposal
  have hlist : (st.getOrCreateProposal id).2.delegate = st.delegate :=
    sees_getOrCreateProposal.delegate
  rw [hlist] at hgot
  unfold handleVoteCast
  simp only [hgot]
  rw [← hkept]
  split
  · exact ⟨_, rfl, rfl, rfl, rfl⟩
  · exact ⟨_, rfl, rfl, rfl, rfl⟩

end Subgraph.Store

/-- Of the entities of the other sources, the house creates accounts at most. -/
theorem Subgraph.HouseStore.handleHouseEvent_toStore (st : HouseStore) (tx : EthTransaction)
    (e : AuctionEvent) : (st.handleHouseEvent tx e).toStore = st.toStore
      ∨ ∃ a, (st.handleHouseEvent tx e).toStore = (st.toStore.getOrCreateAccount a).2 := by
  cases e with
  | auctionBid nounId sender value extended =>
      refine .inr ⟨sender, ?_⟩
      show (st.handleAuctionBid tx nounId sender value).toStore = _
      unfold HouseStore.handleAuctionBid
      dsimp only
      split
      · rfl
      · rfl
  | auctionCreated nounId startTime endTime =>
      refine .inl ?_
      show (st.handleAuctionCreated nounId startTime endTime).toStore = _
      unfold HouseStore.handleAuctionCreated
      split
      · rfl
      · rfl
  | auctionExtended nounId endTime =>
      refine .inl ?_
      show (st.handleAuctionExtended nounId endTime).toStore = _
      unfold HouseStore.handleAuctionExtended
      split
      · rfl
      · rfl
  | auctionSettled nounId =>
      refine .inl ?_
      show (st.handleAuctionSettled nounId).toStore = _
      unfold HouseStore.handleAuctionSettled
      split
      · rfl
      · rfl
  | _ => exact .inl rfl

end Nouns
