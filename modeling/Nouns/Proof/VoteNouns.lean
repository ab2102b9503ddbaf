import Nouns.Proof.DelegationMirror
import Nouns.Proof.SourceHandlers
import Nouns.Proof.VoteSnapshot
import Nouns.Proof.VotingPower
import Nouns.Subgraph.GovernanceFeed

/-!
# The Nouns of a vote

The DAO counts the votes its voter had at the end of the block the proposal was created in.
The subgraph records the Nouns the voter represents when the vote is cast. These are as many,
and no voter's are another's, while the subgraph's lists follow the delegations on chain and
every voter still represents what it represented when that block ended.
-/

namespace Nouns

open Evm CallMachine EventLog Subgraph

namespace Proof

variable {H : Type} {env : Env H}

/-! ## What a step logs -/

theorem isVoteCast_of_quiet {e : DAOEvent} (h : tellsOfProposal e = false) :
    isVoteCast e = false := by
  cases e with
  | voteCast => simp [tellsOfProposal] at h
  | _ => rfl

/-- Whose ballot a step casts, and on which proposal. -/
def ballotOf (env : Env H) : GovLabel → Option (Address × Nat)
  | .enter ⟨sender, .castVote id _⟩ | .enter ⟨sender, .castVoteWithReason id _ _⟩ =>
      some (sender, id)
  | .enter ⟨_, .castVoteBySig id support sig⟩ => some (env.recoverBallot id support sig, id)
  | _ => none

/-- Whether a step calls the token. -/
def callsToken : GovLabel → Bool
  | .enter ⟨_, .token ..⟩ => true
  | _ => false

theorem callsToken_eq_true {l : GovLabel} (hl : callsToken l = true) :
    ∃ sender view c, l = .enter ⟨sender, .token view c⟩ := by
  cases l with
  | enter tx =>
      obtain ⟨sender, call⟩ := tx
      cases call with
      | token view c => exact ⟨sender, view, c, rfl⟩
      | _ => cases hl
  | _ => cases hl

variable [DecidableEq H] {x y : GovConfig H} {l : GovLabel}

/-- The loop of `execute` logs no vote. -/
theorem Act.quiet {id i : Nat} {w : Governance H} {fs : List GovernanceFrame}
    (ha : Act env id i w fs y) :
    ∃ es, y.world.dao.logs = w.dao.logs ++ es ∧ ∀ e ∈ es, isVoteCast e = false := by
  cases ha with
  | calls _ _ hct =>
      rw [hct.book]
      exact ⟨[], by simp, by simp⟩
  | finishes _ => exact ⟨[_], rfl, by simp [isVoteCast]⟩

/-- A step that votes on nothing logs no vote. -/
theorem GovEffect.quiet (he : GovEffect env x l y) (hl : votesOn l = none) :
    ∃ es, y.world.dao.logs = x.world.dao.logs ++ es ∧ ∀ e ∈ es, isVoteCast e = false := by
  cases he with
  | reconfigure hr =>
      obtain ⟨es, hes, hlog⟩ := hr.logged
      exact ⟨es, hlog, fun e he => isVoteCast_of_quiet (hes e he)⟩
  | propose hp =>
      obtain ⟨description, hlog⟩ := hp.logged
      exact ⟨_, hlog, by simp [isVoteCast]⟩
  | vote hv => rw [hv] at hl; cases hl
  | queue hq => exact ⟨_, hq.logged, by simp [isVoteCast]⟩
  | stop _ hs =>
      refine ⟨_, hs.logged, ?_⟩
      intro e he
      rw [List.mem_singleton.mp he]
      split
      · rfl
      · rfl
  | execute hs ha =>
      obtain ⟨es, hlog, hes⟩ := ha.quiet
      refine ⟨es, hlog.trans ?_, hes⟩
      rw [hs.book]
      rfl
  | next ha =>
      obtain ⟨es, hlog, hes⟩ := ha.quiet
      exact ⟨es, hlog, hes⟩
  | _ => exact ⟨[], by simp, by simp⟩

theorem Act.token {id i : Nat} {w : Governance H} {fs : List GovernanceFrame}
    (ha : Act env id i w fs y) : y.world.token = w.token := by
  cases ha with
  | calls _ _ hct => rw [hct.book]
  | finishes _ => rfl

/-- Code that is not the token's leaves the token alone. -/
theorem enter_token_kept {tx : GovernanceTx} {w : Governance H} {fs : List GovernanceFrame}
    {o : Outcome (Governance H) GovernanceFrame} (htx : callsToken (.enter tx) = false)
    (h : Governance.enter env tx w = .ok o) (hl : (governanceMachine env).Lands o fs y) :
    y.world.token = w.token := by
  obtain ⟨sender, call⟩ := tx
  cases call with
  | token => simp [callsToken] at htx
  | executor c =>
      cases c with
      | executeTransaction t =>
          obtain ⟨w', hc, h⟩ := bind_ok.mp h
          obtain rfl := Except.ok.inj h
          obtain ⟨-, hct⟩ := callTarget_shape hc
          obtain ⟨_, he, _⟩ | ⟨_, _, _, he, rfl⟩ := lands_cases hl
          · cases he
          · cases he
            rw [hct.book]
      | _ =>
          obtain ⟨e, -, rfl⟩ := onExecutor_lands h hl
          rfl
  | propose | queue =>
      obtain ⟨_, _, h⟩ := bind_ok.mp h
      obtain rfl := Except.ok.inj h
      cases hl with
      | done => rfl
  | execute id =>
      obtain ⟨s, hs, h⟩ := bind_ok.mp h
      exact (executeActions_act h hl).token
  | cancel | veto =>
      obtain ⟨s, e, -, rfl⟩ := onBoth_lands h hl
      rfl
  | _ =>
      obtain ⟨s, -, rfl⟩ := onDAO_lands h hl
      rfl

/-- A step is a call of the token, or leaves it alone. -/
theorem step_token_kept (hs : (governanceMachine env).Step x l y) (hl : callsToken l = false) :
    y.world.token = x.world.token := by
  cases hs with
  | enter _ he hlands => exact enter_token_kept hl he hlands
  | @resume f w fs o _ hr hlands =>
      cases f with
      | onERC721Received =>
          obtain ⟨_, _, hr⟩ := bind_ok.mp hr
          obtain rfl := Except.ok.inj hr
          cases hlands with
          | done => rfl
      | execute id i t =>
          obtain ⟨e, _, hr⟩ := bind_ok.mp hr
          exact (executeActions_act hr hlands).token
      | executeTransaction t =>
          obtain ⟨e, -, rfl⟩ := onExecutor_lands hr hlands
          rfl
  | tick ht =>
      obtain ⟨b, -, rfl⟩ := Option.map_eq_some_iff.mp ht
      rfl

/-- What a call of the token does. -/
theorem step_token_call {sender : Address} {view : View} {c : TokenCall}
    (hs : (governanceMachine env).Step x (.enter ⟨sender, .token view c⟩) y) :
    x.world.token.call ⟨sender, x.world.block, view⟩ c = .ok y.world.token
      ∧ y.world.dao = x.world.dao := by
  cases hs with
  | @enter _ w fs o _ _ he hlands =>
      obtain ⟨s, hs, he⟩ := bind_ok.mp he
      dsimp only at he
      split at he
      · obtain rfl := Except.ok.inj he
        obtain ⟨_, ho, _⟩ | ⟨_, _, _, ho, rfl⟩ := lands_cases hlands
        · cases ho
        · cases ho
          exact ⟨hs, rfl⟩
      · obtain rfl := Except.ok.inj he
        cases hlands with
        | done => exact ⟨hs, rfl⟩

/-- What a step does that votes. -/
theorem step_vote {id : Nat} (hs : (governanceMachine env).Step x l y) (hl : votesOn l = some id) :
    ∃ voter votes, voter ≠ 0 ∧ ballotOf env l = some (voter, id)
      ∧ Voted x.world.block x.world.token voter id votes x.world.dao y.world.dao := by
  cases hs with
  | @enter tx w fs o _ ha he hlands =>
      obtain ⟨sender, call⟩ := tx
      cases call with
      | castVote id' support | castVoteWithReason id' support reason =>
          obtain rfl := Option.some.inj hl
          obtain ⟨s, hs, rfl⟩ := onDAO_lands he hlands
          obtain ⟨votes, hv⟩ := castVote_shape hs
          exact ⟨sender, votes, ha.1, rfl, hv⟩
      | castVoteBySig id' support sig =>
          obtain rfl := Option.some.inj hl
          obtain ⟨s, hs, rfl⟩ := onDAO_lands he hlands
          obtain ⟨_, hne, hs⟩ := bind_ok.mp hs
          obtain ⟨votes, hv⟩ := castVote_shape hs
          exact ⟨_, votes, require_ok.mp hne, rfl, hv⟩
      | _ => cases hl
  | resume | tick => cases hl

theorem Act.milestones {j i : Nat} {w : Governance H} {fs : List GovernanceFrame}
    (ha : Act env j i w fs y) {id c delay : Nat} (hm : .proposed id c delay ∈ y.world.history) :
    .proposed id c delay ∈ w.history := by
  cases ha with
  | calls _ _ hct =>
      rw [hct.book] at hm
      simpa using hm
  | finishes _ => exact hm

/-- A proposal that a step adds is new. -/
theorem GovEffect.milestones (he : GovEffect env x l y) {id c delay : Nat}
    (hm : .proposed id c delay ∈ y.world.history) :
    .proposed id c delay ∈ x.world.history ∨ x.world.dao.proposalCount < id := by
  cases he with
  | propose hp =>
      rcases List.mem_append.mp hm with hm | hm
      · exact .inl hm
      · cases List.mem_singleton.mp hm
        exact .inr (by rw [hp.id_eq]; exact Nat.lt_succ_self _)
  | queue => exact .inl (by simpa using hm)
  | execute hs ha => exact .inl (ha.milestones hm :)
  | next ha => exact .inl (ha.milestones hm :)
  | direct _ _ hh _ =>
      rcases hh with rfl | ⟨_, rfl⟩
      · exact .inl hm
      · exact .inl (by simpa using hm)
  | _ => exact .inl hm

/-! ## Attribution -/

/-- A vote is recorded with the Nouns its voter represents in `s`, as many as its votes. -/
structure Attributed (s : NounsToken) (voter : Address) (v : Subgraph.Vote) : Prop where
  nodup : v.nouns.Nodup
  mem : ∀ n, n ∈ v.nouns ↔ n ∈ represented s voter
  counted : v.votesRaw = (represented s voter).card

/--
The condition on steps: calls of the token can be followed, a vote finds the voting delay its
proposal was created with, and its voter represents what it did at the end of the block the
votes are counted at.
-/
structure Attributable (env : Env H) (f : GovernanceFeed H) (l : GovLabel) : Prop where
  tracked : ∀ sender view c, l = .enter ⟨sender, .token view c⟩ →
    Trackable view sender f.config.world.token c
  steady : SteadyDelay f.config l
  unmoved : ∀ voter id, ballotOf env l = some (voter, id) →
    represented f.config.world.token voter = represented
      (f.past ((f.config.world.dao.proposals id).startBlock - f.config.world.dao.votingDelay)) voter

/-- `p` is what block `c` left of the token `s`. -/
structure PastOf (c : Nat) (p s : NounsToken) : Prop where
  inv : ∃ now, TokenInv now p
  backed : VotesBacked p
  votes : ∀ a, s.votesAt a c = p.getCurrentVotes a

/-- A vote on proposal `id` is attributed at the end of the block `id` was created in. -/
structure Counted (f : GovernanceFeed H) (voter : Address) (id : Nat) (v : Subgraph.Vote) :
    Prop where
  proposal : v.proposal = id
  created : ∃ c delay, .proposed id c delay ∈ f.config.world.history
  attributed : ∀ c delay, .proposed id c delay ∈ f.config.world.history →
    c < f.config.world.block.number ∧ Attributed (f.past c) voter v

/-- What holds along every history whose steps are attributable. -/
structure FeedInv (start : Nat) (f : GovernanceFeed H) : Prop where
  snapshot : SnapshotInv start f.config.world
  nothing : (f.config.world.dao.proposals 0).endBlock = 0
  followed : Followed f.config.world.token
  backed : VotesBacked f.config.world.token
  lists : Store.SameLists (.afterToken f.config.world.token.logs) f.store
  past : ∀ c, start ≤ c → c < f.config.world.block.number →
    PastOf c (f.past c) f.config.world.token
  votes : ∀ voter id v, f.store.votes (voter, id) = some v → Counted f voter id v

omit [DecidableEq H] in
theorem mem_represented {s : NounsToken} (h : Holdings s) {a : Address} {n : Nat} :
    n ∈ represented s a ↔ s.owners_ n ≠ 0 ∧ s.delegates (s.owners_ n) = a := by
  unfold represented
  rw [Finset.mem_filter, Finset.mem_range]
  exact and_iff_right_of_imp fun hn => h.lt_current hn.1

omit [DecidableEq H] in
/-- A vote cast when the voter represents what it did is recorded with the Nouns it counts. -/
theorem FeedInv.attributed {start : Nat} {f : GovernanceFeed H} (h : FeedInv start f)
    (hP : Attributable env f l) {voter : Address} {id votes c delay : Nat} {s : NounsDAO}
    {v : Subgraph.Vote} (hl : votesOn l = some id) (hb : ballotOf env l = some (voter, id))
    (hne : voter ≠ 0)
    (hv : Voted f.config.world.block f.config.world.token voter id votes f.config.world.dao s)
    (hm : .proposed id c delay ∈ f.config.world.history) (hraw : v.votesRaw = votes)
    (hnouns : v.nouns = (f.store.delegate voter).nounsRepresented) :
    c < f.config.world.block.number ∧ Attributed (f.past c) voter v := by
  obtain ⟨-, hle, hstart⟩ := h.snapshot.created id c delay hm
  have hdelay := hP.steady id hl c delay hm
  have hsnapshot : (f.config.world.dao.proposals id).startBlock
      - f.config.world.dao.votingDelay = c := by omega
  have hactive := (stateOf_eq_active hv.active).2.2.1
  have hc : c < f.config.world.block.number := by omega
  obtain ⟨⟨now, hinv⟩, hbacked, hvotes⟩ := h.past c hle hc
  have hsame := hP.unmoved voter id hb
  have hcounted := hv.counted
  rw [hsnapshot] at hsame hcounted
  rw [getPriorVotes_eq h.snapshot.token.checkpoints voter hc] at hcounted
  have hcard : (represented (f.past c) voter).card = votes := by
    rw [card_represented hinv, ← Except.ok.inj hcounted, hvotes]
    exact (hbacked voter hne).symm
  obtain ⟨hnodup, hmem⟩ := h.followed.mirrored.represented voter hne
  rw [← h.lists.lists voter] at hnodup hmem
  refine ⟨hc, hnouns ▸ hnodup, fun n => ?_, by rw [hraw, hcard]⟩
  rw [hnouns, hmem, ← hsame, mem_represented h.snapshot.token.holdings]
  constructor
  · intro hin
    obtain ⟨o, hown, rfl⟩ := hin
    obtain ⟨ho, rfl⟩ := ownerOf_ok.mp hown
    exact ⟨ho, rfl⟩
  · intro hin
    obtain ⟨ho, rfl⟩ := hin
    exact ⟨_, ownerOf_ok.mpr ⟨ho, rfl⟩, rfl⟩

/-! ## One step -/

omit [DecidableEq H] in
/-- The handlers see the token's events of a transaction and then the DAO's. -/
theorem handle_entries (tx : EthTransaction) (es : List TokenEvent) (ds : List DAOEvent)
    (st : HouseStore) :
    ((GovernanceFeed.entries tx es ds).foldl HouseStore.handle st).toStore
      = ds.foldl (Store.handleDAOEvent tx.block) (es.foldl Store.handleTokenEvent st.toStore) := by
  induction es generalizing st with
  | nil =>
      induction ds generalizing st with
      | nil => rfl
      | cons e ds ih => exact ih _
  | cons e es ih => exact ih _

omit [DecidableEq H] in
theorem store_next {tx : EthTransaction} {f : GovernanceFeed H} {es : List TokenEvent}
    {ds : List DAOEvent} (ht : y.world.token.logs = f.config.world.token.logs ++ es)
    (hd : y.world.dao.logs = f.config.world.dao.logs ++ ds) :
    (f.next tx y).store
      = ds.foldl (Store.handleDAOEvent tx.block) (es.foldl Store.handleTokenEvent f.store) := by
  unfold GovernanceFeed.store GovernanceFeed.next GovernanceFeed.logged HouseStore.afterSources
  rw [ht, hd, List.drop_left, List.drop_left, List.foldl_append, handle_entries]

/-- Both logs only grow. -/
theorem step_logs (hs : (governanceMachine env).Step x l y) :
    (∃ es, y.world.token.logs = x.world.token.logs ++ es)
      ∧ ∃ ds, y.world.dao.logs = x.world.dao.logs ++ ds := by
  refine ⟨?_, ?_⟩
  · cases hl : callsToken l with
    | false =>
        rw [step_token_kept hs hl]
        exact ⟨[], (List.append_nil _).symm⟩
    | true =>
        obtain ⟨sender, view, c, rfl⟩ := callsToken_eq_true hl
        obtain ⟨es, hes, -⟩ := (call_effects (step_token_call hs).1).tells
        exact ⟨es, hes⟩
  · cases hl : votesOn l with
    | none =>
        obtain ⟨ds, hds, -⟩ := (step_effect hs).quiet hl
        exact ⟨ds, hds⟩
    | some id =>
        obtain ⟨voter, votes, -, -, hv⟩ := step_vote hs hl
        obtain ⟨support, reason, hlog⟩ := hv.logged
        exact ⟨_, hlog⟩

variable {start : Nat} {f g : GovernanceFeed H} {tx : EthTransaction}

/-- The subgraph goes on following the token, and votes stay backed. -/
theorem FeedInv.next_token (h : FeedInv start f) (hP : Attributable env f l)
    (hs : (governanceMachine env).Step f.config l y) :
    Followed y.world.token ∧ VotesBacked y.world.token := by
  cases hl : callsToken l with
  | false =>
      rw [step_token_kept hs hl]
      exact ⟨h.followed, h.backed⟩
  | true =>
      obtain ⟨sender, view, c, rfl⟩ := callsToken_eq_true hl
      have hcall := (step_token_call hs).1
      have htracked := hP.tracked sender view c rfl
      refine ⟨h.followed.call hcall htracked,
        call_backed h.snapshot.token h.backed ?_ hcall⟩
      cases c with
      | delegateBySig d nonce expiry sig => exact fun hd => absurd hd htracked.1
      | _ => trivial

/-- The blocks that are over with a step are those before it and those the clock ends. -/
theorem FeedInv.next_past (h : FeedInv start f) (hs : (governanceMachine env).Step f.config l y)
    {c : Nat} (hstart : start ≤ c) (hc : c < y.world.block.number) :
    PastOf c ((f.next tx y).past c) y.world.token := by
  have hages := (step_effect hs).ages h.snapshot.token
  show PastOf c (if c < f.config.world.block.number then f.past c else f.config.world.token) _
  by_cases hold : c < f.config.world.block.number
  · rw [if_pos hold]
    obtain ⟨hinv, hbacked, hvotes⟩ := h.past c hstart hold
    exact ⟨hinv, hbacked, fun a => (hages.past a c hold).trans (hvotes a)⟩
  · rw [if_neg hold]
    have hkept : y.world.token = f.config.world.token := by
      rcases (step_effect hs).block with ⟨t, rfl⟩ | hb
      · exact step_token_kept hs rfl
      · exact absurd (hb ▸ hc) hold
    rw [hkept]
    exact ⟨⟨_, h.snapshot.token⟩, h.backed,
      fun a => h.snapshot.token.checkpoints.currentVotes a (Nat.le_of_not_lt hold)⟩

theorem FeedInv.next_lists (h : FeedInv start f)
    (hs : (governanceMachine env).Step f.config l y) :
    Store.SameLists (.afterToken y.world.token.logs) (f.next tx y).store := by
  obtain ⟨⟨es, hes⟩, ds, hds⟩ := step_logs hs
  rw [store_next hes hds, hes, afterToken_append]
  exact (h.lists.handleTokenEvents es).trans (Store.sameLists_handleDAOEvents ds)

/-- What is known of a vote stays so. -/
theorem Counted.next {voter : Address} {id : Nat} {v : Subgraph.Vote} (hv : Counted f voter id v)
    (h : FeedInv start f) (hs : (governanceMachine env).Step f.config l y) :
    Counted (f.next tx y) voter id v := by
  obtain ⟨c, delay, hm⟩ := hv.created
  have honward := (step_effect hs).onward h.snapshot.dao
  refine ⟨hv.proposal, ⟨c, delay, honward.history.subset hm⟩, ?_⟩
  intro c' delay' hm'
  rcases (step_effect hs).milestones hm' with hm' | hnew
  · obtain ⟨hc, hattr⟩ := hv.attributed c' delay' hm'
    refine ⟨Nat.lt_of_lt_of_le hc ((step_effect hs).ages h.snapshot.token).block, ?_⟩
    show Attributed (if c' < f.config.world.block.number then f.past c' else _) voter v
    rw [if_pos hc]
    exact hattr
  · -- a proposal that is voted on is there already
    exact absurd (h.snapshot.created id c delay hm).1 (Nat.not_le_of_lt hnew)

/-- A vote calls the DAO. -/
theorem callsToken_of_votesOn {id : Nat} (hl : votesOn l = some id) : callsToken l = false := by
  cases l with
  | enter tx =>
      obtain ⟨sender, call⟩ := tx
      cases call with
      | token => cases hl
      | _ => rfl
  | _ => rfl

/-- The votes a step leaves are those before it, and the one it casts. -/
theorem FeedInv.next_votes (h : FeedInv start f) (tx : EthTransaction) (hP : Attributable env f l)
    (hs : (governanceMachine env).Step f.config l y) :
    (f.next tx y).store.votes = f.store.votes
      ∨ ∃ voter id v, Counted f voter id v
        ∧ (f.next tx y).store.votes = Function.update f.store.votes (voter, id) (some v) := by
  cases hl : votesOn l with
  | none =>
      obtain ⟨⟨es, hes⟩, -⟩ := step_logs hs
      obtain ⟨ds, hds, hquiet⟩ := (step_effect hs).quiet hl
      rw [store_next hes hds, Store.votes_handleDAOEvents hquiet, Store.votes_handleTokenEvents]
      exact .inl rfl
  | some id =>
      obtain ⟨voter, votes, hne, hb, hv⟩ := step_vote hs hl
      obtain ⟨support, reason, hds⟩ := hv.logged
      have hes : y.world.token.logs = f.config.world.token.logs ++ [] := by
        rw [step_token_kept hs (callsToken_of_votesOn hl), List.append_nil]
      obtain ⟨v, hvotes, hproposal, hraw, hnouns⟩ :=
        f.store.votes_handleVoteCast voter id support votes reason
      -- the blank proposal 0 is never active
      have hid : 0 < id := by
        refine Nat.pos_of_ne_zero ?_
        intro hz
        subst hz
        have hactive := stateOf_eq_active hv.active
        have hend := h.nothing
        omega
      refine .inr ⟨voter, id, v, ⟨hproposal, h.snapshot.recorded id hid hv.id_le,
        fun c delay hm => h.attributed hP hl hb hne hv hm hraw hnouns⟩, ?_⟩
      rw [store_next hes hds]
      exact hvotes

/-- **A step that is attributable keeps every vote attributed.** -/
theorem FeedInv.next (h : FeedInv start f) (hP : Attributable env f l) (hs : f.Next env l g) :
    FeedInv start g := by
  cases hs with
  | @step tx y _ hs =>
      obtain ⟨hfollowed, hbacked⟩ := h.next_token hP hs
      refine ⟨(step_effect hs).snapshot h.snapshot hP.steady, ?_, hfollowed, hbacked,
        h.next_lists hs, fun c => h.next_past hs, ?_⟩
      · have honward := (step_effect hs).onward h.snapshot.dao
        have hterms := (honward.advances 0 (Nat.zero_le _)).terms
        exact (congrArg Terms.endBlock hterms).trans h.nothing
      · intro voter id v hv
        rcases h.next_votes tx hP hs with hkept | ⟨voter', id', v', hcounted, hnew⟩
        · rw [hkept] at hv
          exact (h.votes voter id v hv).next h hs
        · rw [hnew] at hv
          by_cases hsame : (voter, id) = (voter', id')
          · obtain ⟨rfl, rfl⟩ := Prod.mk.inj hsame
            rw [Function.update_self] at hv
            obtain rfl := Option.some.inj hv
            exact hcounted.next h hs
          · rw [Function.update_of_ne hsame] at hv
            exact (h.votes voter id v hv).next h hs

/-! ## Runs -/

omit [DecidableEq H] in
/-- A history starts without votes. -/
theorem feedInv_start {d : Deployment env} {g : Genesis}
    (hd : tokenMachine.Runs Tracked ⟨g.world, []⟩ ⟨⟨d.token, d.block⟩, []⟩) (tx : EthTransaction) :
    FeedInv d.block.number (GovernanceFeed.start d tx) := by
  have hstore : (GovernanceFeed.start d tx).store
      = d.dao.logs.foldl (Store.handleDAOEvent tx.block) (.afterToken d.token.logs) :=
    handle_entries tx d.token.logs d.dao.logs Store.empty.withHouse
  have hfollowed : Followed d.token :=
    (tokenMachine_keeps (I := fun _ s => Followed s) (fun hI hs hP => hI.call hs hP)
      (fun _ hI => hI)).runs hd followed_deploy
  have hnamed : tokenMachine.Runs SomebodyNamed ⟨g.world, []⟩ ⟨⟨d.token, d.block⟩, []⟩ :=
    hd.mono fun x l hP => by
      cases l with
      | enter tx =>
          obtain ⟨sender, view, call⟩ := tx
          cases call with
          | delegateBySig => exact fun hz => absurd hz hP.1
          | _ => trivial
      | _ => trivial
  refine ⟨snapshotInv_deployment d, ?_, hfollowed, (votesBacked_runs hnamed).2, ?_,
    fun c hstart hc => absurd hc (Nat.not_lt_of_le hstart), ?_⟩
  · show (d.dao.proposals 0).endBlock = 0
    rw [(deployment_unused d).2]
    rfl
  · rw [hstore]
    exact Store.sameLists_handleDAOEvents d.dao.logs
  · intro voter id v hv
    rw [hstore, Store.votes_handleDAOEvents fun e he => isVoteCast_of_quiet (deployment_quiet d e he)]
      at hv
    have hnone : (Store.afterToken d.token.logs).votes = fun _ => none :=
      Store.votes_handleTokenEvents d.token.logs
    rw [hnone] at hv
    cases hv

/-- The votes on each proposal are recorded with as many Nouns, and none with another's. -/
structure NounsOfVotes (st : Store) : Prop where
  sized : ∀ i v, st.votes i = some v → v.nouns.Nodup ∧ v.nouns.length = v.votesRaw
  apart : ∀ i j v v', i ≠ j → st.votes i = some v → st.votes j = some v' →
    v.proposal = v'.proposal → v.nouns.Disjoint v'.nouns

omit [DecidableEq H] in
theorem FeedInv.nounsOfVotes (h : FeedInv start f) : NounsOfVotes f.store := by
  refine ⟨?_, ?_⟩
  · intro i v hv
    obtain ⟨voter, id⟩ := i
    have hcounted := h.votes voter id v hv
    obtain ⟨c, delay, hm⟩ := hcounted.created
    obtain ⟨-, hattr⟩ := hcounted.attributed c delay hm
    have hset : v.nouns.toFinset = represented (f.past c) voter :=
      Finset.ext fun n => List.mem_toFinset.trans (hattr.mem n)
    refine ⟨hattr.nodup, ?_⟩
    rw [hattr.counted, ← hset, List.toFinset_card_of_nodup hattr.nodup]
  · intro i j v v' hij hv hv' hsame
    obtain ⟨voter, id⟩ := i
    obtain ⟨voter', id'⟩ := j
    have hcounted := h.votes voter id v hv
    have hcounted' := h.votes voter' id' v' hv'
    obtain rfl : id = id' := hcounted.proposal.symm.trans (hsame.trans hcounted'.proposal)
    obtain ⟨c, delay, hm⟩ := hcounted.created
    obtain ⟨-, hattr⟩ := hcounted.attributed c delay hm
    obtain ⟨-, hattr'⟩ := hcounted'.attributed c delay hm
    -- at the end of block `c` a Noun had one owner, and this one representative
    intro n hn hn'
    have hrep := (Finset.mem_filter.mp ((hattr.mem n).mp hn)).2.2
    have hrep' := (Finset.mem_filter.mp ((hattr'.mem n).mp hn')).2.2
    exact hij (congrArg (·, id) (hrep.symm.trans hrep'))

/--
**Nouns of votes.** In every history whose steps are attributable, that of the token before
the DAO included, each vote is recorded with as many Nouns as it has votes, and no Noun is
recorded with two votes on one proposal.
-/
theorem vote_nouns (env : Env H) (d : Deployment env) (g : Genesis)
    (hd : tokenMachine.Runs Tracked ⟨g.world, []⟩ ⟨⟨d.token, d.block⟩, []⟩) (tx : EthTransaction)
    (f : GovernanceFeed H) (hf : GovernanceFeed.Runs env (Attributable env) (.start d tx) f) :
    NounsOfVotes f.store := by
  have hI : FeedInv d.block.number f := by
    induction hf with
    | refl => exact feedInv_start hd tx
    | tail _ hs ih =>
        obtain ⟨l, hP, hs⟩ := hs
        exact ih.next hP hs
  exact hI.nounsOfVotes

/-! ## Two votes on a payment -/

/-- Make the next move of a script, in a transaction of its block. -/
def feedMove (ok : GovernanceFeed Transaction → GovLabel → Bool) (f : GovernanceFeed Transaction)
    (m : Machine.Move GovernanceTx Block) : Option (GovernanceFeed Transaction) :=
  ((governanceMachine smallEnv).move (fun _ => ok f) f.config m).map
    (f.next ⟨0, 0, f.config.world.block⟩)

def feedScript (ok : GovernanceFeed Transaction → GovLabel → Bool) :
    GovernanceFeed Transaction → List (Machine.Move GovernanceTx Block) →
      Option (GovernanceFeed Transaction)
  | f, [] => some f
  | f, m :: ms => (feedMove ok f m).bind fun g => feedScript ok g ms

theorem feedScript_runs {ok : GovernanceFeed Transaction → GovLabel → Bool}
    {P : GovernanceFeed Transaction → GovLabel → Prop} (hP : ∀ f l, ok f l = true → P f l) :
    ∀ {ms : List (Machine.Move GovernanceTx Block)} {f g : GovernanceFeed Transaction},
      feedScript ok f ms = some g → GovernanceFeed.Runs smallEnv P f g := by
  intro ms
  induction ms with
  | nil =>
      intro f g h
      obtain rfl := Option.some.inj h
      exact .refl
  | cons m ms ih =>
      intro f g h
      obtain ⟨f', hm, h⟩ := Option.bind_eq_some_iff.mp h
      obtain ⟨y, hy, rfl⟩ := Option.map_eq_some_iff.mp hm
      obtain ⟨l, hok, -, hs⟩ := Machine.move_step hy
      exact .head ⟨l, hP f l hok, .step rfl hs⟩ (ih h)

theorem feedScript_exists {ok : GovernanceFeed Transaction → GovLabel → Bool}
    {P : GovernanceFeed Transaction → GovLabel → Prop} (hP : ∀ f l, ok f l = true → P f l)
    {f : GovernanceFeed Transaction} {m : List (Machine.Move GovernanceTx Block)}
    {p : GovernanceFeed Transaction → Bool} (h : (feedScript ok f m).any p = true) :
    ∃ g, GovernanceFeed.Runs smallEnv P f g ∧ p g = true := by
  obtain ⟨g, hg, hp⟩ := (Option.any_eq_true _ _).mp h
  exact ⟨g, feedScript_runs hP hg, hp⟩

/-- A simple check that implies attributable. -/
def plainlyAttributable (f : GovernanceFeed Transaction) (l : GovLabel) : Bool :=
  steadyDelay f.config l
    && (match l with
      | .enter ⟨sender, .token view c⟩ =>
          plainlyTracked ⟨⟨f.config.world.token, f.config.world.block⟩, []⟩ (.enter ⟨sender, view, c⟩)
      | _ => true)
    && match ballotOf smallEnv l with
      | some (voter, id) => represented f.config.world.token voter = represented
          (f.past ((f.config.world.dao.proposals id).startBlock - f.config.world.dao.votingDelay))
          voter
      | none => true

theorem plainlyAttributable_attributable (f : GovernanceFeed Transaction) (l : GovLabel)
    (h : plainlyAttributable f l = true) : Attributable smallEnv f l := by
  obtain ⟨h, hunmoved⟩ := Bool.and_eq_true_iff.mp h
  obtain ⟨hsteady, htracked⟩ := Bool.and_eq_true_iff.mp h
  refine ⟨?_, steadyDelay_steady _ _ hsteady, ?_⟩
  · intro sender view c hl
    subst hl
    exact plainlyTracked_tracked _ _ htracked
  · intro voter id hb
    rw [hb] at hunmoved
    exact of_decide_eq_true hunmoved

/-- Account 2 proposes in block 2, and votes in block 4 along with account 4. -/
def bothVote : List (Machine.Move GovernanceTx Block) :=
  [.enter mintTwo, .tick ⟨2, 20⟩, .enter (daoTx 2 proposePayment), .tick ⟨4, 40⟩,
    .enter (daoTx 2 (.castVote 1 1)), .enter (daoTx 4 (.castVote 1 0)),
    .enter (daoTx 4 (.token smallView (.transferFrom (.ofNat 4) (.ofNat 7) 1)))]

/-- The votes of a store by their voters, with their Nouns. -/
def votesOf (st : Store) (id voter : Nat) : Option (Int × List Nat) :=
  (st.votes (.ofNat voter, id)).map fun v => (v.votesRaw, v.nouns)

/-- Each vote is recorded with the Noun of its voter. -/
theorem vote_nouns_bothVote :
    ∃ f, GovernanceFeed.Runs smallEnv (Attributable smallEnv)
        (.start smallDeployment ⟨0, 0, ⟨1, 1⟩⟩) f
      ∧ votesOf f.store 1 2 = some (1, [0]) ∧ votesOf f.store 1 4 = some (1, [1])
      ∧ NounsOfVotes f.store := by
  obtain ⟨f, hf, hp⟩ := feedScript_exists plainlyAttributable_attributable
    (f := .start smallDeployment ⟨0, 0, ⟨1, 1⟩⟩) (m := bothVote)
    (p := fun f => votesOf f.store 1 2 = some (1, [0]) ∧ votesOf f.store 1 4 = some (1, [1]))
    (by decide +kernel)
  obtain ⟨htwo, hfour⟩ := of_decide_eq_true hp
  exact ⟨f, hf, htwo, hfour, vote_nouns smallEnv smallDeployment smallGenesis .refl _ f hf⟩

/-- Whether a step neither sets the voting delay nor names nobody a delegate. -/
def namesSomebody : GovLabel → Bool
  | .enter ⟨_, .setVotingDelay_ _⟩ | .enter ⟨_, .initialize_ ..⟩ => false
  | .enter ⟨_, .token _ (.delegate d)⟩ | .enter ⟨_, .token _ (.delegateBySig d ..)⟩ => d ≠ 0
  | _ => true

/-- Between the two votes account 2 gives its Noun to account 4. -/
def voteAndGive : List (Machine.Move GovernanceTx Block) :=
  [.enter mintTwo, .tick ⟨2, 20⟩, .enter (daoTx 2 proposePayment), .tick ⟨4, 40⟩,
    .enter (daoTx 2 (.castVote 1 1)),
    .enter (daoTx 2 (.token smallView (.transferFrom (.ofNat 2) (.ofNat 4) 0))),
    .enter (daoTx 4 (.castVote 1 0))]

/-- The second vote counts one Noun and is recorded with two, one of them that of the first. -/
theorem vote_nouns_voteAndGive :
    ∃ f, GovernanceFeed.Runs smallEnv (fun _ l => namesSomebody l = true)
        (.start smallDeployment ⟨0, 0, ⟨1, 1⟩⟩) f
      ∧ votesOf f.store 1 2 = some (1, [0]) ∧ votesOf f.store 1 4 = some (1, [1, 0])
      ∧ ¬ (∀ i v, f.store.votes i = some v → v.nouns.length = v.votesRaw)
      ∧ ¬ (∀ i j v v', i ≠ j → f.store.votes i = some v → f.store.votes j = some v' →
        v.proposal = v'.proposal → v.nouns.Disjoint v'.nouns) := by
  obtain ⟨f, hf, hp⟩ := feedScript_exists (P := fun _ l => namesSomebody l = true)
    (fun _ _ h => h) (f := .start smallDeployment ⟨0, 0, ⟨1, 1⟩⟩) (m := voteAndGive)
    (p := fun f => votesOf f.store 1 2 = some (1, [0]) ∧ votesOf f.store 1 4 = some (1, [1, 0])
      ∧ (f.store.votes (.ofNat 2, 1)).map Subgraph.Vote.proposal = some 1
      ∧ (f.store.votes (.ofNat 4, 1)).map Subgraph.Vote.proposal = some 1) (by decide +kernel)
  obtain ⟨htwo, hfour, hfirst, hsecond⟩ := of_decide_eq_true hp
  obtain ⟨v, hv, hraw⟩ := Option.map_eq_some_iff.mp htwo
  obtain ⟨v', hv', hraw'⟩ := Option.map_eq_some_iff.mp hfour
  obtain ⟨-, hnouns⟩ := Prod.mk.inj hraw
  obtain ⟨hone, hboth⟩ := Prod.mk.inj hraw'
  refine ⟨f, hf, htwo, hfour, ?_, ?_⟩
  · intro hsized
    have hlength := hsized _ _ hv'
    rw [hboth, hone] at hlength
    exact absurd hlength (by decide)
  · intro hapart
    rw [hv] at hfirst
    rw [hv'] at hsecond
    have hdisjoint := hapart _ _ _ _ (by decide) hv hv'
      ((Option.some.inj hfirst).trans (Option.some.inj hsecond).symm)
    rw [hnouns, hboth] at hdisjoint
    exact hdisjoint (List.mem_singleton.mpr rfl) (by decide)

end Proof

end Nouns
