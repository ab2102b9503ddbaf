import Nouns.Proof.Lifecycle

/-!
# Tallies are their receipts

The DAO keeps three running totals for a proposal and a receipt for each voter. One step
either leaves all of this alone, or counts one fresh receipt of a proposal whose vote is
open; so the totals are what the receipts add up to, a receipt is written once, and
nothing changes after the end block.
-/

namespace Nouns

open Evm CallMachine DelegatedVotes

/-- What voting on a proposal writes. -/
structure Poll where
  forVotes : Nat
  againstVotes : Nat
  abstainVotes : Nat
  receipts : Address → Receipt

def Proposal.poll (p : Proposal) : Poll where
  forVotes := p.forVotes
  againstVotes := p.againstVotes
  abstainVotes := p.abstainVotes
  receipts := p.receipts

/-- Whether a proposal carried: more votes for it than against it, and a quorum. -/
def Proposal.carried (p : Proposal) : Bool :=
  p.againstVotes < p.forVotes ∧ p.quorumVotes ≤ p.forVotes

/-- The votes a receipt has for the choice `support`. -/
def Receipt.votesFor (support : Nat) (r : Receipt) : Nat :=
  if r.hasVoted = true ∧ r.support = support then r.votes else 0

/-- What the receipts add up to for the choice `support`. -/
def Poll.sum (b : Poll) (support : Nat) : Nat := ∑ a, (b.receipts a).votesFor support

namespace Proof

/-- The tallies are the sums of the receipts. -/
structure Poll.Exact (b : Poll) : Prop where
  against : b.againstVotes = b.sum 0
  for_ : b.forVotes = b.sum 1
  abstain : b.abstainVotes = b.sum 2

/-- What a step does to the poll of a proposal: nothing, or it counts a fresh receipt. -/
inductive PollStep (block : Block) (p : Proposal) : Poll → Prop where
  | same : PollStep block p p.poll
  | counted {voter : Address} {support votes forVotes againstVotes abstainVotes : Nat} :
      p.stateOf block = .active → (p.receipts voter).hasVoted = false →
      Counts support votes p forVotes againstVotes abstainVotes →
      PollStep block p ⟨forVotes, againstVotes, abstainVotes,
        Function.update p.receipts voter ⟨true, support, votes⟩⟩

variable {block : Block} {p : Proposal} {b : Poll}

/-- Counting a fresh receipt adds its votes to the choice it names. -/
theorem sum_votesFor_update {V : Type} [Fintype V] [DecidableEq V] {receipts : V → Receipt}
    {voter : V}
    (hfresh : (receipts voter).hasVoted = false) (support votes choice : Nat) :
    ∑ a, (Function.update receipts voter ⟨true, support, votes⟩ a).votesFor choice
      = ∑ a, (receipts a).votesFor choice + if support = choice then votes else 0 := by
  have hadd := sum_field_update (Receipt.votesFor choice) receipts voter ⟨true, support, votes⟩
  have hzero : (receipts voter).votesFor choice = 0 := by
    simp [Receipt.votesFor, hfresh]
  have hnew : (⟨true, support, votes⟩ : Receipt).votesFor choice
      = if support = choice then votes else 0 := by
    simp [Receipt.votesFor]
  rw [hzero, hnew] at hadd
  omega

theorem PollStep.exact (h : PollStep block p b) (hp : Poll.Exact p.poll) : Poll.Exact b := by
  cases h with
  | same => exact hp
  | counted _ hfresh hcounts =>
      obtain ⟨hagainst, hfor, habstain⟩ := hp
      simp only [Proposal.poll, Poll.sum] at hagainst hfor habstain
      have hsum := sum_votesFor_update hfresh
      refine ⟨?_, ?_, ?_⟩
      · rw [hcounts.against_eq, hagainst]
        exact (hsum _ _ 0).symm
      · rw [hcounts.for_eq, hfor]
        exact (hsum _ _ 1).symm
      · rw [hcounts.abstain_eq, habstain]
        exact (hsum _ _ 2).symm

/-- A receipt that changes is the first of its voter. -/
theorem PollStep.receipt (h : PollStep block p b) (a : Address) :
    b.receipts a = p.receipts a
      ∨ (p.receipts a).hasVoted = false ∧ (b.receipts a).hasVoted = true := by
  cases h with
  | same => exact .inl rfl
  | @counted voter _ _ _ _ _ _ hfresh _ =>
      by_cases ha : a = voter
      · subst ha
        refine .inr ⟨hfresh, ?_⟩
        simp
      · exact .inl (Function.update_of_ne ha _ _)

/-- Only an open vote is counted. -/
theorem PollStep.active (h : PollStep block p b) (hne : b ≠ p.poll) :
    p.stateOf block = .active := by
  cases h with
  | same => exact absurd rfl hne
  | counted hactive _ _ => exact hactive

/-! ## Every step is such a step for every proposal -/

variable {H : Type} {env : Env H} {w : Governance H} {s : NounsDAO} {id : Nat}

theorem Wrote.poll {p : Proposal} (h : Wrote id p w.dao s) (hp : p.poll = (w.dao.proposals id).poll)
    (j : Nat) : (s.proposals j).poll = (w.dao.proposals j).poll := by
  obtain ⟨hself, hother, _⟩ := h.proposals
  by_cases hj : j = id
  · subst hj
    rw [hself, hp]
  · rw [hother j hj]

theorem PollStep.of_eq {p p' : Proposal} (h : p'.poll = p.poll) : PollStep block p p'.poll := by
  rw [h]
  exact .same

variable [DecidableEq H]

theorem Act.proposals {i : Nat} {fs : List GovernanceFrame} {y : GovConfig H}
    (ha : Act env id i w fs y) : y.world.dao.proposals = w.dao.proposals := by
  cases ha with
  | calls _ _ hct => rw [hct.book]
  | finishes _ => rfl

/-- **What a step does to a poll.** -/
theorem GovEffect.poll {x y : GovConfig H} {l : GovLabel} (h : DAOInv x.world)
    (he : GovEffect env x l y) (j : Nat) :
    PollStep x.world.block (x.world.dao.proposals j) (y.world.dao.proposals j).poll := by
  cases he with
  | token | administer | direct | returned | tick => exact .same
  | reconfigure hr =>
      obtain ⟨_, _, _, _, _, _, _, _, _, _, rfl⟩ := hr.book
      exact .same
  | @propose w fs l s id p hp =>
      obtain ⟨_, _, hbook⟩ := hp.book
      refine .of_eq ?_
      by_cases hj : j = id
      · -- the tallies of a new proposal start where those of an unused id are
        subst hj
        have hlt : w.dao.proposalCount < j := by rw [hp.id_eq]; exact Nat.lt_succ_self _
        have hblank : w.dao.proposals j = .blank := h.unborn j hlt
        obtain ⟨hfor, hagainst, habstain⟩ := hp.tallies
        have hreceipts := hp.receipts
        have hself : s.proposals j = p := by rw [hbook]; exact Function.update_self _ _ _
        simp only [hself, Proposal.poll, hfor, hagainst, habstain, hreceipts, hblank]
        rfl
      · have hother : s.proposals j = w.dao.proposals j := by
          rw [hbook]; exact Function.update_of_ne hj _ _
        simp only [hother]
  | @vote w fs l s voter id votes hl hv =>
      obtain ⟨forVotes, againstVotes, abstainVotes, support, hcounts, hw⟩ := hv.book
      obtain ⟨hself, hother, _⟩ := hw.proposals
      by_cases hj : j = id
      · subst hj
        simp only [hself]
        exact .counted hv.active hv.fresh hcounts
      · exact .of_eq (congrArg Proposal.poll (hother j hj))
  | queue hq => exact .of_eq (hq.book.poll rfl j)
  | stop _ hs =>
      rcases hs.book with hw | hw
      · exact .of_eq (hw.poll rfl j)
      · exact .of_eq (hw.poll rfl j)
  | @execute w fs l s id y hs ha =>
      have hw : Wrote id { w.dao.proposals id with executed := true } w.dao s :=
        ⟨w.dao.logs, hs.book⟩
      rw [ha.proposals]
      exact .of_eq (hw.poll rfl j)
  | next ha =>
      rw [ha.proposals]
      exact .same

/-! ## Runs -/

variable {d : Deployment env} {x y z : GovConfig H}

/-- The rule of polls: what every such step keeps, every history keeps. -/
theorem poll_runs {P : Poll → Prop} (hx : DAOInv x.world)
    (hr : (governanceMachine env).Runs Free x y)
    (hstep : ∀ {w : GovConfig H}, (governanceMachine env).Runs Free x w → ∀ {b : Poll},
      P (w.world.dao.proposals id).poll →
      PollStep w.world.block (w.world.dao.proposals id) b → P b)
    (h : P (x.world.dao.proposals id).poll) : P (y.world.dao.proposals id).poll := by
  induction hr with
  | refl => exact h
  | @tail v y hv hs ih =>
      obtain ⟨_, _, hs⟩ := hs
      have hinv := (onward_runs hx hv).inv
      exact hstep hv ih ((step_effect hs).poll hinv id)

theorem exact_runs (hz : GovRuns d z) (id : Nat) : Poll.Exact (z.world.dao.proposals id).poll := by
  have hd := daoInv_deployment d
  refine poll_runs (P := Poll.Exact) hd hz (fun _ _ hexact hstep => hstep.exact hexact) ?_
  have hblank : d.world.dao.proposals id = .blank := (deployment_unused d).2 id
  simp only [hblank]
  have hzero : ∀ support, Proposal.blank.poll.sum support = 0 := by
    intro support
    simp [Poll.sum, Proposal.poll, Proposal.blank, Receipt.votesFor]
  exact ⟨(hzero 0).symm, (hzero 1).symm, (hzero 2).symm⟩

/-- A receipt that records a vote is final. -/
theorem receipt_runs (hx : DAOInv x.world) (hr : (governanceMachine env).Runs Free x y)
    {a : Address} (hv : ((x.world.dao.proposals id).receipts a).hasVoted = true) :
    (y.world.dao.proposals id).receipts a = (x.world.dao.proposals id).receipts a := by
  refine poll_runs (P := fun b => b.receipts a = (x.world.dao.proposals id).receipts a) hx hr
    (fun {w} _ {b} hb hstep => ?_) rfl
  rcases hstep.receipt a with hsame | ⟨hfresh, _⟩
  · exact hsame.trans hb
  · have hvoted : ((w.world.dao.proposals id).receipts a).hasVoted = true := by
      rw [show (w.world.dao.proposals id).receipts a = _ from hb]
      exact hv
    rw [hvoted] at hfresh
    cases hfresh

/-- A receipt that has changed records a vote. -/
theorem changed_runs (hx : DAOInv x.world) (hr : (governanceMachine env).Runs Free x y)
    {a : Address}
    (hne : (y.world.dao.proposals id).receipts a ≠ (x.world.dao.proposals id).receipts a) :
    ((y.world.dao.proposals id).receipts a).hasVoted = true := by
  have hor : (y.world.dao.proposals id).receipts a = (x.world.dao.proposals id).receipts a
      ∨ ((y.world.dao.proposals id).receipts a).hasVoted = true := by
    refine poll_runs (P := fun b => b.receipts a = (x.world.dao.proposals id).receipts a
      ∨ (b.receipts a).hasVoted = true) hx hr (fun {w} _ {b} hb hstep => ?_) (.inl rfl)
    rcases hstep.receipt a with hsame | ⟨_, hvoted⟩
    · rw [hsame]
      exact hb
    · exact .inr hvoted
  rcases hor with hsame | hvoted
  · exact absurd hsame hne
  · exact hvoted

/-- After the end block the poll is closed. -/
theorem closed_runs (hx : DAOInv x.world) (hid : id ≤ x.world.dao.proposalCount)
    (hend : (x.world.dao.proposals id).endBlock < x.world.block.number)
    (hr : (governanceMachine env).Runs Free x y) :
    (y.world.dao.proposals id).poll = (x.world.dao.proposals id).poll := by
  refine poll_runs (P := fun b => b = (x.world.dao.proposals id).poll) hx hr
    (fun {w} hw {b} hb hstep => ?_) rfl
  by_contra hne
  have hactive := hstep.active (by rw [hb]; exact hne)
  -- the end block is kept and the clock does not run backwards
  obtain ⟨_, _, hterms, _, _⟩ := (onward_runs hx hw).advances id hid
  have hkept : (w.world.dao.proposals id).endBlock = (x.world.dao.proposals id).endBlock :=
    congrArg Terms.endBlock hterms
  have hclock := clock_runs hw
  have hopen := (stateOf_eq_active hactive).2.2.2
  omega

theorem state_active {s : NounsDAO} (hid : id ≤ s.proposalCount)
    (h : (s.proposals id).stateOf block = .active) : s.state block id = .ok .active := by
  obtain ⟨hv, hc, hstart, hend⟩ := stateOf_eq_active h
  refine bind_ok.mpr ⟨(), require_total hid, ?_⟩
  rw [if_neg (by simp [hv]), if_neg (by simp [hc]), if_neg (by omega), if_pos hend]
  rfl

omit [DecidableEq H] in
/-- An id not given out yet is not open for votes. -/
theorem DAOInv.id_le (h : DAOInv w) (ha : (w.dao.proposals id).stateOf block = .active) :
    id ≤ w.dao.proposalCount := by
  by_contra hid
  have hopen := stateOf_eq_active ha
  rw [h.unborn id (by omega)] at hopen
  obtain ⟨_, _, hstart, hend⟩ := hopen
  simp only [Proposal.blank] at hstart hend
  omega

/--
**Tallies are exactly the receipts.** At any moment `z` of any history the three totals of
a proposal are the sums of its receipts, by choice. From then on a receipt that changes
does so once, a step changes the poll only if the proposal was active before it, and once
the end block has passed the poll and its outcome stay what they are.
-/
theorem poll_receipts (env : Env H) (d : Deployment env) (z : GovConfig H) (hz : GovRuns d z)
    (id : Nat) :
    Poll.Exact (z.world.dao.proposals id).poll
    ∧ (∀ a y y', (governanceMachine env).Runs Free z y → (governanceMachine env).Runs Free y y' →
      (y.world.dao.proposals id).receipts a ≠ (z.world.dao.proposals id).receipts a →
      (y'.world.dao.proposals id).receipts a = (y.world.dao.proposals id).receipts a)
    ∧ (∀ l y, (governanceMachine env).Step z l y →
      (y.world.dao.proposals id).poll ≠ (z.world.dao.proposals id).poll →
      z.world.dao.state z.world.block id = .ok .active)
    ∧ (id ≤ z.world.dao.proposalCount →
      (z.world.dao.proposals id).endBlock < z.world.block.number →
      ∀ y, (governanceMachine env).Runs Free z y →
        (y.world.dao.proposals id).poll = (z.world.dao.proposals id).poll
        ∧ (y.world.dao.proposals id).carried = (z.world.dao.proposals id).carried) := by
  have hinv : DAOInv z.world := daoInv_runs hz
  refine ⟨exact_runs hz id, ?_, ?_, ?_⟩
  · intro a y y' hy hy' hne
    have hvoted := changed_runs hinv hy hne
    exact receipt_runs (onward_runs hinv hy).inv hy' hvoted
  · intro l y hs hne
    have hactive := ((step_effect hs).poll hinv id).active hne
    exact state_active (hinv.id_le hactive) hactive
  · intro hid hend y hy
    -- the tallies are closed and the quorum is fixed, so what they decide is too
    have hpoll := closed_runs hinv hid hend hy
    refine ⟨hpoll, ?_⟩
    obtain ⟨_, _, hterms, _, _⟩ := (onward_runs hinv hy).advances id hid
    have hquorum : (y.world.dao.proposals id).quorumVotes
        = (z.world.dao.proposals id).quorumVotes := congrArg Terms.quorumVotes hterms
    have hfor : (y.world.dao.proposals id).forVotes = (z.world.dao.proposals id).forVotes :=
      congrArg Poll.forVotes hpoll
    have hagainst : (y.world.dao.proposals id).againstVotes
        = (z.world.dao.proposals id).againstVotes := congrArg Poll.againstVotes hpoll
    rw [Proposal.carried, Proposal.carried, hquorum, hfor, hagainst]

/-- Account 2 votes for its own proposal; then the sum of the receipts for it is 1. -/
theorem poll_receipts_payment :
    ∃ z, GovRuns smallDeployment z ∧ (z.world.dao.proposals 1).forVotes = 1
      ∧ (z.world.dao.proposals 1).poll.sum 1 = 1 := by
  obtain ⟨z, hz, hp⟩ := Machine.script_exists (M := governanceMachine smallEnv)
    Machine.anything_free (x := ⟨smallDeployment.world, []⟩)
    (m := [.enter mintTwo, .tick ⟨2, 20⟩, .enter (daoTx 2 proposePayment), .tick ⟨4, 40⟩,
      .enter (daoTx 2 (.castVote 1 1))])
    (p := fun z => (z.world.dao.proposals 1).forVotes = 1) (by decide +kernel)
  have hfor : (z.world.dao.proposals 1).forVotes = 1 := of_decide_eq_true hp
  obtain ⟨hexact, -⟩ := poll_receipts smallEnv smallDeployment z hz 1
  exact ⟨z, hz, hfor, hexact.for_.symm.trans hfor⟩

end Proof

end Nouns
