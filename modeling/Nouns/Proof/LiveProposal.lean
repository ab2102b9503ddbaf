import Nouns.Proof.Lifecycle

/-!
# One live proposal per proposer

`propose` asks only about the last proposal of its sender. That is enough: no move of the
graph enters `pending` and only `pending` leads to `active`, so a proposal that is not live
never becomes so, and a live one is always the last of its proposer.
-/

namespace Nouns

open Evm CallMachine

/-- Proposal `id` is pending or active. -/
def NounsDAO.Live (block : Block) (s : NounsDAO) (id : Nat) : Prop :=
  0 < id ∧ (s.state block id = .ok .pending ∨ s.state block id = .ok .active)

namespace Proof

/-- The states of a live proposal. -/
def IsLive (st : ProposalState) : Prop := st = .pending ∨ st = .active

/-- Nothing comes to life. -/
theorem Leads.live {st st' : ProposalState} (h : Leads st st') (hlive : IsLive st') :
    IsLive st := by
  induction h with
  | refl => exact hlive
  | tail _ he ih =>
      refine ih ?_
      rcases hlive with rfl | rfl
      · cases he
      · cases he
        exact .inl rfl

/-- What the check of `propose` says about the last proposal. -/
theorem requireNoLiveProposal_shape {block : Block} {s : NounsDAO} {a : Address}
    (h : s.requireNoLiveProposal block a = .ok ()) (hne : s.latestProposalIds a ≠ 0) :
    ¬ IsLive ((s.proposals (s.latestProposalIds a)).stateOf block) := by
  unfold NounsDAO.requireNoLiveProposal at h
  simp only [if_pos hne, bind_ok, require_ok] at h
  obtain ⟨st, hst, _, hactive, hpending⟩ := h
  obtain ⟨_, rfl⟩ := state_ok hst
  intro hin
  rcases hin with hp | ha
  · exact hpending hp
  · exact hactive ha

variable {H : Type} {env : Env H} {w : Governance H}

/-- A live proposal is the last of its proposer. -/
def LiveIsLatest (w : Governance H) : Prop :=
  ∀ id, 0 < id → id ≤ w.dao.proposalCount → IsLive ((w.dao.proposals id).stateOf w.block) →
    w.dao.latestProposalIds (w.dao.proposals id).proposer = id

/-- Steps that create no proposal. -/
theorem LiveIsLatest.onward {w' : Governance H} (h : LiveIsLatest w) (ho : Onward w w')
    (hcount : w'.dao.proposalCount = w.dao.proposalCount)
    (hlatest : w'.dao.latestProposalIds = w.dao.latestProposalIds) : LiveIsLatest w' := by
  intro id h0 hid hlive
  rw [hcount] at hid
  obtain ⟨_, hleads, hterms, _, _⟩ := ho.advances id hid
  have hproposer : (w'.dao.proposals id).proposer = (w.dao.proposals id).proposer :=
    congrArg Terms.proposer hterms
  rw [hlatest, hproposer]
  exact h id h0 hid (hleads.live hlive)

/-- A new proposal is the last of its proposer, who had no live one. -/
theorem LiveIsLatest.propose {id : Nat} {p : Proposal} {s : NounsDAO} {history : List Milestone}
    (h : LiveIsLatest w) (hp : Proposed w.block id w.dao s p) :
    LiveIsLatest { w with dao := s, history := history } := by
  obtain ⟨_, _, hbook⟩ := hp.book
  have hself : s.proposals id = p := by rw [hbook]; exact Function.update_self _ _ _
  have hother : ∀ j, j ≠ id → s.proposals j = w.dao.proposals j := fun j hj => by
    rw [hbook]; exact Function.update_of_ne hj _ _
  have hcount : s.proposalCount = id := by rw [hbook]
  intro j h0 hj hlive
  simp only [hcount] at hj
  by_cases hjid : j = id
  · subst hjid
    simp only [hself, hp.latest]
    exact Function.update_self _ _ _
  · simp only [hother j hjid] at hlive ⊢
    have hold : j ≤ w.dao.proposalCount := by have := hp.id_eq; omega
    have hlatest := h j h0 hold hlive
    have hne : (w.dao.proposals j).proposer ≠ p.proposer := by
      intro heq
      -- the check looked at `j`, the last proposal of the same account
      rw [heq] at hlatest
      have hdead := requireNoLiveProposal_shape hp.unoccupied (by omega)
      rw [hlatest] at hdead
      exact hdead hlive
    rw [hp.latest, Function.update_of_ne hne]
    exact hlatest

variable [DecidableEq H]

theorem Act.latest {id i : Nat} {fs : List GovernanceFrame} {y : GovConfig H}
    (ha : Act env id i w fs y) : y.world.dao.proposalCount = w.dao.proposalCount
      ∧ y.world.dao.latestProposalIds = w.dao.latestProposalIds := by
  cases ha with
  | calls _ _ hct =>
      rw [hct.book]
      exact ⟨rfl, rfl⟩
  | finishes _ => exact ⟨rfl, rfl⟩

/-- Only `propose` gives out ids. -/
theorem GovEffect.latest {x y : GovConfig H} {l : GovLabel} (he : GovEffect env x l y) :
    (y.world.dao.proposalCount = x.world.dao.proposalCount
      ∧ y.world.dao.latestProposalIds = x.world.dao.latestProposalIds)
    ∨ ∃ id p s history, Proposed x.world.block id x.world.dao s p
      ∧ y.world = { x.world with dao := s, history := history } := by
  cases he with
  | propose hp => exact .inr ⟨_, _, _, _, hp, rfl⟩
  | reconfigure hr =>
      obtain ⟨_, _, _, _, _, _, _, _, _, _, rfl⟩ := hr.book
      exact .inl ⟨rfl, rfl⟩
  | vote _ hv =>
      obtain ⟨_, _, _, _, _, _, rfl⟩ := hv.book
      exact .inl ⟨rfl, rfl⟩
  | queue hq =>
      obtain ⟨_, rfl⟩ := hq.book
      exact .inl ⟨rfl, rfl⟩
  | stop _ hs =>
      rcases hs.book with ⟨_, rfl⟩ | ⟨_, rfl⟩
      · exact .inl ⟨rfl, rfl⟩
      · exact .inl ⟨rfl, rfl⟩
  | execute hs ha =>
      obtain ⟨hcount, hlatest⟩ := ha.latest
      rw [hcount, hlatest, hs.book]
      exact .inl ⟨rfl, rfl⟩
  | next ha =>
      obtain ⟨hcount, hlatest⟩ := ha.latest
      exact .inl ⟨hcount, hlatest⟩
  | token | administer | direct | returned | tick => exact .inl ⟨rfl, rfl⟩

theorem GovEffect.liveIsLatest {x y : GovConfig H} {l : GovLabel} (hinv : DAOInv x.world)
    (h : LiveIsLatest x.world) (he : GovEffect env x l y) : LiveIsLatest y.world := by
  rcases he.latest with ⟨hcount, hlatest⟩ | ⟨id, p, s, history, hp, hy⟩
  · exact h.onward (he.onward hinv) hcount hlatest
  · rw [hy]
    exact h.propose hp

omit [DecidableEq H] in
theorem liveIsLatest_deployment (d : Deployment env) : LiveIsLatest d.world := by
  intro id h0 hid
  have hcount : d.world.dao.proposalCount = 0 := (deployment_unused d).1
  omega

theorem liveIsLatest_runs {d : Deployment env} {x : GovConfig H} (h : GovRuns d x) :
    LiveIsLatest x.world := by
  have hboth : DAOInv x.world ∧ LiveIsLatest x.world :=
    governance_runs (I := fun x => DAOInv x.world ∧ LiveIsLatest x.world)
      (fun hI _ he => ⟨(he.onward hI.1).inv, he.liveIsLatest hI.1 hI.2⟩) h
      ⟨daoInv_deployment d, liveIsLatest_deployment d⟩
  exact hboth.2

/--
**One live proposal per proposer.** At any moment of any history an account has at most
one proposal that is pending or active.
-/
theorem live_subsingleton (env : Env H) (d : Deployment env) (z : GovConfig H) (hz : GovRuns d z)
    (a : Address) :
    {id | z.world.dao.Live z.world.block id ∧ (z.world.dao.proposals id).proposer = a}.Subsingleton
    := by
  have hlatest := liveIsLatest_runs hz
  have hall : ∀ id, z.world.dao.Live z.world.block id →
      (z.world.dao.proposals id).proposer = a → z.world.dao.latestProposalIds a = id := by
    rintro id ⟨h0, hlive⟩ rfl
    rcases hlive with hp | hact
    · obtain ⟨hid, hst⟩ := state_ok hp
      exact hlatest id h0 hid (.inl hst)
    · obtain ⟨hid, hst⟩ := state_ok hact
      exact hlatest id h0 hid (.inr hst)
  rintro i ⟨hi, hia⟩ j ⟨hj, hja⟩
  exact (hall i hi hia).symm.trans (hall j hj hja)

/-- Proposal 1 of account 2 is pending in block 2, so no other one of account 2 is live. -/
theorem live_subsingleton_payment :
    ∃ z, GovRuns smallDeployment z ∧ z.world.dao.Live z.world.block 1
      ∧ ∀ id, z.world.dao.Live z.world.block id →
        (z.world.dao.proposals id).proposer = .ofNat 2 → id = 1 := by
  obtain ⟨z, hz, hp⟩ := Machine.script_exists (M := governanceMachine smallEnv)
    Machine.anything_free (x := ⟨smallDeployment.world, []⟩)
    (m := [.enter mintTwo, .tick ⟨2, 20⟩, .enter (daoTx 2 proposePayment)])
    (p := fun z => decide ((z.world.dao.state z.world.block 1).toOption = some .pending)
      && decide ((z.world.dao.proposals 1).proposer = .ofNat 2)) (by decide +kernel)
  obtain ⟨hpending, hproposer⟩ := Bool.and_eq_true_iff.mp hp
  have hpending := toOption_some.mp (of_decide_eq_true hpending)
  have hproposer := of_decide_eq_true hproposer
  have hlive : z.world.dao.Live z.world.block 1 := ⟨Nat.one_pos, .inl hpending⟩
  refine ⟨z, hz, hlive, ?_⟩
  intro id hid hidp
  exact live_subsingleton smallEnv smallDeployment z hz (.ofNat 2) ⟨hid, hidp⟩ ⟨hlive, hproposer⟩

end Proof

end Nouns
