import Nouns.Proof.Lifecycle

/-!
# Proposals that were never made

`state` asks for an id no larger than the count. The ids `propose` has returned are those
from 1 to the count, so every other id is turned away but 0. Proposal 0 has no proposer
and its vote was over before it began: it is defeated, nothing can be voted, queued or
executed of it, but its state can be asked for and the vetoer can veto it.
-/

namespace Nouns

/-- The proposal a call is about. -/
def GovernanceCall.about : GovernanceCall → Option Nat
  | .queue id | .execute id | .cancel id | .veto id | .castVote id _ | .castVoteWithReason id _ _
    | .castVoteBySig id _ _ => some id
  | _ => none

namespace Proof

open Evm CallMachine

/-- An id `propose` has returned. -/
def Returned (history : List Milestone) (id : Nat) : Prop :=
  ∃ c delay, .proposed id c delay ∈ history

variable {H : Type} {env : Env H} {w : Governance H} {block : Block} {s : NounsDAO} {id : Nat}

theorem Returned.mono {history history' : List Milestone} (h : Returned history id)
    (hh : history <+: history') : Returned history' id := by
  obtain ⟨c, delay, hm⟩ := h
  exact ⟨c, delay, hh.subset hm⟩

theorem not_returned_append {history : List Milestone} {m : Milestone}
    (hm : ∀ id c delay, m ≠ .proposed id c delay) :
    Returned (history ++ [m]) id → Returned history id := by
  intro h
  obtain ⟨c, delay, h⟩ := h
  rcases List.mem_append.mp h with h | h
  · exact ⟨c, delay, h⟩
  · exact absurd (List.mem_singleton.mp h).symm (hm id c delay)

/-- Proposal 0 was never written but for its flags. -/
structure Zeroth (p : Proposal) : Prop where
  terms : p.terms = Proposal.blank.terms
  forVotes : p.forVotes = 0

/-- The ids given out are those from 1 to the count. -/
structure GivenOut (w : Governance H) : Prop where
  dao : DAOInv w
  returned : ∀ id, Returned w.history id ↔ 0 < id ∧ id ≤ w.dao.proposalCount
  zeroth : Zeroth (w.dao.proposals 0)

/-- There is a state of proposal 0. -/
theorem Zeroth.state (h : Zeroth (s.proposals 0)) : ∃ st, s.state block 0 = .ok st := by
  have hbehind : (s.proposals 0).forVotes ≤ (s.proposals 0).againstVotes
      ∨ (s.proposals 0).forVotes < (s.proposals 0).quorumVotes :=
    .inl (Nat.le_trans (Nat.le_of_eq h.forVotes) (Nat.zero_le _))
  refine bind_total (require_total (Nat.zero_le s.proposalCount)) ?_
  simp only [if_pos hbehind]
  split_ifs
  all_goals exact ⟨_, rfl⟩

/-- Proposal 0 is never active: its vote ended before it started. -/
theorem Zeroth.not_active {p : Proposal} (h : Zeroth p) : p.stateOf block ≠ .active := by
  intro ha
  obtain ⟨-, -, hstart, hend⟩ := stateOf_eq_active ha
  have hstart' : p.startBlock = 0 := congrArg Terms.startBlock h.terms
  have hend' : p.endBlock = 0 := congrArg Terms.endBlock h.terms
  omega

/-- Proposal 0 does not carry. -/
theorem Zeroth.not_succeeded {p : Proposal} (h : Zeroth p) : p.stateOf block ≠ .succeeded := by
  intro hs
  obtain ⟨-, -, -, -, hfor, -⟩ := stateOf_succeeded hs
  rw [h.forVotes] at hfor
  exact Nat.not_lt_zero _ hfor

theorem Zeroth.not_queued {p : Proposal} (h : Zeroth p) : p.stateOf block ≠ .queued := by
  intro hq
  have hfor := (stateOf_queued.mp hq).carried
  rw [h.forVotes] at hfor
  exact Nat.not_lt_zero _ hfor

/-! ## Every step gives out the next id or none -/

/-- Steps that write no proposal but its flags, its eta and its ballots. -/
theorem GivenOut.keep {w' : Governance H} (h : GivenOut w) (ho : Onward w w')
    (hcount : w'.dao.proposalCount = w.dao.proposalCount)
    (hback : ∀ id, Returned w'.history id → Returned w.history id)
    (hzero : (w'.dao.proposals 0).forVotes = (w.dao.proposals 0).forVotes) : GivenOut w' where
  dao := ho.inv
  returned id := by
    rw [hcount]
    exact ⟨fun hr => (h.returned id).mp (hback id hr),
      fun hid => ((h.returned id).mpr hid).mono ho.history⟩
  zeroth := ⟨(ho.advances 0 (Nat.zero_le _)).terms.trans h.zeroth.terms,
    hzero.trans h.zeroth.forVotes⟩

theorem Wrote.forVotes {p : Proposal} {s' : NounsDAO} (h : Wrote id p s s')
    (hp : id = 0 → p.forVotes = (s.proposals 0).forVotes) :
    (s'.proposals 0).forVotes = (s.proposals 0).forVotes := by
  obtain ⟨hself, hother, -⟩ := h.proposals
  by_cases hid : id = 0
  · subst hid
    rw [hself]
    exact hp rfl
  · rw [hother 0 (Ne.symm hid)]

theorem GivenOut.propose {p : Proposal} (h : GivenOut w) (hp : Proposed w.block id w.dao s p) :
    GivenOut { w with
      dao := s
      history := w.history ++ [.proposed id w.block.number w.dao.votingDelay] } := by
  have ho : Onward w { w with
      dao := s
      history := w.history ++ [.proposed id w.block.number w.dao.votingDelay] } :=
    hp.onward h.dao (List.prefix_append _ _)
  obtain ⟨_, _, hbook⟩ := hp.book
  have hid := hp.id_eq
  have hcount : s.proposalCount = id := by rw [hbook]
  have hzero : s.proposals 0 = w.dao.proposals 0 := by
    rw [hbook]
    exact Function.update_of_ne (by omega) _ _
  refine ⟨ho.inv, fun j => ⟨?_, ?_⟩, ?_⟩
  · intro hr
    obtain ⟨c, delay, hm⟩ := hr
    show 0 < j ∧ j ≤ s.proposalCount
    rcases List.mem_append.mp hm with hm | hm
    · obtain ⟨h0, hle⟩ := (h.returned j).mp ⟨c, delay, hm⟩
      omega
    · cases List.mem_singleton.mp hm
      omega
  · intro hj
    have hj : 0 < j ∧ j ≤ s.proposalCount := hj
    by_cases hjid : j = id
    · subst hjid
      exact ⟨_, _, List.mem_append_right _ (List.mem_singleton.mpr rfl)⟩
    · exact ((h.returned j).mpr ⟨hj.1, by omega⟩).mono (List.prefix_append _ _)
  · show Zeroth (s.proposals 0)
    rw [hzero]
    exact h.zeroth

variable [DecidableEq H]

theorem Act.givenOut {i : Nat} {fs : List GovernanceFrame} {y : GovConfig H} (h : GivenOut w)
    (ha : Act env id i w fs y) : GivenOut y.world := by
  have ho := ha.onward h.dao
  cases ha with
  | calls _ _ hct =>
      obtain rfl := hct.book
      exact h.keep ho rfl (fun _ => not_returned_append (fun _ _ _ => by simp)) rfl
  | finishes _ => exact h.keep ho rfl (fun _ hr => hr) rfl

theorem GovEffect.givenOut {x y : GovConfig H} {l : GovLabel} (h : GivenOut x.world)
    (he : GovEffect env x l y) : GivenOut y.world := by
  have ho := he.onward h.dao
  cases he with
  | token | administer | returned | tick => exact h.keep ho rfl (fun _ hr => hr) rfl
  | reconfigure hr =>
      obtain ⟨_, _, _, _, _, _, _, _, _, _, rfl⟩ := hr.book
      exact h.keep ho rfl (fun _ hr => hr) rfl
  | propose hp => exact h.propose hp
  | vote hl hv =>
      obtain ⟨_, _, _, _, _, hw⟩ := hv.book
      refine h.keep ho hw.proposals.2.2 (fun _ hr => hr) (hw.forVotes ?_)
      intro hid
      subst hid
      -- nobody can vote on the blank proposal 0
      exact absurd hv.active h.zeroth.not_active
  | queue hq =>
      exact h.keep ho hq.book.proposals.2.2
        (fun _ => not_returned_append (fun _ _ _ => by simp))
        (hq.book.forVotes fun hid => by subst hid; rfl)
  | stop hl hs =>
      rcases hs.book with hw | hw
      · exact h.keep ho hw.proposals.2.2 (fun _ hr => hr) (hw.forVotes fun hid => by subst hid; rfl)
      · exact h.keep ho hw.proposals.2.2 (fun _ hr => hr) (hw.forVotes fun hid => by subst hid; rfl)
  | @execute w fs l s id y hs ha =>
      have hw : Wrote id { w.dao.proposals id with executed := true } w.dao s :=
        ⟨w.dao.logs, hs.book⟩
      have hstart := h.dao.write (e := w.executor) hw hs.id_le h.dao.delay
        ((h.dao.proposals id).execute hs.queued) (List.prefix_refl _) (fun _ => .inl rfl)
      exact ha.givenOut (h.keep hstart hw.proposals.2.2 (fun _ hr => hr)
        (hw.forVotes fun hid => by subst hid; rfl))
  | @next w fs id i t logs y ha =>
      have hlog : Onward w { w with executor := { w.executor with logs := logs } } :=
        DAOInv.unchanged h.dao rfl rfl rfl h.dao.delay (List.prefix_refl _)
      exact ha.givenOut (h.keep hlog rfl (fun _ hr => hr) rfl)
  | direct _ _ hh _ =>
      refine h.keep ho rfl ?_ rfl
      intro j hr
      rcases hh with rfl | ⟨_, rfl⟩
      · exact hr
      · exact not_returned_append (fun _ _ _ => by simp) hr

omit [DecidableEq H] in
theorem givenOut_deployment (d : Deployment env) : GivenOut d.world := by
  obtain ⟨hcount, hunused⟩ := deployment_unused d
  refine ⟨daoInv_deployment d, fun j => ⟨?_, ?_⟩, ?_⟩
  · intro hr
    obtain ⟨_, _, hm⟩ := hr
    exact absurd hm List.not_mem_nil
  · intro hj
    have hle : j ≤ d.dao.proposalCount := hj.2
    omega
  · show Zeroth (d.dao.proposals 0)
    rw [hunused]
    exact ⟨rfl, rfl⟩

theorem givenOut_runs {d : Deployment env} {x : GovConfig H} (h : GovRuns d x) : GivenOut x.world :=
  governance_runs (I := fun y => GivenOut y.world) (fun hI _ he => he.givenOut hI) h
    (givenOut_deployment d)

/-! ## What can be done with a proposal that was never made -/

/-- Every call about proposal `id` asks for its state. -/
theorem asks_state {sender : Address} {call : GovernanceCall} (hcall : call.about = some id)
    {o : Outcome (Governance H) GovernanceFrame}
    (h : Governance.enter env ⟨sender, call⟩ w = .ok o) : ∃ st, w.dao.state w.block id = .ok st := by
  cases call <;> cases hcall <;>
    simp only [Governance.enter, Governance.onDAO, Governance.onBoth, NounsDAO.queue,
      NounsDAO.execute, NounsDAO.cancel, NounsDAO.veto, NounsDAO.castVote, NounsDAO.castVoteBySig,
      NounsDAO.castVoteInternal, bind_ok] at h
  case queue =>
    obtain ⟨_, ⟨st, hst, -⟩, -⟩ := h
    exact ⟨st, hst⟩
  case execute =>
    obtain ⟨_, ⟨st, hst, -⟩, -⟩ := h
    exact ⟨st, hst⟩
  case cancel =>
    obtain ⟨_, ⟨st, hst, -⟩, -⟩ := h
    exact ⟨st, hst⟩
  case veto =>
    obtain ⟨_, ⟨_, _, _, _, st, hst, -⟩, -⟩ := h
    exact ⟨st, hst⟩
  case castVote =>
    obtain ⟨_, ⟨_, ⟨st, hst, -⟩, -⟩, -⟩ := h
    exact ⟨st, hst⟩
  case castVoteWithReason =>
    obtain ⟨_, ⟨_, ⟨st, hst, -⟩, -⟩, -⟩ := h
    exact ⟨st, hst⟩
  case castVoteBySig =>
    obtain ⟨_, ⟨_, _, _, ⟨st, hst, -⟩, -⟩, -⟩ := h
    exact ⟨st, hst⟩

/-- Of proposal 0, nothing but a veto goes through. -/
theorem Zeroth.refuses (h : Zeroth (w.dao.proposals 0)) {sender : Address} (hsender : sender ≠ 0)
    {call : GovernanceCall} (hcall : call.about = some 0) (hveto : call ≠ .veto 0)
    {o : Outcome (Governance H) GovernanceFrame} :
    Governance.enter env ⟨sender, call⟩ w ≠ .ok o := by
  intro hr
  cases call <;> cases hcall <;>
    simp only [Governance.enter, Governance.onDAO, Governance.onBoth, NounsDAO.queue,
      NounsDAO.execute, NounsDAO.cancel, NounsDAO.castVote, NounsDAO.castVoteBySig,
      NounsDAO.castVoteInternal, bind_ok, require_ok] at hr
  case queue =>
    obtain ⟨_, ⟨st, hst, _, rfl, -⟩, -⟩ := hr
    exact h.not_succeeded (state_ok hst).2
  case execute =>
    obtain ⟨_, ⟨st, hst, _, rfl, -⟩, -⟩ := hr
    exact h.not_queued (state_ok hst).2
  case cancel =>
    obtain ⟨_, ⟨_, -, _, -, below, hbelow, _, hok, -⟩, -⟩ := hr
    -- its proposer is nobody, and nobody has fewer votes than none
    have hproposer : (w.dao.proposals 0).proposer = 0 := congrArg Terms.proposer h.terms
    have hthreshold : (w.dao.proposals 0).proposalThreshold = 0 :=
      congrArg Terms.proposalThreshold h.terms
    rw [hproposer, hthreshold, if_neg hsender] at hbelow
    simp only [bind_ok] at hbelow
    obtain ⟨_, -, votes, -, hbelow⟩ := hbelow
    rw [← Except.ok.inj hbelow] at hok
    exact Nat.not_lt_zero _ (of_decide_eq_true hok)
  case veto => exact hveto rfl
  case castVote =>
    obtain ⟨_, ⟨_, ⟨st, hst, _, rfl, -⟩, -⟩, -⟩ := hr
    exact h.not_active (state_ok hst).2
  case castVoteWithReason =>
    obtain ⟨_, ⟨_, ⟨st, hst, _, rfl, -⟩, -⟩, -⟩ := hr
    exact h.not_active (state_ok hst).2
  case castVoteBySig =>
    obtain ⟨_, ⟨_, _, _, ⟨st, hst, _, rfl, -⟩, -⟩, -⟩ := hr
    exact h.not_active (state_ok hst).2

/-- Asking for proposal `id` or doing anything with it reverts, and nothing is written of it. -/
structure Unknown (env : Env H) (w : Governance H) (id : Nat) : Prop where
  state : ∃ e, w.dao.state w.block id = .error e
  calls : ∀ sender call, call.about = some id →
    ∃ e, Governance.enter env ⟨sender, call⟩ w = .error e
  blank : w.dao.proposals id = .blank

/--
**What was never made is unknown, but for proposal 0.** At any point of any history, an id
that `propose` has not returned is turned away by `state` and by all that is done with a
proposal, whoever does it, exactly if it is not 0. Of proposal 0 nothing but a veto goes through.
-/
theorem unmade_unknown (env : Env H) (d : Deployment env) (x : GovConfig H) (hx : GovRuns d x)
    (id : Nat) (hid : ¬ Returned x.world.history id) :
    (Unknown env x.world id ↔ id ≠ 0)
    ∧ ∀ sender call, sender ≠ 0 → call.about = some 0 → call ≠ .veto 0 →
      ∃ e, Governance.enter env ⟨sender, call⟩ x.world = .error e := by
  have hi := givenOut_runs hx
  refine ⟨⟨?_, ?_⟩, fun sender call hsender hcall hveto => ?_⟩
  · intro h h0
    subst h0
    obtain ⟨e, he⟩ := h.state
    -- the id 0 passes the check of the id, so its state is answered
    obtain ⟨st, hst⟩ : ∃ st, x.world.dao.state x.world.block 0 = .ok st := hi.zeroth.state
    rw [he] at hst
    cases hst
  · intro h0
    have hbeyond : x.world.dao.proposalCount < id :=
      Nat.lt_of_not_le fun hle => hid ((hi.returned id).mpr ⟨Nat.pos_of_ne_zero h0, hle⟩)
    have hstate : ∀ st, x.world.dao.state x.world.block id ≠ .ok st := fun st hst =>
      Nat.not_le_of_lt hbeyond (state_ok hst).1
    refine ⟨?_, fun sender call hcall => ?_, hi.dao.unborn id hbeyond⟩
    · cases hr : x.world.dao.state x.world.block id with
      | error e => exact ⟨e, rfl⟩
      | ok st => exact absurd hr (hstate st)
    · cases hr : Governance.enter env ⟨sender, call⟩ x.world with
      | error e => exact ⟨e, rfl⟩
      | ok o =>
          obtain ⟨st, hst⟩ := asks_state hcall hr
          exact absurd hst (hstate st)
  · cases hr : Governance.enter env ⟨sender, call⟩ x.world with
    | error e => exact ⟨e, rfl⟩
    | ok o => exact absurd hr (hi.zeroth.refuses hsender hcall hveto)

/-- After a proposal was made, proposal 2 is unknown. -/
theorem unmade_unknown_payment :
    ∃ x, GovRuns smallDeployment x ∧ Returned x.world.history 1 ∧ Unknown smallEnv x.world 2 := by
  obtain ⟨x, hx, hp⟩ := Machine.script_exists (M := governanceMachine smallEnv)
    Machine.anything_free (x := ⟨smallDeployment.world, []⟩)
    (m := [.enter mintTwo, .tick ⟨2, 20⟩, .enter (daoTx 2 proposePayment)])
    (p := fun x => x.world.dao.proposalCount = 1) (by decide +kernel)
  have hreturned := (givenOut_runs hx).returned
  rw [of_decide_eq_true hp] at hreturned
  exact ⟨x, hx, (hreturned 1).mpr (by decide),
    (unmade_unknown smallEnv smallDeployment x hx 2
      fun h => absurd ((hreturned 2).mp h) (by decide)).1.mpr (by decide)⟩

/--
The vetoer vetoes proposal 0 of a DAO in which nothing was ever proposed: the call goes
through, and the proposal is no longer blank.
-/
theorem unmade_vetoed :
    ¬ ∀ x, GovRuns smallDeployment x → ∀ id, ¬ Returned x.world.history id →
      Unknown smallEnv x.world id := by
  intro h
  obtain ⟨x, hx, hp⟩ := Machine.script_exists (M := governanceMachine smallEnv)
    Machine.anything_free (x := ⟨smallDeployment.world, []⟩) (m := [.enter (daoTx 13 (.veto 0))])
    (p := fun x => x.world.history.isEmpty ∧ (x.world.dao.proposals 0).vetoed = true)
    (by decide +kernel)
  obtain ⟨hempty, hvetoed⟩ := of_decide_eq_true hp
  have hblank := (h x hx 0 fun hr => ?_).blank
  · rw [hblank] at hvetoed
    exact absurd hvetoed (by decide)
  · obtain ⟨_, _, hm⟩ := hr
    rw [List.isEmpty_iff.mp hempty] at hm
    exact absurd hm List.not_mem_nil

end Proof

end Nouns
