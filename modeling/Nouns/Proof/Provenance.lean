import Nouns.Proof.DAOSettings
import Nouns.Proof.UnmadeProposals

/-!
# Where proposals come from

Every proposal on the books was submitted by an account that had the votes for it, and stands
there as submitted. So every call of the treasury goes back to a submission: its target, value
and data are those of an action submitted days before, by an eligible account, and carried by a
share of the supply of that moment.
-/

namespace Nouns.Proof

open Evm CallMachine

/-! ## Submitting -/

variable {H : Type} {env : Env H} {w : Governance H} {s s' : NounsDAO} {id : Nat}

/-- `tx`, sent in the world `w`, submits proposal `id` on the terms `t`. -/
structure Submits (w : Governance H) (tx : GovernanceTx) (id : Nat) (t : Terms) : Prop where
  call : ∃ description,
    tx.call = .propose t.targets t.values t.signatures t.calldatas description
  proposer : t.proposer = tx.sender
  next : id = w.dao.proposalCount + 1
  actions : 0 < t.targets.length ∧ t.targets.length ≤ proposalMaxOperations
  even : t.targets.length = t.values.length ∧ t.targets.length = t.signatures.length
    ∧ t.targets.length = t.calldatas.length
  startBlock : t.startBlock = w.block.number + w.dao.votingDelay
  endBlock : t.endBlock = t.startBlock + w.dao.votingPeriod
  threshold : t.proposalThreshold = w.token.totalSupply * w.dao.proposalThresholdBPS / 10000
  quorum : t.quorumVotes = w.token.totalSupply * w.dao.quorumVotesBPS / 10000
  eligible : ∃ votes, w.token.getPriorVotes w.block tx.sender (w.block.number - 1) = .ok votes
    ∧ t.proposalThreshold < votes
  inRange : w.dao.settings.InRange

theorem bps2Uint_ok {bps number n : Nat} (h : bps2Uint bps number = .ok n) :
    n = number * bps / 10000 := by
  simp only [bps2Uint, bind_ok, mul_ok] at h
  obtain ⟨_, ⟨_, rfl⟩, h⟩ := h
  exact (Except.ok.inj h).symm

/-- What `propose` puts on the books. -/
theorem propose_submits {sender : Address} {targets : List Address} {values : List Nat}
    {signatures : List String} {calldatas : List Bytes} {description : String}
    (hr : w.dao.settings.InRange)
    (h : w.dao.propose sender w.block w.token targets values signatures calldatas description
      = .ok (s', id)) :
    Submits w ⟨sender, .propose targets values signatures calldatas description⟩ id
      (s'.proposals id).terms := by
  simp only [NounsDAO.propose, bind_ok, require_ok, add_ok, sub_ok] at h
  obtain ⟨threshold, hthreshold, _, ⟨_, rfl⟩, votes, hvotes, _, helig, _, heven, _, hsome, _, hmax,
    _, _, _, ⟨_, rfl⟩, _, ⟨_, rfl⟩, _, ⟨_, rfl⟩, quorum, hquorum, h⟩ := h
  obtain ⟨rfl, rfl⟩ := Prod.mk.inj (Except.ok.inj h)
  have hterms : (Function.update w.dao.proposals (w.dao.proposalCount + 1)
      ((w.dao.proposals (w.dao.proposalCount + 1)).write (w.dao.proposalCount + 1) sender threshold
        quorum targets values signatures calldatas (w.block.number + w.dao.votingDelay)
        (w.block.number + w.dao.votingDelay + w.dao.votingPeriod))
      (w.dao.proposalCount + 1)).terms
      = ⟨sender, threshold, quorum, targets, values, signatures, calldatas,
        w.block.number + w.dao.votingDelay,
        w.block.number + w.dao.votingDelay + w.dao.votingPeriod⟩ := by
    rw [Function.update_self]
    rfl
  show Submits w _ _ (Function.update w.dao.proposals (w.dao.proposalCount + 1) _ _).terms
  rw [hterms]
  exact ⟨⟨description, rfl⟩, rfl, rfl, ⟨Nat.pos_of_ne_zero hsome, hmax⟩, heven, rfl, rfl,
    bps2Uint_ok hthreshold, bps2Uint_ok hquorum, ⟨votes, hvotes, helig⟩, hr⟩

variable [DecidableEq H] {x y z : GovConfig H}

/-- Proposal `id` was submitted on the terms `t` on the way to `x`. -/
def SubmittedBefore (P : GovConfig H → GovLabel → Prop) (d : Deployment env) (x : GovConfig H)
    (id : Nat) (t : Terms) : Prop :=
  ∃ y tx z, (governanceMachine env).Runs P ⟨d.world, []⟩ y
    ∧ (governanceMachine env).Step y (.enter tx) z ∧ (governanceMachine env).Runs P z x
    ∧ Submits y.world tx id t

theorem submitted_runs {P : GovConfig H → GovLabel → Prop} {d : Deployment env}
    (hx : (governanceMachine env).Runs P ⟨d.world, []⟩ x) (hpos : 0 < id)
    (hid : id ≤ x.world.dao.proposalCount) :
    SubmittedBefore P d x id (x.world.dao.proposals id).terms := by
  have hstart : ¬ id ≤ d.world.dao.proposalCount := by
    have hzero : d.dao.proposalCount = 0 := (deployment_unused d).1
    show ¬ id ≤ d.dao.proposalCount
    omega
  obtain ⟨y, l, z, hy, hbefore, hP, hs, hafter, hlast⟩ :=
    hx.began (p := fun w => id ≤ w.dao.proposalCount) hstart hid
  have hsetUp := setUp_runs hy
  have hdao : DAOInv y.world :=
    daoInv_runs (hy.mono fun _ _ _ => trivial)
  have hon := (step_effect hs).onward hdao
  have hsince : (governanceMachine env).Runs P z x := hlast.mono fun _ _ h => h.1
  have hterms : (x.world.dao.proposals id).terms = (z.world.dao.proposals id).terms :=
    ((onward_runs hon.inv hsince).advances id hafter).terms
  cases step_minded hsetUp.1 hs with
  | quiet hq => exact absurd (hq.2 ▸ hafter) hbefore
  | amends _ hcount => exact absurd (hcount ▸ hafter) hbefore
  | proposes hp =>
      obtain ⟨_, hnew⟩ := propose_shape hp
      have hcount : z.world.dao.proposalCount = y.world.dao.proposalCount + 1 := by
        obtain ⟨_, _, hbook⟩ := hnew.book
        rw [hbook]
      obtain rfl : id = y.world.dao.proposalCount + 1 := by omega
      rw [hterms]
      exact ⟨y, _, z, hy, hs, hsince, propose_submits hsetUp.2 hp⟩

/--
**Where proposals come from.** In every history each proposal on the books was submitted by a
`propose` call: its proposer, actions, voting blocks, threshold and quorum are what the call and
the state at that moment say, the proposer had more votes than the threshold, and the parameters
behind the terms were in range.
-/
theorem proposal_submitted (env : Env H) (d : Deployment env) (x : GovConfig H)
    (hx : GovRuns d x) (id : Nat) (hpos : 0 < id) (hid : id ≤ x.world.dao.proposalCount) :
    SubmittedBefore Free d x id (x.world.dao.proposals id).terms :=
  submitted_runs hx hpos hid

/-- Account 2 proposes the payment. -/
theorem proposal_submitted_payment : ∃ x, GovRuns smallDeployment x
    ∧ SubmittedBefore Free smallDeployment x 1 (x.world.dao.proposals 1).terms := by
  obtain ⟨x, hx, hp⟩ := Machine.script_exists (M := governanceMachine smallEnv)
    Machine.anything_free (x := ⟨smallDeployment.world, []⟩)
    (m := [.enter mintTwo, .tick ⟨2, 20⟩, .enter (daoTx 2 proposePayment)])
    (p := fun x => x.world.dao.proposalCount = 1) (by decide +kernel)
  exact ⟨x, hx, proposal_submitted smallEnv smallDeployment x hx 1 (by decide)
    (Nat.le_of_eq (of_decide_eq_true hp).symm)⟩

/-! ## What a call of the treasury goes back to -/

/-- What the calls on record saw of the proposals is what the books still say. -/
def TermsKept (x : GovConfig H) : Prop :=
  ∀ c, .called c ∈ x.world.history → c.dao.proposalCount ≤ x.world.dao.proposalCount
    ∧ ∀ id, id ≤ c.dao.proposalCount →
      (x.world.dao.proposals id).terms = (c.dao.proposals id).terms

omit [DecidableEq H] in
/-- Old calls stay as they are, and a new one sees the books of its moment. -/
theorem TermsKept.onward (h : TermsKept x) (ho : Onward x.world y.world)
    (hnew : ∀ c, .called c ∈ y.world.history → .called c ∈ x.world.history ∨
      c.dao.proposalCount = y.world.dao.proposalCount
        ∧ c.dao.proposals = y.world.dao.proposals) : TermsKept y := by
  intro c hc
  rcases hnew c hc with hold | ⟨hcount, hproposals⟩
  · obtain ⟨hle, hterms⟩ := h c hold
    exact ⟨hle.trans ho.count, fun id hid =>
      ((ho.advances id (hid.trans hle)).terms).trans (hterms id hid)⟩
  · rw [hcount, hproposals]
    exact ⟨Nat.le_refl _, fun _ _ => rfl⟩

theorem Act.termsKept {i : Nat} {fs : List GovernanceFrame} (hdao : DAOInv w)
    (h : TermsKept ⟨w, fs⟩) (ha : Act env id i w fs y) : TermsKept y := by
  have hon := ha.onward hdao
  cases ha with
  | finishes => exact TermsKept.onward (x := ⟨w, fs⟩) h hon fun c hc => .inl hc
  | @calls w' t _ _ hct =>
      obtain rfl := hct.book
      refine TermsKept.onward (x := ⟨w, fs⟩) h hon ?_
      intro c hc
      rcases List.mem_append.mp hc with hc | hc
      · exact .inl hc
      · cases List.mem_singleton.mp hc
        exact .inr ⟨rfl, rfl⟩

theorem GovEffect.termsKept {l : GovLabel} (hdao : DAOInv x.world) (h : TermsKept x)
    (hadmin : AdminIsDAO env x l) (he : GovEffect env x l y) : TermsKept y := by
  have hon := he.onward hdao
  cases he with
  | token | reconfigure | administer | vote | stop | returned | tick =>
      exact h.onward hon fun c hc => .inl hc
  | propose | queue =>
      refine h.onward hon fun c hc => .inl ?_
      rcases List.mem_append.mp hc with hc | hc
      · exact hc
      · cases List.mem_singleton.mp hc
  | @execute w fs l s id y hstart ha =>
      have hs : Onward w { w with dao := s } :=
        DAOInv.write hdao (e := w.executor) ⟨w.dao.logs, hstart.book⟩ hstart.id_le
          hdao.delay (ProposalOk.execute (hdao.proposals id) hstart.queued) (List.prefix_refl _)
          (fun _ => .inl rfl)
      exact Act.termsKept hs.inv (TermsKept.onward (y := ⟨{ w with dao := s }, fs⟩) h hs
        fun c hc => .inl hc) ha
  | @next w fs id i t logs y ha =>
      have hs : Onward w { w with executor := { w.executor with logs := logs } } :=
        DAOInv.unchanged hdao rfl rfl rfl hdao.delay (List.prefix_refl _)
      exact Act.termsKept hs.inv (TermsKept.onward
        (y := ⟨{ w with executor := { w.executor with logs := logs } }, fs⟩) h hs
        fun c hc => .inl hc) ha
  | direct hne => exact absurd hadmin hne

theorem termsKept_runs {d : Deployment env}
    (hx : (governanceMachine env).Runs (AdminIsDAO env) ⟨d.world, []⟩ x) : TermsKept x := by
  have hboth : DAOInv x.world ∧ TermsKept x :=
    governance_runs (I := fun x => DAOInv x.world ∧ TermsKept x)
      (fun hI hP he => ⟨(he.onward hI.1).inv, he.termsKept hI.1 hI.2 hP⟩) hx
      ⟨daoInv_deployment d, fun _ hc => absurd hc List.not_mem_nil⟩
  exact hboth.2

/--
What stands behind the call `c` of action `i` of proposal `id`, submitted by `tx` in the world
`w`: the action as submitted, the blocks gone by, and votes from a share of the supply.
-/
structure Backed (env : Env H) (w : Governance H) (tx : GovernanceTx) (c : TargetCall)
    (id i : Nat) : Prop where
  submits : Submits w tx id (c.dao.proposals id).terms
  target : (c.dao.proposals id).targets[i]? = some c.target
  value : (c.dao.proposals id).values[i]? = some c.value
  callData : ∃ signature data eta, (c.dao.proposals id).signatures[i]? = some signature
    ∧ (c.dao.proposals id).calldatas[i]? = some data
    ∧ c.callData = NounsDAOExecutor.callData env.hashing ⟨c.target, c.value, signature, data, eta⟩
  waited : w.block.number + MIN_VOTING_DELAY + MIN_VOTING_PERIOD < c.block.number
  carried : (c.dao.proposals id).againstVotes < (c.dao.proposals id).forVotes
  share : w.token.totalSupply * MIN_QUORUM_VOTES_BPS / 10000 ≤ (c.dao.proposals id).forVotes

omit [DecidableEq H] in
theorem Authorized.backed {before : List Milestone} {c : TargetCall} {tx : GovernanceTx} {i : Nat}
    (h : Authorized env before c id i) (hs : Submits w tx id (c.dao.proposals id).terms) :
    Backed env w tx c id i := by
  obtain ⟨⟨target, value, signature, data, eta⟩, ht, htarget, hvalue, hdata⟩ := h.action
  obtain ⟨h1, h2, h3, h4, -⟩ := action_ok.mp ht
  obtain rfl : c.target = target := htarget
  obtain rfl : c.value = value := hvalue
  refine ⟨hs, h1, h2, ⟨signature, data, eta, h3, h4, hdata⟩, ?_, h.carried, ?_⟩
  · have hstart : (c.dao.proposals id).startBlock = w.block.number + w.dao.votingDelay :=
      hs.startBlock
    have hend : (c.dao.proposals id).endBlock
        = (c.dao.proposals id).startBlock + w.dao.votingPeriod := hs.endBlock
    have hdelay : MIN_VOTING_DELAY ≤ w.dao.votingDelay := hs.inRange.votingDelay.1
    have hperiod : MIN_VOTING_PERIOD ≤ w.dao.votingPeriod := hs.inRange.votingPeriod.1
    have hended := h.ended
    omega
  · have hquorum : (c.dao.proposals id).quorumVotes
        = w.token.totalSupply * w.dao.quorumVotesBPS / 10000 := hs.quorum
    have hbps : MIN_QUORUM_VOTES_BPS ≤ w.dao.quorumVotesBPS := hs.inRange.quorumVotesBPS.1
    calc w.token.totalSupply * MIN_QUORUM_VOTES_BPS / 10000
        ≤ w.token.totalSupply * w.dao.quorumVotesBPS / 10000 :=
          Nat.div_le_div_right (Nat.mul_le_mul_left _ hbps)
      _ = (c.dao.proposals id).quorumVotes := hquorum.symm
      _ ≤ (c.dao.proposals id).forVotes := h.quorum

/--
**What a call of the treasury goes back to.** In every history in which the DAO is the executor's
admin, every call of the executor to a target is, besides being authorized, an action that some
account with the votes for it submitted, called as submitted, more than 5761 blocks later, and
carried by votes of at least two percent of the supply of that moment.
-/
theorem treasury_calls_backed (env : Env H) (d : Deployment env) (x : GovConfig H)
    (hx : (governanceMachine env).Runs (AdminIsDAO env) ⟨d.world, []⟩ x) (j : Nat) (c : TargetCall)
    (hj : x.world.history[j]? = some (.called c)) :
    ∃ id i y tx z, Authorized env (x.world.history.take j) c id i
      ∧ (governanceMachine env).Runs (AdminIsDAO env) ⟨d.world, []⟩ y
      ∧ (governanceMachine env).Step y (.enter tx) z
      ∧ (governanceMachine env).Runs (AdminIsDAO env) z x
      ∧ Backed env y.world tx c id i := by
  obtain ⟨id, i, hauth⟩ := (authorityInv_runs hx).authorized j c hj
  obtain ⟨hcount, hterms⟩ := termsKept_runs hx c (List.mem_of_getElem? hj)
  have hpos : 0 < id := by
    -- proposal 0 has no actions
    by_contra hzero
    obtain rfl : id = 0 := by omega
    obtain ⟨t, ht, -⟩ := hauth.action
    have hzeroth := (givenOut_runs (hx.mono fun _ _ _ => trivial)).zeroth.terms
    have hnone : (c.dao.proposals 0).targets = [] :=
      congrArg Terms.targets ((hterms 0 (Nat.zero_le _)).symm.trans hzeroth)
    have htarget := (action_ok.mp ht).1
    rw [hnone] at htarget
    cases htarget
  obtain ⟨y, tx, z, hy, hs, hz, hsub⟩ := submitted_runs hx hpos (hauth.proposed.trans hcount)
  rw [hterms id hauth.proposed] at hsub
  exact ⟨id, i, y, tx, z, hauth, hy, hs, hz, hauth.backed hsub⟩

/-- The payment to account 9 goes back to the proposal of account 2. -/
theorem treasury_calls_backed_payment : ∃ (y : GovConfig Transaction) (tx : GovernanceTx)
    (c : TargetCall) (id i : Nat), c.target = .ofNat 9 ∧ GovRuns smallDeployment y
      ∧ Backed smallEnv y.world tx c id i := by
  obtain ⟨x, hx, hp⟩ := Machine.script_exists (M := governanceMachine smallEnv)
    adminIsSmallDAO_adminIsDAO (x := ⟨smallDeployment.world, []⟩)
    (m := votedPayment ++
      [.tick ⟨6001, 60000 + MINIMUM_DELAY⟩, .enter (daoTx 5 (.execute 1)), .resume])
    (p := fun x => paid x.world.history[2]?) (by decide +kernel)
  rcases hc : x.world.history[2]? with _ | m
  · rw [hc] at hp
    cases hp
  · rw [hc] at hp
    cases m with
    | called c =>
        obtain ⟨id, i, y, tx, z, -, hy, -, -, hbacked⟩ :=
          treasury_calls_backed smallEnv smallDeployment x hx 2 c hc
        exact ⟨y, tx, c, id, i, of_decide_eq_true hp, hy.mono fun _ _ _ => trivial, hbacked⟩
    | proposed | queued => cases hp

end Nouns.Proof
