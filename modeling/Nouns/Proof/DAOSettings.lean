import Nouns.Lib.Traces
import Nouns.Proof.TreasuryAuthority

/-!
# The DAO's settings

Roles and parameters change by the administrative calls alone, each made by the account that
holds the role it asks for. Where that role is the timelock's, the call is made from inside the
execution of a proposal, so the settings are amended only by what was voted for.
-/

namespace Nouns

open Evm

/-- The roles and the parameters of the DAO. -/
structure Settings where
  admin : Address
  pendingAdmin : Address
  vetoer : Address
  votingDelay : Nat
  votingPeriod : Nat
  proposalThresholdBPS : Nat
  quorumVotesBPS : Nat
  timelock : Address
  nouns : Address

def NounsDAO.settings (s : NounsDAO) : Settings where
  admin := s.admin
  pendingAdmin := s.pendingAdmin
  vetoer := s.vetoer
  votingDelay := s.votingDelay
  votingPeriod := s.votingPeriod
  proposalThresholdBPS := s.proposalThresholdBPS
  quorumVotesBPS := s.quorumVotesBPS
  timelock := s.timelock
  nouns := s.nouns

/-- The parameters are where `initialize` and the setters let them be. -/
structure Settings.InRange (s : Settings) : Prop where
  votingDelay : MIN_VOTING_DELAY ≤ s.votingDelay ∧ s.votingDelay ≤ MAX_VOTING_DELAY
  votingPeriod : MIN_VOTING_PERIOD ≤ s.votingPeriod ∧ s.votingPeriod ≤ MAX_VOTING_PERIOD
  proposalThresholdBPS : MIN_PROPOSAL_THRESHOLD_BPS ≤ s.proposalThresholdBPS
    ∧ s.proposalThresholdBPS ≤ MAX_PROPOSAL_THRESHOLD_BPS
  quorumVotesBPS : MIN_QUORUM_VOTES_BPS ≤ s.quorumVotesBPS ∧ s.quorumVotesBPS ≤ MAX_QUORUM_VOTES_BPS

namespace Proof

open CallMachine

/-- What a call of `sender` does to the settings `s`, once the DAO is initialized. -/
inductive Amends (sender : Address) (s : Settings) : GovernanceCall → Settings → Prop where
  | votingDelay {n : Nat} : sender = s.admin → MIN_VOTING_DELAY ≤ n ∧ n ≤ MAX_VOTING_DELAY →
      Amends sender s (.setVotingDelay_ n) { s with votingDelay := n }
  | votingPeriod {n : Nat} : sender = s.admin → MIN_VOTING_PERIOD ≤ n ∧ n ≤ MAX_VOTING_PERIOD →
      Amends sender s (.setVotingPeriod_ n) { s with votingPeriod := n }
  | proposalThresholdBPS {n : Nat} : sender = s.admin →
      MIN_PROPOSAL_THRESHOLD_BPS ≤ n ∧ n ≤ MAX_PROPOSAL_THRESHOLD_BPS →
      Amends sender s (.setProposalThresholdBPS_ n) { s with proposalThresholdBPS := n }
  | quorumVotesBPS {n : Nat} : sender = s.admin →
      MIN_QUORUM_VOTES_BPS ≤ n ∧ n ≤ MAX_QUORUM_VOTES_BPS →
      Amends sender s (.setQuorumVotesBPS_ n) { s with quorumVotesBPS := n }
  | pendingAdmin {a : Address} : sender = s.admin →
      Amends sender s (.setPendingAdmin_ a) { s with pendingAdmin := a }
  | admin : sender = s.pendingAdmin → sender ≠ 0 →
      Amends sender s .acceptAdmin_ { s with admin := sender, pendingAdmin := 0 }
  | vetoer {a : Address} : sender = s.vetoer →
      Amends sender s (.setVetoer_ a) { s with vetoer := a }
  | burn : sender = s.vetoer → Amends sender s .burnVetoPower_ { s with vetoer := 0 }

variable {H : Type} {env : Env H} {w : Governance H} {s s' : NounsDAO} {id : Nat}

/-- Neither the settings differ nor the number of proposals. -/
def Quiet (s s' : NounsDAO) : Prop :=
  s'.settings = s.settings ∧ s'.proposalCount = s.proposalCount

theorem Wrote.quiet {p : Proposal} (h : Wrote id p s s') : Quiet s s' := by
  obtain ⟨_, rfl⟩ := h
  exact ⟨rfl, rfl⟩

theorem Proposed.settings {block : Block} {p : Proposal} (h : Proposed block id s s' p) :
    s'.settings = s.settings := by
  obtain ⟨_, _, rfl⟩ := h.book
  rfl

theorem Amends.timelock {sender : Address} {c : GovernanceCall} {t t' : Settings}
    (h : Amends sender t c t') : t'.timelock = t.timelock := by
  cases h <;> rfl

/-- Whose call it is. -/
theorem Amends.role {sender : Address} {c : GovernanceCall} {t t' : Settings}
    (h : Amends sender t c t') : sender = t.admin
      ∨ (c = .acceptAdmin_ ∧ sender = t.pendingAdmin ∧ sender ≠ 0)
      ∨ (sender = t.vetoer ∧ (c = .burnVetoPower_ ∨ ∃ a, c = .setVetoer_ a)) := by
  cases h with
  | votingDelay hs | votingPeriod hs | proposalThresholdBPS hs | quorumVotesBPS hs
    | pendingAdmin hs => exact .inl hs
  | admin hs hne => exact .inr (.inl ⟨rfl, hs, hne⟩)
  | vetoer hs => exact .inr (.inr ⟨hs, .inr ⟨_, rfl⟩⟩)
  | burn hs => exact .inr (.inr ⟨hs, .inl rfl⟩)

theorem Amends.inRange {sender : Address} {c : GovernanceCall} {t t' : Settings}
    (h : Amends sender t c t') (hr : t.InRange) : t'.InRange := by
  obtain ⟨h1, h2, h3, h4⟩ := hr
  cases h with
  | votingDelay _ hn => exact ⟨hn, h2, h3, h4⟩
  | votingPeriod _ hn => exact ⟨h1, hn, h3, h4⟩
  | proposalThresholdBPS _ hn => exact ⟨h1, h2, hn, h4⟩
  | quorumVotesBPS _ hn => exact ⟨h1, h2, h3, hn⟩
  | pendingAdmin | admin | vetoer | burn => exact ⟨h1, h2, h3, h4⟩

variable [DecidableEq H] {fs : List GovernanceFrame} {o : Outcome (Governance H) GovernanceFrame}
  {x y : GovConfig H}

theorem Act.leavesSettings {i : Nat} (ha : Act env id i w fs y) : Quiet w.dao y.world.dao := by
  cases ha with
  | calls _ _ hct =>
      rw [hct.book]
      exact ⟨rfl, rfl⟩
  | finishes _ => exact ⟨rfl, rfl⟩

/-- The calls that are about the settings. -/
def isAdministrative : GovernanceCall → Bool
  | .initialize_ .. | .setVotingDelay_ _ | .setVotingPeriod_ _ | .setProposalThresholdBPS_ _
    | .setQuorumVotesBPS_ _ | .setPendingAdmin_ _ | .acceptAdmin_ | .setVetoer_ _
    | .burnVetoPower_ => true
  | _ => false

/-- A call of `propose`. -/
def isProposal : GovernanceCall → Bool
  | .propose .. => true
  | _ => false

/-- All other calls leave the settings and the number of proposals alone. -/
theorem enter_quiet {tx : GovernanceTx} (hc : isAdministrative tx.call = false)
    (hp : isProposal tx.call = false) (h : Governance.enter env tx w = .ok o)
    (hl : (governanceMachine env).Lands o fs y) : Quiet w.dao y.world.dao := by
  obtain ⟨sender, call⟩ := tx
  cases call with
  | token view call =>
      simp only [Governance.enter, bind_ok] at h
      obtain ⟨s, _, h⟩ := h
      split_ifs at h
      · obtain rfl := Except.ok.inj h
        obtain ⟨_, he, _⟩ | ⟨_, _, _, he, rfl⟩ := lands_cases hl
        · cases he
        · cases he
          exact ⟨rfl, rfl⟩
      · obtain rfl := Except.ok.inj h
        cases hl
        exact ⟨rfl, rfl⟩
  | executor c =>
      cases c with
      | executeTransaction t =>
          simp only [Governance.enter, Governance.enterExecutor, bind_ok] at h
          obtain ⟨w', hcall, h⟩ := h
          obtain rfl := Except.ok.inj h
          obtain rfl := (callTarget_shape hcall).2.book
          obtain ⟨_, he, _⟩ | ⟨_, _, _, he, rfl⟩ := lands_cases hl
          · cases he
          · cases he
            exact ⟨rfl, rfl⟩
      | _ =>
          obtain ⟨_, _, rfl⟩ := onExecutor_lands h hl
          exact ⟨rfl, rfl⟩
  | queue id =>
      simp only [Governance.enter, bind_ok] at h
      obtain ⟨⟨s, e⟩, hs, h⟩ := h
      obtain rfl := Except.ok.inj h
      cases hl
      exact (queue_shape hs).book.quiet
  | execute id =>
      simp only [Governance.enter, bind_ok] at h
      obtain ⟨s, hs, h⟩ := h
      obtain rfl := (execute_shape hs).book
      exact (executeActions_act h hl).leavesSettings
  | cancel id =>
      obtain ⟨s, e, hs, rfl⟩ := onBoth_lands h hl
      exact (cancel_shape hs).wrote.quiet
  | veto id =>
      obtain ⟨s, e, hs, rfl⟩ := onBoth_lands h hl
      exact (veto_shape hs).wrote.quiet
  | castVote id support | castVoteWithReason id support reason =>
      obtain ⟨s, hs, rfl⟩ := onDAO_lands h hl
      obtain ⟨_, hv⟩ := castVote_shape hs
      obtain ⟨_, _, _, _, _, hw⟩ := hv.book
      exact hw.quiet
  | castVoteBySig id support sig =>
      obtain ⟨s, hs, rfl⟩ := onDAO_lands h hl
      obtain ⟨_, _, hs⟩ := bind_ok.mp hs
      obtain ⟨_, hv⟩ := castVote_shape hs
      obtain ⟨_, _, _, _, _, hw⟩ := hv.book
      exact hw.quiet
  | propose => cases hp
  | _ => cases hc

/-- The administrative calls, once the DAO is initialized. -/
theorem enter_amends {tx : GovernanceTx} (hc : isAdministrative tx.call = true)
    (hset : w.dao.timelock ≠ 0) (h : Governance.enter env tx w = .ok o)
    (hl : (governanceMachine env).Lands o fs y) :
    Amends tx.sender w.dao.settings tx.call y.world.dao.settings
      ∧ y.world.dao.proposalCount = w.dao.proposalCount := by
  obtain ⟨sender, call⟩ := tx
  cases call with
  | initialize_ timelock nouns vetoer period delay threshold quorum =>
      obtain ⟨s, hs, rfl⟩ := onDAO_lands h hl
      obtain ⟨_, hzero, _⟩ := bind_ok.mp hs
      exact absurd (require_ok.mp hzero) hset
  | setVotingDelay_ n =>
      obtain ⟨s, hs, rfl⟩ := onDAO_lands h hl
      simp only [NounsDAO.setVotingDelay_, bind_ok, require_ok] at hs
      obtain ⟨_, hadmin, _, hn, hs⟩ := hs
      obtain rfl := Except.ok.inj hs
      exact ⟨.votingDelay hadmin hn, rfl⟩
  | setVotingPeriod_ n =>
      obtain ⟨s, hs, rfl⟩ := onDAO_lands h hl
      simp only [NounsDAO.setVotingPeriod_, bind_ok, require_ok] at hs
      obtain ⟨_, hadmin, _, hn, hs⟩ := hs
      obtain rfl := Except.ok.inj hs
      exact ⟨.votingPeriod hadmin hn, rfl⟩
  | setProposalThresholdBPS_ n =>
      obtain ⟨s, hs, rfl⟩ := onDAO_lands h hl
      simp only [NounsDAO.setProposalThresholdBPS_, bind_ok, require_ok] at hs
      obtain ⟨_, hadmin, _, hn, hs⟩ := hs
      obtain rfl := Except.ok.inj hs
      exact ⟨.proposalThresholdBPS hadmin hn, rfl⟩
  | setQuorumVotesBPS_ n =>
      obtain ⟨s, hs, rfl⟩ := onDAO_lands h hl
      simp only [NounsDAO.setQuorumVotesBPS_, bind_ok, require_ok] at hs
      obtain ⟨_, hadmin, _, hn, hs⟩ := hs
      obtain rfl := Except.ok.inj hs
      exact ⟨.quorumVotesBPS hadmin hn, rfl⟩
  | setPendingAdmin_ a =>
      obtain ⟨s, hs, rfl⟩ := onDAO_lands h hl
      simp only [NounsDAO.setPendingAdmin_, bind_ok, require_ok] at hs
      obtain ⟨_, hadmin, hs⟩ := hs
      obtain rfl := Except.ok.inj hs
      exact ⟨.pendingAdmin hadmin, rfl⟩
  | acceptAdmin_ =>
      obtain ⟨s, hs, rfl⟩ := onDAO_lands h hl
      simp only [NounsDAO.acceptAdmin_, bind_ok, require_ok] at hs
      obtain ⟨_, hpending, hs⟩ := hs
      obtain rfl := Except.ok.inj hs
      obtain ⟨rfl, hne⟩ := hpending
      exact ⟨.admin rfl hne, rfl⟩
  | setVetoer_ a =>
      obtain ⟨s, hs, rfl⟩ := onDAO_lands h hl
      simp only [NounsDAO.setVetoer_, bind_ok, require_ok] at hs
      obtain ⟨_, hvetoer, hs⟩ := hs
      obtain rfl := Except.ok.inj hs
      exact ⟨.vetoer hvetoer, rfl⟩
  | burnVetoPower_ =>
      obtain ⟨s, hs, rfl⟩ := onDAO_lands h hl
      simp only [NounsDAO.burnVetoPower_, NounsDAO.setVetoer_, bind_ok, require_ok] at hs
      obtain ⟨_, hvetoer, _, _, hs⟩ := hs
      obtain rfl := Except.ok.inj hs
      exact ⟨.burn hvetoer, rfl⟩
  | _ => cases hc

/-- A step leaves settings and proposals in number, amends the settings, or proposes. -/
inductive Minded (env : Env H) (x : GovConfig H) : GovLabel → GovConfig H → Prop where
  | quiet {l : GovLabel} {y : GovConfig H} : Quiet x.world.dao y.world.dao → Minded env x l y
  | amends {tx : GovernanceTx} {y : GovConfig H} :
      Amends tx.sender x.world.dao.settings tx.call y.world.dao.settings →
      y.world.dao.proposalCount = x.world.dao.proposalCount → Minded env x (.enter tx) y
  | proposes {sender : Address} {targets : List Address} {values : List Nat}
      {signatures : List String} {calldatas : List Bytes} {description : String} {y : GovConfig H} :
      x.world.dao.propose sender x.world.block x.world.token targets values signatures calldatas
        description = .ok (y.world.dao, x.world.dao.proposalCount + 1) →
      Minded env x (.enter ⟨sender, .propose targets values signatures calldatas description⟩) y

/-- **What a step does to the settings and the list of proposals.** -/
theorem step_minded {l : GovLabel} (hset : x.world.dao.timelock ≠ 0)
    (hs : (governanceMachine env).Step x l y) : Minded env x l y := by
  cases hs with
  | @enter tx w fs o _ _ he hl =>
      by_cases hc : isAdministrative tx.call = true
      · obtain ⟨hamends, hcount⟩ := enter_amends hc hset he hl
        exact .amends hamends hcount
      · by_cases hp : isProposal tx.call = true
        · obtain ⟨sender, call⟩ := tx
          cases call with
          | propose targets values signatures calldatas description =>
              simp only [governanceMachine, Governance.enter, bind_ok] at he
              obtain ⟨⟨s, id⟩, hs, he⟩ := he
              obtain rfl := Except.ok.inj he
              obtain ⟨p, hp⟩ := propose_shape hs
              obtain rfl := hp.id_eq
              cases hl
              exact .proposes hs
          | _ => cases hp
        · exact .quiet (enter_quiet (Bool.eq_false_of_not_eq_true hc)
            (Bool.eq_false_of_not_eq_true hp) he hl)
  | @resume f w fs o _ hr hl =>
      refine .quiet ?_
      cases f with
      | onERC721Received =>
          obtain ⟨_, _, hr⟩ := bind_ok.mp hr
          obtain rfl := Except.ok.inj hr
          cases hl
          exact ⟨rfl, rfl⟩
      | execute id i t =>
          simp only [governanceMachine, Governance.resume, NounsDAOExecutor.executeTransactionEnd,
            bind_ok] at hr
          obtain ⟨_, ⟨_, _, he⟩, hr⟩ := hr
          obtain rfl := Except.ok.inj he
          exact (executeActions_act hr hl).leavesSettings
      | executeTransaction t =>
          obtain ⟨_, _, rfl⟩ := onExecutor_lands hr hl
          exact ⟨rfl, rfl⟩
  | tick ht =>
      simp only [governanceMachine, Option.map_eq_some_iff] at ht
      obtain ⟨_, _, rfl⟩ := ht
      exact .quiet ⟨rfl, rfl⟩

/-- **What a step does to the settings.** -/
theorem step_settings {l : GovLabel} (hset : x.world.dao.timelock ≠ 0)
    (hs : (governanceMachine env).Step x l y) :
    y.world.dao.settings = x.world.dao.settings
    ∨ ∃ tx, l = .enter tx
      ∧ Amends tx.sender x.world.dao.settings tx.call y.world.dao.settings := by
  cases step_minded hset hs with
  | quiet hq => exact .inl hq.1
  | amends ha => exact .inr ⟨_, rfl, ha⟩
  | proposes hp =>
      obtain ⟨_, hp⟩ := propose_shape hp
      exact .inl hp.settings

/-! ## Along a history -/

omit [DecidableEq H] in
/-- A DAO starts with its parameters in range and nobody nominated. -/
theorem settings_deployment (d : Deployment env) : d.dao.timelock ≠ 0
    ∧ d.dao.settings.InRange ∧ d.dao.pendingAdmin = 0 := by
  obtain ⟨_, _, _, _, _, _, _, h⟩ := d.dao_deployed
  simp only [NounsDAO.deploy, NounsDAO.initialize_, bind_ok, require_ok] at h
  obtain ⟨_, ⟨_, _, _, _, _, htimelock, _, _, _, hperiod, _, hdelay, _, hthreshold, _, hquorum, h⟩,
    hd⟩ := h
  obtain rfl := Except.ok.inj h
  rw [← Except.ok.inj hd]
  exact ⟨htimelock, ⟨hdelay, hperiod, hthreshold, hquorum⟩, rfl⟩

/-- Initialized, with parameters in range. -/
def SetUp (s : NounsDAO) : Prop := s.timelock ≠ 0 ∧ s.settings.InRange

theorem SetUp.step {l : GovLabel} (h : SetUp x.world.dao) (hs : (governanceMachine env).Step x l y) :
    SetUp y.world.dao := by
  obtain ⟨hset, hr⟩ := h
  rcases step_settings hset hs with heq | ⟨tx, -, ha⟩
  · exact ⟨by rw [← heq] at hr; exact fun h => hset ((congrArg Settings.timelock heq).symm.trans h),
      heq ▸ hr⟩
  · exact ⟨fun h => hset (ha.timelock.symm.trans h), ha.inRange hr⟩

theorem setUp_runs {P : GovConfig H → GovLabel → Prop} {d : Deployment env}
    (hx : (governanceMachine env).Runs P ⟨d.world, []⟩ x) : SetUp x.world.dao := by
  induction hx with
  | refl => exact ⟨(settings_deployment d).1, (settings_deployment d).2.1⟩
  | tail _ hs ih =>
      obtain ⟨_, _, hs⟩ := hs
      exact ih.step hs

/-- What is pending is the execution of proposals, and the calls it waits for are on record. -/
structure OnRecord (x : GovConfig H) : Prop where
  direct : ∀ t, .executeTransaction t ∉ x.frames
  called : ∀ id i t, .execute id i t ∈ x.frames →
    ∃ c, .called c ∈ x.world.history ∧ c.origin = some (id, i)

omit [DecidableEq H] in
theorem OnRecord.keep (h : OnRecord x) (hh : x.world.history ⊆ y.world.history)
    (hf : ∀ f ∈ y.frames, f.byTimelock = true → f ∈ x.frames) : OnRecord y where
  direct t hm := h.direct t (hf _ hm rfl)
  called id i t hm := by
    obtain ⟨c, hc, horigin⟩ := h.called id i t (hf _ hm rfl)
    exact ⟨c, hh hc, horigin⟩

theorem Act.onRecord {i : Nat} (h : OnRecord ⟨w, fs⟩) (ha : Act env id i w fs y) : OnRecord y := by
  cases ha with
  | finishes => exact h.keep (fun _ hm => hm) (fun _ hm _ => hm)
  | @calls w' t _ _ hct =>
      obtain rfl := hct.book
      refine ⟨?_, ?_⟩
      · intro t' hm
        rcases List.mem_cons.mp hm with hm | hm
        · cases hm
        · exact h.direct t' hm
      · intro j k t' hm
        rcases List.mem_cons.mp hm with hm | hm
        · cases hm
          exact ⟨_, List.mem_append_right _ (List.mem_singleton.mpr rfl), rfl⟩
        · obtain ⟨c, hc, horigin⟩ := h.called j k t' hm
          exact ⟨c, List.mem_append_left _ hc, horigin⟩

theorem GovEffect.onRecord {l : GovLabel} (h : OnRecord x) (hadmin : AdminIsDAO env x l)
    (he : GovEffect env x l y) : OnRecord y := by
  cases he with
  | @token w fs fs' l s names _ hfs =>
      refine h.keep (fun _ hm => hm) ?_
      intro f hm hby
      rcases hfs with rfl | rfl
      · exact hm
      · rcases List.mem_cons.mp hm with rfl | hm
        · cases hby
        · exact hm
  | reconfigure | administer | vote | stop => exact h.keep (fun _ hm => hm) (fun _ hm _ => hm)
  | propose | queue => exact h.keep (fun _ hm => List.mem_append_left _ hm) (fun _ hm _ => hm)
  | @execute w fs l s id y _ ha =>
      exact Act.onRecord (w := { w with dao := s }) (h.keep (fun _ hm => hm) (fun _ hm _ => hm)) ha
  | @next w fs id i t logs y ha =>
      exact Act.onRecord (w := { w with executor := { w.executor with logs := logs } })
        (h.keep (fun _ hm => hm) (fun _ hm _ => List.mem_cons_of_mem _ hm)) ha
  | direct hne => exact absurd hadmin hne
  | returned => exact h.keep (fun _ hm => hm) (fun _ hm _ => List.mem_cons_of_mem _ hm)
  | tick => exact h.keep (fun _ hm => hm) (fun _ hm _ => hm)

theorem onRecord_runs {d : Deployment env}
    (hx : (governanceMachine env).Runs (AdminIsDAO env) ⟨d.world, []⟩ x) : OnRecord x :=
  governance_runs (fun hI hP he => he.onRecord hI hP) hx
    ⟨fun _ => List.not_mem_nil, fun _ _ _ hm => absurd hm List.not_mem_nil⟩

/-! ## Amendments -/

/-- The timelock is calling a target, and the call is an authorized action of a proposal. -/
def UnderProposal (env : Env H) (x : GovConfig H) : Prop :=
  ∃ id i t fs, x.frames = .execute id i t :: fs
    ∧ ∃ (j : ℕ) (c : TargetCall), x.world.history[j]? = some (.called c)
      ∧ Authorized env (x.world.history.take j) c id i

/-- The timelock calls only from inside the execution of a proposal. -/
theorem underProposal_of_timelock {d : Deployment env} {tx : GovernanceTx}
    (hx : (governanceMachine env).Runs (AdminIsDAO env) ⟨d.world, []⟩ x)
    (hs : (governanceMachine env).Step x (.enter tx) y) (hsender : tx.sender = env.timelock) :
    UnderProposal env x := by
  obtain ⟨-, -, hby⟩ := hs.allowed
  have hrecord := onRecord_runs hx
  have hby := hby hsender
  rcases hf : x.frames with _ | ⟨f, fs⟩
  · rw [hf] at hby
    cases hby
  · rw [hf] at hby
    cases f with
    | onERC721Received => cases hby
    | executeTransaction t =>
        exact absurd (by rw [hf]; exact List.mem_cons_self) (hrecord.direct t)
    | execute id i t =>
        obtain ⟨c, hc, horigin⟩ := hrecord.called id i t (by rw [hf]; exact List.mem_cons_self)
        obtain ⟨j, hj⟩ := List.getElem?_of_mem hc
        obtain ⟨id', i', hauth⟩ := (authorityInv_runs hx).authorized j c hj
        obtain ⟨rfl, rfl⟩ := Prod.mk.inj (Option.some.inj (horigin.symm.trans hauth.origin))
        exact ⟨id, i, t, fs, hf, j, c, hj, hauth⟩

/--
The timelock nominated `a` for admin from inside the execution of a proposal, and since then
`a` has been the pending admin and the timelock the admin.
-/
def Nominated (env : Env H) (d : Deployment env) (x : GovConfig H) (a : Address) : Prop :=
  ∃ u v, (governanceMachine env).Runs (AdminIsDAO env) ⟨d.world, []⟩ u ∧ UnderProposal env u
    ∧ (governanceMachine env).Step u (.enter ⟨env.timelock, .setPendingAdmin_ a⟩) v
    ∧ (governanceMachine env).Runs (fun z _ => z.world.dao.pendingAdmin = a
      ∧ z.world.dao.admin = env.timelock) v x

theorem nominated_of_pending {d : Deployment env} {a : Address}
    (hx : (governanceMachine env).Runs (AdminIsDAO env) ⟨d.world, []⟩ x) (ha : a ≠ 0)
    (hpending : x.world.dao.pendingAdmin = a) (hadmin : x.world.dao.admin = env.timelock) :
    Nominated env d x a := by
  obtain ⟨u, l, v, hu, hbefore, hP, hs, hafter, hsince⟩ := hx.began
    (p := fun w => w.dao.pendingAdmin = a ∧ w.dao.admin = env.timelock)
    (fun h0 => ha (h0.1.symm.trans (settings_deployment d).2.2)) ⟨hpending, hadmin⟩
  -- among the amendments only a nomination makes `a` pending
  rcases step_settings (setUp_runs hu).1 hs with heq | ⟨tx, rfl, hamend⟩
  · have hp := congrArg Settings.pendingAdmin heq
    have hq := congrArg Settings.admin heq
    exact absurd ⟨hp.symm.trans hafter.1, hq.symm.trans hafter.2⟩ hbefore
  · obtain ⟨sender, call⟩ := tx
    generalize hset : v.world.dao.settings = t at hamend
    have hp : t.pendingAdmin = a := by rw [← hset]; exact hafter.1
    have hq : t.admin = env.timelock := by rw [← hset]; exact hafter.2
    cases hamend with
    | pendingAdmin hsender =>
        obtain rfl : _ = a := hp
        obtain rfl := hsender.trans hq
        exact ⟨u, v, hu, underProposal_of_timelock hu hs rfl, hs, hsince.mono fun _ _ h => h.2⟩
    | admin => exact absurd hp.symm ha
    | _ => exact absurd ⟨hp, hq⟩ hbefore

/-- An amendment of the settings, with what stands behind it. -/
inductive Lawful (env : Env H) (d : Deployment env) (x : GovConfig H) (tx : GovernanceTx) : Prop where
  | voted : tx.sender = env.timelock → UnderProposal env x → Lawful env d x tx
  | accepted : tx.call = .acceptAdmin_ → Nominated env d x tx.sender → Lawful env d x tx
  | vetoer : tx.sender = x.world.dao.vetoer →
      tx.call = .burnVetoPower_ ∨ (∃ a, tx.call = .setVetoer_ a) → Lawful env d x tx

/--
**Amendments.** In every history in which the DAO is the executor's admin, as long as the
timelock is the admin of the DAO, the settings change only by a call the timelock makes while it
executes an authorized action of a proposal, by a new admin accepting a nomination made in that
way and not withdrawn since, or by the vetoer giving its role away; the parameters stay in range.
-/
theorem settings_amended (env : Env H) (d : Deployment env) (x y : GovConfig H) (l : GovLabel)
    (hx : (governanceMachine env).Runs (AdminIsDAO env) ⟨d.world, []⟩ x)
    (hs : (governanceMachine env).Step x l y) (hadmin : x.world.dao.admin = env.timelock)
    (hne : y.world.dao.settings ≠ x.world.dao.settings) :
    y.world.dao.settings.InRange ∧ ∃ tx, l = .enter tx
      ∧ Amends tx.sender x.world.dao.settings tx.call y.world.dao.settings ∧ Lawful env d x tx := by
  have hsetUp := setUp_runs hx
  refine ⟨(hsetUp.step hs).2, ?_⟩
  rcases step_settings hsetUp.1 hs with heq | ⟨tx, rfl, hamend⟩
  · exact absurd heq hne
  · refine ⟨tx, rfl, hamend, ?_⟩
    rcases hamend.role with hsender | ⟨hc, hsender, hne⟩ | ⟨hsender, hc⟩
    · have hby : tx.sender = env.timelock := hsender.trans hadmin
      exact .voted hby (underProposal_of_timelock hx hs hby)
    · exact .accepted hc (nominated_of_pending hx hne hsender.symm hadmin)
    · exact .vetoer hsender hc

/-- Proposal 1 asks the DAO for another voting delay, and is being executed. -/
def amending : List (Machine.Move GovernanceTx Block) :=
  [.enter mintTwo, .tick ⟨2, 20⟩,
    .enter (daoTx 2 (.propose [.ofNat 10] [0] ["_setVotingDelay(uint256)"] [[2]] "")),
    .tick ⟨4, 40⟩, .enter (daoTx 2 (.castVote 1 1)), .tick ⟨6000, 60000⟩,
    .enter (daoTx 5 (.queue 1)), .tick ⟨6001, 60000 + MINIMUM_DELAY⟩,
    .enter (daoTx 5 (.execute 1))]

/-- The timelock sets the voting delay to 2. -/
theorem settings_amended_voted :
    ∃ (x y : GovConfig Transaction) (tx : GovernanceTx),
    (governanceMachine smallEnv).Runs (AdminIsDAO smallEnv) ⟨smallDeployment.world, []⟩ x
      ∧ y.world.dao.votingDelay = 2
      ∧ Amends tx.sender x.world.dao.settings tx.call y.world.dao.settings
      ∧ Lawful smallEnv smallDeployment x tx := by
  obtain ⟨x, l, y, hx, hs, hp⟩ := Machine.script_then (M := governanceMachine smallEnv)
    adminIsSmallDAO_adminIsDAO (x := ⟨smallDeployment.world, []⟩) (s := amending)
    (m := .enter (daoTx 11 (.setVotingDelay_ 2)))
    (p := fun x y => x.world.dao.admin = .ofNat 11 ∧ x.world.dao.votingDelay = 1
      ∧ y.world.dao.votingDelay = 2) (by decide +kernel)
  obtain ⟨hadmin, hbefore, hafter⟩ := of_decide_eq_true hp
  have hne : y.world.dao.settings ≠ x.world.dao.settings := by
    intro heq
    have hsame := congrArg Settings.votingDelay heq
    exact absurd (hafter.symm.trans (hsame.trans hbefore)) (by decide)
  obtain ⟨-, tx, -, hamend, hlawful⟩ :=
    settings_amended smallEnv smallDeployment x y l hx hs hadmin hne
  exact ⟨x, y, tx, hx, hafter, hamend, hlawful⟩

end Proof

end Nouns
