import Nouns.Proof.GovernanceShapes

/-!
# What a step of governance does

`GovEffect` lists what one step can do to the three contracts, the history and the
pending calls: thirteen cases, with all that was checked. `step_effect` says there are no
others. The invariants that follow are proved case by case from this list; nothing of
the contracts is unfolded for them.
-/

namespace Nouns.Proof

open Evm CallMachine

variable {H : Type}

abbrev GovConfig (H : Type) := Config (Governance H) GovernanceFrame

abbrev GovLabel := Label GovernanceTx GovernanceFrame Block

/-- The proposal a step votes on. -/
def votesOn : GovLabel → Option Nat
  | .enter ⟨_, .castVote id _⟩ | .enter ⟨_, .castVoteWithReason id _ _⟩
    | .enter ⟨_, .castVoteBySig id _ _⟩ => some id
  | _ => none

/-- The proposal a step cancels or vetoes. -/
def stops : GovLabel → Option Nat
  | .enter ⟨_, .cancel id⟩ | .enter ⟨_, .veto id⟩ => some id
  | _ => none

/-- Whether a step that stops a proposal vetoes it. -/
def vetoes : GovLabel → Bool
  | .enter ⟨_, .veto _⟩ => true
  | _ => false

/-- Only roles, the delay and the log of the executor differ. -/
structure Administered (e e' : NounsDAOExecutor H) : Prop where
  book : ∃ admin pendingAdmin delay logs, e' = { e with
    admin := admin
    pendingAdmin := pendingAdmin
    delay := delay
    logs := logs }
  delay : MINIMUM_DELAY ≤ e.delay → MINIMUM_DELAY ≤ e'.delay

variable [DecidableEq H]

/-- What `executeTransaction` does up to the call of the target. -/
structure CalledTarget (env : Env H) (origin : Option (Nat × Nat)) (t : Transaction)
    (w w' : Governance H) : Prop where
  queued : w.executor.queuedTransactions (env.hashing.txHash t) = true
  due : t.eta ≤ w.block.timestamp
  fits : t.eta + GRACE_PERIOD < 2 ^ 256
  book : w' = { w with
    executor := { w.executor with
      queuedTransactions :=
        Function.update w.executor.queuedTransactions (env.hashing.txHash t) false }
    history := w.history ++ [.called
      ⟨origin, t.target, t.value, NounsDAOExecutor.callData env.hashing t, w.dao, w.block⟩] }

/-- What the loop of `execute` does from action `i` on, until it calls a target or ends. -/
inductive Act (env : Env H) (id i : Nat) (w : Governance H) (fs : List GovernanceFrame) :
    GovConfig H → Prop where
  | calls {w' : Governance H} {t : Transaction} :
      i < (w.dao.proposals id).targets.length →
      (w.dao.proposals id).action i (w.dao.proposals id).eta = .ok t →
      CalledTarget env (some (id, i)) t w w' → Act env id i w fs ⟨w', .execute id i t :: fs⟩
  | finishes : (w.dao.proposals id).targets.length ≤ i →
      Act env id i w fs
        ⟨{ w with dao := { w.dao with logs := w.dao.logs ++ [.proposalExecuted id] } }, fs⟩

/-- The effects of a step. -/
inductive GovEffect (env : Env H) : GovConfig H → GovLabel → GovConfig H → Prop where
  | token {w : Governance H} {fs fs' : List GovernanceFrame} {l : GovLabel} {s : NounsToken}
      {names : Address → Address → Prop} :
      Effects w.block.number names w.token s → fs' = fs ∨ fs' = .onERC721Received :: fs →
      GovEffect env ⟨w, fs⟩ l ⟨{ w with token := s }, fs'⟩
  | reconfigure {w : Governance H} {fs : List GovernanceFrame} {l : GovLabel} {s : NounsDAO} :
      Reconfigured w.dao s → GovEffect env ⟨w, fs⟩ l ⟨{ w with dao := s }, fs⟩
  | administer {w : Governance H} {fs : List GovernanceFrame} {l : GovLabel}
      {e : NounsDAOExecutor H} :
      Administered w.executor e → GovEffect env ⟨w, fs⟩ l ⟨{ w with executor := e }, fs⟩
  | propose {w : Governance H} {fs : List GovernanceFrame} {l : GovLabel} {s : NounsDAO} {id : Nat}
      {p : Proposal} :
      Proposed w.block id w.dao s p →
      GovEffect env ⟨w, fs⟩ l ⟨{ w with
        dao := s
        history := w.history ++ [.proposed id w.block.number w.dao.votingDelay] }, fs⟩
  | vote {w : Governance H} {fs : List GovernanceFrame} {l : GovLabel} {s : NounsDAO}
      {voter : Address} {id votes : Nat} :
      votesOn l = some id → Voted w.block w.token voter id votes w.dao s →
      GovEffect env ⟨w, fs⟩ l ⟨{ w with dao := s }, fs⟩
  | queue {w : Governance H} {fs : List GovernanceFrame} {l : GovLabel} {s : NounsDAO}
      {e : NounsDAOExecutor H} {id : Nat} :
      Queued env.hashing w.block id w.dao w.executor s e →
      GovEffect env ⟨w, fs⟩ l ⟨{ w with
        dao := s
        executor := e
        history := w.history ++ [.queued id w.block.timestamp w.executor.delay] }, fs⟩
  | stop {w : Governance H} {fs : List GovernanceFrame} {l : GovLabel} {s : NounsDAO}
      {e : NounsDAOExecutor H} {id : Nat} :
      stops l = some id → Stopped env.hashing w.block (vetoes l) id w.dao w.executor s e →
      GovEffect env ⟨w, fs⟩ l ⟨{ w with dao := s, executor := e }, fs⟩
  | execute {w : Governance H} {fs : List GovernanceFrame} {l : GovLabel} {s : NounsDAO} {id : Nat}
      {y : GovConfig H} :
      Started w.block id w.dao s → Act env id 0 { w with dao := s } fs y →
      GovEffect env ⟨w, fs⟩ l y
  | next {w : Governance H} {fs : List GovernanceFrame} {id i : Nat} {t : Transaction}
      {logs : List (ExecutorEvent H)} {y : GovConfig H} :
      Act env id (i + 1) { w with executor := { w.executor with logs := logs } } fs y →
      GovEffect env ⟨w, .execute id i t :: fs⟩ (.resume (.execute id i t)) y
  | direct {w : Governance H} {fs fs' : List GovernanceFrame} {l : GovLabel}
      {e : NounsDAOExecutor H} {history : List Milestone} :
      w.executor.admin ≠ env.self → BitsOnly w.executor e →
      history = w.history ∨ (∃ c, history = w.history ++ [.called c]) →
      fs' = fs ∨ (∃ t, fs' = .executeTransaction t :: fs) →
      GovEffect env ⟨w, fs⟩ l ⟨{ w with executor := e, history := history }, fs'⟩
  | returned {w : Governance H} {fs : List GovernanceFrame} {f : GovernanceFrame}
      {logs : List (ExecutorEvent H)} :
      (∀ id i t, f ≠ .execute id i t) →
      GovEffect env ⟨w, f :: fs⟩ (.resume f)
        ⟨{ w with executor := { w.executor with logs := logs } }, fs⟩
  | tick {w : Governance H} {b : Block} :
      w.block.number ≤ b.number → w.block.timestamp ≤ b.timestamp →
      GovEffect env ⟨w, []⟩ (.tick b) ⟨{ w with block := b }, []⟩

variable {env : Env H} {w : Governance H} {fs : List GovernanceFrame}
  {o : Outcome (Governance H) GovernanceFrame} {y : GovConfig H}

/-- No pending call survives a callee that fails. -/
theorem resume_failed {f : GovernanceFrame} (h : (governanceMachine env).resume f false w = .ok o) :
    False := by
  cases f with
  | onERC721Received =>
      simp only [governanceMachine, Governance.resume, bind_ok, require_ok] at h
      obtain ⟨_, hf, _⟩ := h
      exact absurd hf (by decide)
  | execute id i t =>
      simp only [governanceMachine, Governance.resume, NounsDAOExecutor.executeTransactionEnd,
        bind_ok, require_ok] at h
      obtain ⟨_, ⟨_, hf, _⟩, _⟩ := h
      exact absurd hf (by decide)
  | executeTransaction t =>
      simp only [governanceMachine, Governance.resume, Governance.onExecutor,
        NounsDAOExecutor.executeTransactionEnd, bind_ok, require_ok] at h
      obtain ⟨_, ⟨_, hf, _⟩, _⟩ := h
      exact absurd hf (by decide)

/-- Where an outcome leads, callees failing being out of the question. -/
theorem lands_cases (h : (governanceMachine env).Lands o fs y) :
    (∃ w', o = .done w' ∧ y = ⟨w', fs⟩)
      ∨ ∃ sent inside f, o = .call sent inside f ∧ y = ⟨inside, f :: fs⟩ := by
  cases h with
  | done => exact .inl ⟨_, rfl, rfl⟩
  | call => exact .inr ⟨_, _, _, rfl, rfl⟩
  | failed hr _ => exact (resume_failed hr).elim

theorem callTarget_shape {sender : Address} {origin : Option (Nat × Nat)} {t : Transaction}
    {w' : Governance H} (h : w.callTarget env sender origin t = .ok w') :
    sender = w.executor.admin ∧ CalledTarget env origin t w w' := by
  simp only [Governance.callTarget, NounsDAOExecutor.executeTransaction, bind_ok, require_ok,
    add_ok] at h
  obtain ⟨e, ⟨_, hadmin, _, hq, _, hdue, _, ⟨hfits, rfl⟩, _, _, he⟩, h⟩ := h
  obtain rfl := Except.ok.inj he
  exact ⟨hadmin, hq, hdue, hfits, (Except.ok.inj h).symm⟩

theorem executeActions_act {id i : Nat} (h : Governance.executeActions env id i w = .ok o)
    (hl : (governanceMachine env).Lands o fs y) : Act env id i w fs y := by
  unfold Governance.executeActions at h
  dsimp only at h
  split_ifs at h with hi
  · simp only [bind_ok] at h
    obtain ⟨t, ht, w', hc, h⟩ := h
    obtain rfl := Except.ok.inj h
    obtain ⟨_, he, _⟩ | ⟨_, _, _, he, rfl⟩ := lands_cases hl
    · cases he
    · cases he
      exact .calls hi ht (callTarget_shape hc).2
  · obtain rfl := Except.ok.inj h
    obtain ⟨_, he, rfl⟩ | ⟨_, _, _, he, _⟩ := lands_cases hl
    · cases he
      exact .finishes (Nat.le_of_not_lt hi)
    · cases he

theorem onDAO_lands {r : Result NounsDAO} (h : w.onDAO r = .ok o)
    (hl : (governanceMachine env).Lands o fs y) :
    ∃ s, r = .ok s ∧ y = ⟨{ w with dao := s }, fs⟩ := by
  simp only [Governance.onDAO, bind_ok] at h
  obtain ⟨s, hs, h⟩ := h
  obtain rfl := Except.ok.inj h
  cases hl with
  | done => exact ⟨s, hs, rfl⟩

theorem onBoth_lands {r : Result (NounsDAO × NounsDAOExecutor H)} (h : w.onBoth r = .ok o)
    (hl : (governanceMachine env).Lands o fs y) :
    ∃ s e, r = .ok (s, e) ∧ y = ⟨{ w with dao := s, executor := e }, fs⟩ := by
  simp only [Governance.onBoth, bind_ok] at h
  obtain ⟨⟨s, e⟩, hs, h⟩ := h
  obtain rfl := Except.ok.inj h
  cases hl with
  | done => exact ⟨s, e, hs, rfl⟩

theorem onExecutor_lands {r : Result (NounsDAOExecutor H)} (h : w.onExecutor r = .ok o)
    (hl : (governanceMachine env).Lands o fs y) :
    ∃ e, r = .ok e ∧ y = ⟨{ w with executor := e }, fs⟩ := by
  simp only [Governance.onExecutor, bind_ok] at h
  obtain ⟨e, he, h⟩ := h
  obtain rfl := Except.ok.inj h
  cases hl with
  | done => exact ⟨e, he, rfl⟩

omit [DecidableEq H] in
theorem setVetoer_reconfigured {s : NounsDAO} {sender a : Address}
    (h : w.dao.setVetoer_ sender a = .ok s) : Reconfigured w.dao s := by
  simp only [NounsDAO.setVetoer_, bind_ok] at h
  obtain ⟨_, _, h⟩ := h
  obtain rfl := Except.ok.inj h
  exact ⟨⟨_, _, _, _, _, _, _, _, _, _, rfl⟩, fun _ => ⟨rfl, rfl⟩, [_], by simp [tellsOfProposal],
    rfl⟩

omit [DecidableEq H] in
theorem initialize_reconfigured {s : NounsDAO} {sender timelock nouns vetoer : Address}
    {period delay threshold quorum : Nat}
    (h : w.dao.initialize_ sender timelock nouns vetoer period delay threshold quorum = .ok s) :
    Reconfigured w.dao s := by
  simp only [NounsDAO.initialize_, bind_ok, require_ok] at h
  obtain ⟨_, hz, _, _, _, _, _, _, _, _, _, _, _, _, _, _, h⟩ := h
  obtain rfl := Except.ok.inj h
  refine ⟨⟨_, _, _, _, _, _, _, _, _, _, rfl⟩, fun hne => absurd hz hne, ?_⟩
  refine ⟨[_, _, _, _], ?_, by simp only [NounsDAO.emit, List.append_assoc]; rfl⟩
  simp [tellsOfProposal]

/-- What the executor's own entry points do when they are called from outside. -/
theorem enterExecutor_effect {tx : GovernanceTx} {c : ExecutorCall} (hself : tx.sender ≠ env.self)
    (h : w.enterExecutor env tx.sender c = .ok o) (hl : (governanceMachine env).Lands o fs y) :
    GovEffect env ⟨w, fs⟩ (.enter tx) y := by
  cases c with
  | setDelay delay =>
      obtain ⟨e, he, rfl⟩ := onExecutor_lands h hl
      simp only [NounsDAOExecutor.setDelay, bind_ok, require_ok] at he
      obtain ⟨_, _, _, hmin, _, _, he⟩ := he
      obtain rfl := Except.ok.inj he
      exact .administer ⟨⟨_, _, _, _, rfl⟩, fun _ => hmin⟩
  | acceptAdmin =>
      obtain ⟨e, he, rfl⟩ := onExecutor_lands h hl
      simp only [NounsDAOExecutor.acceptAdmin, bind_ok] at he
      obtain ⟨_, _, he⟩ := he
      obtain rfl := Except.ok.inj he
      exact .administer ⟨⟨_, _, _, _, rfl⟩, id⟩
  | setPendingAdmin a =>
      obtain ⟨e, he, rfl⟩ := onExecutor_lands h hl
      simp only [NounsDAOExecutor.setPendingAdmin, bind_ok] at he
      obtain ⟨_, _, he⟩ := he
      obtain rfl := Except.ok.inj he
      exact .administer ⟨⟨_, _, _, _, rfl⟩, id⟩
  | queueTransaction t =>
      obtain ⟨e, he, rfl⟩ := onExecutor_lands h hl
      simp only [NounsDAOExecutor.queueTransaction, bind_ok, require_ok] at he
      obtain ⟨_, hadmin, _, _, _, _, he⟩ := he
      obtain rfl := Except.ok.inj he
      exact .direct (hadmin ▸ hself) ⟨_, _, rfl⟩ (.inl rfl) (.inl rfl)
  | cancelTransaction t =>
      obtain ⟨e, he, rfl⟩ := onExecutor_lands h hl
      simp only [NounsDAOExecutor.cancelTransaction, bind_ok, require_ok] at he
      obtain ⟨_, hadmin, he⟩ := he
      obtain rfl := Except.ok.inj he
      exact .direct (hadmin ▸ hself) ⟨_, _, rfl⟩ (.inl rfl) (.inl rfl)
  | executeTransaction t =>
      simp only [Governance.enterExecutor, bind_ok] at h
      obtain ⟨w', hc, h⟩ := h
      obtain rfl := Except.ok.inj h
      obtain ⟨hadmin, hct⟩ := callTarget_shape hc
      obtain rfl := hct.book
      obtain ⟨_, he, _⟩ | ⟨_, _, _, he, rfl⟩ := lands_cases hl
      · cases he
      · cases he
        exact .direct (hadmin ▸ hself) ⟨_, _, rfl⟩ (.inr ⟨_, rfl⟩) (.inr ⟨t, rfl⟩)

/-- What entering one of the three contracts does. -/
theorem enter_effect {tx : GovernanceTx} (hself : tx.sender ≠ env.self)
    (h : Governance.enter env tx w = .ok o) (hl : (governanceMachine env).Lands o fs y) :
    GovEffect env ⟨w, fs⟩ (.enter tx) y := by
  obtain ⟨sender, call⟩ := tx
  cases call with
  | token view call =>
      simp only [Governance.enter, bind_ok] at h
      obtain ⟨s, hs, h⟩ := h
      have hes := call_effects hs
      -- a receiver that is a contract is called, and the call stays pending
      split_ifs at h
      · obtain rfl := Except.ok.inj h
        obtain ⟨_, he, _⟩ | ⟨_, _, _, he, rfl⟩ := lands_cases hl
        · cases he
        · cases he
          exact .token hes (.inr rfl)
      · obtain rfl := Except.ok.inj h
        cases hl with
        | done => exact .token hes (.inl rfl)
  | executor c => exact enterExecutor_effect hself h hl
  | propose targets values signatures calldatas description =>
      simp only [Governance.enter, bind_ok] at h
      obtain ⟨⟨s, id⟩, hs, h⟩ := h
      obtain rfl := Except.ok.inj h
      obtain ⟨p, hp⟩ := propose_shape hs
      cases hl with
      | done => exact .propose hp
  | queue id =>
      simp only [Governance.enter, bind_ok] at h
      obtain ⟨⟨s, e⟩, hs, h⟩ := h
      obtain rfl := Except.ok.inj h
      cases hl with
      | done => exact .queue (queue_shape hs)
  | execute id =>
      simp only [Governance.enter, bind_ok] at h
      obtain ⟨s, hs, h⟩ := h
      exact .execute (execute_shape hs) (executeActions_act h hl)
  | cancel id =>
      obtain ⟨s, e, hs, rfl⟩ := onBoth_lands h hl
      exact .stop rfl (cancel_shape hs)
  | veto id =>
      obtain ⟨s, e, hs, rfl⟩ := onBoth_lands h hl
      exact .stop rfl (veto_shape hs)
  | castVote id support | castVoteWithReason id support reason =>
      obtain ⟨s, hs, rfl⟩ := onDAO_lands h hl
      obtain ⟨_, hv⟩ := castVote_shape hs
      exact .vote rfl hv
  | castVoteBySig id support sig =>
      obtain ⟨s, hs, rfl⟩ := onDAO_lands h hl
      simp only [NounsDAO.castVoteBySig, bind_ok] at hs
      obtain ⟨_, _, hs⟩ := hs
      obtain ⟨_, hv⟩ := castVote_shape hs
      exact .vote rfl hv
  | initialize_ timelock nouns vetoer period delay threshold quorum =>
      obtain ⟨s, hs, rfl⟩ := onDAO_lands h hl
      exact .reconfigure (initialize_reconfigured hs)
  | setVetoer_ a =>
      obtain ⟨s, hs, rfl⟩ := onDAO_lands h hl
      exact .reconfigure (setVetoer_reconfigured hs)
  | burnVetoPower_ =>
      obtain ⟨s, hs, rfl⟩ := onDAO_lands h hl
      simp only [NounsDAO.burnVetoPower_, bind_ok] at hs
      obtain ⟨_, _, hs⟩ := hs
      exact .reconfigure (setVetoer_reconfigured hs)
  | setVotingDelay_ n | setVotingPeriod_ n | setProposalThresholdBPS_ n | setQuorumVotesBPS_ n =>
      obtain ⟨s, hs, rfl⟩ := onDAO_lands h hl
      simp only [NounsDAO.setVotingDelay_, NounsDAO.setVotingPeriod_,
        NounsDAO.setProposalThresholdBPS_, NounsDAO.setQuorumVotesBPS_, bind_ok] at hs
      obtain ⟨_, _, _, _, hs⟩ := hs
      obtain rfl := Except.ok.inj hs
      exact .reconfigure ⟨⟨_, _, _, _, _, _, _, _, _, _, rfl⟩, fun _ => ⟨rfl, rfl⟩, [_],
        by simp [tellsOfProposal], rfl⟩
  | setPendingAdmin_ a =>
      obtain ⟨s, hs, rfl⟩ := onDAO_lands h hl
      simp only [NounsDAO.setPendingAdmin_, bind_ok] at hs
      obtain ⟨_, _, hs⟩ := hs
      obtain rfl := Except.ok.inj hs
      exact .reconfigure ⟨⟨_, _, _, _, _, _, _, _, _, _, rfl⟩, fun _ => ⟨rfl, rfl⟩, [_],
        by simp [tellsOfProposal], rfl⟩
  | acceptAdmin_ =>
      obtain ⟨s, hs, rfl⟩ := onDAO_lands h hl
      simp only [NounsDAO.acceptAdmin_, bind_ok] at hs
      obtain ⟨_, _, hs⟩ := hs
      obtain rfl := Except.ok.inj hs
      refine .reconfigure ⟨⟨_, _, _, _, _, _, _, _, _, _, rfl⟩, fun _ => ⟨rfl, rfl⟩, [_, _], ?_,
        by simp only [NounsDAO.emit, List.append_assoc]; rfl⟩
      simp [tellsOfProposal]

/-- What the return of a pending call does. -/
theorem resume_effect {f : GovernanceFrame} (h : Governance.resume env f true w = .ok o)
    (hl : (governanceMachine env).Lands o fs y) : GovEffect env ⟨w, f :: fs⟩ (.resume f) y := by
  cases f with
  | onERC721Received =>
      simp only [Governance.resume, bind_ok] at h
      obtain ⟨_, _, h⟩ := h
      obtain rfl := Except.ok.inj h
      cases hl with
      | done => exact @GovEffect.returned H _ env w fs _ w.executor.logs (by rintro _ _ _ ⟨⟩)
  | execute id i t =>
      simp only [Governance.resume, NounsDAOExecutor.executeTransactionEnd, bind_ok] at h
      obtain ⟨_, ⟨_, _, he⟩, h⟩ := h
      obtain rfl := Except.ok.inj he
      exact .next (executeActions_act h hl)
  | executeTransaction t =>
      obtain ⟨e, he, rfl⟩ := onExecutor_lands h hl
      simp only [NounsDAOExecutor.executeTransactionEnd, bind_ok] at he
      obtain ⟨_, _, he⟩ := he
      obtain rfl := Except.ok.inj he
      exact .returned (by rintro _ _ _ ⟨⟩)

/-- **There are no other effects.** -/
theorem step_effect {x : GovConfig H} {l : GovLabel} (hs : (governanceMachine env).Step x l y) :
    GovEffect env x l y := by
  cases hs with
  | enter ha he hl => exact enter_effect ha.2.1 he hl
  | resume hr hl => exact resume_effect hr hl
  | tick ht =>
      simp only [governanceMachine, Option.map_eq_some_iff, tick_some] at ht
      obtain ⟨_, ⟨hn, hts, rfl⟩, rfl⟩ := ht
      exact .tick hn hts

/-- **The rule of governance.** What every effect keeps, every history keeps. -/
theorem governance_runs {P : GovConfig H → GovLabel → Prop} {I : GovConfig H → Prop}
    (hstep : ∀ {x l y}, I x → P x l → GovEffect env x l y → I y) {x : GovConfig H}
    (hr : (governanceMachine env).Runs P x y) (hx : I x) : I y := by
  induction hr with
  | refl => exact hx
  | tail _ hs ih =>
      obtain ⟨l, hp, hs⟩ := hs
      exact hstep ih hp (step_effect hs)

/-! ## The clock -/

theorem Act.block {id i : Nat} {fs : List GovernanceFrame} {y : GovConfig H}
    (ha : Act env id i w fs y) : y.world.block = w.block := by
  cases ha with
  | calls _ _ hct => rw [hct.book]
  | finishes _ => rfl

/-- Only the clock changes the block. -/
theorem GovEffect.block {x y : GovConfig H} {l : GovLabel} (he : GovEffect env x l y) :
    (∃ t, l = .tick t) ∨ y.world.block = x.world.block := by
  cases he with
  | tick => exact .inl ⟨_, rfl⟩
  | execute _ ha => exact .inr ha.block
  | next ha => exact .inr ha.block
  | _ => exact .inr rfl

/-- The clock does not run backwards. -/
theorem clock_runs {P : GovConfig H → GovLabel → Prop} {x : GovConfig H}
    (hr : (governanceMachine env).Runs P x y) : x.world.block.number ≤ y.world.block.number := by
  refine governance_runs (I := fun y => x.world.block.number ≤ y.world.block.number)
    (fun {y l z} hy _ he => ?_) hr (Nat.le_refl _)
  cases he with
  | tick hn _ => exact Nat.le_trans hy hn
  | execute _ ha => exact ha.block ▸ hy
  | next ha => exact ha.block ▸ hy
  | _ => exact hy

end Nouns.Proof
