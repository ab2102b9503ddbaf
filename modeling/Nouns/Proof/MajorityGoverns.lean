import Nouns.Proof.Provenance
import Nouns.Proof.Queueing
import Nouns.Proof.StaysExecutable
import Nouns.Proof.Tallies
import Nouns.Proof.VoteSnapshot
import Nouns.Proof.VoteSupply

/-!
# A majority governs

Whatever has happened before, an account with the votes to propose and to reach the quorum can
have its actions executed: it proposes, waits, votes, waits, queues, waits and executes, and
nobody else has to do anything but answer the calls.
-/

namespace Nouns.Proof

open Evm CallMachine

/-- The arguments of `propose`. -/
structure Motion where
  targets : List Address
  values : List Nat
  signatures : List String
  calldatas : List Bytes
  description : String

variable {H : Type} {env : Env H} {w w' : Governance H} {fs : List GovernanceFrame} {id i : Nat}
  {a : Address} {m : Motion}

/-- The steps of an account that acts alone, the DAO being the executor's admin. -/
def Alone (env : Env H) (a : Address) : GovConfig H → GovLabel → Prop :=
  fun x l => (∀ tx, l = .enter tx → tx.sender = a) ∧ AdminIsDAO env x l

/-! ## Executing everything -/

/-- A call of action `i`, of an execution that has the lists of `p`. -/
structure Performs (env : Env H) (p : Proposal) (i : Nat) (c : TargetCall) : Prop where
  target : p.targets[i]? = some c.target
  value : p.values[i]? = some c.value
  callData : ∃ signature data eta, p.signatures[i]? = some signature
    ∧ p.calldatas[i]? = some data
    ∧ c.callData = NounsDAOExecutor.callData env.hashing ⟨c.target, c.value, signature, data, eta⟩

/-- The calls of the actions from `i` on, in order. -/
def PerformsFrom (env : Env H) (p : Proposal) (i : Nat) (calls : List TargetCall) : Prop :=
  i + calls.length = p.targets.length
    ∧ ∀ k c, calls[k]? = some c → Performs env p (i + k) c

/-- The loop of `execute` for proposal `id` can go on from action `i`. -/
structure Ready (env : Env H) (w : Governance H) (id i : Nat) : Prop where
  admin : w.executor.admin = env.self
  even : Proposal.Even (w.dao.proposals id)
  flagged : ∀ j t, i ≤ j → (w.dao.proposals id).action j (w.dao.proposals id).eta = .ok t →
    w.executor.queuedTransactions (env.hashing.txHash t) = true
  distinct : ¬ (w.dao.proposals id).Repeats (w.dao.proposals id).eta
  due : (w.dao.proposals id).eta ≤ w.block.timestamp
  fresh : w.block.timestamp < (w.dao.proposals id).eta + GRACE_PERIOD
  fits : (w.dao.proposals id).eta + GRACE_PERIOD < 2 ^ 256

variable [DecidableEq H] {x y : GovConfig H}

theorem Ready.total (h : Ready env w id i) :
    ∃ o, Governance.executeActions env id i w = .ok o :=
  executeActions_total h.admin h.even (fun t ht => h.flagged i t (Nat.le_refl i) ht) h.due h.fresh
    h.fits

/-- Calling an action takes its own flag only. -/
theorem Ready.next (hinj : Function.Injective env.hashing.txHash) (h : Ready env w id i)
    {t : Transaction} (ht : (w.dao.proposals id).action i (w.dao.proposals id).eta = .ok t)
    {origin : Option (Nat × Nat)} (hct : CalledTarget env origin t w w')
    (logs : List (ExecutorEvent H)) :
    Ready env { w' with executor := { w'.executor with logs := logs } } id (i + 1) := by
  obtain rfl := hct.book
  refine ⟨h.admin, h.even, ?_, h.distinct, h.due, h.fresh, h.fits⟩
  intro j t' hj ht'
  have hne : env.hashing.txHash t' ≠ env.hashing.txHash t := by
    intro heq
    obtain rfl := hinj heq
    exact h.distinct ⟨i, j, t', hj, ht, ht'⟩
  exact (Function.update_of_ne hne ..).trans (h.flagged j t' (Nat.le_of_succ_le hj) ht')

/-- A target that answers hands the loop its next turn. -/
theorem resume_execute {t : Transaction} :
    (governanceMachine env).resume (.execute id i t) true w
      = Governance.executeActions env id (i + 1) { w with executor := { w.executor with
          logs := w.executor.logs ++ [.executeTransaction (env.hashing.txHash t) t] } } := rfl

/-- **The loop of `execute` runs to its end** when the targets answer, and calls everything. -/
theorem Act.completes (hinj : Function.Injective env.hashing.txHash) {n : Nat} :
    ∀ {w : Governance H} {i : Nat} {y : GovConfig H},
      (w.dao.proposals id).targets.length - i = n → i ≤ (w.dao.proposals id).targets.length →
      Ready env w id i → Act env id i w fs y →
      ∃ z calls, (governanceMachine env).Runs (Alone env a) y z ∧ z.frames = fs
        ∧ z.world.dao.proposals = w.dao.proposals
        ∧ z.world.dao.proposalCount = w.dao.proposalCount ∧ z.world.block = w.block
        ∧ z.world.history = w.history ++ calls.map .called
        ∧ PerformsFrom env (w.dao.proposals id) i calls := by
  induction n with
  | zero =>
      intro w i y hn hi hready ha
      cases ha with
      | calls hlt => omega
      | finishes =>
          exact ⟨_, [], .refl, rfl, rfl, rfl, rfl, (List.append_nil _).symm,
            by simp only [List.length_nil]; omega, fun k c hc => by simp at hc⟩
  | succ n ih =>
      intro w i y hn hi hready ha
      cases ha with
      | finishes hle => omega
      | @calls w' t hlt ht hct =>
          -- the target answers, and the loop takes the next action up
          have hnext := hready.next hinj ht hct
            (w'.executor.logs ++ [.executeTransaction (env.hashing.txHash t) t])
          obtain ⟨o, ho⟩ := hnext.total
          obtain ⟨y', hl⟩ : ∃ y', (governanceMachine env).Lands o fs y' := by
            cases o with
            | done w => exact ⟨_, .done⟩
            | call sent inside f => exact ⟨_, .call⟩
          have hstep : (governanceMachine env).Step ⟨w', .execute id i t :: fs⟩
            (.resume (.execute id i t)) y' := .resume (resume_execute.trans ho) hl
          have hadmin : w'.executor.admin = env.self := hnext.admin
          obtain rfl := hct.book
          obtain ⟨z, calls, hruns, hf, hp, hcount, hb, hh, hlen, hperf⟩ :=
            ih (by simp only; omega) (by exact hlt) hnext (executeActions_act ho hl)
          refine ⟨z, ⟨some (id, i), t.target, t.value, NounsDAOExecutor.callData env.hashing t, w.dao,
            w.block⟩ :: calls, Machine.Runs.trans (Machine.Runs.refl.tail ⟨?_, hadmin⟩ hstep)
            hruns, hf, hp, hcount, hb, ?_, ?_, ?_⟩
          · intro tx htx
            cases htx
          · rw [hh, List.append_assoc]
            rfl
          · simp only [List.length_cons]
            have hlen : i + 1 + calls.length = (w.dao.proposals id).targets.length := hlen
            omega
          · intro k c hc
            cases k with
            | zero =>
                obtain rfl := Option.some.inj hc
                obtain ⟨h1, h2, h3, h4, -⟩ := action_ok.mp ht
                exact ⟨h1, h2, t.signature, t.data, t.eta, h3, h4, rfl⟩
            | succ k =>
                have hc : calls[k]? = some c := hc
                have hk := hperf k c hc
                rwa [Nat.add_right_comm] at hk

/-! ## Steps of an account acting alone -/

/-- An account that is none of the contracts. -/
structure Outsider (env : Env H) (a : Address) : Prop where
  ne_zero : a ≠ 0
  ne_self : a ≠ env.self
  ne_timelock : a ≠ env.timelock

theorem Outsider.enters (ha : Outsider env a) (hadmin : w.executor.admin = env.self)
    (call : GovernanceCall) {o : Outcome (Governance H) GovernanceFrame}
    (h : Governance.enter env ⟨a, call⟩ w = .ok o) (hl : (governanceMachine env).Lands o [] y) :
    (governanceMachine env).Runs (Alone env a) ⟨w, []⟩ y := by
  refine Machine.Runs.refl.tail (l := .enter ⟨a, call⟩) ⟨?_, hadmin⟩
    (.enter ⟨ha.ne_zero, ha.ne_self, fun heq => absurd heq ha.ne_timelock⟩ h hl)
  intro tx htx
  cases htx
  rfl

theorem waits (hadmin : w.executor.admin = env.self) {b : Block}
    (hn : w.block.number ≤ b.number) (ht : w.block.timestamp ≤ b.timestamp) :
    (governanceMachine env).Runs (Alone env a) ⟨w, []⟩ ⟨{ w with block := b }, []⟩ := by
  refine Machine.Runs.refl.tail (l := .tick b) ⟨?_, hadmin⟩ (.tick ?_)
  · intro tx htx
    cases htx
  · exact Option.map_eq_some_iff.mpr ⟨b, tick_some.mpr ⟨hn, ht, rfl⟩, rfl⟩

/-! ### Proposing -/

/-- What `propose` writes for the motion. -/
def Motion.proposal (m : Motion) (w : Governance H) (a : Address) : Proposal :=
  Proposal.blank.write (w.dao.proposalCount + 1) a
    (w.token.totalSupply * w.dao.proposalThresholdBPS / 10000)
    (w.token.totalSupply * w.dao.quorumVotesBPS / 10000) m.targets m.values m.signatures m.calldatas
    (w.block.number + w.dao.votingDelay)
    (w.block.number + w.dao.votingDelay + w.dao.votingPeriod)

/-- What `propose` asks for. -/
structure Admissible (w : Governance H) (a : Address) (m : Motion) : Prop where
  even : m.targets.length = m.values.length ∧ m.targets.length = m.signatures.length
    ∧ m.targets.length = m.calldatas.length
  some : m.targets.length ≠ 0
  few : m.targets.length ≤ proposalMaxOperations
  unoccupied : w.dao.requireNoLiveProposal w.block a = .ok ()
  eligible : w.token.totalSupply * w.dao.proposalThresholdBPS / 10000
    < w.token.votesAt a (w.block.number - 1)
  threshold_fits : w.token.totalSupply * w.dao.proposalThresholdBPS < 2 ^ 256
  quorum_fits : w.token.totalSupply * w.dao.quorumVotesBPS < 2 ^ 256
  end_fits : w.block.number + w.dao.votingDelay + w.dao.votingPeriod < 2 ^ 256
  count_fits : w.dao.proposalCount + 1 < 2 ^ 256

theorem Admissible.proposes (h : Admissible w a m) (ha : Outsider env a)
    (hadmin : w.executor.admin = env.self) (hdao : DAOInv w)
    (htoken : CheckpointsOk w.block.number w.token) :
    ∃ s, (governanceMachine env).Runs (Alone env a) ⟨w, []⟩ ⟨{ w with
        dao := s
        history := w.history ++
          [.proposed (w.dao.proposalCount + 1) w.block.number w.dao.votingDelay] }, []⟩
      ∧ s.proposals (w.dao.proposalCount + 1) = m.proposal w a
      ∧ s.proposalCount = w.dao.proposalCount + 1 ∧ s.votingDelay = w.dao.votingDelay := by
  have hpos := htoken.now_pos
  have hprior := @getPriorVotes_eq _ _ htoken w.block a _
    (Nat.sub_lt hpos Nat.one_pos : w.block.number - 1 < w.block.number)
  have hthreshold : bps2Uint w.dao.proposalThresholdBPS w.token.totalSupply
      = .ok (w.token.totalSupply * w.dao.proposalThresholdBPS / 10000) :=
    bind_ok.mpr ⟨_, mul_ok.mpr ⟨h.threshold_fits, rfl⟩, rfl⟩
  have hquorum : bps2Uint w.dao.quorumVotesBPS w.token.totalSupply
      = .ok (w.token.totalSupply * w.dao.quorumVotesBPS / 10000) :=
    bind_ok.mpr ⟨_, mul_ok.mpr ⟨h.quorum_fits, rfl⟩, rfl⟩
  have hstart : w.block.number + w.dao.votingDelay < 2 ^ 256 :=
    Nat.lt_of_le_of_lt (Nat.le_add_right _ _) h.end_fits
  obtain ⟨s, hs, hp, hcount, hdelay⟩ : ∃ s, w.dao.propose a w.block w.token m.targets m.values
      m.signatures m.calldatas m.description = .ok (s, w.dao.proposalCount + 1)
      ∧ s.proposals (w.dao.proposalCount + 1) = m.proposal w a
      ∧ s.proposalCount = w.dao.proposalCount + 1 ∧ s.votingDelay = w.dao.votingDelay := by
    refine ⟨_, bind_ok.mpr ⟨_, hthreshold, bind_ok.mpr ⟨_, sub_ok.mpr ⟨hpos, rfl⟩,
      bind_ok.mpr ⟨_, hprior, bind_ok.mpr ⟨_, require_total h.eligible,
      bind_ok.mpr ⟨_, require_total h.even, bind_ok.mpr ⟨_, require_total h.some,
      bind_ok.mpr ⟨_, require_total h.few, bind_ok.mpr ⟨_, h.unoccupied,
      bind_ok.mpr ⟨_, add_ok.mpr ⟨hstart, rfl⟩, bind_ok.mpr ⟨_, add_ok.mpr ⟨h.end_fits, rfl⟩,
      bind_ok.mpr ⟨_, add_ok.mpr ⟨h.count_fits, rfl⟩, bind_ok.mpr ⟨_, hquorum, rfl⟩⟩⟩⟩⟩⟩⟩⟩⟩⟩⟩⟩,
      ?_, rfl, rfl⟩
    refine (Function.update_self ..).trans ?_
    show Proposal.write (w.dao.proposals (w.dao.proposalCount + 1)) .. = _
    rw [hdao.unborn _ (Nat.lt_succ_self _)]
    rfl
  exact ⟨s, ha.enters hadmin (.propose m.targets m.values m.signatures m.calldatas
    m.description) (bind_ok.mpr ⟨_, hs, rfl⟩) .done, hp, hcount, hdelay⟩

/-! ### Voting -/

/-- A proposal nobody has touched yet. -/
structure Untouched (p : Proposal) : Prop where
  not_vetoed : p.vetoed = false
  not_canceled : p.canceled = false
  not_executed : p.executed = false
  eta : p.eta = 0
  forVotes : p.forVotes = 0
  againstVotes : p.againstVotes = 0
  receipts : ∀ a, (p.receipts a).hasVoted = false

theorem Untouched.votes {p : Proposal} (h : Untouched p) (ha : Outsider env a)
    (hadmin : w.executor.admin = env.self) (htoken : CheckpointsOk w.block.number w.token)
    (hp : w.dao.proposals id = p) (hid : id ≤ w.dao.proposalCount)
    (hnow : w.block.number ≤ p.startBlock) (hspan : p.startBlock < p.endBlock)
    (hdelay : w.dao.votingDelay ≤ p.startBlock)
    (hfits : w.token.votesAt a (p.startBlock - w.dao.votingDelay) < 2 ^ 256) :
    ∃ s, (governanceMachine env).Runs (Alone env a) ⟨w, []⟩ ⟨{ w with
        dao := s
        block := ⟨p.startBlock + 1, w.block.timestamp⟩ }, []⟩
      ∧ s.proposals id = { p with
        forVotes := w.token.votesAt a (p.startBlock - w.dao.votingDelay)
        receipts := Function.update p.receipts a
          ⟨true, 1, w.token.votesAt a (p.startBlock - w.dao.votingDelay)⟩ }
      ∧ s.proposalCount = w.dao.proposalCount := by
  subst hp
  have hactive : w.dao.state ⟨(w.dao.proposals id).startBlock + 1, w.block.timestamp⟩ id
      = .ok .active :=
    state_active hid (stateOf_active h.not_vetoed h.not_canceled (Nat.lt_succ_self _) hspan)
  have hvotes := @getPriorVotes_eq _ _ htoken
    ⟨(w.dao.proposals id).startBlock + 1, w.block.timestamp⟩ a
    ((w.dao.proposals id).startBlock - w.dao.votingDelay) (by simp only; omega)
  obtain ⟨s, hs, hp, hcount⟩ : ∃ s, w.dao.castVote
      ⟨(w.dao.proposals id).startBlock + 1, w.block.timestamp⟩ w.token a id 1 "" = .ok s
      ∧ s.proposals id = { w.dao.proposals id with
        forVotes := w.token.votesAt a ((w.dao.proposals id).startBlock - w.dao.votingDelay)
        receipts := Function.update (w.dao.proposals id).receipts a
          ⟨true, 1, w.token.votesAt a ((w.dao.proposals id).startBlock - w.dao.votingDelay)⟩ }
      ∧ s.proposalCount = w.dao.proposalCount := by
    have htally : NounsDAO.tally 1 (w.token.votesAt a
        ((w.dao.proposals id).startBlock - w.dao.votingDelay)) (w.dao.proposals id)
        = .ok { w.dao.proposals id with
          forVotes := w.token.votesAt a ((w.dao.proposals id).startBlock - w.dao.votingDelay) } := by
      have hsum : add 256 (w.dao.proposals id).forVotes (w.token.votesAt a
          ((w.dao.proposals id).startBlock - w.dao.votingDelay))
          = .ok (w.token.votesAt a ((w.dao.proposals id).startBlock - w.dao.votingDelay)) :=
        add_ok.mpr ⟨by rw [h.forVotes]; omega, by rw [h.forVotes]; omega⟩
      exact bind_of_ok hsum
    refine ⟨_, bind_ok.mpr ⟨_, bind_ok.mpr ⟨_, hactive, bind_ok.mpr ⟨_, require_total rfl,
      bind_ok.mpr ⟨_, require_total (by decide), bind_ok.mpr ⟨_, require_total (h.receipts a),
      bind_ok.mpr ⟨_, sub_ok.mpr ⟨hdelay, rfl⟩, bind_ok.mpr ⟨_, hvotes,
      bind_ok.mpr ⟨_, htally, rfl⟩⟩⟩⟩⟩⟩⟩, rfl⟩, ?_, rfl⟩
    exact Function.update_self ..
  refine ⟨s, (waits (b := ⟨(w.dao.proposals id).startBlock + 1, w.block.timestamp⟩) hadmin
    (Nat.le_succ_of_le hnow) (Nat.le_refl _)).trans ?_, hp, hcount⟩
  exact ha.enters (w := { w with block := ⟨(w.dao.proposals id).startBlock + 1,
    w.block.timestamp⟩ }) hadmin (.castVote id 1) (bind_ok.mpr ⟨_, hs, rfl⟩) .done

/-! ### Queueing -/

/-- What `queue` will ask for at the time `T`. -/
structure Queueable (env : Env H) (w : Governance H) (p : Proposal) (T : Nat) : Prop where
  not_vetoed : p.vetoed = false
  not_canceled : p.canceled = false
  eta : p.eta = 0
  carried : p.againstVotes < p.forVotes
  quorum : p.quorumVotes ≤ p.forVotes
  even : Proposal.Even p
  span : p.startBlock ≤ p.endBlock
  distinct : ¬ p.Repeats (T + w.executor.delay)
  free : ∀ b, HashOf env.hashing p (T + w.executor.delay) p.targets.length b →
    w.executor.queuedTransactions b = false
  fits : T + w.executor.delay < 2 ^ 256

omit [DecidableEq H] in
theorem Queueable.succeeded {p : Proposal} {T : Nat} (h : Queueable env w p T)
    (hp : w.dao.proposals id = p) (hid : id ≤ w.dao.proposalCount) :
    w.dao.state ⟨p.endBlock + 1, T⟩ id = .ok .succeeded := by
  subst hp
  have hspan := h.span
  have hcarried := h.carried
  have hquorum := h.quorum
  refine bind_ok.mpr ⟨(), require_total hid, ?_⟩
  rw [if_neg (by simp [h.not_vetoed]), if_neg (by simp [h.not_canceled]),
    if_neg (by simp only; omega), if_neg (by simp only; omega), if_neg (by omega), if_pos h.eta]
  rfl

theorem Queueable.queues {p : Proposal} {T : Nat} (h : Queueable env w p T) (ha : Outsider env a)
    (hinj : Function.Injective env.hashing.txHash) (hadmin : w.executor.admin = env.self)
    (hp : w.dao.proposals id = p) (hid : id ≤ w.dao.proposalCount)
    (hnow : w.block.number ≤ p.endBlock + 1) (hT : w.block.timestamp ≤ T) :
    ∃ s e, (governanceMachine env).Runs (Alone env a) ⟨w, []⟩ ⟨{ w with
        dao := s
        executor := e
        block := ⟨p.endBlock + 1, T⟩
        history := w.history ++ [.queued id T w.executor.delay] }, []⟩
      ∧ s.proposals id = { p with eta := T + w.executor.delay }
      ∧ s.proposalCount = w.dao.proposalCount
      ∧ Flagged env.hashing p (T + w.executor.delay) w.executor e := by
  have hsucceeded := h.succeeded hp hid
  subst hp
  obtain ⟨e', he'⟩ := @queueLoop_total H _ env.hashing env.self
    ⟨(w.dao.proposals id).endBlock + 1, T⟩ (w.dao.proposals id) w.executor hinj h.even hadmin h.fits
    h.free h.distinct
  obtain ⟨⟨s, e⟩, hq⟩ : ∃ r, w.dao.queue env.hashing env.self
      ⟨(w.dao.proposals id).endBlock + 1, T⟩ id w.executor = .ok r :=
    bind_total hsucceeded <| bind_total (require_total rfl) <|
      bind_total (add_ok.mpr ⟨h.fits, rfl⟩) <| bind_total he' ⟨_, rfl⟩
  have hshape := queue_shape hq
  obtain ⟨hp, -, hcount⟩ := hshape.book.proposals
  refine ⟨s, e, (waits (b := ⟨(w.dao.proposals id).endBlock + 1, T⟩) hadmin hnow hT).trans ?_,
    hp, hcount, hshape.flagged⟩
  exact ha.enters (w := { w with block := ⟨(w.dao.proposals id).endBlock + 1, T⟩ }) hadmin
    (.queue id) (bind_ok.mpr ⟨_, hq, rfl⟩) .done

/-! ### Executing -/

theorem Outsider.executes (ha : Outsider env a) (hinj : Function.Injective env.hashing.txHash)
    (hready : Ready env w id 0) (hid : id ≤ w.dao.proposalCount)
    (hq : IsQueued w.block (w.dao.proposals id)) :
    ∃ z calls, (governanceMachine env).Runs (Alone env a) ⟨w, []⟩ z ∧ z.frames = []
      ∧ z.world.dao.state z.world.block id = .ok .executed ∧ z.world.block = w.block
      ∧ z.world.history = w.history ++ calls.map .called
      ∧ PerformsFrom env (w.dao.proposals id) 0 calls := by
  have hstart : w.dao.execute w.block id
      = .ok (w.dao.setProposal id { w.dao.proposals id with executed := true }) :=
    bind_ok.mpr ⟨_, state_queued_iff.mpr ⟨hid, hq, hready.fits⟩, bind_ok.mpr
      ⟨_, require_total rfl, rfl⟩⟩
  have hp : (w.dao.setProposal id { w.dao.proposals id with executed := true }).proposals id
      = { w.dao.proposals id with executed := true } := Function.update_self ..
  have hready' : Ready env { w with
      dao := w.dao.setProposal id { w.dao.proposals id with executed := true } } id 0 := by
    refine ⟨hready.admin, ?_, ?_, ?_, ?_, ?_, ?_⟩
    all_goals simp only [hp]
    exacts [hready.even, hready.flagged, hready.distinct, hready.due, hready.fresh, hready.fits]
  obtain ⟨o, ho⟩ := hready'.total
  obtain ⟨y, hl⟩ : ∃ y, (governanceMachine env).Lands o [] y := by
    cases o with
    | done w => exact ⟨_, .done⟩
    | call sent inside f => exact ⟨_, .call⟩
  have hfirst := ha.enters hready.admin (.execute id) (bind_ok.mpr ⟨_, hstart, ho⟩) hl
  obtain ⟨z, calls, hruns, hf, hproposals, hcount, hb, hh, hlen, hperf⟩ :=
    (executeActions_act ho hl).completes hinj rfl (Nat.zero_le _) hready'
  refine ⟨z, calls, hfirst.trans hruns, hf, ?_, hb, hh, ?_, ?_⟩
  · have hex : z.world.dao.proposals id = { w.dao.proposals id with executed := true } :=
      (congrFun hproposals id).trans hp
    have hstarted := hq.started
    have hended := hq.ended
    have hcarried := hq.carried
    have hquorum := hq.quorum
    refine bind_ok.mpr ⟨(), require_total (hcount ▸ hid), ?_⟩
    rw [hex, hb, if_neg (by simp [hq.not_vetoed]), if_neg (by simp [hq.not_canceled]),
      if_neg (by simp only; omega), if_neg (by simp only; omega), if_neg (by simp only; omega),
      if_neg hq.eta_ne, if_pos rfl]
    rfl
  · rwa [hp] at hlen
  · intro k c hc
    have hk := hperf k c hc
    rw [hp] at hk
    exact ⟨hk.target, hk.value, hk.callData⟩

/-! ## From the proposal to the last call -/

/-- No two actions of the motion are the same. -/
def Motion.Distinct (m : Motion) : Prop :=
  ∀ i j, i < j → j < m.targets.length → ¬ (m.targets[i]? = m.targets[j]?
    ∧ m.values[i]? = m.values[j]? ∧ m.signatures[i]? = m.signatures[j]?
    ∧ m.calldatas[i]? = m.calldatas[j]?)

omit [DecidableEq H] in
theorem Motion.Distinct.not_repeats (h : m.Distinct) (w : Governance H) (a : Address) (eta : Nat) :
    ¬ (m.proposal w a).Repeats eta := by
  intro hrep
  obtain ⟨i, j, t, hij, hi, hj⟩ := hrep
  obtain ⟨hi1, hi2, hi3, hi4, -⟩ := action_ok.mp hi
  obtain ⟨hj1, hj2, hj3, hj4, -⟩ := action_ok.mp hj
  exact h i j hij (lt_of_action hj)
    ⟨hi1.trans hj1.symm, hi2.trans hj2.symm, hi3.trans hj3.symm, hi4.trans hj4.symm⟩

/--
Account `a` may make the motion, its votes carry it, and at the time `T` no other proposal's
actions come due together with its own.
-/
structure CanCarry (w : Governance H) (a : Address) (m : Motion) (T : Nat) : Prop
    extends Admissible w a m where
  distinct : m.Distinct
  votes : 0 < w.token.getCurrentVotes a
  quorum : w.token.totalSupply * w.dao.quorumVotesBPS / 10000 ≤ w.token.getCurrentVotes a
  later : w.block.timestamp ≤ T
  undisturbed : ∀ q, (w.dao.proposals q).eta ≠ T + w.executor.delay
  eta_fits : T + w.executor.delay + GRACE_PERIOD < 2 ^ 256

omit [DecidableEq H] in
/-- A flag that is up belongs to actions that come due at another time. -/
theorem CanCarry.free {T : Nat} (h : CanCarry w a m T)
    (hinj : Function.Injective env.hashing.txHash) (howned : Owned env w) {p : Proposal} {b : H}
    (hb : HashOf env.hashing p (T + w.executor.delay) p.targets.length b) :
    w.executor.queuedTransactions b = false := by
  by_contra hup
  obtain ⟨q, -, -, i', t', -, ht', hhash'⟩ := howned b (by simpa using hup)
  obtain ⟨i, t, -, ht, hhash⟩ := hb
  obtain rfl := hinj (hhash.trans hhash'.symm)
  have heta := (action_ok.mp ht).2.2.2.2
  have heta' := (action_ok.mp ht').2.2.2.2
  exact h.undisturbed q (heta'.symm.trans heta)

/-- The motion's proposal once account `a` has voted for it. -/
def Motion.carried (m : Motion) (w : Governance H) (a : Address) : Proposal :=
  { m.proposal w a with
    forVotes := w.token.getCurrentVotes a
    receipts := Function.update (m.proposal w a).receipts a
      ⟨true, 1, w.token.getCurrentVotes a⟩ }

theorem CanCarry.passes {T : Nat} (h : CanCarry w a m T) (ha : Outsider env a)
    (hadmin : w.executor.admin = env.self) (hdao : DAOInv w) (hsetUp : SetUp w.dao)
    (htoken : TokenInv w.block.number w.token) :
    ∃ s, (governanceMachine env).Runs (Alone env a) ⟨w, []⟩ ⟨{ w with
        dao := s
        block := ⟨w.block.number + w.dao.votingDelay + 1, w.block.timestamp⟩
        history := w.history ++
          [.proposed (w.dao.proposalCount + 1) w.block.number w.dao.votingDelay] }, []⟩
      ∧ s.proposals (w.dao.proposalCount + 1) = m.carried w a
      ∧ s.proposalCount = w.dao.proposalCount + 1 := by
  have hperiod : MIN_VOTING_PERIOD ≤ w.dao.votingPeriod := hsetUp.2.votingPeriod.1
  have hbps : MIN_PROPOSAL_THRESHOLD_BPS ≤ w.dao.proposalThresholdBPS :=
    hsetUp.2.proposalThresholdBPS.1
  have hpos : 0 < MIN_VOTING_PERIOD := by decide
  -- the votes counted are those of the block of the proposal, and they fit
  have hvotes : w.token.votesAt a (w.block.number + w.dao.votingDelay - w.dao.votingDelay)
      = w.token.getCurrentVotes a := by
    rw [Nat.add_sub_cancel]
    exact htoken.checkpoints.currentVotes a (Nat.le_refl _)
  have hfits : w.token.getCurrentVotes a < 2 ^ 256 := by
    have hsum := htoken.sum_votes_le {a}
    rw [Finset.sum_singleton] at hsum
    calc w.token.getCurrentVotes a
        ≤ w.token.totalSupply * 1 := by omega
      _ ≤ w.token.totalSupply * w.dao.proposalThresholdBPS := Nat.mul_le_mul_left _ hbps
      _ < 2 ^ 256 := h.threshold_fits
  obtain ⟨s₁, hruns₁, hp₁, hcount₁, hdelay₁⟩ :=
    h.toAdmissible.proposes ha hadmin hdao htoken.checkpoints
  have hnew : Untouched (m.proposal w a) := ⟨rfl, rfl, rfl, rfl, rfl, rfl, fun _ => rfl⟩
  have hstart : (m.proposal w a).startBlock = w.block.number + w.dao.votingDelay := rfl
  obtain ⟨s₂, hruns₂, hp₂, hcount₂⟩ := hnew.votes (w := { w with
      dao := s₁
      history := w.history
        ++ [.proposed (w.dao.proposalCount + 1) w.block.number w.dao.votingDelay] })
    ha hadmin htoken.checkpoints hp₁ (Nat.le_of_eq hcount₁.symm) (Nat.le_add_right _ _)
    (Nat.lt_add_of_pos_right (Nat.lt_of_lt_of_le hpos hperiod))
    (by rw [hdelay₁, hstart]; exact Nat.le_add_left _ _)
    (by simp only [hdelay₁, hstart, hvotes]; exact hfits)
  simp only [hdelay₁, hstart, hvotes] at hruns₂ hp₂
  exact ⟨s₂, hruns₁.trans hruns₂, hp₂, hcount₂.trans hcount₁⟩

omit [DecidableEq H] in
theorem CanCarry.queueable {T : Nat} (h : CanCarry w a m T)
    (hinj : Function.Injective env.hashing.txHash) (howned : Owned env w)
    (he : w'.executor = w.executor) : Queueable env w' (m.carried w a) T where
  not_vetoed := rfl
  not_canceled := rfl
  eta := rfl
  carried := h.votes
  quorum := h.quorum
  even := h.even
  span := Nat.le_add_right _ _
  distinct := fun hrep => h.distinct.not_repeats w a (T + w'.executor.delay) hrep
  free := by
    intro b hb
    rw [he] at hb ⊢
    exact h.free hinj howned hb
  fits := by
    have hfits := h.eta_fits
    rw [he]
    omega

/--
**A majority governs.** Whatever has happened, as long as the DAO is the executor's admin, an
account that may propose and whose votes carry the quorum can, acting alone, have any list of
distinct actions executed at the time it chooses: all of them are called, as it submitted them
and in order, and nothing else is.
-/
theorem majority_governs (env : Env H) (hinj : Function.Injective env.hashing.txHash)
    (d : Deployment env) (x : GovConfig H)
    (hx : (governanceMachine env).Runs (AdminIsDAO env) ⟨d.world, []⟩ x) (hidle : x.frames = [])
    (hadmin : x.world.executor.admin = env.self) (a : Address) (ha : Outsider env a) (m : Motion)
    (T : Nat) (h : CanCarry x.world a m T) :
    ∃ z calls, (governanceMachine env).Runs (Alone env a) x z ∧ z.frames = []
      ∧ z.world.block = ⟨x.world.block.number + x.world.dao.votingDelay + x.world.dao.votingPeriod
          + 1, T + x.world.executor.delay⟩
      ∧ z.world.dao.state z.world.block (x.world.dao.proposalCount + 1) = .ok .executed
      ∧ z.world.history = x.world.history
        ++ [.proposed (x.world.dao.proposalCount + 1) x.world.block.number x.world.dao.votingDelay,
          .queued (x.world.dao.proposalCount + 1) T x.world.executor.delay] ++ calls.map .called
      ∧ PerformsFrom env (m.proposal x.world a) 0 calls := by
  obtain ⟨w, fs⟩ := x
  obtain rfl : fs = [] := hidle
  simp only at hadmin h ⊢
  obtain ⟨hdao, howned⟩ := owned_runs hx
  simp only at hdao howned
  have hdelay : MINIMUM_DELAY ≤ w.executor.delay := hdao.delay
  have hdelay_pos : 0 < MINIMUM_DELAY := by decide
  have hgrace_pos : 0 < GRACE_PERIOD := by decide
  obtain ⟨s₁, hruns₁, hp₁, hcount₁⟩ := h.passes ha hadmin hdao (setUp_runs hx)
    (ages_runs (tokenInv_deployment d) hx).token
  -- after the vote, the voting period passes and the proposal is queued
  have hqueueable : Queueable env { w with
      dao := s₁
      block := ⟨w.block.number + w.dao.votingDelay + 1, w.block.timestamp⟩
      history := w.history ++
        [.proposed (w.dao.proposalCount + 1) w.block.number w.dao.votingDelay] } (m.carried w a) T :=
    h.queueable hinj howned rfl
  have hend : (m.carried w a).endBlock
      = w.block.number + w.dao.votingDelay + w.dao.votingPeriod := rfl
  obtain ⟨s₂, e, hruns₂, hp₂, hcount₂, hflagged⟩ := hqueueable.queues ha hinj hadmin hp₁
    (Nat.le_of_eq hcount₁.symm) (by rw [hend]; simp only; omega) h.later
  rw [hend] at hruns₂
  simp only at hp₂ hflagged
  -- the delay passes and the proposal is executed
  set w₂ : Governance H := ⟨w.token, s₂, e, ⟨w.block.number + w.dao.votingDelay
    + w.dao.votingPeriod + 1, T + w.executor.delay⟩, w.history
    ++ [.proposed (w.dao.proposalCount + 1) w.block.number w.dao.votingDelay]
    ++ [.queued (w.dao.proposalCount + 1) T w.executor.delay]⟩ with hw₂
  have hadmin₂ : e.admin = env.self := by
    obtain ⟨_, _, rfl⟩ := hflagged.frame
    exact hadmin
  have hp : w₂.dao.proposals (w.dao.proposalCount + 1)
      = { m.carried w a with eta := T + w.executor.delay } := hp₂
  have hready : Ready env w₂ (w.dao.proposalCount + 1) 0 := by
    refine ⟨hadmin₂, ?_, ?_, ?_, ?_, ?_, ?_⟩
    all_goals simp only [hp]
    · exact h.even
    · intro j t _ ht
      exact (hflagged.bits _).mpr (.inr ⟨j, t, lt_of_action ht, ht, rfl⟩)
    · exact fun hrep => h.distinct.not_repeats w a _ hrep
    · exact Nat.le_refl _
    · exact Nat.lt_add_of_pos_right hgrace_pos
    · exact h.eta_fits
  have hqueued : IsQueued w₂.block (w₂.dao.proposals (w.dao.proposalCount + 1)) := by
    rw [hp]
    refine ⟨rfl, rfl, ?_, Nat.lt_succ_self _, h.votes, h.quorum, ?_, rfl,
      Nat.lt_add_of_pos_right hgrace_pos⟩
    · exact Nat.lt_succ_of_le (Nat.le_add_right _ _)
    · exact Nat.ne_of_gt (Nat.lt_of_lt_of_le hdelay_pos
        (Nat.le_trans hdelay (Nat.le_add_left _ _)))
  obtain ⟨z, calls, hruns₃, hf, hstate, hb, hh, hlen, hperf⟩ := ha.executes hinj hready
    (Nat.le_of_eq (hcount₂.trans hcount₁).symm) hqueued
  have hwait : (governanceMachine env).Runs (Alone env a) ⟨{ w₂ with
      block := ⟨w.block.number + w.dao.votingDelay + w.dao.votingPeriod + 1, T⟩ }, []⟩ ⟨w₂, []⟩ :=
    waits hadmin₂ (Nat.le_refl _) (Nat.le_add_right _ _)
  refine ⟨z, calls, hruns₁.trans (hruns₂.trans (hwait.trans hruns₃)), hf, hb, hstate, ?_, ?_, ?_⟩
  · rw [hh, hw₂, List.append_assoc w.history]
    rfl
  · rwa [hp] at hlen
  · intro k c hc
    have hk := hperf k c hc
    rw [hp] at hk
    exact ⟨hk.target, hk.value, hk.callData⟩

/-! ## Two payments -/

/-- The motion to pay accounts 8 and 9. -/
def twoPayments : Motion := ⟨[.ofNat 8, .ofNat 9], [1, 2], ["", ""], [[], []], ""⟩

theorem twoPayments_distinct : twoPayments.Distinct := by
  intro i j hij hj heq
  have hlen : twoPayments.targets.length = 2 := rfl
  obtain rfl : i = 0 := by omega
  obtain rfl : j = 1 := by omega
  exact absurd heq.1 (by decide)

/-- Account 2, with one of two Nouns, has both payments made when nobody else does anything. -/
theorem majority_governs_twoPayments : ∃ (x z : GovConfig Transaction) (calls : List TargetCall),
    (governanceMachine smallEnv).Runs (AdminIsDAO smallEnv) ⟨smallDeployment.world, []⟩ x
      ∧ x.world.history = [] ∧ (governanceMachine smallEnv).Runs (Alone smallEnv (.ofNat 2)) x z
      ∧ z.world.dao.state z.world.block 1 = .ok .executed ∧ calls.length = 2
      ∧ z.world.history = [.proposed 1 2 1, .queued 1 60000 MINIMUM_DELAY] ++ calls.map .called := by
  obtain ⟨x, hx, hp⟩ := Machine.script_exists (M := governanceMachine smallEnv)
    adminIsSmallDAO_adminIsDAO (x := ⟨smallDeployment.world, []⟩)
    (m := [.enter mintTwo, .tick ⟨2, 20⟩])
    (p := fun x => decide (x.frames.isEmpty ∧ x.world.history.length = 0
      ∧ x.world.executor.admin = .ofNat 10 ∧ x.world.block = ⟨2, 20⟩
      ∧ x.world.dao.proposalCount = 0 ∧ (x.world.dao.proposals 0).eta = 0
      ∧ x.world.dao.latestProposalIds (.ofNat 2) = 0 ∧ x.world.dao.votingDelay = 1
      ∧ x.world.dao.votingPeriod = 5760 ∧ x.world.dao.proposalThresholdBPS = 1
      ∧ x.world.dao.quorumVotesBPS = 200 ∧ x.world.token.totalSupply = 2
      ∧ x.world.token.votesAt (.ofNat 2) 1 = 1 ∧ x.world.token.getCurrentVotes (.ofNat 2) = 1
      ∧ x.world.executor.delay = MINIMUM_DELAY)) (by decide +kernel)
  obtain ⟨hf, hh, hadmin, hb, hcount, heta, hlatest, hdelay, hperiod, hthreshold, hquorum, hsupply,
    hprior, hvotes, hd⟩ := of_decide_eq_true hp
  have hhistory : x.world.history = [] := List.eq_nil_of_length_eq_zero hh
  have hcarries : CanCarry x.world (.ofNat 2) twoPayments 60000 := by
    refine ⟨⟨⟨rfl, rfl, rfl⟩, by decide, by decide, ?_, ?_, ?_, ?_, ?_, ?_⟩, twoPayments_distinct,
      ?_, ?_, ?_, ?_, ?_⟩
    · unfold NounsDAO.requireNoLiveProposal
      rw [hlatest]
      rfl
    all_goals simp only [hb, hcount, hdelay, hperiod, hthreshold, hquorum, hsupply, hvotes, hd]
    · rw [hprior]; decide
    · decide
    · decide
    · decide
    · decide
    · decide
    · decide
    · decide
    · intro q
      rcases Nat.eq_zero_or_pos q with rfl | hq
      · rw [heta]; decide
      · rw [(daoInv_runs (hx.mono fun _ _ _ => trivial)).unborn q (hcount ▸ hq)]; decide
    · decide
  obtain ⟨z, calls, hruns, -, -, hstate, hhist, hlen, -⟩ := majority_governs smallEnv
    Function.injective_id smallDeployment x hx (List.isEmpty_iff.mp hf) hadmin (.ofNat 2)
    ⟨by decide, by decide, by decide⟩ twoPayments 60000 hcarries
  rw [hcount] at hstate
  rw [hcount, hhistory, hb, hdelay, hd] at hhist
  have htwo : (twoPayments.proposal x.world (.ofNat 2)).targets.length = 2 := rfl
  exact ⟨x, z, calls, hx, hhistory, hruns, hstate, by omega, hhist⟩

end Nouns.Proof
