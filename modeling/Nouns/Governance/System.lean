import Nouns.Governance.NounsDAO

/-!
# The token, the DAO and its timelock together

One world with the three contracts. `execute` runs the actions of a proposal one
after the other; each is a call of the executor to a target nobody has modelled, and
the target may call any of the three contracts before it returns. The world also
remembers what the storage forgets: when a proposal was created and queued, and
every call the executor made to a target.
-/

namespace Nouns

open Evm CallMachine

/-- What does not change: the addresses of the contracts and the cryptography. -/
structure Env (H : Type) where
  /-- The DAO's address. -/
  self : Address
  timelock : Address
  nouns : Address
  hashing : Hashing H
  /-- `ecrecover` on the EIP-712 digest of a ballot. -/
  recoverBallot : Nat → Nat → Signature → Address

/-- A call of the executor to a target, with the DAO and the block at that moment. -/
structure TargetCall where
  /-- The proposal and the index of its action; `none` if an admin executed it directly. -/
  origin : Option (Nat × Nat)
  target : Address
  value : Nat
  callData : Bytes
  dao : NounsDAO
  block : Block

/-- What the storage does not remember. -/
inductive Milestone where
  | proposed (proposalId block votingDelay : Nat)
  | queued (proposalId now delay : Nat)
  | called (c : TargetCall)

/-- The three contracts, the block, and the history. -/
structure Governance (H : Type) where
  token : NounsToken
  dao : NounsDAO
  executor : NounsDAOExecutor H
  block : Block
  history : List Milestone

/-- The state-changing entry points of the three contracts. -/
inductive GovernanceCall where
  | token (view : View) (call : TokenCall)
  | executor (call : ExecutorCall)
  | initialize_ (timelock nouns vetoer : Address)
      (votingPeriod votingDelay proposalThresholdBPS quorumVotesBPS : Nat)
  | propose (targets : List Address) (values : List Nat) (signatures : List String)
      (calldatas : List Bytes) (description : String)
  | queue (proposalId : Nat)
  | execute (proposalId : Nat)
  | cancel (proposalId : Nat)
  | veto (proposalId : Nat)
  | castVote (proposalId support : Nat)
  | castVoteWithReason (proposalId support : Nat) (reason : String)
  | castVoteBySig (proposalId support : Nat) (sig : Signature)
  | setVotingDelay_ (newVotingDelay : Nat)
  | setVotingPeriod_ (newVotingPeriod : Nat)
  | setProposalThresholdBPS_ (newProposalThresholdBPS : Nat)
  | setQuorumVotesBPS_ (newQuorumVotesBPS : Nat)
  | setPendingAdmin_ (newPendingAdmin : Address)
  | acceptAdmin_
  | setVetoer_ (newVetoer : Address)
  | burnVetoPower_

/-- A transaction, or a call made from inside one. -/
structure GovernanceTx where
  sender : Address
  call : GovernanceCall

/-- The pending calls: `execute` waits for its action `i`, `executeTransaction` for a target. -/
inductive GovernanceFrame where
  | onERC721Received
  | execute (proposalId i : Nat) (t : Transaction)
  | executeTransaction (t : Transaction)

/-- Whether it is the executor who called. -/
def GovernanceFrame.byTimelock : GovernanceFrame → Bool
  | .onERC721Received => false
  | _ => true

variable {H : Type} [DecidableEq H]

namespace Governance

/-- Run code of the DAO that calls nobody. -/
def onDAO (w : Governance H) (r : Result NounsDAO) :
    Result (Outcome (Governance H) GovernanceFrame) := do
  let dao ← r
  return .done { w with dao := dao }

/-- Run code of the DAO that drives the executor. -/
def onBoth (w : Governance H) (r : Result (NounsDAO × NounsDAOExecutor H)) :
    Result (Outcome (Governance H) GovernanceFrame) := do
  let (dao, executor) ← r
  return .done { w with dao := dao, executor := executor }

/-- Run code of the executor that calls nobody. -/
def onExecutor (w : Governance H) (r : Result (NounsDAOExecutor H)) :
    Result (Outcome (Governance H) GovernanceFrame) := do
  let executor ← r
  return .done { w with executor := executor }

/-- `executeTransaction`, sent by `sender`, up to the call of the target. -/
def callTarget (env : Env H) (sender : Address) (origin : Option (Nat × Nat)) (t : Transaction)
    (w : Governance H) : Result (Governance H) := do
  let executor ← w.executor.executeTransaction env.hashing sender w.block t
  return { w with
    executor := executor
    history := w.history ++ [.called
      ⟨origin, t.target, t.value, NounsDAOExecutor.callData env.hashing t, w.dao, w.block⟩] }

/-- The loop of `execute`, from action `i` to the call of its target. -/
def executeActions (env : Env H) (proposalId i : Nat) (w : Governance H) :
    Result (Outcome (Governance H) GovernanceFrame) :=
  let proposal := w.dao.proposals proposalId
  if i < proposal.targets.length then do
    let t ← proposal.action i proposal.eta
    let w ← w.callTarget env env.self (some (proposalId, i)) t
    return .call w w (.execute proposalId i t)
  else .ok (.done { w with dao := w.dao.emit (.proposalExecuted proposalId) })

/-- The entry points of the executor. -/
def enterExecutor (env : Env H) (sender : Address) (w : Governance H) :
    ExecutorCall → Result (Outcome (Governance H) GovernanceFrame)
  | .setDelay delay => w.onExecutor (w.executor.setDelay env.timelock sender delay)
  | .acceptAdmin => w.onExecutor (w.executor.acceptAdmin sender)
  | .setPendingAdmin pendingAdmin =>
      w.onExecutor (w.executor.setPendingAdmin env.timelock sender pendingAdmin)
  | .queueTransaction t =>
      w.onExecutor (w.executor.queueTransaction env.hashing sender w.block t)
  | .cancelTransaction t => w.onExecutor (w.executor.cancelTransaction env.hashing sender t)
  | .executeTransaction t => do
      let w ← w.callTarget env sender none t
      return .call w w (.executeTransaction t)

/-- The entry points of the three contracts. -/
def enter (env : Env H) (tx : GovernanceTx) (w : Governance H) :
    Result (Outcome (Governance H) GovernanceFrame) :=
  match tx.call with
  | .token view call => do
      let token ← w.token.call ⟨tx.sender, w.block, view⟩ call
      let w := { w with token := token }
      if call.asksRecipient view then .ok (.call w w .onERC721Received) else .ok (.done w)
  | .executor call => w.enterExecutor env tx.sender call
  | .initialize_ timelock nouns vetoer votingPeriod votingDelay proposalThresholdBPS
      quorumVotesBPS => w.onDAO (w.dao.initialize_ tx.sender timelock nouns vetoer votingPeriod
        votingDelay proposalThresholdBPS quorumVotesBPS)
  | .propose targets values signatures calldatas description => do
      let (dao, proposalId) ← w.dao.propose tx.sender w.block w.token targets values signatures
        calldatas description
      return .done { w with
        dao := dao
        history := w.history ++ [.proposed proposalId w.block.number w.dao.votingDelay] }
  | .queue proposalId => do
      let (dao, executor) ← w.dao.queue env.hashing env.self w.block proposalId w.executor
      return .done { w with
        dao := dao
        executor := executor
        history := w.history ++ [.queued proposalId w.block.timestamp w.executor.delay] }
  | .execute proposalId => do
      let dao ← w.dao.execute w.block proposalId
      executeActions env proposalId 0 { w with dao := dao }
  | .cancel proposalId => w.onBoth
      (w.dao.cancel env.hashing env.self w.block tx.sender w.token proposalId w.executor)
  | .veto proposalId => w.onBoth
      (w.dao.veto env.hashing env.self w.block tx.sender proposalId w.executor)
  | .castVote proposalId support =>
      w.onDAO (w.dao.castVote w.block w.token tx.sender proposalId support "")
  | .castVoteWithReason proposalId support reason =>
      w.onDAO (w.dao.castVote w.block w.token tx.sender proposalId support reason)
  | .castVoteBySig proposalId support sig =>
      w.onDAO (w.dao.castVoteBySig env.recoverBallot w.block w.token proposalId support sig)
  | .setVotingDelay_ newVotingDelay => w.onDAO (w.dao.setVotingDelay_ tx.sender newVotingDelay)
  | .setVotingPeriod_ newVotingPeriod =>
      w.onDAO (w.dao.setVotingPeriod_ tx.sender newVotingPeriod)
  | .setProposalThresholdBPS_ newProposalThresholdBPS =>
      w.onDAO (w.dao.setProposalThresholdBPS_ tx.sender newProposalThresholdBPS)
  | .setQuorumVotesBPS_ newQuorumVotesBPS =>
      w.onDAO (w.dao.setQuorumVotesBPS_ tx.sender newQuorumVotesBPS)
  | .setPendingAdmin_ newPendingAdmin =>
      w.onDAO (w.dao.setPendingAdmin_ tx.sender newPendingAdmin)
  | .acceptAdmin_ => w.onDAO (w.dao.acceptAdmin_ tx.sender)
  | .setVetoer_ newVetoer => w.onDAO (w.dao.setVetoer_ tx.sender newVetoer)
  | .burnVetoPower_ => w.onDAO (w.dao.burnVetoPower_ tx.sender)

/-- Run on after a pending call came back. -/
def resume (env : Env H) (f : GovernanceFrame) (ok : Bool) (w : Governance H) :
    Result (Outcome (Governance H) GovernanceFrame) :=
  match f with
  | .onERC721Received => do
      require ok "ERC721: transfer to non ERC721Receiver implementer"
      return .done w
  | .execute proposalId i t => do
      let executor ← w.executor.executeTransactionEnd env.hashing t ok
      executeActions env proposalId (i + 1) { w with executor := executor }
  | .executeTransaction t =>
      w.onExecutor (w.executor.executeTransactionEnd env.hashing t ok)

end Governance

/--
The three contracts as a machine. The DAO sends nothing but what its own code sends,
and the executor calls a contract only when it has called a target.
-/
def governanceMachine (env : Env H) :
    Machine (Governance H) GovernanceTx GovernanceFrame Block Revert where
  enter := Governance.enter env
  resume := Governance.resume env
  allowed tx _ fs := tx.sender ≠ 0 ∧ tx.sender ≠ env.self
    ∧ (tx.sender = env.timelock → fs.head?.any GovernanceFrame.byTimelock = true)
  tick next w := (w.block.tick next).map (fun b => { w with block := b })

instance (env : Env H) (tx : GovernanceTx) (w : Governance H) (fs : List GovernanceFrame) :
    Decidable ((governanceMachine env).allowed tx w fs) :=
  inferInstanceAs (Decidable (tx.sender ≠ 0 ∧ tx.sender ≠ env.self
    ∧ (tx.sender = env.timelock → fs.head?.any GovernanceFrame.byTimelock = true)))

/-- The deployment of the DAO and its timelock, on top of a token that may have a past. -/
structure Deployment (env : Env H) where
  token : NounsToken
  dao : NounsDAO
  executor : NounsDAOExecutor H
  block : Block
  token_runs : ∃ g : Genesis, tokenMachine.Runs Free ⟨g.world, []⟩ ⟨⟨token, block⟩, []⟩
  dao_deployed : ∃ sender vetoer admin votingPeriod votingDelay proposalThresholdBPS quorumVotesBPS,
    NounsDAO.deploy sender env.timelock env.nouns vetoer admin votingPeriod votingDelay
      proposalThresholdBPS quorumVotesBPS = .ok dao
  executor_created : ∃ admin delay, NounsDAOExecutor.create admin delay = .ok executor

/-- The world right after deployment. -/
def Deployment.world {env : Env H} (d : Deployment env) : Governance H :=
  ⟨d.token, d.dao, d.executor, d.block, []⟩

end Nouns
