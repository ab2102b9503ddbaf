import Nouns.Governance.Executor
import Nouns.Token.NounsToken

/-!
# The DAO

`NounsDAOLogicV1.sol`, with the storage of `NounsDAOInterfaces.sol`. The contract reads
the token and drives the executor; both are handed to the functions that use them,
`self` being the address the DAO calls from. `execute` is here up to its loop, which
calls targets and is cut at each of them in `Nouns.Governance.System`.
-/

namespace Nouns

open Evm

/-- `ProposalState` -/
inductive ProposalState where
  | pending
  | active
  | canceled
  | defeated
  | succeeded
  | queued
  | expired
  | executed
  | vetoed
deriving DecidableEq

/-- `Receipt` -/
structure Receipt where
  hasVoted : Bool
  support : Nat
  votes : Nat
deriving DecidableEq

/-- `Proposal` -/
structure Proposal where
  id : Nat
  proposer : Address
  proposalThreshold : Nat
  quorumVotes : Nat
  eta : Nat
  targets : List Address
  values : List Nat
  signatures : List String
  calldatas : List Bytes
  startBlock : Nat
  endBlock : Nat
  forVotes : Nat
  againstVotes : Nat
  abstainVotes : Nat
  canceled : Bool
  vetoed : Bool
  executed : Bool
  receipts : Address → Receipt

/-- The events of the DAO. -/
inductive DAOEvent where
  | proposalCreated (id : Nat) (proposer : Address) (targets : List Address) (values : List Nat)
      (signatures : List String) (calldatas : List Bytes) (startBlock endBlock : Nat)
      (description : String)
  | proposalCreatedWithRequirements (id : Nat) (proposer : Address) (targets : List Address)
      (values : List Nat) (signatures : List String) (calldatas : List Bytes)
      (startBlock endBlock proposalThreshold quorumVotes : Nat) (description : String)
  | voteCast (voter : Address) (proposalId support votes : Nat) (reason : String)
  | proposalCanceled (id : Nat)
  | proposalQueued (id eta : Nat)
  | proposalExecuted (id : Nat)
  | proposalVetoed (id : Nat)
  | votingDelaySet (oldVotingDelay newVotingDelay : Nat)
  | votingPeriodSet (oldVotingPeriod newVotingPeriod : Nat)
  | proposalThresholdBPSSet (oldProposalThresholdBPS newProposalThresholdBPS : Nat)
  | quorumVotesBPSSet (oldQuorumVotesBPS newQuorumVotesBPS : Nat)
  | newPendingAdmin (oldPendingAdmin newPendingAdmin : Address)
  | newAdmin (oldAdmin newAdmin : Address)
  | newVetoer (oldVetoer newVetoer : Address)

/-- `NounsDAOStorageV1` -/
structure NounsDAO where
  admin : Address
  pendingAdmin : Address
  vetoer : Address
  votingDelay : Nat
  votingPeriod : Nat
  proposalThresholdBPS : Nat
  quorumVotesBPS : Nat
  proposalCount : Nat
  timelock : Address
  nouns : Address
  proposals : Nat → Proposal
  latestProposalIds : Address → Nat
  logs : List DAOEvent

def MIN_PROPOSAL_THRESHOLD_BPS : Nat := 1
def MAX_PROPOSAL_THRESHOLD_BPS : Nat := 1000
def MIN_VOTING_PERIOD : Nat := 5760
def MAX_VOTING_PERIOD : Nat := 80640
def MIN_VOTING_DELAY : Nat := 1
def MAX_VOTING_DELAY : Nat := 40320
def MIN_QUORUM_VOTES_BPS : Nat := 200
def MAX_QUORUM_VOTES_BPS : Nat := 2000
def proposalMaxOperations : Nat := 10

/-- A proposal that was never written. -/
def Proposal.blank : Proposal where
  id := 0
  proposer := 0
  proposalThreshold := 0
  quorumVotes := 0
  eta := 0
  targets := []
  values := []
  signatures := []
  calldatas := []
  startBlock := 0
  endBlock := 0
  forVotes := 0
  againstVotes := 0
  abstainVotes := 0
  canceled := false
  vetoed := false
  executed := false
  receipts := fun _ => ⟨false, 0, 0⟩

/-- The fields `propose` writes to `newProposal`. -/
def Proposal.write (newProposal : Proposal) (id : Nat) (proposer : Address)
    (proposalThreshold quorumVotes : Nat) (targets : List Address) (values : List Nat)
    (signatures : List String) (calldatas : List Bytes) (startBlock endBlock : Nat) : Proposal :=
  { newProposal with
    id := id
    proposer := proposer
    proposalThreshold := proposalThreshold
    quorumVotes := quorumVotes
    eta := 0
    targets := targets
    values := values
    signatures := signatures
    calldatas := calldatas
    startBlock := startBlock
    endBlock := endBlock
    forVotes := 0
    againstVotes := 0
    abstainVotes := 0
    canceled := false
    executed := false
    vetoed := false }

/-- The `i`-th action of a proposal, at `eta`. -/
def Proposal.action (proposal : Proposal) (i eta : Nat) : Result Transaction := do
  let target ← index proposal.targets i
  let value ← index proposal.values i
  let signature ← index proposal.signatures i
  let data ← index proposal.calldatas i
  return ⟨target, value, signature, data, eta⟩

/-- `bps2Uint` -/
def bps2Uint (bps number : Nat) : Result Nat := do
  let product ← mul 256 number bps
  return product / 10000

namespace NounsDAO

/-- `emit e` -/
def emit (e : DAOEvent) (s : NounsDAO) : NounsDAO := { s with logs := s.logs ++ [e] }

/-- Write the storage pointer `proposal` of proposal `proposalId`. -/
def setProposal (proposalId : Nat) (proposal : Proposal) (s : NounsDAO) : NounsDAO :=
  { s with proposals := Function.update s.proposals proposalId proposal }

/-- The storage before `initialize`. -/
def blank (admin : Address) : NounsDAO where
  admin := admin
  pendingAdmin := 0
  vetoer := 0
  votingDelay := 0
  votingPeriod := 0
  proposalThresholdBPS := 0
  quorumVotesBPS := 0
  proposalCount := 0
  timelock := 0
  nouns := 0
  proposals := fun _ => .blank
  latestProposalIds := fun _ => 0
  logs := []

/-- `initialize` -/
def initialize_ (sender timelock_ nouns_ vetoer_ : Address)
    (votingPeriod_ votingDelay_ proposalThresholdBPS_ quorumVotesBPS_ : Nat) (s : NounsDAO) :
    Result NounsDAO := do
  require (s.timelock = 0) "NounsDAO::initialize: can only initialize once"
  require (sender = s.admin) "NounsDAO::initialize: admin only"
  require (timelock_ ≠ 0) "NounsDAO::initialize: invalid timelock address"
  require (nouns_ ≠ 0) "NounsDAO::initialize: invalid nouns address"
  require (MIN_VOTING_PERIOD ≤ votingPeriod_ ∧ votingPeriod_ ≤ MAX_VOTING_PERIOD)
    "NounsDAO::initialize: invalid voting period"
  require (MIN_VOTING_DELAY ≤ votingDelay_ ∧ votingDelay_ ≤ MAX_VOTING_DELAY)
    "NounsDAO::initialize: invalid voting delay"
  require (MIN_PROPOSAL_THRESHOLD_BPS ≤ proposalThresholdBPS_
      ∧ proposalThresholdBPS_ ≤ MAX_PROPOSAL_THRESHOLD_BPS)
    "NounsDAO::initialize: invalid proposal threshold"
  require (MIN_QUORUM_VOTES_BPS ≤ quorumVotesBPS_ ∧ quorumVotesBPS_ ≤ MAX_QUORUM_VOTES_BPS)
    "NounsDAO::initialize: invalid proposal threshold"
  let s := s.emit (.votingPeriodSet s.votingPeriod votingPeriod_)
  let s := s.emit (.votingDelaySet s.votingDelay votingDelay_)
  let s := s.emit (.proposalThresholdBPSSet s.proposalThresholdBPS proposalThresholdBPS_)
  let s := s.emit (.quorumVotesBPSSet s.quorumVotesBPS quorumVotesBPS_)
  return { s with
    timelock := timelock_
    nouns := nouns_
    vetoer := vetoer_
    votingPeriod := votingPeriod_
    votingDelay := votingDelay_
    proposalThresholdBPS := proposalThresholdBPS_
    quorumVotesBPS := quorumVotesBPS_ }

/-- `NounsDAOProxy.constructor`, sent by `sender`, but for the implementation it records. -/
def deploy (sender timelock_ nouns_ vetoer_ admin_ : Address)
    (votingPeriod_ votingDelay_ proposalThresholdBPS_ quorumVotesBPS_ : Nat) : Result NounsDAO := do
  let s ← (blank sender).initialize_ sender timelock_ nouns_ vetoer_ votingPeriod_ votingDelay_
    proposalThresholdBPS_ quorumVotesBPS_
  return { s with admin := admin_ }

/-- `state` -/
def state (block : Block) (s : NounsDAO) (proposalId : Nat) : Result ProposalState := do
  require (proposalId ≤ s.proposalCount) "NounsDAO::state: invalid proposal id"
  let proposal := s.proposals proposalId
  if proposal.vetoed then return .vetoed
  else if proposal.canceled then return .canceled
  else if block.number ≤ proposal.startBlock then return .pending
  else if block.number ≤ proposal.endBlock then return .active
  else if proposal.forVotes ≤ proposal.againstVotes ∨ proposal.forVotes < proposal.quorumVotes then
    return .defeated
  else if proposal.eta = 0 then return .succeeded
  else if proposal.executed then return .executed
  else
    let latest ← add 256 proposal.eta GRACE_PERIOD
    if latest ≤ block.timestamp then return .expired else return .queued

/-- The check of `propose` that the proposer has no live proposal. -/
def requireNoLiveProposal (block : Block) (s : NounsDAO) (proposer : Address) : Result Unit :=
  let latestProposalId := s.latestProposalIds proposer
  if latestProposalId ≠ 0 then do
    let proposersLatestProposalState ← s.state block latestProposalId
    require (proposersLatestProposalState ≠ .active)
      "NounsDAO::propose: one live proposal per proposer, found an already active proposal"
    require (proposersLatestProposalState ≠ .pending)
      "NounsDAO::propose: one live proposal per proposer, found an already pending proposal"
  else .ok ()

/-- `propose`, with the id it returns. -/
def propose (sender : Address) (block : Block) (nouns : NounsToken) (targets : List Address)
    (values : List Nat) (signatures : List String) (calldatas : List Bytes) (description : String)
    (s : NounsDAO) : Result (NounsDAO × Nat) := do
  let totalSupply := nouns.totalSupply
  let proposalThreshold ← bps2Uint s.proposalThresholdBPS totalSupply
  let lastBlock ← sub block.number 1
  let votes ← nouns.getPriorVotes block sender lastBlock
  require (proposalThreshold < votes)
    "NounsDAO::propose: proposer votes below proposal threshold"
  require (targets.length = values.length ∧ targets.length = signatures.length
      ∧ targets.length = calldatas.length)
    "NounsDAO::propose: proposal function information arity mismatch"
  require (targets.length ≠ 0) "NounsDAO::propose: must provide actions"
  require (targets.length ≤ proposalMaxOperations) "NounsDAO::propose: too many actions"
  s.requireNoLiveProposal block sender
  let startBlock ← add 256 block.number s.votingDelay
  let endBlock ← add 256 startBlock s.votingPeriod
  let proposalCount ← add 256 s.proposalCount 1
  let quorumVotes ← bps2Uint s.quorumVotesBPS totalSupply
  let s := { s with proposalCount := proposalCount }
  let s := s.setProposal proposalCount ((s.proposals proposalCount).write proposalCount sender
    proposalThreshold quorumVotes targets values signatures calldatas startBlock endBlock)
  let s := { s with
    latestProposalIds := Function.update s.latestProposalIds sender proposalCount }
  let s := s.emit (.proposalCreated proposalCount sender targets values signatures calldatas
    startBlock endBlock description)
  let s := s.emit (.proposalCreatedWithRequirements proposalCount sender targets values signatures
    calldatas startBlock endBlock proposalThreshold quorumVotes description)
  return (s, proposalCount)

section
variable {H : Type} [DecidableEq H] (hs : Hashing H) (self : Address) (block : Block)

/-- `queueOrRevertInternal` -/
def queueOrRevertInternal (t : Transaction) (timelock : NounsDAOExecutor H) :
    Result (NounsDAOExecutor H) := do
  require (¬ timelock.queuedTransactions (hs.txHash t))
    "NounsDAO::queueOrRevertInternal: identical proposal action already queued at eta"
  timelock.queueTransaction hs self block t

/-- `queue` -/
def queue (proposalId : Nat) (s : NounsDAO) (timelock : NounsDAOExecutor H) :
    Result (NounsDAO × NounsDAOExecutor H) := do
  let current ← s.state block proposalId
  require (current = .succeeded) "NounsDAO::queue: proposal can only be queued if it is succeeded"
  let proposal := s.proposals proposalId
  let eta ← add 256 block.timestamp timelock.delay
  let timelock ← (List.range proposal.targets.length).foldlM (fun timelock i => do
    let t ← proposal.action i eta
    queueOrRevertInternal hs self block t timelock) timelock
  let s := s.setProposal proposalId { proposal with eta := eta }
  return (s.emit (.proposalQueued proposalId eta), timelock)

/-- `execute` up to its loop -/
def execute (proposalId : Nat) (s : NounsDAO) : Result NounsDAO := do
  let current ← s.state block proposalId
  require (current = .queued) "NounsDAO::execute: proposal can only be executed if it is queued"
  return s.setProposal proposalId { s.proposals proposalId with executed := true }

/-- The loop of `cancel` and of `veto`. -/
def cancelTransactions (proposal : Proposal) (timelock : NounsDAOExecutor H) :
    Result (NounsDAOExecutor H) :=
  (List.range proposal.targets.length).foldlM (fun timelock i => do
    let t ← proposal.action i proposal.eta
    timelock.cancelTransaction hs self t) timelock

/-- `cancel` -/
def cancel (sender : Address) (nouns : NounsToken) (proposalId : Nat) (s : NounsDAO)
    (timelock : NounsDAOExecutor H) : Result (NounsDAO × NounsDAOExecutor H) := do
  let current ← s.state block proposalId
  require (current ≠ .executed) "NounsDAO::cancel: cannot cancel executed proposal"
  let proposal := s.proposals proposalId
  let below ← (if sender = proposal.proposer then .ok true else do
    let lastBlock ← sub block.number 1
    let votes ← nouns.getPriorVotes block proposal.proposer lastBlock
    return votes < proposal.proposalThreshold)
  require below "NounsDAO::cancel: proposer above threshold"
  let s := s.setProposal proposalId { proposal with canceled := true }
  let timelock ← cancelTransactions hs self proposal timelock
  return (s.emit (.proposalCanceled proposalId), timelock)

/-- `veto` -/
def veto (sender : Address) (proposalId : Nat) (s : NounsDAO) (timelock : NounsDAOExecutor H) :
    Result (NounsDAO × NounsDAOExecutor H) := do
  require (s.vetoer ≠ 0) "NounsDAO::veto: veto power burned"
  require (sender = s.vetoer) "NounsDAO::veto: only vetoer"
  let current ← s.state block proposalId
  require (current ≠ .executed) "NounsDAO::veto: cannot veto executed proposal"
  let proposal := s.proposals proposalId
  let s := s.setProposal proposalId { proposal with vetoed := true }
  let timelock ← cancelTransactions hs self proposal timelock
  return (s.emit (.proposalVetoed proposalId), timelock)

end

/-- A proposal's tallies after `votes` votes of kind `support`. -/
def tally (support votes : Nat) (proposal : Proposal) : Result Proposal :=
  if support = 0 then do
    let n ← add 256 proposal.againstVotes votes
    return { proposal with againstVotes := n }
  else if support = 1 then do
    let n ← add 256 proposal.forVotes votes
    return { proposal with forVotes := n }
  else if support = 2 then do
    let n ← add 256 proposal.abstainVotes votes
    return { proposal with abstainVotes := n }
  else .ok proposal

/-- `castVoteInternal`, with the votes it returns. -/
def castVoteInternal (block : Block) (nouns : NounsToken) (voter : Address)
    (proposalId support : Nat) (s : NounsDAO) : Result (NounsDAO × Nat) := do
  let current ← s.state block proposalId
  require (current = .active) "NounsDAO::castVoteInternal: voting is closed"
  require (support ≤ 2) "NounsDAO::castVoteInternal: invalid vote type"
  let proposal := s.proposals proposalId
  require ((proposal.receipts voter).hasVoted = false)
    "NounsDAO::castVoteInternal: voter already voted"
  let snapshot ← sub proposal.startBlock s.votingDelay
  let votes ← nouns.getPriorVotes block voter snapshot
  let proposal ← tally support votes proposal
  let proposal := { proposal with
    receipts := Function.update proposal.receipts voter ⟨true, support, votes⟩ }
  return (s.setProposal proposalId proposal, votes)

/-- `castVoteWithReason`; `castVote` and `castVoteBySig` give no reason. -/
def castVote (block : Block) (nouns : NounsToken) (voter : Address) (proposalId support : Nat)
    (reason : String) (s : NounsDAO) : Result NounsDAO := do
  let (s, votes) ← s.castVoteInternal block nouns voter proposalId support
  return s.emit (.voteCast voter proposalId support votes reason)

/-- `castVoteBySig`; `recover` is `ecrecover` on the digest of the ballot. -/
def castVoteBySig (recover : Nat → Nat → Signature → Address) (block : Block)
    (nouns : NounsToken) (proposalId support : Nat) (sig : Signature) (s : NounsDAO) :
    Result NounsDAO := do
  let signatory := recover proposalId support sig
  require (signatory ≠ 0) "NounsDAO::castVoteBySig: invalid signature"
  s.castVote block nouns signatory proposalId support ""

/-! ## Administration -/

/-- `_setVotingDelay` -/
def setVotingDelay_ (sender : Address) (newVotingDelay : Nat) (s : NounsDAO) : Result NounsDAO := do
  require (sender = s.admin) "NounsDAO::_setVotingDelay: admin only"
  require (MIN_VOTING_DELAY ≤ newVotingDelay ∧ newVotingDelay ≤ MAX_VOTING_DELAY)
    "NounsDAO::_setVotingDelay: invalid voting delay"
  return { s with votingDelay := newVotingDelay }.emit
    (.votingDelaySet s.votingDelay newVotingDelay)

/-- `_setVotingPeriod` -/
def setVotingPeriod_ (sender : Address) (newVotingPeriod : Nat) (s : NounsDAO) :
    Result NounsDAO := do
  require (sender = s.admin) "NounsDAO::_setVotingPeriod: admin only"
  require (MIN_VOTING_PERIOD ≤ newVotingPeriod ∧ newVotingPeriod ≤ MAX_VOTING_PERIOD)
    "NounsDAO::_setVotingPeriod: invalid voting period"
  return { s with votingPeriod := newVotingPeriod }.emit
    (.votingPeriodSet s.votingPeriod newVotingPeriod)

/-- `_setProposalThresholdBPS` -/
def setProposalThresholdBPS_ (sender : Address) (newProposalThresholdBPS : Nat) (s : NounsDAO) :
    Result NounsDAO := do
  require (sender = s.admin) "NounsDAO::_setProposalThresholdBPS: admin only"
  require (MIN_PROPOSAL_THRESHOLD_BPS ≤ newProposalThresholdBPS
      ∧ newProposalThresholdBPS ≤ MAX_PROPOSAL_THRESHOLD_BPS)
    "NounsDAO::_setProposalThreshold: invalid proposal threshold"
  return { s with proposalThresholdBPS := newProposalThresholdBPS }.emit
    (.proposalThresholdBPSSet s.proposalThresholdBPS newProposalThresholdBPS)

/-- `_setQuorumVotesBPS` -/
def setQuorumVotesBPS_ (sender : Address) (newQuorumVotesBPS : Nat) (s : NounsDAO) :
    Result NounsDAO := do
  require (sender = s.admin) "NounsDAO::_setQuorumVotesBPS: admin only"
  require (MIN_QUORUM_VOTES_BPS ≤ newQuorumVotesBPS ∧ newQuorumVotesBPS ≤ MAX_QUORUM_VOTES_BPS)
    "NounsDAO::_setProposalThreshold: invalid proposal threshold"
  return { s with quorumVotesBPS := newQuorumVotesBPS }.emit
    (.quorumVotesBPSSet s.quorumVotesBPS newQuorumVotesBPS)

/-- `_setPendingAdmin` -/
def setPendingAdmin_ (sender newPendingAdmin : Address) (s : NounsDAO) : Result NounsDAO := do
  require (sender = s.admin) "NounsDAO::_setPendingAdmin: admin only"
  return { s with pendingAdmin := newPendingAdmin }.emit
    (.newPendingAdmin s.pendingAdmin newPendingAdmin)

/-- `_acceptAdmin` -/
def acceptAdmin_ (sender : Address) (s : NounsDAO) : Result NounsDAO := do
  require (sender = s.pendingAdmin ∧ sender ≠ 0) "NounsDAO::_acceptAdmin: pending admin only"
  return ({ s with admin := s.pendingAdmin, pendingAdmin := 0 }.emit
    (.newAdmin s.admin s.pendingAdmin)).emit (.newPendingAdmin s.pendingAdmin 0)

/-- `_setVetoer` -/
def setVetoer_ (sender newVetoer : Address) (s : NounsDAO) : Result NounsDAO := do
  require (sender = s.vetoer) "NounsDAO::_setVetoer: vetoer only"
  return { s.emit (.newVetoer s.vetoer newVetoer) with vetoer := newVetoer }

/-- `_burnVetoPower` -/
def burnVetoPower_ (sender : Address) (s : NounsDAO) : Result NounsDAO := do
  require (sender = s.vetoer) "NounsDAO::_burnVetoPower: vetoer only"
  s.setVetoer_ sender 0

end NounsDAO

end Nouns
