import Nouns.Governance.NounsDAO
import Nouns.Subgraph.Store

/-!
# The handlers of the DAO's events

`nouns-dao.ts`. Logging errors is left out. The handlers also read the block an event was
logged in, which comes with the event.
-/

namespace Nouns.Subgraph

open Evm

/-- `description.split('\\n').join('\n')`: a backslash and an n become a line break. -/
def breakLines (description : String) : String :=
  "\n".intercalate (description.splitOn "\\n")

namespace Store

/-- `handleProposalCreatedWithRequirements` -/
def handleProposalCreatedWithRequirements (block : Block) (id : Nat) (proposer : Address)
    (targets : List Address) (values : List Nat) (signatures : List String)
    (calldatas : List Bytes) (startBlock endBlock proposalThreshold quorumVotes : Nat)
    (description : String) (st : Store) : Store :=
  let (proposal, st) := st.getOrCreateProposal id
  let (_, st) := st.getOrCreateDelegate proposer
  st.saveProposal id { proposal with
    proposer := some proposer
    targets := some targets
    values := some values
    signatures := some signatures
    calldatas := some calldatas
    createdTimestamp := some block.timestamp
    startBlock := some startBlock
    endBlock := some endBlock
    proposalThreshold := some proposalThreshold
    quorumVotes := some quorumVotes
    description := some (breakLines description)
    status := some (if startBlock ≤ block.number then .active else .pending) }

/-- `handleProposalCanceled` -/
def handleProposalCanceled (id : Nat) (st : Store) : Store :=
  let (proposal, st) := st.getOrCreateProposal id
  st.saveProposal id { proposal with status := some .cancelled }

/-- `handleProposalVetoed` -/
def handleProposalVetoed (id : Nat) (st : Store) : Store :=
  let (proposal, st) := st.getOrCreateProposal id
  st.saveProposal id { proposal with status := some .vetoed }

/-- `handleProposalQueued` -/
def handleProposalQueued (id eta : Nat) (st : Store) : Store :=
  let governance := st.getGovernanceEntity
  let (proposal, st) := st.getOrCreateProposal id
  let st := st.saveProposal id { proposal with status := some .queued, executionETA := some eta }
  st.saveGovernance { governance with proposalsQueued := governance.proposalsQueued + 1 }

/-- `handleProposalExecuted` -/
def handleProposalExecuted (id : Nat) (st : Store) : Store :=
  let governance := st.getGovernanceEntity
  let (proposal, st) := st.getOrCreateProposal id
  let st := st.saveProposal id { proposal with status := some .executed, executionETA := none }
  st.saveGovernance { governance with proposalsQueued := governance.proposalsQueued - 1 }

/-- `handleVoteCast` -/
def handleVoteCast (voter : Address) (proposalId support votes : Nat) (reason : String)
    (st : Store) : Store :=
  let (proposal, st) := st.getOrCreateProposal proposalId
  let (voterEntity, st) := st.getOrCreateDelegate voter
  let st := st.saveVote (voter, proposalId) {
    support := support = 1
    supportDetailed := support
    votesRaw := votes
    votes := votes
    reason := if reason ≠ "" then some reason else (st.votes (voter, proposalId)).bind Vote.reason
    voter := voter
    nouns := voterEntity.nounsRepresented
    proposal := proposalId }
  if proposal.status = some .pending then
    st.saveProposal proposalId { proposal with status := some .active }
  else st

/-- The handler of an event logged in `block`, if it has one. -/
def handleDAOEvent (block : Block) (st : Store) : DAOEvent → Store
  | .proposalCreatedWithRequirements id proposer targets values signatures calldatas startBlock
      endBlock proposalThreshold quorumVotes description =>
      st.handleProposalCreatedWithRequirements block id proposer targets values signatures calldatas
        startBlock endBlock proposalThreshold quorumVotes description
  | .proposalCanceled id => st.handleProposalCanceled id
  | .proposalVetoed id => st.handleProposalVetoed id
  | .proposalQueued id eta => st.handleProposalQueued id eta
  | .proposalExecuted id => st.handleProposalExecuted id
  | .voteCast voter proposalId support votes reason =>
      st.handleVoteCast voter proposalId support votes reason
  | _ => st

/-- The store after events, each with the block it was logged in. -/
def afterDAO (logs : List (Block × DAOEvent)) : Store :=
  logs.foldl (fun st e => st.handleDAOEvent e.1 e.2) empty

end Store

end Nouns.Subgraph
