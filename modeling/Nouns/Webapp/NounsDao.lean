import Nouns.Governance.NounsDAO
import Nouns.Lib.JsText

/-!
# The web app's proposals

`wrappers/nounsDao.ts` of the web app. What the contract answers is there or not yet; a number of
votes, a block or a time is a natural number. How amounts of ether are written, how call data
are decoded and how arguments are encoded is left to the libraries for it. Titles are left out.
-/

namespace Nouns.Webapp

open Evm JsText

/-- `ProposalDetail` -/
structure ProposalDetail where
  target : Address
  functionSig : String
  callData : String
  value : Option String

/-- The arguments of a log of `ProposalCreated`. -/
structure CreatedArgs where
  id : Nat
  proposer : Address
  targets : List Address
  values : List Nat
  signatures : List String
  calldatas : List Bytes
  startBlock : Nat
  endBlock : Nat
  description : String

/-- `abi.parseLog(log).args`, of a log that `proposalCreatedFilter` lets through -/
def parseLog : DAOEvent → Option CreatedArgs
  | .proposalCreated id proposer targets values signatures calldatas startBlock endBlock
      description =>
      some ⟨id, proposer, targets, values, signatures, calldatas, startBlock, endBlock,
        description⟩
  | _ => none

/-- A log as `useFormattedProposalCreatedLogs` formats it. -/
structure FormattedLog where
  description : String
  transactionHash : String
  details : List ProposalDetail

/-- `ProposalCallResult`, but for what no page shows. -/
structure ProposalCallResult where
  id : Nat
  proposer : Address
  proposalThreshold : Nat
  quorumVotes : Nat
  eta : Nat
  startBlock : Nat
  endBlock : Nat
  forVotes : Nat
  againstVotes : Nat
  abstainVotes : Nat

/-- `Proposal`, without its title. `UNDETERMINED` is `none`. -/
structure ProposalPage where
  id : Option Nat
  description : String
  status : Option ProposalState
  forCount : Nat
  againstCount : Nat
  abstainCount : Nat
  createdBlock : Option Int
  startBlock : Option Nat
  endBlock : Option Nat
  eta : Option Nat
  proposer : Option Address
  proposalThreshold : Nat
  quorumVotes : Nat
  details : Option (List ProposalDetail)
  transactionHash : Option String

/-- `ProposalData` -/
structure ProposalData where
  data : List ProposalPage
  loading : Bool

/-- `countToIndices`: every index is an array of its own -/
def countToIndices (count : Option Nat) : List (List Nat) :=
  match count with
  | some count => (List.range count).map fun i => [i + 1]
  | none => []

/-- `replace(/\\n/g, '\n')`: a backslash and an n become a line break. -/
def replaceBreaks (description : String) : String :=
  "\n".intercalate (description.splitOn "\\n")

section
variable (formatEther : Nat → String) (decode : List String → Bytes → Option String)

/-- The details of one action. Call data that do not decode throw. -/
def formatAction (target : Address) (signature : String) (value : Option Nat)
    (calldata : Option Bytes) : Option ProposalDetail :=
  let parts := split '(' (String.ofList signature.toList.dropLast)
  let name := parts[0]?
  let types := parts[1]?.getD ""
  if name.getD "" = "" ∨ types = "" then
    some
      { target := target
        functionSig := if name = some "" then "transfer" else name.getD "unknown"
        callData := if types ≠ "" then types else
          (value.map fun value => formatEther value ++ " ETH").getD ""
        value := none }
  else do
    let decoded ← decode (split ',' types) (← calldata)
    let value ← value
    return {
      target := target
      functionSig := name.getD ""
      callData := decoded
      value := some (if 0 < value then "\x7b value: " ++ formatEther value ++ " ETH \x7d" else "") }

/-- The details of all actions -/
def formatDetails (targets : List Address) (values : List Nat) (signatures : List String)
    (calldatas : List Bytes) : Option (List ProposalDetail) :=
  targets.zipIdx.mapM fun (target, i) => do
    formatAction formatEther decode target (← signatures[i]?) values[i]? calldatas[i]?

/-- The body of `useFormattedProposalCreatedLogs`. -/
def formatLog (transactionHash : String) (parsed : CreatedArgs) : Option FormattedLog :=
  (formatDetails formatEther decode parsed.targets parsed.values parsed.signatures
    parsed.calldatas).map fun details => ⟨parsed.description, transactionHash, details⟩

/-- `useFormattedProposalCreatedLogs`, of the hashes of their transactions with the logs -/
def formatLogs (logs : List (String × DAOEvent)) : Option (List FormattedLog) :=
  (logs.filterMap fun log => (parseLog log.2).map (log.1, ·)).mapM fun log =>
    formatLog formatEther decode log.1 log.2

end

/-- The answer of the contract's `proposals`. -/
def callProposals (s : NounsDAO) (id : Nat) : ProposalCallResult where
  id := (s.proposals id).id
  proposer := (s.proposals id).proposer
  proposalThreshold := (s.proposals id).proposalThreshold
  quorumVotes := (s.proposals id).quorumVotes
  eta := (s.proposals id).eta
  startBlock := (s.proposals id).startBlock
  endBlock := (s.proposals id).endBlock
  forVotes := (s.proposals id).forVotes
  againstVotes := (s.proposals id).againstVotes
  abstainVotes := (s.proposals id).abstainVotes

/-- How an array is encoded for a `uint256`: it is taken for bytes, and is refused if it is none. -/
structure EncodesBytes (encodeUint : List Nat → Option Nat) : Prop where
  byte : ∀ n, n < 256 → encodeUint [n] = some n
  refuses : ∀ n, 256 ≤ n → encodeUint [n] = none

/-- `useContractCalls` with one index each. A call that cannot be encoded has no answer. -/
def callEach {A : Type} (encodeUint : List Nat → Option Nat) (answer : Nat → Option A)
    (indices : List (List Nat)) : List (Option A) :=
  indices.map fun index => (encodeUint index).bind answer

/-- The body of `useAllProposals`. -/
def proposalPage (votingDelay : Option Nat) (proposal : Option ProposalCallResult)
    (proposalState : Option ProposalState) (log : Option FormattedLog) : ProposalPage where
  id := proposal.map ProposalCallResult.id
  description := (log.map fun log => replaceBreaks log.description).getD "No description."
  proposer := proposal.map ProposalCallResult.proposer
  status := proposalState
  proposalThreshold := (proposal.map ProposalCallResult.proposalThreshold).getD 0
  quorumVotes := (proposal.map ProposalCallResult.quorumVotes).getD 0
  forCount := (proposal.map ProposalCallResult.forVotes).getD 0
  againstCount := (proposal.map ProposalCallResult.againstVotes).getD 0
  abstainCount := (proposal.map ProposalCallResult.abstainVotes).getD 0
  createdBlock := proposal.map fun p => (p.startBlock - votingDelay.getD 0 : Int)
  startBlock := proposal.map ProposalCallResult.startBlock
  endBlock := proposal.map ProposalCallResult.endBlock
  eta := proposal.map ProposalCallResult.eta
  details := log.map FormattedLog.details
  transactionHash := log.map FormattedLog.transactionHash

/-- `useAllProposals`, of what it is given by the calls of the contract and by the logs -/
def useAllProposals (votingDelay : Option Nat) (proposals : List (Option ProposalCallResult))
    (proposalStates : List (Option ProposalState)) (formattedLogs : Option (List FormattedLog)) :
    ProposalData :=
  let logs := formattedLogs.getD []
  if proposals ≠ [] ∧ logs = [] then ⟨[], true⟩
  else
    { data := proposals.zipIdx.map fun (proposal, i) =>
        proposalPage votingDelay proposal (proposalStates[i]?).join logs[i]?
      loading := false }

/-- `useProposal` -/
def useProposal (id : Nat) (data : List ProposalPage) : Option ProposalPage :=
  data.find? fun p => p.id = some id

end Nouns.Webapp
