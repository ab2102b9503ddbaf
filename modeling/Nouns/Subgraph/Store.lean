import Nouns.Token.Storage

/-!
# The subgraph's store

The entities of `schema.graphql` that the handlers of the token's and the DAO's events read
and write, and `utils/helpers.ts`. `load` hands out a copy of an entity and `save` overwrites
the stored one, so an entity in the hands of a handler is a value and the store is passed
along. An entity's id is the key it is stored under; ids are written out as text by the
source, which keeps different ones different.
-/

namespace Nouns.Subgraph

open Evm

/-- `Account` -/
structure Account where
  delegate : Option Address
  tokenBalanceRaw : Int
  tokenBalance : Int
  totalTokensHeldRaw : Int
  totalTokensHeld : Int
  nouns : List Nat

/-- `Delegate` -/
structure Delegate where
  delegatedVotesRaw : Int
  delegatedVotes : Int
  tokenHoldersRepresentedAmount : Int
  nounsRepresented : List Nat

/-- `Noun`; its seed is stored under the same id. -/
structure Noun where
  seed : Option Nat
  owner : Address

/-- `ProposalStatus` -/
inductive ProposalStatus where
  | pending
  | active
  | cancelled
  | vetoed
  | queued
  | executed
deriving DecidableEq

/-- `Proposal`. All but the id is unset until a handler sets it. -/
structure Proposal where
  proposer : Option Address
  targets : Option (List Address)
  values : Option (List Nat)
  signatures : Option (List String)
  calldatas : Option (List (List UInt8))
  createdTimestamp : Option Nat
  startBlock : Option Nat
  endBlock : Option Nat
  proposalThreshold : Option Nat
  quorumVotes : Option Nat
  description : Option String
  status : Option ProposalStatus
  executionETA : Option Nat

/-- `Vote` -/
structure Vote where
  support : Bool
  supportDetailed : Nat
  votesRaw : Int
  votes : Int
  reason : Option String
  voter : Address
  nouns : List Nat
  proposal : Nat

/-- `Governance` -/
structure Governance where
  proposals : Int
  currentTokenHolders : Int
  currentDelegates : Int
  totalTokenHolders : Int
  totalDelegates : Int
  delegatedVotesRaw : Int
  delegatedVotes : Int
  proposalsQueued : Int

/-- The stored entities. -/
structure Store where
  accounts : Address → Option Account
  delegates : Address → Option Delegate
  nouns : Nat → Option Noun
  seeds : Nat → Option Seed
  proposals : Nat → Option Proposal
  votes : Address × Nat → Option Vote
  governance : Option Governance

/-- A new account. -/
def Account.new : Account where
  delegate := none
  tokenBalanceRaw := 0
  tokenBalance := 0
  totalTokensHeldRaw := 0
  totalTokensHeld := 0
  nouns := []

/-- A new delegate. -/
def Delegate.new : Delegate where
  delegatedVotesRaw := 0
  delegatedVotes := 0
  tokenHoldersRepresentedAmount := 0
  nounsRepresented := []

/-- A new proposal. -/
def Proposal.new : Proposal :=
  ⟨none, none, none, none, none, none, none, none, none, none, none, none, none⟩

/-- The governance entity as it is before it was ever saved. -/
def Governance.new : Governance := ⟨0, 0, 0, 0, 0, 0, 0, 0⟩

namespace Store

/-- The store before the first event. -/
def empty : Store :=
  ⟨fun _ => none, fun _ => none, fun _ => none, fun _ => none, fun _ => none, fun _ => none, none⟩

def saveAccount (id : Address) (a : Account) (st : Store) : Store :=
  { st with accounts := Function.update st.accounts id (some a) }

def saveDelegate (id : Address) (d : Delegate) (st : Store) : Store :=
  { st with delegates := Function.update st.delegates id (some d) }

def saveNoun (id : Nat) (n : Noun) (st : Store) : Store :=
  { st with nouns := Function.update st.nouns id (some n) }

def saveSeed (id : Nat) (s : Seed) (st : Store) : Store :=
  { st with seeds := Function.update st.seeds id (some s) }

def saveProposal (id : Nat) (p : Proposal) (st : Store) : Store :=
  { st with proposals := Function.update st.proposals id (some p) }

def saveVote (id : Address × Nat) (v : Vote) (st : Store) : Store :=
  { st with votes := Function.update st.votes id (some v) }

def saveGovernance (g : Governance) (st : Store) : Store := { st with governance := some g }

/-! ## `utils/helpers.ts` -/

/-- `getGovernanceEntity` -/
def getGovernanceEntity (st : Store) : Governance :=
  match st.governance with
  | some governance => governance
  | none => .new

/-- `getOrCreateAccount` -/
def getOrCreateAccount (id : Address) (st : Store) : Account × Store :=
  match st.accounts id with
  | some tokenHolder => (tokenHolder, st)
  | none => (.new, st.saveAccount id .new)

/-- `getOrCreateDelegate`. With `createIfNotFound` off it only looks, and is left out. -/
def getOrCreateDelegate (id : Address) (st : Store) : Delegate × Store :=
  match st.delegates id with
  | some delegate => (delegate, st)
  | none =>
      let st := if id ≠ 0 then
          let governance := st.getGovernanceEntity
          st.saveGovernance { governance with totalDelegates := governance.totalDelegates + 1 }
        else st
      (.new, st.saveDelegate id .new)

/-- `getOrCreateProposal`, which does not save the new proposal. -/
def getOrCreateProposal (id : Nat) (st : Store) : Proposal × Store :=
  match st.proposals id with
  | some proposal => (proposal, st)
  | none =>
      let governance := st.getGovernanceEntity
      (.new, st.saveGovernance { governance with proposals := governance.proposals + 1 })

end Store

end Nouns.Subgraph
