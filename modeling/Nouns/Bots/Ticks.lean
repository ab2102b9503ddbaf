import Mathlib.Data.List.Basic
import Mathlib.Logic.Function.Basic

/-!
# The bot

`index.ts` of the bots package with `cache.ts` and `utils/proposals.ts`. A tick reads what it has
cached, asks the subgraph, and hands to its handlers what is new. Whatever it waits for may throw,
which ends the tick and leaves in the cache what was written by then.

The ticks and the set-up here are over before another begins. `setInterval` does not see to that:
what a tick does that begins while the last one still waits is outside of this model.
-/

namespace Nouns.Bots

structure Account where
  id : String
deriving DecidableEq

structure Bid where
  id : String
  amount : String
  bidder : Account
deriving DecidableEq

/-- `AuctionBids`: the last auction with its last bid -/
structure AuctionBids where
  id : Nat
  endTime : Int
  bids : List Bid

/-- `ProposalStatus` -/
inductive ProposalStatus where
  | active
  | cancelled
  | executed
  | pending
  | queued
  | vetoed
deriving DecidableEq

/-- `VoteDirection` -/
inductive VoteDirection where
  | against
  | for_
  | abstain
deriving DecidableEq

structure Vote where
  id : String
  voter : Account
  votes : Nat
  supportDetailed : VoteDirection
  reason : Option String
deriving DecidableEq

structure Proposal where
  id : Nat
  proposer : Account
  description : String
  status : ProposalStatus
  quorumVotes : Nat
  proposalThreshold : Nat
  startBlock : Nat
  endBlock : Nat
  executionETA : Nat
  votes : List Vote
deriving DecidableEq

/-- What the `IAuctionLifecycleHandler`s are told. -/
inductive Announcement where
  | newAuction (auctionId : Nat)
  | newBid (auctionId : Nat) (bid : Bid)
  | auctionEndingSoon (auctionId : Nat)
  | newProposal (proposal : Proposal)
  | updatedProposalStatus (proposal : Proposal)
  | proposalAtRiskOfExpiry (proposal : Proposal)
  | governanceVote (proposal : Proposal) (vote : Vote)
deriving DecidableEq

/-! ## The cache -/

/-- The keys of the cache. -/
structure Redis where
  auction : Option Nat
  bid : Option String
  auctionEndingSoon : Option Nat
  proposals : Nat → Option Proposal
  expiryWarningSent : Nat → Bool

/-- `getAuctionCache` -/
def Redis.getAuctionCache (redis : Redis) : Nat := redis.auction.getD 0

/-- `getBidCache` -/
def Redis.getBidCache (redis : Redis) : String := redis.bid.getD ""

/-- `getAuctionEndingSoonCache` -/
def Redis.getAuctionEndingSoonCache (redis : Redis) : Nat := redis.auctionEndingSoon.getD 0

/-- The bot: its cache, and what it has told its handlers so far. -/
structure Bot where
  redis : Redis
  sent : List Announcement

/-- What a tick waits for, after it has asked the subgraph. -/
inductive Call where
  | incrementCounter (counterName : String)
  | set (key : String)
  | handle (announcement : Announcement)

/-- Every call comes back. -/
def allWork : Call → Bool := fun _ => true

/-- What an asynchronous function does, and whether it comes to its end. -/
abbrev Task := Bot → Bot × Bool

/-- One after the other, until one throws. -/
def inTurn : List Task → Task
  | [], bot => (bot, true)
  | task :: tasks, bot =>
      let (bot, returned) := task bot
      if returned then inTurn tasks bot else (bot, false)

/-- `if (c) { .. }` -/
def whenever (c : Prop) [Decidable c] (tasks : List Task) : Task :=
  inTurn (if c then tasks else [])

section
variable (works : Call → Bool)

/-- `incrementCounter` -/
def incrementCounter (counterName : String) : Task := fun bot =>
  (bot, works (.incrementCounter counterName))

/-- `redis.set` -/
def set (key : String) (write : Redis → Redis) : Task := fun bot =>
  if works (.set key) then ({ bot with redis := write bot.redis }, true) else (bot, false)

/-- `Promise.all` of what the handlers do about it. -/
def handle (announcement : Announcement) : Task := fun bot =>
  ({ bot with sent := bot.sent ++ [announcement] }, works (.handle announcement))

/-- `updateAuctionCache` -/
def updateAuctionCache (id : Nat) : Task :=
  set works "NOUNS_AUCTION_CACHE" fun redis => { redis with auction := some id }

/-- `updateBidCache` -/
def updateBidCache (id : String) : Task :=
  set works "NOUNS_BID_CACHE" fun redis => { redis with bid := some id }

/-- `updateAuctionEndingSoonCache` -/
def updateAuctionEndingSoonCache (id : Nat) : Task :=
  set works "NOUNS_AUCTION_ENDING_SOON_CACHE" fun redis => { redis with auctionEndingSoon := some id }

/-- `updateProposalCache` -/
def updateProposalCache (proposal : Proposal) : Task :=
  set works ("NOUNS_PROPOSAL_" ++ toString proposal.id) fun redis =>
    { redis with proposals := Function.update redis.proposals proposal.id (some proposal) }

/-- `setProposalExpiryWarningSent` -/
def setProposalExpiryWarningSent (id : Nat) : Task :=
  set works ("NOUNS_PROPOSAL_EXPIRY_WARNING_SENT_" ++ toString id) fun redis =>
    { redis with expiryWarningSent := Function.update redis.expiryWarningSent id true }

/-! ## Auctions -/

/-- `setupAuction` -/
def setupAuction (lastAuctionBids : AuctionBids) (bot : Bot) : Bot :=
  (updateAuctionCache works lastAuctionBids.id bot).1

/-- The part of `processAuctionTick` about a new bid. -/
def discoverBid (cachedBidId : String) (last : AuctionBids) : List Task :=
  match last.bids with
  | [] => []
  | bid :: _ => [whenever (cachedBidId ≠ bid.id)
      [updateBidCache works bid.id, handle works (.newBid last.id bid)]]

/-- `processAuctionTick` -/
def processAuctionTick (currentTimestamp : Int) (last : AuctionBids) (bot : Bot) : Bot :=
  let cachedAuctionId := bot.redis.getAuctionCache
  let cachedBidId := bot.redis.getBidCache
  let cachedAuctionEndingSoon := bot.redis.getAuctionEndingSoonCache
  let secondsUntilAuctionEnds := last.endTime - currentTimestamp
  (inTurn (
    [whenever (cachedAuctionId < last.id)
      [incrementCounter works "bots_auctions_discovered", updateAuctionCache works last.id,
        handle works (.newAuction last.id), incrementCounter works "bots_auction_cache_updates"],
    incrementCounter works "bots_auction_process_last_auction"]
    ++ discoverBid works cachedBidId last
    -- within 20 min
    ++ [whenever (secondsUntilAuctionEnds < 20 * 60 ∧ cachedAuctionEndingSoon < last.id)
      [updateAuctionEndingSoonCache works last.id, handle works (.auctionEndingSoon last.id)]])
    bot).1

/-! ## Governance -/

/-- `extractNewVotes` -/
def extractNewVotes (proposalBefore proposalAfter : Proposal) : List Vote :=
  let previousStateVoteIds := proposalBefore.votes.map Vote.id
  proposalAfter.votes.filter fun vote => vote.id ∉ previousStateVoteIds ∧ 0 < vote.votes

/-- `SECONDS_IN_DAY` -/
def SECONDS_IN_DAY : Int := 60 * 60 * 24

/-- `isAtRiskOfExpiry` -/
def isAtRiskOfExpiry (currentTimestamp : Int) (proposal : Proposal) : Bool :=
  let expiresAt := proposal.executionETA + SECONDS_IN_DAY * 14
  let secondsUntilExpiry := expiresAt - currentTimestamp
  proposal.status = .queued ∧ 0 < secondsUntilExpiry ∧ secondsUntilExpiry ≤ SECONDS_IN_DAY * 2

/-- `setupGovernance` -/
def setupGovernance (proposals : List Proposal) (bot : Bot) : Bot :=
  proposals.foldl (fun bot proposal => (updateProposalCache works proposal bot).1) bot

/-- The handlers are told of the votes; nobody waits for them. -/
def announceVotes (proposal : Proposal) (newVotes : List Vote) : Task := fun bot =>
  ({ bot with sent := bot.sent ++ newVotes.map (.governanceVote proposal) }, true)

/-- What `processGovernanceTick` does about a proposal. -/
def processProposal (currentTimestamp : Int) (proposal : Proposal) : Task := fun bot =>
  inTurn ((match bot.redis.proposals proposal.id with
    | none => [handle works (.newProposal proposal)]
    | some cachedProposal =>
        [whenever (cachedProposal.status ≠ proposal.status)
          [handle works (.updatedProposalStatus proposal)],
        announceVotes proposal (extractNewVotes cachedProposal proposal),
        whenever (isAtRiskOfExpiry currentTimestamp proposal = true
            ∧ bot.redis.expiryWarningSent proposal.id = false)
          [handle works (.proposalAtRiskOfExpiry proposal),
            setProposalExpiryWarningSent works proposal.id]])
    ++ [updateProposalCache works proposal]) bot

/--
`processGovernanceTick`. The proposals are processed side by side, and nobody waits for them: each
has keys of its own, and one that throws does not keep the others from theirs. Here they are all
processed before anything else begins.
-/
def processGovernanceTick (currentTimestamp : Int) (proposals : List Proposal) (bot : Bot) : Bot :=
  proposals.foldl (fun bot proposal => (processProposal works currentTimestamp proposal bot).1) bot

end

end Nouns.Bots
