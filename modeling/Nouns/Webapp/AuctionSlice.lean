import Nouns.Webapp.OnDisplayAuction

/-!
# The state of the current auction

`slices/auction.ts` of the web app. The big numbers of its events are natural numbers, so the
conversions that make an event safe for the store change nothing but what is left out of it.
-/

namespace Nouns.Webapp

/-- `AuctionCreateEvent` -/
structure AuctionCreateEvent where
  nounId : Nat
  startTime : Nat
  endTime : Nat
  settled : Bool

/-- `BidEvent` -/
structure BidEvent where
  nounId : Nat
  sender : String
  value : Nat
  extended : Bool
  transactionHash : String
  timestamp : Nat
deriving DecidableEq

/-- `AuctionSettledEvent` -/
structure AuctionSettledEvent where
  nounId : Nat
  winner : String
  amount : Nat

/-- `AuctionExtendedEvent` -/
structure AuctionExtendedEvent where
  nounId : Nat
  endTime : Nat

/-- `AuctionState` of the slice, with its bids. -/
structure AuctionSlice where
  activeAuction : Option Auction
  bids : List BidEvent

/-- `reduxSafeNewAuction` -/
def reduxSafeNewAuction (auction : AuctionCreateEvent) : Auction where
  amount := 0
  bidder := ""
  startTime := auction.startTime
  endTime := auction.endTime
  nounId := auction.nounId
  settled := false

/-- `maxBid`, of a list that is not empty -/
def maxBid (first : BidEvent) (bids : List BidEvent) : BidEvent :=
  bids.foldl (fun prev current => if prev.value > current.value then prev else current) first

/-- `containsBid` -/
def containsBid (bidEvents : List BidEvent) (bidEvent : BidEvent) : Bool :=
  bidEvent.transactionHash ∈ bidEvents.map BidEvent.transactionHash

namespace AuctionSlice

/-- `setActiveAuction` -/
def setActiveAuction (_state : AuctionSlice) (payload : AuctionCreateEvent) : AuctionSlice where
  activeAuction := some (reduxSafeNewAuction payload)
  bids := []

/-- `setFullAuction` -/
def setFullAuction (state : AuctionSlice) (payload : Auction) : AuctionSlice :=
  { state with activeAuction := some payload }

/-- `appendBid` -/
def appendBid (state : AuctionSlice) (payload : BidEvent) : AuctionSlice :=
  match state.activeAuction with
  | none => state
  | some activeAuction =>
      if activeAuction.nounId ≠ payload.nounId then state
      else if containsBid state.bids payload then state
      else
        let maxBid_ := maxBid payload state.bids
        { activeAuction := some { activeAuction with
            amount := maxBid_.value
            bidder := maxBid_.sender }
          bids := payload :: state.bids }

/-- `setAuctionSettled` -/
def setAuctionSettled (state : AuctionSlice) (payload : AuctionSettledEvent) : AuctionSlice :=
  match state.activeAuction with
  | none => state
  | some activeAuction =>
      if activeAuction.nounId ≠ payload.nounId then state
      else { state with activeAuction := some { activeAuction with
        settled := true
        bidder := payload.winner
        amount := payload.amount } }

/-- `setAuctionExtended` -/
def setAuctionExtended (state : AuctionSlice) (payload : AuctionExtendedEvent) : AuctionSlice :=
  match state.activeAuction with
  | none => state
  | some activeAuction =>
      if activeAuction.nounId ≠ payload.nounId then state
      else { state with activeAuction := some { activeAuction with endTime := payload.endTime } }

/-- The actions of the slice. -/
inductive Action where
  | setActiveAuction (payload : AuctionCreateEvent)
  | setFullAuction (payload : Auction)
  | appendBid (payload : BidEvent)
  | setAuctionSettled (payload : AuctionSettledEvent)
  | setAuctionExtended (payload : AuctionExtendedEvent)

/-- `auctionSlice.reducer` -/
def reducer (state : AuctionSlice) : Action → AuctionSlice
  | .setActiveAuction payload => state.setActiveAuction payload
  | .setFullAuction payload => state.setFullAuction payload
  | .appendBid payload => state.appendBid payload
  | .setAuctionSettled payload => state.setAuctionSettled payload
  | .setAuctionExtended payload => state.setAuctionExtended payload

end AuctionSlice

end Nouns.Webapp
