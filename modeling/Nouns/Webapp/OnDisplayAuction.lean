import Nouns.Assets.Utils

/-!
# The auction on display

`nounderNoun.ts` and `onDisplayAuction.ts` of the web app. The numbers of an auction are big
numbers, in the state as JSON; the Noun on display is a JavaScript number. `undefined` is
`none`, and where the code throws, the result is `none` as well, one `Option` further out.
-/

namespace Nouns.Webapp

open Assets

/-- `Auction` of `nounsAuction.ts` -/
structure Auction where
  amount : Nat
  bidder : String
  endTime : Nat
  startTime : Nat
  nounId : Nat
  settled : Bool
deriving DecidableEq

/-- `AuctionState`; its bids are not read here. -/
structure AuctionState where
  activeAuction : Option Auction

/-- What `useOnDisplayAuction` selects from the state of the app. -/
structure AppState where
  activeAuction : Option Auction
  onDisplayAuctionNounId : Option Nat
  pastAuctions : List AuctionState

variable (ethers : Ethers)

/-- `isNounderNoun` -/
def isNounderNoun (nounId : Nat) : Option Bool := do
  return (← ethers.mod nounId 10) = 0 || nounId = 0

/-- `emptyNounderAuction` -/
def emptyNounderAuction (onDisplayAuctionId : Nat) : Option Auction := do
  return {
    amount := 0
    bidder := ""
    startTime := 0
    endTime := 0
    nounId := ← ethers.fromNumber onDisplayAuctionId
    settled := false }

/-- `findAuction`. There is no big number of `undefined`. -/
def findAuction (id : Nat) (auctions : List AuctionState) : Option (Option Auction) := do
  let found ← auctions.findM? fun auction => do
    let activeAuction ← auction.activeAuction
    return activeAuction.nounId = id
  return found.bind AuctionState.activeAuction

/-- `generateEmptyNounderAuction` -/
def generateEmptyNounderAuction (nounId : Nat) (pastAuctions : List AuctionState) : Option Auction := do
  let nounderAuction ← emptyNounderAuction ethers (← ethers.toNumber nounId)
  -- the Noun above was minted in the same call
  match ← findAuction (nounId + 1) pastAuctions with
  | some auctionAbove => return { nounderAuction with startTime := auctionAbove.startTime }
  | none => return nounderAuction

/-- `deserializeAuction` -/
def deserializeAuction (reduxSafeAuction : Auction) : Auction := { reduxSafeAuction with settled := false }

/-- What `useOnDisplayAuction` looks for among the past auctions. -/
def isPastAuction (onDisplayAuctionNounId : Nat) (auction : AuctionState) : Option Bool :=
  match auction.activeAuction with
  | some activeAuction => do
      return (← ethers.toNumber activeAuction.nounId) = onDisplayAuctionNounId
  | none => some false

/-- `useOnDisplayAuction` -/
def useOnDisplayAuction (state : AppState) : Option (Option Auction) :=
  match state.onDisplayAuctionNounId, state.activeAuction with
  | some onDisplayAuctionNounId, some currentAuction => do
      -- current auction
      let nounId ← ethers.fromNumber onDisplayAuctionNounId
      if nounId = currentAuction.nounId then return some (deserializeAuction currentAuction)
      -- nounder auction
      else if ← isNounderNoun ethers nounId then
        let emptyNounderAuction ← generateEmptyNounderAuction ethers nounId state.pastAuctions
        return some (deserializeAuction emptyNounderAuction)
      else
        -- past auction
        let found ← state.pastAuctions.findM? (isPastAuction ethers onDisplayAuctionNounId)
        return (found.bind AuctionState.activeAuction).map deserializeAuction
  | _, _ => some none

end Nouns.Webapp
