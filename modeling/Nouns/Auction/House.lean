import Nouns.Auction.WETH
import Nouns.Token.NounsToken

/-!
# The auction house

`NounsAuctionHouse.sol`, with what it inherits from OpenZeppelin (`Pausable`,
`ReentrancyGuard`, `Ownable`, `Initializable`). It owns the Noun on auction, holds the
ether of the highest bid, and talks to the token and to WETH, so its code works on a
world of the three. Code that sends ether is cut in two: what runs before, and what runs
after the recipient came back.
-/

namespace Nouns

open Evm

/-- `INounsAuctionHouse.Auction` -/
structure Auction where
  nounId : Nat
  amount : Nat
  startTime : Nat
  endTime : Nat
  bidder : Address
  settled : Bool
deriving DecidableEq

/-- The events of the auction house. -/
inductive AuctionEvent where
  | auctionCreated (nounId startTime endTime : Nat)
  | auctionBid (nounId : Nat) (sender : Address) (value : Nat) (extended : Bool)
  | auctionExtended (nounId endTime : Nat)
  | auctionSettled (nounId : Nat) (winner : Address) (amount : Nat)
  | auctionTimeBufferUpdated (timeBuffer : Nat)
  | auctionReservePriceUpdated (reservePrice : Nat)
  | auctionMinBidIncrementPercentageUpdated (minBidIncrementPercentage : Nat)
  | paused (account : Address)
  | unpaused (account : Address)
  | ownershipTransferred (previousOwner newOwner : Address)

/-- The storage of `NounsAuctionHouse.sol`. -/
structure NounsAuctionHouse where
  nouns : Address
  weth : Address
  timeBuffer : Nat
  reservePrice : Nat
  minBidIncrementPercentage : Nat
  duration : Nat
  auction : Auction
  owner : Address
  paused : Bool
  /-- `ReentrancyGuard`: an entry point that may not be re-entered is running. -/
  entered : Bool
  initialized : Bool
  logs : List AuctionEvent

namespace NounsAuctionHouse

/-- `emit e` -/
def emit (e : AuctionEvent) (s : NounsAuctionHouse) : NounsAuctionHouse :=
  { s with logs := s.logs ++ [e] }

/-- The storage before `initialize`. -/
def blank : NounsAuctionHouse where
  nouns := 0
  weth := 0
  timeBuffer := 0
  reservePrice := 0
  minBidIncrementPercentage := 0
  duration := 0
  auction := ⟨0, 0, 0, 0, 0, false⟩
  owner := 0
  paused := false
  entered := false
  initialized := false
  logs := []

/-- `_pause` -/
def pause_ (sender : Address) (s : NounsAuctionHouse) : Result NounsAuctionHouse := do
  require (s.paused = false) "Pausable: paused"
  return { s with paused := true }.emit (.paused sender)

/-- `_unpause` -/
def unpause_ (sender : Address) (s : NounsAuctionHouse) : Result NounsAuctionHouse := do
  require (s.paused = true) "Pausable: not paused"
  return { s with paused := false }.emit (.unpaused sender)

/-- The first half of `nonReentrant`. -/
def enter_ (s : NounsAuctionHouse) : Result NounsAuctionHouse := do
  require (s.entered = false) "ReentrancyGuard: reentrant call"
  return { s with entered := true }

/-- The second half of `nonReentrant`. -/
def leave_ (s : NounsAuctionHouse) : NounsAuctionHouse := { s with entered := false }

/-- `initialize` -/
def initialize_ (sender nouns weth : Address)
    (timeBuffer reservePrice minBidIncrementPercentage duration : Nat) (s : NounsAuctionHouse) :
    Result NounsAuctionHouse := do
  require (s.initialized = false) "Initializable: contract is already initialized"
  let s := { s with initialized := true, owner := sender }.emit (.ownershipTransferred s.owner sender)
  let s ← s.pause_ sender
  return { s with
    nouns := nouns
    weth := weth
    timeBuffer := timeBuffer
    reservePrice := reservePrice
    minBidIncrementPercentage := minBidIncrementPercentage
    duration := duration }

/-- The `onlyOwner` modifier. -/
def onlyOwner (sender : Address) (s : NounsAuctionHouse) : Result Unit :=
  require (s.owner = sender) "Ownable: caller is not the owner"

/-- `pause` -/
def pause (sender : Address) (s : NounsAuctionHouse) : Result NounsAuctionHouse := do
  s.onlyOwner sender
  s.pause_ sender

/-- `setTimeBuffer` -/
def setTimeBuffer (sender : Address) (timeBuffer : Nat) (s : NounsAuctionHouse) :
    Result NounsAuctionHouse := do
  s.onlyOwner sender
  return { s with timeBuffer := timeBuffer }.emit (.auctionTimeBufferUpdated timeBuffer)

/-- `setReservePrice` -/
def setReservePrice (sender : Address) (reservePrice : Nat) (s : NounsAuctionHouse) :
    Result NounsAuctionHouse := do
  s.onlyOwner sender
  return { s with reservePrice := reservePrice }.emit (.auctionReservePriceUpdated reservePrice)

/-- `setMinBidIncrementPercentage` -/
def setMinBidIncrementPercentage (sender : Address) (minBidIncrementPercentage : Nat)
    (s : NounsAuctionHouse) : Result NounsAuctionHouse := do
  s.onlyOwner sender
  return { s with minBidIncrementPercentage := minBidIncrementPercentage }.emit
    (.auctionMinBidIncrementPercentageUpdated minBidIncrementPercentage)

/-- `Ownable.transferOwnership` -/
def transferOwnership (sender newOwner : Address) (s : NounsAuctionHouse) :
    Result NounsAuctionHouse := do
  s.onlyOwner sender
  require (newOwner ≠ 0) "Ownable: new owner is the zero address"
  return { s with owner := newOwner }.emit (.ownershipTransferred s.owner newOwner)

/-- `Ownable.renounceOwnership` -/
def renounceOwnership (sender : Address) (s : NounsAuctionHouse) : Result NounsAuctionHouse := do
  s.onlyOwner sender
  return { s with owner := 0 }.emit (.ownershipTransferred s.owner 0)

/-- The checks of `createBid`, with `value` sent along. -/
def checkBid (block : Block) (nounId value : Nat) (s : NounsAuctionHouse) : Result Unit := do
  let auction_ := s.auction
  require (auction_.nounId = nounId) "Noun not up for auction"
  require (block.timestamp < auction_.endTime) "Auction expired"
  require (s.reservePrice ≤ value) "Must send at least reservePrice"
  let product ← mul 256 auction_.amount s.minBidIncrementPercentage
  let least ← add 256 auction_.amount (product / 100)
  require (least ≤ value)
    "Must send more than last bid by minBidIncrementPercentage amount"

/-- The rest of `createBid` once the last bidder has been paid back; `auction_` is its copy of the auction. -/
def placeBid (block : Block) (sender : Address) (value : Nat) (auction_ : Auction)
    (s : NounsAuctionHouse) : Result NounsAuctionHouse := do
  let s := { s with auction := { s.auction with amount := value, bidder := sender } }
  let left ← sub auction_.endTime block.timestamp
  if left < s.timeBuffer then
    let endTime ← add 256 block.timestamp s.timeBuffer
    let s := { s with auction := { s.auction with endTime := endTime } }
    let s := s.emit (.auctionBid auction_.nounId sender value true)
    return s.emit (.auctionExtended auction_.nounId endTime)
  else return s.emit (.auctionBid auction_.nounId sender value false)

/-- The checks of `_settleAuction`. -/
def checkSettle (block : Block) (s : NounsAuctionHouse) : Result Unit := do
  require (s.auction.startTime ≠ 0) "Auction hasn't begun"
  require (s.auction.settled = false) "Auction has already been settled"
  require (s.auction.endTime ≤ block.timestamp) "Auction hasn't completed"

end NounsAuctionHouse

end Nouns
