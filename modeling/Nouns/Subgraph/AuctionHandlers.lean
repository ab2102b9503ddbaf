import Nouns.Auction.System
import Nouns.Subgraph.TokenHandlers

/-!
# The handlers of the auction house's events

`nouns-auction-house.ts`. Logging errors is left out. An auction is stored under the id of
its Noun, a bid under the hash of the transaction it was made in. The handlers are given the
events in the order of the log, each with its transaction and block; `Feed` is a history of
the contracts cut into transactions, with what the subgraph is given of it.
-/

namespace Nouns

open Evm CallMachine

namespace Subgraph

/-- What the handlers read of `event.transaction` and `event.block`. -/
structure EthTransaction where
  hash : Nat
  index : Nat
  block : Block
deriving DecidableEq

/-- `Auction`. Its bids are derived from the bids' `auction`. -/
structure Auction where
  noun : Nat
  amount : Nat
  startTime : Nat
  endTime : Nat
  bidder : Option Address
  settled : Bool
deriving DecidableEq

/-- `Bid` -/
structure Bid where
  noun : Nat
  amount : Nat
  bidder : Address
  blockNumber : Nat
  txIndex : Nat
  auction : Nat
  blockTimestamp : Nat
deriving DecidableEq

/-- The stored entities, with those of the auction house. -/
structure HouseStore extends Store where
  auctions : Nat → Option Auction
  bids : Nat → Option Bid

/-- The store before the first event of the house. -/
def Store.withHouse (st : Store) : HouseStore := ⟨st, fun _ => none, fun _ => none⟩

namespace HouseStore

def saveAuction (id : Nat) (a : Auction) (st : HouseStore) : HouseStore :=
  { st with auctions := Function.update st.auctions id (some a) }

def saveBid (id : Nat) (b : Bid) (st : HouseStore) : HouseStore :=
  { st with bids := Function.update st.bids id (some b) }

/-- `handleAuctionCreated` -/
def handleAuctionCreated (nounId startTime endTime : Nat) (st : HouseStore) : HouseStore :=
  match st.nouns nounId with
  | none => st
  | some _ => st.saveAuction nounId
      { noun := nounId
        amount := 0
        startTime := startTime
        endTime := endTime
        bidder := none
        settled := false }

/-- `handleAuctionBid` -/
def handleAuctionBid (tx : EthTransaction) (nounId : Nat) (sender : Address) (value : Nat)
    (st : HouseStore) : HouseStore :=
  let (_, store) := st.getOrCreateAccount sender
  let st := { st with toStore := store }
  match st.auctions nounId with
  | none => st
  | some auction =>
      let auction := { auction with amount := value, bidder := some sender }
      let st := st.saveAuction nounId auction
      st.saveBid tx.hash
        { bidder := sender
          amount := auction.amount
          noun := auction.noun
          txIndex := tx.index
          blockNumber := tx.block.number
          blockTimestamp := tx.block.timestamp
          auction := nounId }

/-- `handleAuctionExtended` -/
def handleAuctionExtended (nounId endTime : Nat) (st : HouseStore) : HouseStore :=
  match st.auctions nounId with
  | none => st
  | some auction => st.saveAuction nounId { auction with endTime := endTime }

/-- `handleAuctionSettled` -/
def handleAuctionSettled (nounId : Nat) (st : HouseStore) : HouseStore :=
  match st.auctions nounId with
  | none => st
  | some auction => st.saveAuction nounId { auction with settled := true }

/-- The handler of an event of the house, if it has one. -/
def handleHouseEvent (tx : EthTransaction) (st : HouseStore) : AuctionEvent → HouseStore
  | .auctionCreated nounId startTime endTime => st.handleAuctionCreated nounId startTime endTime
  | .auctionBid nounId sender value _ => st.handleAuctionBid tx nounId sender value
  | .auctionExtended nounId endTime => st.handleAuctionExtended nounId endTime
  | .auctionSettled nounId _ _ => st.handleAuctionSettled nounId
  | _ => st

/-- An event of the token or the house. -/
def handleEvent (st : HouseStore) (e : EthTransaction × ChainEvent) : HouseStore :=
  match e.2 with
  | .token event => { st with toStore := st.handleTokenEvent event }
  | .house event => st.handleHouseEvent e.1 event

/-- The store after some more events. -/
def after (st : HouseStore) (events : List (EthTransaction × ChainEvent)) : HouseStore :=
  events.foldl handleEvent st

end HouseStore

/-! ## Transactions -/

/--
A point of a history cut into transactions: the hashes used so far, the transaction that
runs, if one does, and the events with the transactions they were logged in.
-/
structure Feed where
  config : Config AuctionWorld AuctionFrame
  hashes : List Nat
  tx : Option EthTransaction
  events : List (EthTransaction × ChainEvent)

namespace Feed

variable (env : AuctionEnv)

/-- Before the first transaction. -/
def start {env : AuctionEnv} (d : AuctionDeployment env) : Feed := ⟨⟨d.world, []⟩, [], none, []⟩

/-- What is logged from one configuration to another, in the transaction `tx`. -/
def logged (tx : EthTransaction) (x y : Config AuctionWorld AuctionFrame) :
    List (EthTransaction × ChainEvent) :=
  (y.world.log.drop x.world.log.length).map fun e => (tx, e)

/--
A step of the contracts. A transaction begins with a call while none is pending, and has a
hash of its own; it may make any number of calls. The clock ends it.
-/
inductive Next : Feed → Feed → Prop where
  | begins {f : Feed} {tx : EthTransaction} {c : AuctionTx} {y : Config AuctionWorld AuctionFrame} :
      f.config.frames = [] → tx.hash ∉ f.hashes → tx.block = f.config.world.block →
      (auctionMachine env).Step f.config (.enter c) y →
      Next f ⟨y, tx.hash :: f.hashes, some tx, f.events ++ logged tx f.config y⟩
  | goesOn {f : Feed} {tx : EthTransaction} {l : Label AuctionTx AuctionFrame Block}
      {y : Config AuctionWorld AuctionFrame} :
      f.tx = some tx → (∀ b, l ≠ .tick b) → (auctionMachine env).Step f.config l y →
      Next f ⟨y, f.hashes, some tx, f.events ++ logged tx f.config y⟩
  | tick {f : Feed} {b : Block} {y : Config AuctionWorld AuctionFrame} :
      (auctionMachine env).Step f.config (.tick b) y → Next f ⟨y, f.hashes, none, f.events⟩

/-- The histories from one point to another. -/
abbrev Runs : Feed → Feed → Prop := Relation.ReflTransGen (Next env)

end Feed

end Subgraph

end Nouns
