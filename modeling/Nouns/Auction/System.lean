import Nouns.Auction.House
import Nouns.Lib.CallMachine

/-!
# The auction house, the token and WETH together

One world with the three contracts and the ether the house holds. The house sends ether
in the middle of `createBid` and of a settlement; the recipient may call any of the
contracts before it returns, or fail, and then is paid in WETH. The world also remembers
what was done: auctions opened and settled, bids accepted and payments made.
-/

namespace Nouns

open Evm CallMachine

/-- What does not change: the addresses of the contracts. -/
structure AuctionEnv where
  house : Address
  nouns : Address
  weth : Address

/-- What a payment is made in. -/
inductive Coin where
  | ether
  | weth
deriving DecidableEq

/-- A bid as it is accepted, with the moment and the time buffer then in force. -/
structure AcceptedBid where
  nounId : Nat
  bidder : Address
  amount : Nat
  time : Nat
  timeBuffer : Nat
deriving DecidableEq

/-- A settlement: the Noun went from `src` to `dst`, what is due for it goes to `payee`. -/
structure Settlement where
  nounId : Nat
  bidder : Address
  amount : Nat
  payee : Address
  src : Address
  dst : Address
  time : Nat
deriving DecidableEq

/-- What the storage does not remember. -/
inductive AuctionDeed where
  | created (nounId : Nat)
  | accepted (bid : AcceptedBid)
  | settled (settlement : Settlement)
  | paid (dst : Address) (amount : Nat) (coin : Coin)
deriving DecidableEq

/-- A log entry of the token or of the house. -/
inductive ChainEvent where
  | token (e : TokenEvent)
  | house (e : AuctionEvent)

/--
The three contracts, the ether of the house, the block, the history, and the log entries
of token and house in the order they were written.
-/
structure AuctionWorld where
  house : NounsAuctionHouse
  token : NounsToken
  weth : WETH
  balance : Nat
  block : Block
  history : List AuctionDeed
  log : List ChainEvent

/--
The state-changing entry points of the three contracts. The house reads `view` as it
settles, and `next` as it mints after that. `sendEther` is ether the house cannot refuse.
-/
inductive AuctionCall where
  | token (view : View) (call : TokenCall)
  | weth (call : WETHCall)
  | sendEther (value : Nat)
  | initialize_ (nouns weth : Address)
      (timeBuffer reservePrice minBidIncrementPercentage duration : Nat)
  | createBid (nounId value : Nat)
  | settleAuction (view : View)
  | settleCurrentAndCreateNewAuction (view next : View)
  | pause
  | unpause (view : View)
  | setTimeBuffer (timeBuffer : Nat)
  | setReservePrice (reservePrice : Nat)
  | setMinBidIncrementPercentage (minBidIncrementPercentage : Nat)
  | transferOwnership (newOwner : Address)
  | renounceOwnership

/-- A transaction, or a call made from inside one. -/
structure AuctionTx where
  sender : Address
  call : AuctionCall

/--
The pending calls: `createBid` waits for the last bidder, a settlement for the payee, with
its copy of the auction. A settlement that goes on to a new auction knows what it will read.
-/
inductive AuctionFrame where
  | onERC721Received
  | refund (sender : Address) (value : Nat) (auction_ : Auction)
  | payout (sender : Address) (auction_ : Auction) (payee : Address) (next : Option View)

/-- Who is sent ether, and how much. -/
def AuctionFrame.sent : AuctionFrame → Option (Address × Nat)
  | .onERC721Received => none
  | .refund _ _ auction_ => some (auction_.bidder, auction_.amount)
  | .payout _ auction_ payee _ => some (payee, auction_.amount)

namespace AuctionWorld

/-- The house after code of it has run. -/
def setHouse (house : NounsAuctionHouse) (w : AuctionWorld) : AuctionWorld :=
  { w with
    house := house
    log := w.log ++ (house.logs.drop w.house.logs.length).map .house }

/-- The token after code of it has run. -/
def setToken (token : NounsToken) (w : AuctionWorld) : AuctionWorld :=
  { w with
    token := token
    log := w.log ++ (token.logs.drop w.token.logs.length).map .token }

/-- One more deed. -/
def note (d : AuctionDeed) (w : AuctionWorld) : AuctionWorld :=
  { w with history := w.history ++ [d] }

/-- The part of `_safeTransferETHWithFallback` that wraps the ether. -/
def payInWeth (env : AuctionEnv) (dst : Address) (amount : Nat) (w : AuctionWorld) :
    Result AuctionWorld := do
  requireRaw (amount ≤ w.balance)
  let weth ← w.weth.deposit env.house amount
  let weth ← weth.transfer env.house dst amount
  return { w with
    weth := weth
    balance := w.balance - amount
    history := w.history ++ [.paid dst amount .weth] }

/--
`_safeTransferETHWithFallback`, up to the call. Without the ether the call fails and so does
wrapping it.
-/
def safeTransferETHWithFallback_ (dst : Address) (amount : Nat) (f : AuctionFrame)
    (w : AuctionWorld) : Result (Outcome AuctionWorld AuctionFrame) := do
  requireRaw (amount ≤ w.balance)
  return .call w { w with
    balance := w.balance - amount
    history := w.history ++ [.paid dst amount .ether] } f

/-- `_safeTransferETHWithFallback`, once the call came back. -/
def safeTransferETHEnd (env : AuctionEnv) (dst : Address) (amount : Nat) (success : Bool)
    (w : AuctionWorld) : Result AuctionWorld :=
  if success then .ok w else w.payInWeth env dst amount

/-- `_createAuction`. An error with a reason is caught, no other. -/
def createAuction_ (env : AuctionEnv) (sender : Address) (view : View) (w : AuctionWorld) :
    Result AuctionWorld :=
  match w.token.mint ⟨env.house, w.block, view⟩ with
  | .ok (token, nounId) => do
      let w := w.setToken token
      let startTime := w.block.timestamp
      let endTime ← add 256 startTime w.house.duration
      let house := { w.house with auction := ⟨nounId, 0, startTime, endTime, 0, false⟩ }
      return (w.setHouse (house.emit (.auctionCreated nounId startTime endTime))).note
        (.created nounId)
  | .error (.error _) => do
      let house ← w.house.pause_ sender
      return w.setHouse house
  | .error e => .error e

/-- `unpause` -/
def unpause (env : AuctionEnv) (sender : Address) (view : View) (w : AuctionWorld) :
    Result AuctionWorld := do
  w.house.onlyOwner sender
  let house ← w.house.unpause_ sender
  let w := w.setHouse house
  if w.house.auction.startTime = 0 ∨ w.house.auction.settled = true then
    w.createAuction_ env sender view
  else return w

/-- The end of `createBid`, once the last bidder has been paid back. -/
def endBid (sender : Address) (value : Nat) (auction_ : Auction) (w : AuctionWorld) :
    Result (Outcome AuctionWorld AuctionFrame) := do
  let house ← w.house.placeBid w.block sender value auction_
  return .done ((w.setHouse house.leave_).note
    (.accepted ⟨auction_.nounId, sender, value, w.block.timestamp, w.house.timeBuffer⟩))

/-- `createBid`, with `value` sent along -/
def createBid (sender : Address) (nounId value : Nat) (w : AuctionWorld) :
    Result (Outcome AuctionWorld AuctionFrame) := do
  let house ← w.house.enter_
  let w := { w with house := house, balance := w.balance + value }
  let auction_ := w.house.auction
  w.house.checkBid w.block nounId value
  if auction_.bidder ≠ 0 then
    w.safeTransferETHWithFallback_ auction_.bidder auction_.amount (.refund sender value auction_)
  else w.endBid sender value auction_

/-- The Noun of an auction is burned, or goes to the bidder. -/
def moveNoun (m : Msg) (auction_ : Auction) (s : NounsToken) : Result NounsToken :=
  if auction_.bidder = 0 then s.burn m auction_.nounId
  else s.transferFrom m m.sender auction_.bidder auction_.nounId

/-- What `_settleAuction` does with the Noun. -/
def releaseNoun (env : AuctionEnv) (view : View) (auction_ : Auction) (w : AuctionWorld) :
    Result AuctionWorld := do
  let token ← moveNoun ⟨env.house, w.block, view⟩ auction_ w.token
  return (w.setToken token).note (.settled
    { nounId := auction_.nounId
      bidder := auction_.bidder
      amount := auction_.amount
      payee := w.house.owner
      src := w.token.owners_ auction_.nounId
      dst := token.owners_ auction_.nounId
      time := w.block.timestamp })

/-- `_createAuction` after a settlement, if that is to come. -/
def createNext (env : AuctionEnv) (sender : Address) (next : Option View) (w : AuctionWorld) :
    Result AuctionWorld :=
  match next with
  | none => .ok w
  | some view => w.createAuction_ env sender view

/-- The end of `_settleAuction` and of its caller, once the payee has been paid. -/
def endSettle (env : AuctionEnv) (sender : Address) (auction_ : Auction) (next : Option View)
    (w : AuctionWorld) : Result (Outcome AuctionWorld AuctionFrame) := do
  let w := w.setHouse
    (w.house.emit (.auctionSettled auction_.nounId auction_.bidder auction_.amount))
  let w ← w.createNext env sender next
  return .done (w.setHouse w.house.leave_)

/-- `_settleAuction` -/
def settleAuction_ (env : AuctionEnv) (sender : Address) (view : View) (next : Option View)
    (w : AuctionWorld) : Result (Outcome AuctionWorld AuctionFrame) := do
  let auction_ := w.house.auction
  w.house.checkSettle w.block
  let w := w.setHouse { w.house with auction := { auction_ with settled := true } }
  let w ← w.releaseNoun env view auction_
  if 0 < auction_.amount then
    w.safeTransferETHWithFallback_ w.house.owner auction_.amount
      (.payout sender auction_ w.house.owner next)
  else w.endSettle env sender auction_ next

/-- `settleAuction` -/
def settleAuction (env : AuctionEnv) (sender : Address) (view : View) (w : AuctionWorld) :
    Result (Outcome AuctionWorld AuctionFrame) := do
  require (w.house.paused = true) "Pausable: not paused"
  let house ← w.house.enter_
  settleAuction_ env sender view none (w.setHouse house)

/-- `settleCurrentAndCreateNewAuction` -/
def settleCurrentAndCreateNewAuction (env : AuctionEnv) (sender : Address) (view next : View)
    (w : AuctionWorld) : Result (Outcome AuctionWorld AuctionFrame) := do
  let house ← w.house.enter_
  require (house.paused = false) "Pausable: paused"
  settleAuction_ env sender view (some next) (w.setHouse house)

/-- Run code of the house that concerns nothing else. -/
def onHouse (w : AuctionWorld) (r : Result NounsAuctionHouse) :
    Result (Outcome AuctionWorld AuctionFrame) := do
  let house ← r
  return .done (w.setHouse house)

/-- The entry points of the three contracts. -/
def enter (env : AuctionEnv) (tx : AuctionTx) (w : AuctionWorld) :
    Result (Outcome AuctionWorld AuctionFrame) :=
  match tx.call with
  | .token view call => do
      let token ← w.token.call ⟨tx.sender, w.block, view⟩ call
      let w := w.setToken token
      if call.asksRecipient view then .ok (.call w w .onERC721Received) else .ok (.done w)
  | .weth call => do
      let weth ← w.weth.call tx.sender call
      return .done { w with weth := weth }
  | .sendEther value => .ok (.done { w with balance := w.balance + value })
  | .initialize_ nouns weth timeBuffer reservePrice minBidIncrementPercentage duration =>
      w.onHouse (w.house.initialize_ tx.sender nouns weth timeBuffer reservePrice
        minBidIncrementPercentage duration)
  | .createBid nounId value => w.createBid tx.sender nounId value
  | .settleAuction view => w.settleAuction env tx.sender view
  | .settleCurrentAndCreateNewAuction view next =>
      w.settleCurrentAndCreateNewAuction env tx.sender view next
  | .pause => w.onHouse (w.house.pause tx.sender)
  | .unpause view => do
      let w ← w.unpause env tx.sender view
      return .done w
  | .setTimeBuffer timeBuffer => w.onHouse (w.house.setTimeBuffer tx.sender timeBuffer)
  | .setReservePrice reservePrice => w.onHouse (w.house.setReservePrice tx.sender reservePrice)
  | .setMinBidIncrementPercentage minBidIncrementPercentage =>
      w.onHouse (w.house.setMinBidIncrementPercentage tx.sender minBidIncrementPercentage)
  | .transferOwnership newOwner => w.onHouse (w.house.transferOwnership tx.sender newOwner)
  | .renounceOwnership => w.onHouse (w.house.renounceOwnership tx.sender)

/-- Run on after a pending call came back. -/
def resume (env : AuctionEnv) (f : AuctionFrame) (ok : Bool) (w : AuctionWorld) :
    Result (Outcome AuctionWorld AuctionFrame) :=
  match f with
  | .onERC721Received => do
      require ok "ERC721: transfer to non ERC721Receiver implementer"
      return .done w
  | .refund sender value auction_ => do
      let w ← w.safeTransferETHEnd env auction_.bidder auction_.amount ok
      w.endBid sender value auction_
  | .payout sender auction_ payee next => do
      let w ← w.safeTransferETHEnd env payee auction_.amount ok
      w.endSettle env sender auction_ next

end AuctionWorld

/--
Whether a call is the house's own deposit: ether that is sent to WETH is deposited for its
sender. Nothing else the house has not got code for comes from it.
-/
def AuctionTx.isDeposit (env : AuctionEnv) (tx : AuctionTx) (fs : List AuctionFrame) : Bool :=
  match tx.call, fs.head?.bind AuctionFrame.sent with
  | .weth (.deposit value), some (dst, amount) => dst = env.weth ∧ value = amount
  | _, _ => false

/--
The three contracts as a machine. The house calls WETH and the token by its own code only.
It takes no ether itself, so a payment to it is one of those that fail.
-/
def auctionMachine (env : AuctionEnv) :
    Machine AuctionWorld AuctionTx AuctionFrame Block Revert where
  enter := AuctionWorld.enter env
  resume := AuctionWorld.resume env
  allowed tx _ fs := tx.sender ≠ 0 ∧ (tx.sender = env.house → tx.isDeposit env fs = true)
  tick next w := (w.block.tick next).map (fun b => { w with block := b })

instance (env : AuctionEnv) (tx : AuctionTx) (w : AuctionWorld) (fs : List AuctionFrame) :
    Decidable ((auctionMachine env).allowed tx w fs) :=
  inferInstanceAs (Decidable (tx.sender ≠ 0 ∧ (tx.sender = env.house → tx.isDeposit env fs = true)))

/-- A house just initialized, beside a token and WETH in any state, and ether it may have got. -/
structure AuctionDeployment (env : AuctionEnv) where
  house : NounsAuctionHouse
  token : NounsToken
  weth : WETH
  balance : Nat
  block : Block
  timestamp_pos : 0 < block.timestamp
  house_initialized : ∃ sender timeBuffer reservePrice minBidIncrementPercentage duration,
    NounsAuctionHouse.blank.initialize_ sender env.nouns env.weth timeBuffer reservePrice
      minBidIncrementPercentage duration = .ok house

/-- The world right after deployment. -/
def AuctionDeployment.world {env : AuctionEnv} (d : AuctionDeployment env) : AuctionWorld :=
  ⟨d.house, d.token, d.weth, d.balance, d.block, [], []⟩

end Nouns
