import Nouns.Auction.System

/-!
# What the auction house does, act by act

A step of the system may do several things: check a bid, pay the last bidder back, place
the bid. `HouseAct` lists them, each with the phase the house is in before and after; that a
recipient took the ether or had to be paid in WETH is no longer seen. `step_acts` says that
every step is a few of these acts. What holds along every run is checked act by act.
-/

namespace Nouns

open Evm CallMachine

/-- No auction is running. -/
def Auction.Idle (a : Auction) : Prop := a.startTime = 0 ∨ a.settled = true

instance (a : Auction) : Decidable a.Idle :=
  inferInstanceAs (Decidable (a.startTime = 0 ∨ a.settled = true))

/-- The events that tell of an auction. -/
def AuctionEvent.ofAuction : AuctionEvent → Bool
  | .auctionCreated .. | .auctionBid .. | .auctionExtended .. | .auctionSettled .. => true
  | _ => false

/-- Whether it is the house that waits. -/
def AuctionFrame.ofHouse : AuctionFrame → Bool
  | .onERC721Received => false
  | _ => true

namespace Proof

abbrev AuctionConfig := Config AuctionWorld AuctionFrame

abbrev AuctionLabel := Label AuctionTx AuctionFrame Block

/-- The calls that touch no auction. -/
def isSetting : AuctionCall → Bool
  | .initialize_ .. | .pause | .setTimeBuffer _ | .setReservePrice _
    | .setMinBidIncrementPercentage _ | .transferOwnership _ | .renounceOwnership => true
  | _ => false

/-- Whether a step may change a setting or the pause flag. -/
def tunes : AuctionLabel → Bool
  | .enter ⟨_, .unpause _⟩ => true
  | .enter ⟨_, c⟩ => isSetting c
  | _ => false

/-- Whether a step may place a bid. -/
def placesBid : AuctionLabel → Bool
  | .enter ⟨_, .createBid _ _⟩ => true
  | .resume _ => true
  | _ => false

/-- How far the house is with a bid or a settlement. -/
inductive Phase where
  | outside
  /-- The bid is checked; the last bidder has to be paid back. -/
  | bidding (sender : Address) (value : Nat) (auction_ : Auction)
  /-- The bid has to be placed. -/
  | placing (sender : Address) (value : Nat) (auction_ : Auction)
  /-- The Noun is gone; the payee has to be paid. -/
  | settling (sender : Address) (auction_ : Auction) (payee : Address) (next : Option View)
  /-- The next auction may have to be created. -/
  | concluding (sender : Address) (auction_ : Auction) (payee : Address) (next : Option View)

/-- The phase the house is in while calls of it are pending. -/
inductive Waits : Phase → List AuctionFrame → Prop where
  | outside : Waits .outside []
  | placing {sender : Address} {value : Nat} {auction_ : Auction} :
      Waits (.placing sender value auction_) [.refund sender value auction_]
  | concluding {sender : Address} {auction_ : Auction} {payee : Address} {next : Option View} :
      Waits (.concluding sender auction_ payee next) [.payout sender auction_ payee next]

/-- The pending calls of the house. -/
def houseFrames (fs : List AuctionFrame) : List AuctionFrame := fs.filter AuctionFrame.ofHouse

/-- Only settings, the owner, the pause flag and the log differ, and no idle house starts working. -/
structure Tuned (s s' : NounsAuctionHouse) : Prop where
  auction : s'.auction = s.auction
  entered : s'.entered = s.entered
  paused : s'.paused = false → s.paused = true → ¬ s.auction.Idle

/-- The world after code of the house that logs `es`. -/
def logged (house : NounsAuctionHouse) (es : List AuctionEvent) (w : AuctionWorld) : AuctionWorld :=
  { w with
    house := { house with logs := w.house.logs ++ es }
    log := w.log ++ es.map .house }

/-- What leaves the auction and the money alone. -/
inductive HouseCalm (l : AuctionLabel) (w : AuctionWorld) : AuctionWorld → Prop where
  | token {sender : Address} {view : View} {call : TokenCall} {token : NounsToken} :
      l = .enter ⟨sender, .token view call⟩ →
      w.token.call ⟨sender, w.block, view⟩ call = .ok token → HouseCalm l w (w.setToken token)
  | weth {weth : WETH} : HouseCalm l w { w with weth := weth }
  | ether {value : Nat} : HouseCalm l w { w with balance := w.balance + value }
  | house {house : NounsAuctionHouse} {es : List AuctionEvent} : tunes l = true →
      Tuned w.house house → (∀ e ∈ es, e.ofAuction = false) → HouseCalm l w (logged house es w)

/-- What `_createAuction` does. -/
inductive Creates (env : AuctionEnv) (view : View) (w : AuctionWorld) : AuctionWorld → Prop where
  | opened {token : NounsToken} {nounId endTime : Nat} :
      w.token.mint ⟨env.house, w.block, view⟩ = .ok (token, nounId) →
      Creates env view w ((logged
        { w.house with auction := ⟨nounId, 0, w.block.timestamp, endTime, 0, false⟩ }
        [.auctionCreated nounId w.block.timestamp endTime] (w.setToken token)).note
          (.created nounId))
  | halted {sender : Address} : w.house.paused = false →
      Creates env view w (logged { w.house with paused := true } [.paused sender] w)

/-- What a checked bid is. -/
structure BidChecked (nounId value : Nat) (w : AuctionWorld) : Prop where
  entered : w.house.entered = false
  nounId_eq : w.house.auction.nounId = nounId
  running : w.block.timestamp < w.house.auction.endTime
  reserve : w.house.reservePrice ≤ value
  increment : w.house.auction.amount
    + w.house.auction.amount * w.house.minBidIncrementPercentage / 100 ≤ value

/-- What a checked settlement is. -/
structure SettlementDue (w : AuctionWorld) : Prop where
  entered : w.house.entered = false
  begun : w.house.auction.startTime ≠ 0
  unsettled : w.house.auction.settled = false
  expired : w.house.auction.endTime ≤ w.block.timestamp

/-- The settlement a house makes. -/
def settlementOf (token : NounsToken) (w : AuctionWorld) : Settlement where
  nounId := w.house.auction.nounId
  bidder := w.house.auction.bidder
  amount := w.house.auction.amount
  payee := w.house.owner
  src := w.token.owners_ w.house.auction.nounId
  dst := token.owners_ w.house.auction.nounId
  time := w.block.timestamp

/-- The world of a house at work. -/
def atWork (value : Nat) (w : AuctionWorld) : AuctionWorld :=
  { w with house := { w.house with entered := true }, balance := w.balance + value }

/-- The world once the Noun is gone. -/
def released (token : NounsToken) (w : AuctionWorld) : AuctionWorld :=
  ((logged { w.house with
      entered := true
      auction := { w.house.auction with settled := true } } [] w).setToken token).note
    (.settled (settlementOf token w))

/-- The world once somebody is paid. -/
def withPayment (dst : Address) (amount : Nat) (coin : Coin) (weth : WETH) (w : AuctionWorld) :
    AuctionWorld :=
  { w with
    weth := weth
    balance := w.balance - amount
    history := w.history ++ [.paid dst amount coin] }

/-- The end of an auction after a bid: no nearer than the time buffer. -/
def endAfter (auction_ : Auction) (w : AuctionWorld) : Nat :=
  if auction_.endTime - w.block.timestamp < w.house.timeBuffer then
    w.block.timestamp + w.house.timeBuffer
  else w.house.auction.endTime

/-- What `createBid` logs. -/
def bidEvents (sender : Address) (value : Nat) (auction_ : Auction) (w : AuctionWorld) :
    List AuctionEvent :=
  if auction_.endTime - w.block.timestamp < w.house.timeBuffer then
    [.auctionBid auction_.nounId sender value true,
      .auctionExtended auction_.nounId (w.block.timestamp + w.house.timeBuffer)]
  else [.auctionBid auction_.nounId sender value false]

/-- The world once a bid is placed. -/
def withBid (sender : Address) (value : Nat) (auction_ : Auction) (w : AuctionWorld) :
    AuctionWorld :=
  (logged { w.house with
      auction := { w.house.auction with
        amount := value, bidder := sender, endTime := endAfter auction_ w }
      entered := false } (bidEvents sender value auction_ w) w).note
    (.accepted ⟨auction_.nounId, sender, value, w.block.timestamp, w.house.timeBuffer⟩)

/-- The world once a settlement is logged. -/
def settledLog (auction_ : Auction) (w : AuctionWorld) : AuctionWorld :=
  logged w.house [.auctionSettled auction_.nounId auction_.bidder auction_.amount] w

/-- The world of a house that has done its work. -/
def atRest (w : AuctionWorld) : AuctionWorld := logged { w.house with entered := false } [] w

/-- The acts of a step that starts in `x`. Bids and settlements are checked at its start. -/
inductive HouseAct (env : AuctionEnv) (x : AuctionConfig) (l : AuctionLabel) :
    Phase × AuctionWorld → Phase × AuctionWorld → Prop where
  | calm {p : Phase} {w' : AuctionWorld} : Waits p (houseFrames x.frames) → HouseCalm l x.world w' →
      HouseAct env x l (p, x.world) (p, w')
  | tick {block : Block} :
      l = .tick block → x.world.block.number ≤ block.number →
      x.world.block.timestamp ≤ block.timestamp →
      HouseAct env x l (.outside, x.world) (.outside, { x.world with block := block })
  | reopened {p : Phase} {w' : AuctionWorld} {sender : Address} {view : View} :
      l = .enter ⟨sender, .unpause view⟩ → Waits p (houseFrames x.frames) →
      x.world.house.paused = true → x.world.house.auction.Idle →
      Creates env view (logged { x.world.house with paused := false } [.unpaused sender] x.world) w' →
      HouseAct env x l (p, x.world) (p, w')
  | checked {sender : Address} {nounId value : Nat} :
      l = .enter ⟨sender, .createBid nounId value⟩ → sender ≠ 0 → BidChecked nounId value x.world →
      HouseAct env x l (.outside, x.world) (if x.world.house.auction.bidder = 0
          then .placing sender value x.world.house.auction else .bidding sender value x.world.house.auction,
        atWork value x.world)
  | refunded {w : AuctionWorld} {sender : Address} {value : Nat} {auction_ : Auction} {coin : Coin}
      {weth : WETH} : auction_.amount ≤ w.balance →
      HouseAct env x l (.bidding sender value auction_, w)
        (.placing sender value auction_, withPayment auction_.bidder auction_.amount coin weth w)
  | placed {w : AuctionWorld} {sender : Address} {value : Nat} {auction_ : Auction} :
      placesBid l = true →
      HouseAct env x l (.placing sender value auction_, w) (.outside, withBid sender value auction_ w)
  | released {sender : Address} {view : View} {next : Option View} {token : NounsToken} :
      SettlementDue x.world → (next = none → x.world.house.paused = true) →
      AuctionWorld.moveNoun ⟨env.house, x.world.block, view⟩ x.world.house.auction x.world.token = .ok token →
      HouseAct env x l (.outside, x.world) (if 0 < x.world.house.auction.amount
          then .settling sender x.world.house.auction x.world.house.owner next
          else .concluding sender x.world.house.auction x.world.house.owner next, released token x.world)
  | paid {w : AuctionWorld} {sender payee : Address} {auction_ : Auction} {next : Option View}
      {coin : Coin} {weth : WETH} : auction_.amount ≤ w.balance →
      HouseAct env x l (.settling sender auction_ payee next, w)
        (.concluding sender auction_ payee next, withPayment payee auction_.amount coin weth w)
  | rested {w : AuctionWorld} {sender payee : Address} {auction_ : Auction} :
      HouseAct env x l (.concluding sender auction_ payee none, w)
        (.outside, atRest (settledLog auction_ w))
  | renewed {w w' : AuctionWorld} {sender payee : Address} {auction_ : Auction} {view : View} :
      Creates env view (settledLog auction_ w) w' →
      HouseAct env x l (.concluding sender auction_ payee (some view), w) (.outside, atRest w')

/-- A few acts. -/
abbrev HouseActs (env : AuctionEnv) (x : AuctionConfig) (l : AuctionLabel) :
    Phase × AuctionWorld → Phase × AuctionWorld → Prop :=
  Relation.ReflTransGen (HouseAct env x l)

/-! ## The functions of the house -/

variable {env : AuctionEnv} {x : AuctionConfig} {l : AuctionLabel} {w w' : AuctionWorld}
  {o : Outcome AuctionWorld AuctionFrame} {sender : Address}

theorem setHouse_logged {house : NounsAuctionHouse} {es : List AuctionEvent}
    (h : house.logs = w.house.logs ++ es) : w.setHouse house = logged house es w := by
  unfold AuctionWorld.setHouse logged
  rw [h, List.drop_left, ← h]

theorem setHouse_silent {house : NounsAuctionHouse} (h : house.logs = w.house.logs) :
    w.setHouse house = logged house [] w := setHouse_logged (h.trans (List.append_nil _).symm)

theorem logged_logged {house house' : NounsAuctionHouse} {es es' : List AuctionEvent} :
    logged house' es' (logged house es w) = logged house' (es ++ es') w := by
  simp only [logged, List.map_append, List.append_assoc]

/-- The auction is marked as settled while the house is at work. -/
theorem setHouse_settled : (logged { w.house with entered := true } [] w).setHouse
    { (logged { w.house with entered := true } [] w).house with
      auction := { w.house.auction with settled := true } }
    = logged { w.house with
        entered := true
        auction := { w.house.auction with settled := true } } [] w := by
  refine (setHouse_silent ?_).trans logged_logged
  rfl

theorem createAuction_creates {view : View} (h : w.createAuction_ env sender view = .ok w') :
    Creates env view w w' := by
  unfold AuctionWorld.createAuction_ at h
  split at h
  · next token nounId hmint =>
      simp only [bind_ok, add_ok] at h
      obtain ⟨endTime, -, h⟩ := h
      obtain rfl := Except.ok.inj h
      rw [setHouse_logged rfl]
      exact .opened hmint
  · simp only [NounsAuctionHouse.pause_, bind_ok, require_ok] at h
    obtain ⟨house, ⟨_, hpaused, hhouse⟩, h⟩ := h
    obtain rfl := Except.ok.inj hhouse
    obtain rfl := Except.ok.inj h
    rw [setHouse_logged rfl]
    exact .halted hpaused
  · exact absurd h (fun h => by cases h)

theorem endBid_placed {value : Nat} {auction_ : Auction} (h : w.endBid sender value auction_ = .ok o) :
    o = .done (withBid sender value auction_ w) := by
  simp only [AuctionWorld.endBid, NounsAuctionHouse.placeBid, bind_ok, sub_ok] at h
  obtain ⟨house, ⟨left, ⟨_, rfl⟩, hhouse⟩, h⟩ := h
  obtain rfl := Except.ok.inj h
  split at hhouse
  · -- the bid comes late and the auction is extended
    next hlate =>
      simp only [bind_ok, add_ok] at hhouse
      obtain ⟨endTime, ⟨_, rfl⟩, hhouse⟩ := hhouse
      obtain rfl := Except.ok.inj hhouse
      rw [@setHouse_logged _ _ [_, _] (List.append_assoc _ _ _)]
      simp only [withBid, endAfter, bidEvents, if_pos hlate]
      rfl
  · next hlate =>
      obtain rfl := Except.ok.inj hhouse
      rw [setHouse_logged rfl]
      simp only [withBid, endAfter, bidEvents, if_neg hlate]
      rfl

theorem endSettle_acts (x : AuctionConfig) (l : AuctionLabel) (payee : Address)
    {auction_ : Auction} {next : Option View}
    (h : w.endSettle env sender auction_ next = .ok o) :
    ∃ w', o = .done w' ∧ HouseAct env x l (.concluding sender auction_ payee next, w) (.outside, w') := by
  simp only [AuctionWorld.endSettle, bind_ok] at h
  obtain ⟨w₁, hnext, h⟩ := h
  obtain rfl := Except.ok.inj h
  refine ⟨_, rfl, ?_⟩
  rw [setHouse_logged (w := w) rfl] at hnext
  have hrest : w₁.setHouse w₁.house.leave_ = atRest w₁ := setHouse_silent rfl
  rw [hrest]
  cases next with
  | none =>
      obtain rfl := Except.ok.inj hnext
      exact .rested
  | some view => exact .renewed (createAuction_creates hnext)

theorem unpause_acts {p : Phase} {view : View}
    (hl : l = .enter ⟨sender, .unpause view⟩) (hw : Waits p (houseFrames x.frames))
    (h : x.world.unpause env sender view = .ok w') : HouseAct env x l (p, x.world) (p, w') := by
  simp only [AuctionWorld.unpause, NounsAuctionHouse.unpause_, bind_ok, require_ok] at h
  obtain ⟨_, _, house, ⟨_, hpaused, hhouse⟩, h⟩ := h
  obtain rfl := Except.ok.inj hhouse
  rw [setHouse_logged (w := x.world) rfl] at h
  split at h
  · next hidle => exact .reopened hl hw hpaused hidle (createAuction_creates h)
  · next hidle =>
      obtain rfl := Except.ok.inj h
      refine .calm hw (.house (hl ▸ rfl) ⟨rfl, rfl, fun _ _ => hidle⟩ ?_)
      intro e he
      obtain rfl := List.mem_singleton.mp he
      rfl

/-- A payment that had to be made in WETH. -/
theorem payInWeth_eq {dst : Address} {amount : Nat} (h : w.payInWeth env dst amount = .ok w') :
    amount ≤ w.balance ∧ ∃ weth, w' = withPayment dst amount .weth weth w := by
  simp only [AuctionWorld.payInWeth, bind_ok, requireRaw_ok] at h
  obtain ⟨_, hle, weth₁, _, weth, _, h⟩ := h
  exact ⟨hle, weth, (Except.ok.inj h).symm⟩

/-- A payment that is made by a call. -/
theorem safeTransferETH_call {dst : Address} {amount : Nat} {f : AuctionFrame}
    (h : w.safeTransferETHWithFallback_ dst amount f = .ok o) :
    amount ≤ w.balance ∧ o = .call w (withPayment dst amount .ether w.weth w) f := by
  simp only [AuctionWorld.safeTransferETHWithFallback_, bind_ok, requireRaw_ok] at h
  obtain ⟨_, hle, h⟩ := h
  exact ⟨hle, (Except.ok.inj h).symm⟩

/-! ## The steps -/

variable {fs : List AuctionFrame} {y : AuctionConfig} {p : Phase}

theorem Waits.refund {value : Nat} {auction_ : Auction}
    (h : Waits p (.refund sender value auction_ :: fs)) :
    p = .placing sender value auction_ ∧ fs = [] := by
  cases h
  exact ⟨rfl, rfl⟩

theorem Waits.payout {auction_ : Auction} {payee : Address} {next : Option View}
    (h : Waits p (.payout sender auction_ payee next :: fs)) :
    p = .concluding sender auction_ payee next ∧ fs = [] := by
  cases h
  exact ⟨rfl, rfl⟩

theorem Waits.nil (h : Waits p []) : p = .outside := by
  cases h
  rfl

theorem waits_nothing (h : houseFrames fs = []) : Waits .outside (houseFrames fs) := by
  rw [h]
  exact .outside

/-- What a recipient that fails is followed by. -/
theorem safeTransferETHEnd_acts {dst : Address} {amount : Nat}
    {r : AuctionWorld → Result (Outcome AuctionWorld AuctionFrame)}
    (h : (do let w ← w.safeTransferETHEnd env dst amount false; r w) = .ok o) :
    amount ≤ w.balance ∧ ∃ weth, r (withPayment dst amount .weth weth w) = .ok o := by
  obtain ⟨w', hpay, h⟩ := bind_ok.mp h
  obtain ⟨hle, weth, rfl⟩ := payInWeth_eq hpay
  exact ⟨hle, weth, h⟩

theorem createBid_acts {nounId value : Nat} (h : w.createBid sender nounId value = .ok o)
    (hlabel : l = .enter ⟨sender, .createBid nounId value⟩) (hsender : sender ≠ 0)
    (hl : (auctionMachine env).Lands o fs y)
    (hfs : houseFrames fs = []) :
    ∃ q, Waits q (houseFrames y.frames) ∧ HouseActs env ⟨w, fs⟩ l (.outside, w) (q, y.world) := by
  simp only [AuctionWorld.createBid, NounsAuctionHouse.enter_, NounsAuctionHouse.checkBid, bind_ok,
    require_ok, mul_ok, add_ok] at h
  obtain ⟨house, ⟨_, hentered, hhouse⟩, _, ⟨_, hid, _, hrun, _, hreserve, product, ⟨_, rfl⟩, least,
    ⟨_, rfl⟩, hleast⟩, h⟩ := h
  obtain rfl := Except.ok.inj hhouse
  have hact := @HouseAct.checked env ⟨w, fs⟩ l sender nounId value hlabel hsender
    ⟨hentered, hid, hrun, hreserve, hleast⟩
  split at h
  · -- the last bidder is paid back
    next hbidder =>
      rw [if_neg hbidder] at hact
      obtain ⟨hle, rfl⟩ := safeTransferETH_call h
      cases hl with
      | call =>
          refine ⟨.placing sender value w.house.auction, ?_, .tail (.single hact) (.refunded hle)⟩
          show Waits _ (AuctionFrame.refund sender value w.house.auction :: houseFrames fs)
          rw [hfs]
          exact .placing
      | failed hfail hl =>
          obtain ⟨hle, weth, hend⟩ := safeTransferETHEnd_acts hfail
          obtain rfl := endBid_placed hend
          cases hl with
          | done => exact ⟨.outside, waits_nothing hfs,
              .tail (.tail (.single hact) (.refunded hle)) (.placed (hlabel ▸ rfl))⟩
  · next hbidder =>
      rw [if_pos (not_not.mp hbidder)] at hact
      obtain rfl := endBid_placed h
      cases hl with
      | done => exact ⟨.outside, waits_nothing hfs, .tail (.single hact) (.placed (hlabel ▸ rfl))⟩

/-- A settlement from the check on, by a house that is at work. -/
theorem settleAuction_acts {view : View} {next : Option View}
    (h : AuctionWorld.settleAuction_ env sender view next
      (logged { w.house with entered := true } [] w) = .ok o)
    (hentered : w.house.entered = false) (hnext : next = none → w.house.paused = true)
    (hl : (auctionMachine env).Lands o fs y) (hfs : houseFrames fs = []) :
    ∃ q, Waits q (houseFrames y.frames) ∧ HouseActs env ⟨w, fs⟩ l (.outside, w) (q, y.world) := by
  obtain ⟨_, hcheck, h⟩ := bind_ok.mp h
  simp only [NounsAuctionHouse.checkSettle, bind_ok, require_ok] at hcheck
  obtain ⟨_, hbegun, _, hopen, hover⟩ := hcheck
  obtain ⟨w₁, hrelease, h⟩ := bind_ok.mp h
  obtain ⟨token, hmove, hw₁⟩ := bind_ok.mp
    ((congrArg (AuctionWorld.releaseNoun env view w.house.auction) setHouse_settled).symm.trans
      hrelease)
  obtain rfl : released token w = w₁ := Except.ok.inj hw₁
  have h : (if 0 < w.house.auction.amount then
        AuctionWorld.safeTransferETHWithFallback_ w.house.owner w.house.auction.amount
          (.payout sender w.house.auction w.house.owner next) (released token w)
      else AuctionWorld.endSettle env sender w.house.auction next (released token w)) = .ok o := h
  have hact := @HouseAct.released env ⟨w, fs⟩ l sender view next token
    ⟨hentered, hbegun, hopen, hover⟩ hnext hmove
  split at h
  · -- the payee is paid
    next hamount =>
      rw [if_pos hamount] at hact
      obtain ⟨hle, rfl⟩ := safeTransferETH_call h
      cases hl with
      | call =>
          refine ⟨.concluding sender w.house.auction w.house.owner next, ?_,
            .tail (.single hact) (.paid hle)⟩
          show Waits _ (AuctionFrame.payout sender w.house.auction w.house.owner next
            :: houseFrames fs)
          rw [hfs]
          exact .concluding
      | failed hfail hl =>
          obtain ⟨hle, weth, hend⟩ := safeTransferETHEnd_acts hfail
          obtain ⟨w₂, rfl, hact₂⟩ := endSettle_acts ⟨w, fs⟩ l w.house.owner hend
          cases hl with
          | done => exact ⟨.outside, waits_nothing hfs, .tail (.tail (.single hact) (.paid hle)) hact₂⟩
  · next hamount =>
      rw [if_neg hamount] at hact
      obtain ⟨w₂, rfl, hact₂⟩ := endSettle_acts ⟨w, fs⟩ l w.house.owner h
      cases hl with
      | done => exact ⟨.outside, waits_nothing hfs, .tail (.single hact) hact₂⟩

/-- Code of the house that concerns nothing else, and logs nothing of auctions. -/
theorem onHouse_calm {r : Result NounsAuctionHouse} (hl : tunes l = true)
    (h : w.onHouse r = .ok o)
    (hr : ∀ house, r = .ok house → Tuned w.house house
      ∧ ∃ es, house.logs = w.house.logs ++ es ∧ ∀ e ∈ es, e.ofAuction = false) :
    ∃ w', o = .done w' ∧ HouseCalm l w w' := by
  obtain ⟨house, hhouse, h⟩ := bind_ok.mp h
  obtain rfl := Except.ok.inj h
  obtain ⟨htuned, es, hlogs, hes⟩ := hr house hhouse
  exact ⟨_, rfl, setHouse_logged hlogs ▸ .house hl htuned hes⟩

/-- ... where it logs one event. -/
theorem onHouse_told {r : Result NounsAuctionHouse} (hl : tunes l = true)
    (h : w.onHouse r = .ok o)
    (hr : ∀ house, r = .ok house → ∃ e, house.logs = w.house.logs ++ [e] ∧ e.ofAuction = false
      ∧ Tuned w.house house) :
    ∃ w', o = .done w' ∧ HouseCalm l w w' := by
  refine onHouse_calm hl h ?_
  intro house hhouse
  obtain ⟨e, hlogs, he, htuned⟩ := hr house hhouse
  refine ⟨htuned, [e], hlogs, ?_⟩
  intro e' he'
  obtain rfl := List.mem_singleton.mp he'
  exact he

theorem setting_calm {c : AuctionCall} (hc : isSetting c = true)
    (h : (auctionMachine env).enter ⟨sender, c⟩ w = .ok o) :
    ∃ w', o = .done w' ∧ HouseCalm (.enter ⟨sender, c⟩) w w' := by
  -- pausing is part of the initialization too
  have hpause : ∀ {s s' : NounsAuctionHouse}, s.pause_ sender = .ok s' →
      s' = { s with paused := true }.emit (.paused sender) := by
    intro s s' h
    simp only [NounsAuctionHouse.pause_, bind_ok] at h
    obtain ⟨_, _, h⟩ := h
    exact (Except.ok.inj h).symm
  cases c with
  | token | weth | sendEther | createBid | settleAuction | settleCurrentAndCreateNewAuction
    | unpause => exact absurd hc Bool.false_ne_true
  | initialize_ =>
      refine onHouse_calm rfl h ?_
      intro house hhouse
      simp only [NounsAuctionHouse.initialize_, bind_ok] at hhouse
      obtain ⟨_, _, house', hhouse', hhouse⟩ := hhouse
      obtain rfl := Except.ok.inj hhouse
      obtain rfl := hpause hhouse'
      refine ⟨⟨rfl, rfl, fun h => Bool.noConfusion h⟩, [_, _], List.append_assoc _ _ _, ?_⟩
      intro e he
      rcases List.mem_cons.mp he with rfl | he
      · rfl
      · obtain rfl := List.mem_singleton.mp he
        rfl
  | pause =>
      refine onHouse_told rfl h ?_
      intro house hhouse
      obtain ⟨_, _, hhouse⟩ := bind_ok.mp hhouse
      obtain rfl := hpause hhouse
      exact ⟨_, rfl, rfl, rfl, rfl, fun h => Bool.noConfusion h⟩
  | setTimeBuffer | setReservePrice | setMinBidIncrementPercentage | renounceOwnership =>
      refine onHouse_told rfl h ?_
      intro house hhouse
      obtain ⟨_, _, hhouse⟩ := bind_ok.mp hhouse
      obtain rfl := Except.ok.inj hhouse
      exact ⟨_, rfl, rfl, rfl, rfl, fun h h' => absurd (h.symm.trans h') Bool.false_ne_true⟩
  | transferOwnership =>
      refine onHouse_told rfl h ?_
      intro house hhouse
      obtain ⟨_, _, hhouse⟩ := bind_ok.mp hhouse
      obtain ⟨_, _, hhouse⟩ := bind_ok.mp hhouse
      obtain rfl := Except.ok.inj hhouse
      exact ⟨_, rfl, rfl, rfl, rfl, fun h h' => absurd (h.symm.trans h') Bool.false_ne_true⟩

/-- A house is at work, or it is not. -/
def Coherent (p : Phase) (w : AuctionWorld) : Prop := w.house.entered = false → p = .outside

theorem Coherent.outside_of {fs : List AuctionFrame} (hp : Coherent p w) (hw : Waits p fs)
    (h : w.house.entered = false) : p = .outside ∧ fs = [] := by
  obtain rfl := hp h
  cases hw
  exact ⟨rfl, rfl⟩

/-- **A step is a few acts.** -/
theorem step_acts {x : AuctionConfig} (hs : (auctionMachine env).Step x l y)
    (hw : Waits p (houseFrames x.frames)) (hp : Coherent p x.world) :
    ∃ q, Waits q (houseFrames y.frames) ∧ HouseActs env x l (p, x.world) (q, y.world) := by
  cases hs with
  | @enter tx w fs o _ hallowed h hl =>
      obtain ⟨sender, c⟩ := tx
      -- what ends at once and touches no auction
      have hcalm : ∀ w', o = .done w' → HouseCalm (.enter ⟨sender, c⟩) w w' →
          ∃ q, Waits q (houseFrames y.frames)
            ∧ HouseActs env ⟨w, fs⟩ (.enter ⟨sender, c⟩) (p, w) (q, y.world) := by
        rintro w' rfl hc
        cases hl with
        | done => exact ⟨p, hw, .single (.calm hw hc)⟩
      cases c with
      | token view call =>
          obtain ⟨token, htoken, h⟩ := bind_ok.mp h
          have hact := @HouseAct.calm env ⟨w, fs⟩ (.enter ⟨sender, .token view call⟩) p _ hw
            (.token rfl htoken)
          split at h
          · obtain rfl := Except.ok.inj h
            cases hl with
            | call => exact ⟨p, hw, .single hact⟩
            | failed hfail => exact absurd hfail (by simp [auctionMachine, AuctionWorld.resume, require])
          · obtain rfl := Except.ok.inj h
            cases hl with
            | done => exact ⟨p, hw, .single hact⟩
      | weth call =>
          obtain ⟨weth, _, h⟩ := bind_ok.mp h
          exact hcalm _ (Except.ok.inj h).symm .weth
      | sendEther value => exact hcalm _ (Except.ok.inj h).symm .ether
      | createBid nounId value =>
          have hentered : w.house.entered = false := by
            obtain ⟨_, hhouse, _⟩ := bind_ok.mp h
            obtain ⟨_, hreq, _⟩ := bind_ok.mp hhouse
            exact require_ok.mp hreq
          obtain ⟨rfl, hfs⟩ := hp.outside_of hw hentered
          exact createBid_acts h rfl hallowed.1 hl hfs
      | settleAuction view =>
          obtain ⟨_, hpaused, h⟩ := bind_ok.mp h
          obtain ⟨house, hhouse, h⟩ := bind_ok.mp h
          obtain ⟨_, hreq, hhouse⟩ := bind_ok.mp hhouse
          obtain rfl := Except.ok.inj hhouse
          have henter : w.setHouse { w.house with entered := true }
              = logged { w.house with entered := true } [] w := setHouse_silent rfl
          rw [henter] at h
          have hentered := require_ok.mp hreq
          obtain ⟨rfl, hfs⟩ := hp.outside_of hw hentered
          exact settleAuction_acts h hentered (fun _ => require_ok.mp hpaused) hl hfs
      | settleCurrentAndCreateNewAuction view next =>
          obtain ⟨house, hhouse, h⟩ := bind_ok.mp h
          obtain ⟨_, hreq, hhouse⟩ := bind_ok.mp hhouse
          obtain rfl := Except.ok.inj hhouse
          obtain ⟨_, _, h⟩ := bind_ok.mp h
          have henter : w.setHouse { w.house with entered := true }
              = logged { w.house with entered := true } [] w := setHouse_silent rfl
          rw [henter] at h
          have hentered := require_ok.mp hreq
          obtain ⟨rfl, hfs⟩ := hp.outside_of hw hentered
          exact settleAuction_acts h hentered (fun hnone => absurd hnone (Option.some_ne_none _)) hl hfs
      | unpause view =>
          obtain ⟨w', hunpause, h⟩ := bind_ok.mp h
          obtain rfl := Except.ok.inj h
          cases hl with
          | done => exact ⟨p, hw, .single (unpause_acts rfl hw hunpause)⟩
      | initialize_ | pause | setTimeBuffer | setReservePrice | setMinBidIncrementPercentage
        | transferOwnership | renounceOwnership =>
          obtain ⟨w', ho, hc⟩ := setting_calm rfl h
          exact hcalm w' ho hc
  | @resume f w fs o _ h hl =>
      cases f with
      | onERC721Received =>
          obtain ⟨_, _, h⟩ := bind_ok.mp h
          obtain rfl := Except.ok.inj h
          cases hl with
          | done => exact ⟨p, hw, .refl⟩
      | refund sender value auction_ =>
          obtain ⟨rfl, hfs⟩ := hw.refund
          obtain ⟨w', hpay, h⟩ := bind_ok.mp h
          obtain rfl := Except.ok.inj hpay
          obtain rfl := endBid_placed h
          cases hl with
          | done => exact ⟨.outside, waits_nothing hfs, .single (.placed rfl)⟩
      | payout sender auction_ payee next =>
          obtain ⟨rfl, hfs⟩ := hw.payout
          obtain ⟨w', hpay, h⟩ := bind_ok.mp h
          obtain rfl := Except.ok.inj hpay
          obtain ⟨w₂, rfl, hact⟩ := endSettle_acts ⟨w, _ :: fs⟩ (.resume _) payee h
          cases hl with
          | done => exact ⟨.outside, waits_nothing hfs, .single hact⟩
  | @tick block w w' h =>
      obtain ⟨block', hblock, rfl⟩ := Option.map_eq_some_iff.mp h
      obtain ⟨hnumber, htime, rfl⟩ := tick_some.mp hblock
      obtain rfl := hw.nil
      exact ⟨.outside, .outside, .single (.tick rfl hnumber htime)⟩

end Proof

end Nouns
