import Nouns.Proof.HouseInvariant

/-!
# Payments that cannot be blocked

The house sends ether in the middle of `createBid` and of a settlement. A recipient that
fails is paid in WETH; one that tries to bid or settle meanwhile finds the house locked; so
a bid that passes its checks, and a settlement that moves its Noun, go through whatever the
recipient does.
-/

namespace Nouns.Proof

open Evm CallMachine

variable {env : AuctionEnv} {x : AuctionConfig} {w w' : AuctionWorld} {sender dst : Address}
  {nounId value amount : Nat} {auction_ : Auction} {next : Option View} {fs : List AuctionFrame}

/-! ## WETH -/

/-- WETH has room for a payment of the house. -/
structure RoomInWeth (env : AuctionEnv) (dst : Address) (amount : Nat) (w : AuctionWorld) : Prop where
  house : w.weth.balanceOf env.house + amount < 2 ^ 256
  dst : w.weth.balanceOf dst + amount < 2 ^ 256

/-- What a deposit leaves. -/
def deposited (env : AuctionEnv) (amount : Nat) (s : WETH) : WETH :=
  { s with
    balanceOf := Function.update s.balanceOf env.house (s.balanceOf env.house + amount)
    ether := s.ether + amount }

theorem deposit_eq {s s' : WETH} (h : s.deposit env.house amount = .ok s') : s' = deposited env amount s := by
  simp only [WETH.deposit, bind_ok, add_ok] at h
  obtain ⟨_, ⟨-, rfl⟩, h⟩ := h
  exact (Except.ok.inj h).symm

/-- The house spends its own WETH. -/
theorem spendAllowance_own {s : WETH} : s.spendAllowance sender sender amount = .ok s :=
  if_neg fun h => h.1 rfl

/-- The balances after a deposit was passed on. -/
def passedOn (dst : Address) (amount : Nat) (s : WETH) : Address → Nat :=
  Function.update s.balanceOf dst (s.balanceOf dst + amount)

/-- What a deposit leaves, less what is passed on. -/
theorem deposited_less (env : AuctionEnv) (amount : Nat) (s : WETH) :
    Function.update (deposited env amount s).balanceOf env.house
      ((deposited env amount s).balanceOf env.house - amount) = s.balanceOf := by
  simp only [deposited, Function.update_self, Function.update_idem, Nat.add_sub_cancel,
    Function.update_eq_self]

theorem transfer_deposited {s' : WETH}
    (h : (deposited env amount w.weth).transfer env.house dst amount = .ok s') :
    s'.balanceOf = passedOn dst amount w.weth := by
  simp only [WETH.transfer, WETH.transferFrom, spendAllowance_own, bind_ok, sub_ok, add_ok] at h
  obtain ⟨_, -, s, hs, _, ⟨-, rfl⟩, _, ⟨-, rfl⟩, h⟩ := h
  obtain rfl := Except.ok.inj hs
  obtain rfl := Except.ok.inj h
  show Function.update (Function.update _ _ _) _ _ = _
  rw [deposited_less]
  rfl

/-- **A payment in WETH reaches its recipient**, and nobody else's balance changes. -/
theorem payInWeth_credits (h : w.payInWeth env dst amount = .ok w') :
    w'.weth.balanceOf = passedOn dst amount w.weth ∧ w'.balance + amount = w.balance := by
  simp only [AuctionWorld.payInWeth, bind_ok, requireRaw_ok] at h
  obtain ⟨_, hle, weth₁, hdeposit, weth, htransfer, h⟩ := h
  obtain rfl := deposit_eq hdeposit
  obtain rfl := Except.ok.inj h
  exact ⟨transfer_deposited htransfer, Nat.sub_add_cancel hle⟩

theorem payInWeth_total (hle : amount ≤ w.balance) (hroom : RoomInWeth env dst amount w) :
    ∃ weth, w.payInWeth env dst amount = .ok (withPayment dst amount .weth weth w) := by
  have hdeposit : w.weth.deposit env.house amount = .ok (deposited env amount w.weth) :=
    bind_ok.mpr ⟨_, add_ok.mpr ⟨hroom.house, rfl⟩, rfl⟩
  have hself : amount ≤ (deposited env amount w.weth).balanceOf env.house := by
    simp only [deposited, Function.update_self]
    omega
  have hfits : Function.update (deposited env amount w.weth).balanceOf env.house
      ((deposited env amount w.weth).balanceOf env.house - amount) dst + amount < 2 ^ 256 := by
    rw [deposited_less]
    exact hroom.dst
  have htransfer : ∃ weth, (deposited env amount w.weth).transfer env.house dst amount = .ok weth := by
    refine bind_total (requireRaw_total hself) (bind_total spendAllowance_own ?_)
    refine bind_total (sub_ok.mpr ⟨hself, rfl⟩) (bind_total (add_ok.mpr ⟨hfits, rfl⟩) ?_)
    exact ⟨_, rfl⟩
  obtain ⟨weth, hweth⟩ := htransfer
  refine ⟨weth, bind_ok.mpr ⟨(), requireRaw_ok.mpr hle, bind_ok.mpr ⟨_, hdeposit, ?_⟩⟩⟩
  exact bind_ok.mpr ⟨weth, hweth, rfl⟩

/-! ## Going through -/

/--
A call goes through: whether the recipient of ether fails, or comes back from whatever it
did and left `P`.
-/
def GoesThrough (env : AuctionEnv) (P : AuctionWorld → Prop) (fs : List AuctionFrame) :
    Result (Outcome AuctionWorld AuctionFrame) → Prop
  | .ok (.done _) => True
  | .ok (.call sent inside f) =>
      (∃ w', (auctionMachine env).resume f false sent = .ok (.done w')) ∧
        ∀ y : AuctionConfig, (auctionMachine env).Runs Free ⟨inside, f :: fs⟩ y → y.frames = f :: fs →
          P y.world → ∃ w', (auctionMachine env).resume f true y.world = .ok (.done w')
  | .error _ => False

/-- The end of the auction can be moved. -/
def RoomForBuffer (w : AuctionWorld) : Prop := w.block.timestamp + w.house.timeBuffer < 2 ^ 256

theorem endBid_total (hrun : w.block.timestamp < auction_.endTime) (hroom : RoomForBuffer w) :
    w.endBid sender value auction_ = .ok (.done (withBid sender value auction_ w)) := by
  have hplace : ∃ house, w.house.placeBid w.block sender value auction_ = .ok house := by
    refine bind_total (sub_ok.mpr ⟨Nat.le_of_lt hrun, rfl⟩) ?_
    split
    · exact bind_total (add_ok.mpr ⟨hroom, rfl⟩) ⟨_, rfl⟩
    · exact ⟨_, rfl⟩
  obtain ⟨house, hhouse⟩ := hplace
  have h : ∃ o, w.endBid sender value auction_ = .ok o := bind_total hhouse ⟨_, rfl⟩
  obtain ⟨o, ho⟩ := h
  rw [ho, endBid_placed ho]

/-- The numbers of a bid are small enough. -/
structure BidFits (value : Nat) (w : AuctionWorld) : Prop where
  value : value < 2 ^ 256
  product : w.house.auction.amount * w.house.minBidIncrementPercentage < 2 ^ 256

/-- `createBid` behind its checks. -/
theorem createBid_checked (hb : BidChecked nounId value w) (hfits : BidFits value w) :
    w.createBid sender nounId value =
      if w.house.auction.bidder ≠ 0 then
        (atWork value w).safeTransferETHWithFallback_ w.house.auction.bidder w.house.auction.amount
          (.refund sender value w.house.auction)
      else (atWork value w).endBid sender value w.house.auction := by
  have henter : w.house.enter_ = .ok { w.house with entered := true } :=
    bind_ok.mpr ⟨(), require_ok.mpr hb.entered, rfl⟩
  have hleast : add 256 w.house.auction.amount
      (w.house.auction.amount * w.house.minBidIncrementPercentage / 100) = .ok _ :=
    add_ok.mpr ⟨Nat.lt_of_le_of_lt hb.increment hfits.value, rfl⟩
  have hcheck :
      NounsAuctionHouse.checkBid w.block nounId value { w.house with entered := true } = .ok () := by
    refine bind_ok.mpr ⟨(), require_ok.mpr hb.nounId_eq, bind_ok.mpr ⟨(), require_ok.mpr hb.running, ?_⟩⟩
    refine bind_ok.mpr ⟨(), require_ok.mpr hb.reserve, bind_ok.mpr ⟨_, mul_ok.mpr ⟨hfits.product, rfl⟩, ?_⟩⟩
    exact bind_ok.mpr ⟨_, hleast, require_ok.mpr hb.increment⟩
  exact (bind_of_ok henter).trans (bind_of_ok hcheck)

/-- What got past the checks of `createBid` was checked. -/
theorem checked_of_createBid {o : Outcome AuctionWorld AuctionFrame}
    (h : w.createBid sender nounId value = .ok o) : BidChecked nounId value w := by
  simp only [AuctionWorld.createBid, NounsAuctionHouse.enter_, NounsAuctionHouse.checkBid, bind_ok,
    require_ok, mul_ok, add_ok] at h
  obtain ⟨house, ⟨_, hentered, hhouse⟩, _, ⟨_, hid, _, hrun, _, hreserve, product, ⟨_, rfl⟩, least,
    ⟨_, rfl⟩, hleast⟩, -⟩ := h
  obtain rfl := Except.ok.inj hhouse
  exact ⟨hentered, hid, hrun, hreserve, hleast⟩

theorem safeTransferETH_total {f : AuctionFrame} (hle : amount ≤ w.balance) :
    w.safeTransferETHWithFallback_ dst amount f = .ok (.call w (withPayment dst amount .ether w.weth w) f) :=
  bind_ok.mpr ⟨(), requireRaw_ok.mpr hle, rfl⟩

/-- The next auction, if there is to be one, can be created, or what stops it is caught. -/
def Renews (env : AuctionEnv) (next : Option View) (w : AuctionWorld) : Prop :=
  match next with
  | none => True
  | some view =>
      match w.token.mint ⟨env.house, w.block, view⟩ with
      | .ok _ => w.block.timestamp + w.house.duration < 2 ^ 256
      | .error (.error _) => w.house.paused = false
      | .error _ => False

theorem Renews.createNext (h : Renews env next w) : ∃ w', w.createNext env sender next = .ok w' := by
  cases next with
  | none => exact ⟨w, rfl⟩
  | some view =>
      simp only [Renews] at h
      show ∃ w', w.createAuction_ env sender view = .ok w'
      unfold AuctionWorld.createAuction_
      generalize w.token.mint ⟨env.house, w.block, view⟩ = r at h ⊢
      match r, h with
      | .ok (token, nounId), hroom => exact bind_total (add_ok.mpr ⟨hroom, rfl⟩) ⟨_, rfl⟩
      | .error (.error _), hpaused =>
          exact bind_total (bind_ok.mpr ⟨(), require_ok.mpr hpaused, rfl⟩) ⟨_, rfl⟩

theorem endSettle_total (sender : Address) (auction_ : Auction) (h : Renews env next w) :
    ∃ w', w.endSettle env sender auction_ next = .ok (.done w') := by
  have hlog : w.setHouse (w.house.emit (.auctionSettled auction_.nounId auction_.bidder auction_.amount))
      = settledLog auction_ w := setHouse_logged rfl
  have hnext : ∃ w', (settledLog auction_ w).createNext env sender next = .ok w' :=
    Renews.createNext (by cases next <;> exact h)
  obtain ⟨w₁, hw₁⟩ := hnext
  refine ⟨w₁.setHouse w₁.house.leave_, ?_⟩
  unfold AuctionWorld.endSettle
  rw [hlog]
  exact bind_ok.mpr ⟨w₁, hw₁, rfl⟩

/-! ## Nobody gets in -/

/-- The entry points the lock guards. -/
def isGuarded : AuctionCall → Bool
  | .createBid .. | .settleAuction _ | .settleCurrentAndCreateNewAuction .. => true
  | _ => false

/-- **A locked house lets nobody bid or settle.** -/
theorem locked_refuses {c : AuctionCall} (hc : isGuarded c = true) (hw : w.house.entered = true)
    (o : Outcome AuctionWorld AuctionFrame) : (auctionMachine env).enter ⟨sender, c⟩ w ≠ .ok o := by
  intro h
  have henter : ∀ {house}, w.house.enter_ ≠ .ok house := by
    intro house hhouse
    obtain ⟨_, hreq, _⟩ := bind_ok.mp hhouse
    exact absurd (hw.symm.trans (require_ok.mp hreq)) Bool.true_eq_false_eq_False
  cases c with
  | createBid nounId value =>
      obtain ⟨_, hhouse, _⟩ := bind_ok.mp h
      exact henter hhouse
  | settleAuction view =>
      obtain ⟨_, _, h⟩ := bind_ok.mp h
      obtain ⟨_, hhouse, _⟩ := bind_ok.mp h
      exact henter hhouse
  | settleCurrentAndCreateNewAuction view next =>
      obtain ⟨_, hhouse, _⟩ := bind_ok.mp h
      exact henter hhouse
  | _ => exact absurd hc Bool.false_ne_true

end Nouns.Proof
