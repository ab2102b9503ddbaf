import Nouns.Proof.AntiSniping
import Nouns.Proof.AuctionPayments

/-!
# The ether of the auction house

Between transactions the house holds the current bid, and has paid out every other: an
outbid bidder right before the next bid is accepted, the owner right after a settlement.
No recipient can stop either.
-/

namespace Nouns.Proof

open Evm CallMachine EventLog

variable {env : AuctionEnv} {d : AuctionDeployment env} {x : AuctionConfig} {w w' : AuctionWorld}
  {l : AuctionLabel} {p q : Phase} {sender : Address} {nounId value : Nat} {R : Nat → Nat → Prop}

/-! ## Going through in a run -/

/-- What comes back to a run goes on in it. -/
theorem call_runs {tx : AuctionTx} {sent inside : AuctionWorld} {f : AuctionFrame} {y : AuctionConfig}
    (hx : AuctionRuns Free d x) (ha : (auctionMachine env).allowed tx x.world x.frames)
    (h : (auctionMachine env).enter tx x.world = .ok (.call sent inside f))
    (hy : (auctionMachine env).Runs Free ⟨inside, f :: x.frames⟩ y) : AuctionRuns Free d y :=
  Machine.Runs.trans (Machine.Runs.tail hx trivial (.enter ha h .call)) hy

/-- **A bid that passes its checks goes through.** -/
theorem bid_goes_through (hx : AuctionRuns Free d x)
    (ha : (auctionMachine env).allowed ⟨sender, .createBid nounId value⟩ x.world x.frames)
    (hb : BidChecked nounId value x.world) (hfits : BidFits value x.world) (hroom : RoomForBuffer x.world)
    (hweth : RoomInWeth env x.world.house.auction.bidder x.world.house.auction.amount x.world) :
    GoesThrough env RoomForBuffer x.frames
      ((auctionMachine env).enter ⟨sender, .createBid nounId value⟩ x.world) := by
  obtain ⟨p, h⟩ := inv_runs (R := (· ≤ ·)) d hx fun _ _ _ => outbids_le
  obtain ⟨rfl, -⟩ := h.inv.coherent.outside_of h.waits hb.entered
  have henter : (auctionMachine env).enter ⟨sender, .createBid nounId value⟩ x.world = _ :=
    createBid_checked hb hfits
  by_cases hbidder : x.world.house.auction.bidder = 0
  · have hend : (atWork value x.world).endBid sender value x.world.house.auction = .ok (.done _) :=
      endBid_total hb.running hroom
    rw [henter, if_neg (not_not.mpr hbidder), hend]
    trivial
  · rw [if_pos hbidder] at henter
    have hle : x.world.house.auction.amount ≤ (atWork value x.world).balance := by
      cases h.inv with
      | outside _ _ hshows hdebt =>
          cases hshows with
          | idle hidle => exact absurd (h.clock.expired hidle) (Nat.not_le_of_lt hb.running)
          | opened _ hzero => exact absurd hzero hbidder
          | standing _ _ _ _ hamount => exact hamount ▸ Nat.le_trans hdebt (Nat.le_add_right _ _)
    rw [safeTransferETH_total hle] at henter
    rw [henter]
    constructor
    · -- the last bidder cannot be paid in ether
      obtain ⟨weth, hpay⟩ := payInWeth_total (w := atWork value x.world) hle ⟨hweth.house, hweth.dst⟩
      exact ⟨_, bind_ok.mpr ⟨_, hpay, endBid_total hb.running hroom⟩⟩
    · intro y hy hframes hroom'
      obtain ⟨q, hq⟩ := inv_runs (R := (· ≤ ·)) d (call_runs hx ha henter hy) fun _ _ _ => outbids_le
      have hwaits := hq.waits
      rw [hframes] at hwaits
      obtain ⟨rfl, -⟩ := Waits.refund hwaits
      have hinv := hq.inv
      generalize hauction : x.world.house.auction = auction_ at hinv
      cases hinv with
      | placing _ _ _ hrun => exact ⟨_, bind_ok.mpr ⟨_, rfl, endBid_total hrun hroom'⟩⟩

/-- The entry point that settles, with or without a new auction. -/
def settling (view : View) : Option View → AuctionCall
  | none => .settleAuction view
  | some next => .settleCurrentAndCreateNewAuction view next

/-- A settlement behind its checks and the transfer of the Noun. -/
theorem settling_checked (sender : Address) (next : Option View) {view : View} {token : NounsToken}
    (hdue : SettlementDue w) (hpaused : w.house.paused = next.isNone)
    (hmove : AuctionWorld.moveNoun ⟨env.house, w.block, view⟩ w.house.auction w.token = .ok token) :
    (auctionMachine env).enter ⟨sender, settling view next⟩ w =
      if 0 < w.house.auction.amount then
        (released token w).safeTransferETHWithFallback_ w.house.owner w.house.auction.amount
          (.payout sender w.house.auction w.house.owner next)
      else (released token w).endSettle env sender w.house.auction next := by
  have henter : w.house.enter_ = .ok { w.house with entered := true } :=
    bind_ok.mpr ⟨(), require_ok.mpr hdue.entered, rfl⟩
  have hlock : w.setHouse { w.house with entered := true }
      = logged { w.house with entered := true } [] w := setHouse_silent rfl
  have hcheck : NounsAuctionHouse.checkSettle w.block
      (logged { w.house with entered := true } [] w).house = .ok () := by
    refine bind_ok.mpr ⟨(), require_ok.mpr hdue.begun, bind_ok.mpr ⟨(), require_ok.mpr hdue.unsettled, ?_⟩⟩
    exact require_ok.mpr hdue.expired
  have hrelease : AuctionWorld.releaseNoun env view w.house.auction (logged { w.house with
      entered := true
      auction := { w.house.auction with settled := true } } [] w) = .ok (released token w) :=
    bind_ok.mpr ⟨token, hmove, rfl⟩
  have hsettle : AuctionWorld.settleAuction_ env sender view next
      (logged { w.house with entered := true } [] w) = if 0 < w.house.auction.amount then
        (released token w).safeTransferETHWithFallback_ w.house.owner w.house.auction.amount
          (.payout sender w.house.auction w.house.owner next)
      else (released token w).endSettle env sender w.house.auction next := by
    refine (bind_of_ok hcheck).trans (bind_of_ok ?_)
    exact (congrArg (AuctionWorld.releaseNoun env view w.house.auction) setHouse_settled).trans hrelease
  -- the two calls check lock and pause in different orders
  cases next with
  | none =>
      refine (bind_of_ok (require_total hpaused)).trans ((bind_of_ok henter).trans ?_)
      exact (congrArg (AuctionWorld.settleAuction_ env sender view none) hlock).trans hsettle
  | some next =>
      refine (bind_of_ok henter).trans ((bind_of_ok (require_total hpaused)).trans ?_)
      exact (congrArg (AuctionWorld.settleAuction_ env sender view (some next)) hlock).trans hsettle

/-- **A settlement that moves its Noun goes through**, if the next auction can be created. -/
theorem settlement_goes_through (hx : AuctionRuns Free d x) {view : View} {next : Option View}
    {token : NounsToken}
    (ha : (auctionMachine env).allowed ⟨sender, settling view next⟩ x.world x.frames)
    (hdue : SettlementDue x.world) (hpaused : x.world.house.paused = next.isNone)
    (hmove : AuctionWorld.moveNoun ⟨env.house, x.world.block, view⟩ x.world.house.auction x.world.token
      = .ok token)
    (hrenews : Renews env next (released token x.world))
    (hweth : RoomInWeth env x.world.house.owner x.world.house.auction.amount x.world) :
    GoesThrough env (Renews env next) x.frames
      ((auctionMachine env).enter ⟨sender, settling view next⟩ x.world) := by
  obtain ⟨p, h⟩ := inv_runs (R := (· ≤ ·)) d hx fun _ _ _ => outbids_le
  obtain ⟨rfl, -⟩ := h.inv.coherent.outside_of h.waits hdue.entered
  have henter := settling_checked sender _ hdue hpaused hmove
  by_cases hamount : 0 < x.world.house.auction.amount
  · rw [if_pos hamount] at henter
    have hle : x.world.house.auction.amount ≤ (released token x.world).balance := by
      cases h.inv with
      | outside _ _ hshows hdebt =>
          cases hshows with
          | idle hidle =>
              rcases hidle with hidle | hidle
              · exact absurd hidle hdue.begun
              · exact absurd (hdue.unsettled.symm.trans hidle) Bool.false_ne_true
          | opened _ _ hzero => omega
          | standing _ _ _ _ hamount => exact hamount ▸ hdebt
    rw [safeTransferETH_total hle] at henter
    rw [henter]
    constructor
    · -- the owner cannot be paid in ether
      obtain ⟨weth, hpay⟩ := payInWeth_total (w := released token x.world) hle ⟨hweth.house, hweth.dst⟩
      have hend : Renews env next (withPayment x.world.house.owner x.world.house.auction.amount .weth weth
          (released token x.world)) := by cases next <;> exact hrenews
      obtain ⟨w', hw'⟩ := endSettle_total sender x.world.house.auction hend
      exact ⟨w', bind_ok.mpr ⟨_, hpay, hw'⟩⟩
    · intro y _ _ hend
      obtain ⟨w', hw'⟩ := endSettle_total sender x.world.house.auction hend
      exact ⟨w', bind_ok.mpr ⟨_, rfl, hw'⟩⟩
  · rw [if_neg hamount] at henter
    obtain ⟨w', hw'⟩ := endSettle_total sender x.world.house.auction hrenews
    rw [henter, hw']
    trivial

/-! ## The accounts -/

/-- What the house holds for an auction that is not settled. -/
def unsettledAmount (a : Auction) : Nat := if a.settled then 0 else a.amount

/-- Nothing is bid before the first auction. -/
def BlankFirst (w : AuctionWorld) : Prop :=
  w.house.auction.startTime = 0 → w.house.auction.amount = 0

theorem Creates.blankFirst {view : View} (h : Creates env view w w') (hw : BlankFirst w) : BlankFirst w' := by
  cases h with
  | opened => exact fun _ => rfl
  | halted => exact hw

theorem HouseAct.blankFirst (ha : HouseAct env x l (p, w) (q, w')) (hi : HouseInv R p w)
    (hw : BlankFirst w) : BlankFirst w' := by
  cases ha with
  | calm _ h =>
      unfold BlankFirst
      rw [h.frame.1]
      exact hw
  | reopened _ _ _ _ h => exact Creates.blankFirst h hw
  | placed =>
      cases hi with
      | placing _ _ hn => exact fun h => absurd (.inl h) hn
  | renewed h =>
      have h := h.blankFirst hw
      exact h
  | tick | checked | refunded | released | paid | rested => exact hw

theorem blankFirst_runs (d : AuctionDeployment env) (hx : AuctionRuns Free d x) : BlankFirst x.world := by
  have hstart : BlankFirst d.world := by
    obtain ⟨_, _, _, _, _, h⟩ := d.house_initialized
    simp only [NounsAuctionHouse.initialize_, NounsAuctionHouse.pause_, bind_ok] at h
    obtain ⟨_, _, house, ⟨_, _, hhouse⟩, h⟩ := h
    obtain rfl := Except.ok.inj hhouse
    intro _
    show d.house.auction.amount = 0
    rw [← Except.ok.inj h]
    rfl
  obtain ⟨p, h⟩ := phased_runs (R := (· ≤ ·)) (I := fun _ w => BlankFirst w) d hx
    (fun _ _ _ => outbids_le) hstart fun _ _ _ _ _ _ _ ha hi _ hw => ha.blankFirst hi hw
  exact h.more

theorem AuctionShows.debt_eq {s : Stage} (h : AuctionShows w.house.auction s) (hw : BlankFirst w) :
    s.debt = unsettledAmount w.house.auction := by
  have hopen : ∀ {a : Auction}, ¬ a.Idle → unsettledAmount a = a.amount := fun hn =>
    if_neg fun hs => hn (.inr hs)
  cases h with
  | idle hidle =>
      rcases hidle with hidle | hidle
      · simp [Stage.debt, unsettledAmount, hw hidle]
      · simp [Stage.debt, unsettledAmount, hidle]
  | opened hn _ hamount => exact (hopen hn).symm ▸ hamount.symm
  | standing hn _ _ _ hamount => exact (hopen hn).symm ▸ hamount

theorem AuctionShows.settled {a : Auction} {s : Stage} (h : AuctionShows a s) : Settled s := by
  cases h with
  | idle => exact .idle
  | opened => exact .opened
  | standing => exact .standing

/-- The accounts between transactions. -/
structure Accounts (w : AuctionWorld) : Prop where
  covered : w.house.auction.settled = false → w.house.auction.amount ≤ w.balance
  balanced : acceptedTotal w.history = paidTotal w.history + unsettledAmount w.house.auction
  /-- Between two bids in one auction the first is paid back, once. -/
  refunded : ∀ (pre mid post : List AuctionDeed) (bid bid' : AcceptedBid),
    w.history = pre ++ .accepted bid :: (mid ++ .accepted bid' :: post) →
    (∀ e ∈ mid, AuctionDeed.opens e = false ∧ AuctionDeed.accepts e = false) →
    ∃ coin, mid = [.paid bid.bidder bid.amount coin]
  /-- Right after a settlement its payee is paid. -/
  sold : ∀ (pre post : List AuctionDeed) (settlement : Settlement),
    w.history = pre ++ .settled settlement :: post →
    0 < settlement.amount → ∃ coin rest, post = .paid settlement.payee settlement.amount coin :: rest
  /-- Nothing else is paid, and no refund is made without the bid it is made for. -/
  because : ∀ (pre post : List AuctionDeed) (dst : Address) (amount : Nat) (coin : Coin),
    w.history = pre ++ .paid dst amount coin :: post →
    (∃ pre' bid bid' post', pre = pre' ++ [.accepted bid] ∧ bid.bidder = dst ∧ bid.amount = amount
        ∧ post = .accepted bid' :: post' ∧ bid'.nounId = bid.nounId)
      ∨ ∃ pre' settlement, pre = pre' ++ [.settled settlement] ∧ settlement.payee = dst
        ∧ settlement.amount = amount

theorem accounts_runs (hx : AuctionRuns Free d x) (hframes : x.frames = []) : Accounts x.world := by
  obtain ⟨p, h⟩ := inv_runs (R := (· ≤ ·)) d hx fun _ _ _ => outbids_le
  have hwaits := h.waits
  rw [hframes] at hwaits
  obtain rfl := hwaits.nil
  cases h.inv with
  | @outside _ s _ hkept hshows hdebt =>
      have howed := hshows.debt_eq (blankFirst_runs d hx)
      refine ⟨?_, ?_, ?_, ?_, ?_⟩
      · intro hopen
        rw [howed, unsettledAmount, if_neg (by rw [hopen]; exact Bool.false_ne_true)] at hdebt
        exact hdebt
      · have htotals := totals hkept
        rw [howed] at htotals
        simpa only [Stage.debt, Nat.zero_add] using htotals
      · intro pre mid post bid bid' hh hmid
        exact (refund_between (hkept.of_eq hh) hmid).1
      · intro pre post settlement hh hamount
        exact payout_next (hkept.of_eq hh) hshows.settled hamount
      · intro pre post dst amount coin hh
        exact paid_because (hkept.of_eq hh) hshows.settled

/-- What no recipient can prevent. -/
structure Unstoppable (env : AuctionEnv) (x : AuctionConfig) : Prop where
  bid : ∀ sender nounId value,
    (auctionMachine env).allowed ⟨sender, .createBid nounId value⟩ x.world x.frames →
    BidChecked nounId value x.world → BidFits value x.world → RoomForBuffer x.world →
    RoomInWeth env x.world.house.auction.bidder x.world.house.auction.amount x.world →
    GoesThrough env RoomForBuffer x.frames
      ((auctionMachine env).enter ⟨sender, .createBid nounId value⟩ x.world)
  settlement : ∀ sender view next token,
    (auctionMachine env).allowed ⟨sender, settling view next⟩ x.world x.frames →
    SettlementDue x.world → x.world.house.paused = next.isNone →
    AuctionWorld.moveNoun ⟨env.house, x.world.block, view⟩ x.world.house.auction x.world.token = .ok token →
    Renews env next (released token x.world) →
    RoomInWeth env x.world.house.owner x.world.house.auction.amount x.world →
    GoesThrough env (Renews env next) x.frames
      ((auctionMachine env).enter ⟨sender, settling view next⟩ x.world)
  /-- Whoever is called by the house finds it locked. -/
  locked : houseFrames x.frames ≠ [] → ∀ sender c o, isGuarded c = true →
    (auctionMachine env).enter ⟨sender, c⟩ x.world ≠ .ok o

theorem unstoppable_runs (hx : AuctionRuns Free d x) : Unstoppable env x where
  bid _ _ _ := bid_goes_through hx
  settlement _ _ _ _ := settlement_goes_through hx
  locked hframes _ _ o hc := by
    refine locked_refuses hc ?_ o
    obtain ⟨p, h⟩ := inv_runs (R := (· ≤ ·)) d hx fun _ _ _ => outbids_le
    by_contra hopen
    obtain ⟨-, hnone⟩ := h.inv.coherent.outside_of h.waits (Bool.eq_false_iff.mpr hopen)
    exact hframes hnone

/--
**The accounts of the auction house.** Between transactions they are in order. Each
settlement pays the owner of the house at its time, and a payment in WETH reaches its
recipient. No recipient can stop a bid or a settlement.
-/
theorem house_accounts {env : AuctionEnv} (d : AuctionDeployment env) (x : AuctionConfig)
    (hx : AuctionRuns Free d x) :
    (x.frames = [] → Accounts x.world)
      ∧ (∀ l y, (auctionMachine env).Step x l y → ∃ h, y.world.history = x.world.history ++ h
        ∧ ∀ settlement, AuctionDeed.settled settlement ∈ h → settlement.payee = x.world.house.owner
          ∧ settlement.amount = x.world.house.auction.amount)
      ∧ (∀ dst amount w, x.world.payInWeth env dst amount = .ok w →
        w.weth.balanceOf = passedOn dst amount x.world.weth ∧ w.balance + amount = x.world.balance)
      ∧ Unstoppable env x := by
  refine ⟨accounts_runs hx, ?_, fun dst amount w => payInWeth_credits, unstoppable_runs hx⟩
  intro l y hs
  obtain ⟨p, ⟨h, hh, -, hsettled⟩, -⟩ := step_adds hx hs
  exact ⟨h, hh, fun settlement hm => ⟨(hsettled settlement hm).payee, (hsettled settlement hm).amount⟩⟩

/-- Account 7 rejects its refund; 100 and 200 are bid, both are paid out. -/
theorem house_accounts_late : ∃ x, AuctionRuns Free smallAuction x ∧ x.frames = []
    ∧ acceptedTotal x.world.history = 300 ∧ unsettledAmount x.world.house.auction = 0
    ∧ x.world.weth.balanceOf (.ofNat 7) = 100 ∧ paidTotal x.world.history = 300 := by
  obtain ⟨x, hx, hp⟩ := Machine.script_exists (M := auctionMachine smallAuctionEnv)
    Machine.anything_free (x := ⟨smallAuction.world, []⟩) (m := lateBid)
    (p := fun x => x.frames.isEmpty ∧ acceptedTotal x.world.history = 300
      ∧ unsettledAmount x.world.house.auction = 0 ∧ x.world.weth.balanceOf (.ofNat 7) = 100)
    (by decide +kernel)
  obtain ⟨hframes, haccepted, hrest, hweth⟩ := of_decide_eq_true hp
  have hframes := List.isEmpty_iff.mp hframes
  have hbalanced := ((house_accounts smallAuction x hx).1 hframes).balanced
  rw [haccepted, hrest] at hbalanced
  exact ⟨x, hx, hframes, haccepted, hrest, hweth, hbalanced.symm⟩

end Nouns.Proof
