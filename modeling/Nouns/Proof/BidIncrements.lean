import Nouns.Proof.AuctionAccounting

/-!
# Bids that increase

The increment a bid has to make is a percentage of the last bid, rounded down, and the bid
is compared with `>=`. Below one wei it is no increment at all: the last bid can be matched.
Nothing else lets a bid in that does not beat the last one.
-/

namespace Nouns.Proof

open Evm CallMachine EventLog

variable {env : AuctionEnv} {d : AuctionDeployment env} {x : AuctionConfig} {w : AuctionWorld}
  {l : AuctionLabel} {nounId value : Nat}

/-- The increment is at least one wei, or the reserve price was raised above the last bid. -/
def Raises (s : NounsAuctionHouse) : Prop :=
  100 ≤ s.auction.amount * s.minBidIncrementPercentage ∨ s.auction.amount < s.reservePrice

instance (s : NounsAuctionHouse) : Decidable (Raises s) :=
  inferInstanceAs (Decidable (100 ≤ s.auction.amount * s.minBidIncrementPercentage
    ∨ s.auction.amount < s.reservePrice))

/-- Bids over a last bid are only made in states that ask for more. -/
def RaisesBids (x : AuctionConfig) (l : AuctionLabel) : Prop :=
  ∀ sender nounId value, l = .enter ⟨sender, .createBid nounId value⟩ →
    ¬ x.world.house.auction.Idle → x.world.house.auction.bidder ≠ 0 → Raises x.world.house

/-- A bid that is checked beats the last one where more is asked for. -/
theorem BidChecked.beats (h : BidChecked nounId value w) (hr : Raises w.house) :
    w.house.auction.amount < value := by
  rcases hr with hr | hr
  · -- a hundredth of a hundred is one
    have hone : 1 ≤ w.house.auction.amount * w.house.minBidIncrementPercentage / 100 :=
      (Nat.one_le_div_iff (by omega)).mpr hr
    exact Nat.lt_of_lt_of_le (Nat.lt_add_of_pos_right hone) h.increment
  · exact Nat.lt_of_lt_of_le hr h.reserve

theorem RaisesBids.outbids (h : RaisesBids x l) : Outbids (· < ·) x.world l := by
  intro sender nounId value hl hchecked hn hbidder
  exact hchecked.beats (h sender nounId value hl hn hbidder)

/-- Where nothing is asked for, the last bid can be matched. -/
theorem BidChecked.match (hentered : w.house.entered = false)
    (hrun : w.block.timestamp < w.house.auction.endTime) (hr : ¬ Raises w.house) :
    BidChecked w.house.auction.nounId w.house.auction.amount w := by
  obtain ⟨hsmall, hreserve⟩ := not_or.mp hr
  refine ⟨hentered, rfl, hrun, Nat.le_of_not_lt hreserve, ?_⟩
  rw [Nat.div_eq_of_lt (Nat.lt_of_not_le hsmall)]
  exact Nat.le_refl _

theorem GoesThrough.checked {sender : Address} {P : AuctionWorld → Prop} {fs : List AuctionFrame}
    (h : GoesThrough env P fs ((auctionMachine env).enter ⟨sender, .createBid nounId value⟩ w)) :
    BidChecked nounId value w := by
  generalize hr : (auctionMachine env).enter ⟨sender, .createBid nounId value⟩ w = r at h
  cases r with
  | ok o => exact checked_of_createBid hr
  | error e => exact h.elim

/-- Somebody may call. -/
theorem exists_sender (env : AuctionEnv) (nounId value : Nat) (w : AuctionWorld) (fs : List AuctionFrame) :
    ∃ sender, (auctionMachine env).allowed ⟨sender, .createBid nounId value⟩ w fs := by
  have hone : Address.ofNat 1 ≠ 0 := by decide
  have htwo : Address.ofNat 2 ≠ 0 := by decide
  have hother : Address.ofNat 1 ≠ Address.ofNat 2 := by decide
  by_cases h : Address.ofNat 1 = env.house
  · exact ⟨.ofNat 2, htwo, fun h' => absurd (h.trans h'.symm) hother⟩
  · exact ⟨.ofNat 1, hone, fun h' => absurd h' h⟩

/--
**Bids increase where the increment is not rounded away.** In a run whose bids are all made
where more than the last bid is asked for, a later bid in an auction is higher than an
earlier one, and nobody but the winner bid the final amount. In any reachable state with a
bid that can be outbid, that is exactly when every bid that goes through is higher.
-/
theorem bids_increase_iff {env : AuctionEnv} (d : AuctionDeployment env) (x : AuctionConfig) :
    (AuctionRuns RaisesBids d x →
      (∀ (pre mid post : List AuctionDeed) (bid bid' : AcceptedBid),
        x.world.history = pre ++ .accepted bid :: (mid ++ .accepted bid' :: post) →
        (∀ e ∈ mid, AuctionDeed.opens e = false) → bid.amount < bid'.amount)
      ∧ ∀ (pre mid post : List AuctionDeed) (bid : AcceptedBid) (settlement : Settlement),
        x.world.history = pre ++ .accepted bid :: (mid ++ .settled settlement :: post) →
        (∀ e ∈ mid, AuctionDeed.opens e = false) → bid.amount ≤ settlement.amount
          ∧ (bid.amount = settlement.amount → bid.bidder = settlement.bidder))
    ∧ (AuctionRuns Free d x → x.world.house.entered = false →
      x.world.block.timestamp < x.world.house.auction.endTime → x.world.house.auction.bidder ≠ 0 →
      x.world.house.auction.amount < 2 ^ 256 → RoomForBuffer x.world →
      RoomInWeth env x.world.house.auction.bidder x.world.house.auction.amount x.world →
      (Raises x.world.house ↔ ∀ sender nounId value,
        (auctionMachine env).allowed ⟨sender, .createBid nounId value⟩ x.world x.frames →
        GoesThrough env RoomForBuffer x.frames
          ((auctionMachine env).enter ⟨sender, .createBid nounId value⟩ x.world) →
        x.world.house.auction.amount < value)) := by
  constructor
  · intro hx
    obtain ⟨s, hkept⟩ := kept_runs (R := (· < ·)) d hx fun _ _ h => h.outbids
    constructor
    · intro pre mid post bid bid' hh hmid
      exact later_higher (hkept.of_eq hh) hmid
    · intro pre mid post bid settlement hh hmid
      exact winner_only (hkept.of_eq hh) hmid
  · intro hx hentered hrun hbidder hfits hroom hweth
    constructor
    · intro hr sender nounId value _ hgoes
      exact hgoes.checked.beats hr
    · intro hall
      by_contra hr
      -- somebody could bid the same amount again
      obtain ⟨sender, ha⟩ := exists_sender env x.world.house.auction.nounId x.world.house.auction.amount
        x.world x.frames
      have hsmall := Nat.lt_of_not_le (not_or.mp hr).1
      have hgoes := bid_goes_through hx ha (BidChecked.match hentered hrun hr)
        ⟨hfits, Nat.lt_trans hsmall (by omega)⟩ hroom hweth
      exact Nat.lt_irrefl _ (hall sender _ _ ha hgoes)

/-- Whether a step meets the condition. -/
def raises (x : AuctionConfig) (l : AuctionLabel) : Bool :=
  match l with
  | .enter ⟨_, .createBid _ _⟩ =>
      x.world.house.auction.Idle ∨ x.world.house.auction.bidder = 0 ∨ Raises x.world.house
  | _ => true

theorem raises_raisesBids (x : AuctionConfig) (l : AuctionLabel) (h : raises x l = true) :
    RaisesBids x l := by
  rintro sender nounId value rfl hn hbidder
  rcases of_decide_eq_true h with h | h | h
  · exact absurd h hn
  · exact absurd h hbidder
  · exact h

/-- Bids of 100 and 200, with steps of 5 %. -/
theorem bids_increase_iff_late : ∃ x, AuctionRuns RaisesBids smallAuction x
    ∧ x.world.history = [.created 1, .accepted ⟨1, .ofNat 7, 100, 50, 10⟩,
      .paid (.ofNat 7) 100 .weth, .accepted ⟨1, .ofNat 8, 200, 95, 10⟩,
      .settled ⟨1, .ofNat 8, 200, .ofNat 1, .ofNat 4, .ofNat 8, 105⟩,
      .paid (.ofNat 1) 200 .ether, .created 2] ∧ 100 < 200 := by
  obtain ⟨x, hx, hp⟩ := Machine.script_exists (M := auctionMachine smallAuctionEnv)
    raises_raisesBids (x := ⟨smallAuction.world, []⟩) (m := lateBid)
    (p := fun x => x.world.history = [.created 1, .accepted ⟨1, .ofNat 7, 100, 50, 10⟩,
      .paid (.ofNat 7) 100 .weth, .accepted ⟨1, .ofNat 8, 200, 95, 10⟩,
      .settled ⟨1, .ofNat 8, 200, .ofNat 1, .ofNat 4, .ofNat 8, 105⟩,
      .paid (.ofNat 1) 200 .ether, .created 2]) (by decide +kernel)
  have hh := of_decide_eq_true hp
  exact ⟨x, hx, hh, ((bids_increase_iff smallAuction x).1 hx).1 [_] [_] _ _ _ hh (by decide)⟩

/-- The history of a bid of 1 wei that is matched. -/
def matchedBid : List AuctionDeed :=
  [.created 1, .accepted ⟨1, .ofNat 7, 1, 50, 10⟩, .paid (.ofNat 7) 1 .ether,
    .accepted ⟨1, .ofNat 8, 1, 50, 10⟩, .settled ⟨1, .ofNat 8, 1, .ofNat 1, .ofNat 4, .ofNat 8, 101⟩,
    .paid (.ofNat 1) 1 .ether, .created 2]

/--
With steps of 5 %, account 8 matches a bid of 1 wei of account 7 and wins, so the bids do not
increase, and the winner is not the only one who bid the final amount.
-/
theorem bids_increase_matched :
    (∃ x, AuctionRuns Free smallAuction x ∧ x.world.history = matchedBid)
      ∧ (∃ (pre mid post : List AuctionDeed) (bid bid' : AcceptedBid),
        matchedBid = pre ++ .accepted bid :: (mid ++ .accepted bid' :: post)
          ∧ (∀ e ∈ mid, AuctionDeed.opens e = false) ∧ ¬ bid.amount < bid'.amount)
      ∧ ∃ (pre mid post : List AuctionDeed) (bid : AcceptedBid) (settlement : Settlement),
        matchedBid = pre ++ .accepted bid :: (mid ++ .settled settlement :: post)
          ∧ (∀ e ∈ mid, AuctionDeed.opens e = false) ∧ bid.amount = settlement.amount
          ∧ bid.bidder ≠ settlement.bidder := by
  refine ⟨?_, ⟨[.created 1], [.paid (.ofNat 7) 1 .ether], _, _, _, rfl, by decide, by decide⟩,
    [.created 1], [.paid (.ofNat 7) 1 .ether, .accepted ⟨1, .ofNat 8, 1, 50, 10⟩], _, _, _, rfl,
    by decide, rfl, by decide⟩
  obtain ⟨x, hx, hp⟩ := Machine.script_exists (M := auctionMachine smallAuctionEnv)
    Machine.anything_free (x := ⟨smallAuction.world, []⟩)
    (m := [.enter (houseTx 1 (.unpause smallView)), .tick ⟨2, 50⟩, .enter (houseTx 7 (.createBid 1 1)),
      .enter (houseTx 8 (.createBid 1 1)), .resume, .tick ⟨4, 101⟩,
      .enter (houseTx 9 (.settleCurrentAndCreateNewAuction smallView smallView)), .resume])
    (p := fun x => x.world.history = matchedBid) (by decide +kernel)
  exact ⟨x, hx, of_decide_eq_true hp⟩

end Nouns.Proof
