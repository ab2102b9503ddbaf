import Nouns.Proof.AuctionActs
import Nouns.Proof.AuctionBooks
import Nouns.Proof.TokenInvariant

/-!
# The invariant of the auction house

In every phase the books are kept, the auction in storage is the one they tell of, and the
house holds what it owes. One act keeps this, so a step does, so a run.
-/

namespace Nouns.Proof

open Evm CallMachine EventLog

/-- What the auction in storage is in the books. -/
inductive AuctionShows (a : Auction) : Stage → Prop where
  | idle : a.Idle → AuctionShows a .idle
  | opened : ¬ a.Idle → a.bidder = 0 → a.amount = 0 → AuctionShows a (.opened a.nounId a.endTime)
  | standing {bid : AcceptedBid} : ¬ a.Idle → a.bidder ≠ 0 → bid.nounId = a.nounId →
      bid.bidder = a.bidder → bid.amount = a.amount → AuctionShows a (.standing bid a.endTime)

/-- The time is not zero, and past the end of an auction that is over. -/
structure Clock (w : AuctionWorld) : Prop where
  begun : 0 < w.block.timestamp
  expired : w.house.auction.Idle → w.house.auction.endTime ≤ w.block.timestamp

variable {R : Nat → Nat → Prop}

variable (R) in
/-- The history leads there. -/
abbrev Kept (w : AuctionWorld) (s : Stage) : Prop := Replays (Books R) .idle w.history s

variable (R) in
/-- What holds in each phase. -/
inductive HouseInv : Phase → AuctionWorld → Prop where
  | outside {w : AuctionWorld} {s : Stage} : w.house.entered = false → Kept R w s →
      AuctionShows w.house.auction s → s.debt ≤ w.balance → HouseInv .outside w
  | bidding {w : AuctionWorld} {sender : Address} {value : Nat} {bid : AcceptedBid} :
      w.house.entered = true → sender ≠ 0 → w.block.timestamp < w.house.auction.endTime →
      Kept R w (.standing bid w.house.auction.endTime) →
      AuctionShows w.house.auction (.standing bid w.house.auction.endTime) →
      R bid.amount value → value + bid.amount ≤ w.balance →
      HouseInv (.bidding sender value w.house.auction) w
  | placing {w : AuctionWorld} {s : Stage} {sender : Address} {value : Nat} :
      w.house.entered = true → sender ≠ 0 → ¬ w.house.auction.Idle →
      w.block.timestamp < w.house.auction.endTime → Kept R w s →
      (∀ bid : AcceptedBid, bid.nounId = w.house.auction.nounId → bid.amount = value →
        Stage.Takes R bid s w.house.auction.endTime) →
      value ≤ w.balance → HouseInv (.placing sender value w.house.auction) w
  | settling {w : AuctionWorld} {sender payee : Address} {auction_ : Auction} {next : Option View} :
      w.house.entered = true → w.house.auction.Idle → Kept R w (.owed payee auction_.amount) →
      auction_.amount ≤ w.balance → HouseInv (.settling sender auction_ payee next) w
  | concluding {w : AuctionWorld} {s : Stage} {sender payee : Address} {auction_ : Auction}
      {next : Option View} : w.house.entered = true → Kept R w s → AuctionShows w.house.auction s →
      s.Unbid → HouseInv (.concluding sender auction_ payee next) w

variable {env : AuctionEnv} {x : AuctionConfig} {w w' : AuctionWorld} {l : AuctionLabel}
  {p q : Phase} {s : Stage}

theorem Kept.congr (h : Kept R w s) (hh : w'.history = w.history) : Kept R w' s := by
  rw [Kept, hh]
  exact h

theorem Kept.of_eq {h : List AuctionDeed} (hk : Kept R w s) (hh : w.history = h) :
    Replays (Books R) .idle h s := hh ▸ hk

theorem HouseInv.coherent (h : HouseInv R p w) : Coherent p w := by
  intro he
  cases h with
  | outside => rfl
  | bidding h | placing h | settling h | concluding h => exact absurd (he.symm.trans h) Bool.false_ne_true

/-- The invariant only looks at the auction, the lock, the money, the time and the history. -/
theorem HouseInv.congr (h : HouseInv R p w) (ha : w'.house.auction = w.house.auction)
    (he : w'.house.entered = w.house.entered) (hb : w.balance ≤ w'.balance)
    (ht : w'.block.timestamp = w.block.timestamp) (hh : w'.history = w.history) :
    HouseInv R p w' := by
  cases h with
  | outside hentered hkept hshows hdebt =>
      exact .outside (he.trans hentered) (Kept.congr hkept hh) (ha.symm ▸ hshows) (Nat.le_trans hdebt hb)
  | bidding hentered hsender hrun hkept hshows hR hbalance =>
      rw [← ha] at hrun hkept hshows ⊢
      exact .bidding (he.trans hentered) hsender (ht.symm ▸ hrun) (Kept.congr hkept hh) hshows hR
        (Nat.le_trans hbalance hb)
  | placing hentered hsender hidle hrun hkept htakes hbalance =>
      rw [← ha] at hidle hrun htakes ⊢
      exact .placing (he.trans hentered) hsender hidle (ht.symm ▸ hrun) (Kept.congr hkept hh) htakes
        (Nat.le_trans hbalance hb)
  | settling hentered hidle hkept hbalance =>
      exact .settling (he.trans hentered) (ha.symm ▸ hidle) (Kept.congr hkept hh)
        (Nat.le_trans hbalance hb)
  | concluding hentered hkept hshows hunbid =>
      exact .concluding (he.trans hentered) (Kept.congr hkept hh) (ha.symm ▸ hshows) hunbid

theorem Clock.congr (h : Clock w) (ha : w'.house.auction = w.house.auction)
    (ht : w'.block.timestamp = w.block.timestamp) : Clock w' := by
  refine ⟨ht.symm ▸ h.begun, ?_⟩
  rw [ha, ht]
  exact h.expired

/-- Calm touches nothing the invariant looks at. -/
theorem HouseCalm.frame (h : HouseCalm l w w') : w'.house.auction = w.house.auction
    ∧ w'.house.entered = w.house.entered ∧ w.balance ≤ w'.balance ∧ w'.block = w.block
    ∧ w'.history = w.history := by
  cases h with
  | token | weth => exact ⟨rfl, rfl, Nat.le_refl _, rfl, rfl⟩
  | ether => exact ⟨rfl, rfl, Nat.le_add_right _ _, rfl, rfl⟩
  | house _ ht => exact ⟨ht.auction, ht.entered, Nat.le_refl _, rfl, rfl⟩

/-- Creating an auction where none is running, or none that was bid on. -/
theorem Creates.kept {view : View} (h : Creates env view w w') (hc : Clock w)
    (hk : Kept R w s) (hs : AuctionShows w.house.auction s) (hu : s.Unbid) :
    (∃ s', Kept R w' s' ∧ AuctionShows w'.house.auction s' ∧ s'.Unbid) ∧ Clock w'
      ∧ w'.house.entered = w.house.entered ∧ w'.balance = w.balance := by
  cases h with
  | @opened token nounId endTime hmint =>
      have hidle : ¬ Auction.Idle ⟨nounId, 0, w.block.timestamp, endTime, 0, false⟩ := by
        intro hidle
        rcases hidle with h | h
        · exact absurd h (Nat.ne_of_gt hc.begun)
        · exact Bool.false_ne_true h
      exact ⟨⟨_, hk.snoc (.created hu), .opened hidle rfl rfl, .opened⟩,
        ⟨hc.begun, fun h => absurd h hidle⟩, rfl, rfl⟩
  | halted => exact ⟨⟨s, hk, hs, hu⟩, ⟨hc.begun, hc.expired⟩, rfl, rfl⟩

theorem AuctionShows.idle_eq (h : AuctionShows w.house.auction s) (hi : w.house.auction.Idle) :
    s = .idle := by
  cases h with
  | idle => rfl
  | opened hn => exact absurd hi hn
  | standing hn => exact absurd hi hn

theorem unbid_debt (h : s.Unbid) : s.debt = 0 := by
  cases h with
  | idle | opened => rfl

theorem le_endAfter (hrun : w.block.timestamp < w.house.auction.endTime) :
    w.house.auction.endTime ≤ endAfter w.house.auction w
    ∧ w.block.timestamp + w.house.timeBuffer ≤ endAfter w.house.auction w := by
  unfold endAfter
  split
  · exact ⟨by omega, Nat.le_refl _⟩
  · exact ⟨Nat.le_refl _, by omega⟩

/-- `R` holds between the amounts of two bids, the second of which is placed in `x`. -/
def Outbids (R : Nat → Nat → Prop) (x : AuctionWorld) (l : AuctionLabel) : Prop :=
  ∀ sender nounId value, l = .enter ⟨sender, .createBid nounId value⟩ → BidChecked nounId value x →
    ¬ x.house.auction.Idle → x.house.auction.bidder ≠ 0 → R x.house.auction.amount value

/-- **An act keeps the invariant.** -/
theorem HouseAct.inv (ha : HouseAct env x l (p, w) (q, w')) (hR : Outbids R x.world l)
    (hi : HouseInv R p w) (hc : Clock w) : HouseInv R q w' ∧ Clock w' := by
  cases ha with
  | calm _ h =>
      obtain ⟨hauction, hentered, hbalance, hblock, hhistory⟩ := h.frame
      have htime := congrArg Block.timestamp hblock
      exact ⟨hi.congr hauction hentered hbalance htime hhistory, hc.congr hauction htime⟩
  | tick _ _ htime =>
      cases hi with
      | outside hentered hkept hshows hdebt =>
          exact ⟨.outside hentered hkept hshows hdebt, Nat.lt_of_lt_of_le hc.begun htime,
            fun h => Nat.le_trans (hc.expired h) htime⟩
  | reopened _ hw _ hidle h =>
      cases hi with
      | outside hentered hkept hshows hdebt =>
          -- nothing is on display, so nothing is owed
          obtain rfl := hshows.idle_eq hidle
          obtain ⟨⟨s', hkept', hshows', hunbid⟩, hclock', he, hb⟩ :=
            h.kept ⟨hc.begun, hc.expired⟩ hkept hshows .idle
          exact ⟨.outside (he.trans hentered) hkept' hshows' (by rw [unbid_debt hunbid]; exact Nat.zero_le _),
            hclock'⟩
      | concluding hentered hkept hshows hunbid =>
          obtain ⟨⟨s', hkept', hshows', hunbid'⟩, hclock', he, hb⟩ :=
            h.kept ⟨hc.begun, hc.expired⟩ hkept hshows hunbid
          exact ⟨.concluding (he.trans hentered) hkept' hshows' hunbid', hclock'⟩
      | bidding _ _ _ _ hshows => exact absurd (hshows.idle_eq hidle) (by simp)
      | placing _ _ hn => exact absurd hidle hn
      | settling => cases hw
  | checked hl hsender hcheck =>
      cases hi with
      | @outside _ s hentered hkept hshows hdebt =>
          have hrunning : ¬ x.world.house.auction.Idle := fun h =>
            absurd (hc.expired h) (Nat.not_le_of_lt hcheck.running)
          refine ⟨?_, hc.begun, hc.expired⟩
          -- the first bid has nobody to pay back; a later one has the bid on display
          cases hshows with
          | idle h => exact absurd h hrunning
          | opened _ hbidder hamount =>
              rw [if_pos hbidder]
              refine @HouseInv.placing R (atWork _ x.world) _ _ _ rfl hsender hrunning hcheck.running hkept ?_
                (Nat.le_add_left _ _)
              intro bid hid heq
              subst heq
              show Stage.Takes R bid (.opened x.world.house.auction.nounId _) _
              rw [← show bid.nounId = x.world.house.auction.nounId from hid]
              exact .first
          | @standing bid _ hbidder hid hb hamount =>
              rw [if_neg hbidder]
              have hdebt : bid.amount ≤ x.world.balance := hdebt
              refine @HouseInv.bidding R (atWork _ x.world) _ _ bid rfl hsender hcheck.running hkept
                (.standing hrunning hbidder hid hb hamount) ?_ ?_
              · rw [hamount]
                exact hR _ _ _ hl hcheck hrunning hbidder
              · show _ + bid.amount ≤ x.world.balance + _
                omega
  | @refunded _ sender value auction_ coin weth hle =>
      cases hi with
      | @bidding _ _ _ bid hentered hsender hrun hkept hshows hR' hbalance =>
          cases hshows with
          | standing hn hbidder hid hb hamount =>
              refine ⟨?_, hc.begun, hc.expired⟩
              -- what the refund takes from the balance is what the house owed the last bidder
              have hpaid := hkept.snoc (@Books.refunded R bid w.house.auction.endTime coin)
              rw [hb, hamount] at hpaid
              refine @HouseInv.placing R (withPayment _ _ _ _ w) _ _ _ hentered hsender hn hrun
                hpaid ?_ ?_
              · intro bid' hid' hvalue
                exact .next (hid.trans hid'.symm) (hvalue.symm ▸ hR')
              · show _ ≤ w.balance - w.house.auction.amount
                omega
  | @placed _ sender value auction_ =>
      cases hi with
      | placing hentered hsender hn hrun hkept htakes hbalance =>
          have hn' : ¬ Auction.Idle { w.house.auction with
              amount := value, bidder := sender, endTime := endAfter w.house.auction w } := hn
          have hend := le_endAfter hrun
          refine ⟨?_, hc.begun, fun h => absurd h hn'⟩
          exact @HouseInv.outside R (withBid sender value w.house.auction w) _ rfl
            (hkept.snoc (.accepted (htakes _ rfl rfl) hrun hend.1 hend.2))
            (.standing hn' hsender rfl rfl rfl) hbalance
  | @released sender view next token hdue _ hmove =>
      have hidle : Auction.Idle { x.world.house.auction with settled := true } := .inr rfl
      have hover : x.world.house.auction.endTime ≤ x.world.block.timestamp := hdue.expired
      have hrunning : ¬ x.world.house.auction.Idle := by
        intro h
        rcases h with h | h
        · exact hdue.begun h
        · exact Bool.false_ne_true (hdue.unsettled.symm.trans h)
      refine ⟨?_, hc.begun, fun _ => hover⟩
      cases hi with
      | @outside _ s hentered hkept hshows hdebt =>
          cases hshows with
          | idle h => exact absurd h hrunning
          | opened _ hbidder hamount =>
              rw [if_neg (by omega)]
              exact @HouseInv.concluding R (Proof.released token x.world) _ _ _ _ _ rfl
                (hkept.snoc (@Books.unsold R _ (settlementOf token x.world) hbidder hamount hover))
                (.idle hidle) .idle
          | @standing bid _ hbidder hid hb hamount =>
              -- the owner is only paid if there is something to pay
              have hsold := hkept.snoc (@Books.sold R bid x.world.house.auction.endTime
                (settlementOf token x.world)
                hid.symm hb.symm hamount.symm (by rw [hb]; exact hbidder) hover)
              have hbalance : x.world.house.auction.amount ≤ x.world.balance := hamount ▸ hdebt
              split
              · next hpos =>
                  rw [if_pos (show 0 < (settlementOf token x.world).amount from hpos)] at hsold
                  exact @HouseInv.settling R (Proof.released token x.world) _ _ _ _ rfl hidle hsold hbalance
              · next hzero =>
                  rw [if_neg (show ¬ 0 < (settlementOf token x.world).amount from hzero)] at hsold
                  exact @HouseInv.concluding R (Proof.released token x.world) _ _ _ _ _ rfl hsold
                    (.idle hidle) .idle
  | paid hle =>
      cases hi with
      | settling hentered hidle hkept hbalance =>
          exact ⟨.concluding hentered (hkept.snoc .paid) (.idle hidle) .idle, hc.begun, hc.expired⟩
  | rested =>
      cases hi with
      | concluding hentered hkept hshows hunbid =>
          exact ⟨.outside rfl hkept hshows (by rw [unbid_debt hunbid]; exact Nat.zero_le _),
            hc.begun, hc.expired⟩
  | renewed h =>
      cases hi with
      | concluding hentered hkept hshows hunbid =>
          obtain ⟨⟨s', hkept', hshows', hunbid'⟩, hclock', he, hb⟩ :=
            h.kept ⟨hc.begun, hc.expired⟩ hkept hshows hunbid
          exact ⟨.outside rfl hkept' hshows' (by rw [unbid_debt hunbid']; exact Nat.zero_le _),
            hclock'.begun, hclock'.expired⟩

/-! ## Along runs -/

/-- The configurations in which the house is in a phase and `I` holds of it. -/
structure Phased (R : Nat → Nat → Prop) (I : Phase → AuctionWorld → Prop) (p : Phase)
    (x : AuctionConfig) : Prop where
  waits : Waits p (houseFrames x.frames)
  inv : HouseInv R p x.world
  clock : Clock x.world
  more : I p x.world

theorem acts_keep {I : Phase → AuctionWorld → Prop} {u v : Phase × AuctionWorld}
    (ha : HouseActs env x l u v) (hR : Outbids R x.world l)
    (hact : ∀ p w q w', HouseAct env x l (p, w) (q, w') → HouseInv R p w → Clock w → I p w → I q w')
    (hi : HouseInv R u.1 u.2) (hc : Clock u.2) (h : I u.1 u.2) :
    HouseInv R v.1 v.2 ∧ Clock v.2 ∧ I v.1 v.2 := by
  induction ha with
  | refl => exact ⟨hi, hc, h⟩
  | tail _ ha ih =>
      obtain ⟨hi', hc', h'⟩ := ih
      obtain ⟨hi'', hc''⟩ := ha.inv hR hi' hc'
      exact ⟨hi'', hc'', hact _ _ _ _ ha hi' hc' h'⟩

/-- **The rule of the house.** What every act keeps, every step keeps. -/
theorem Phased.step {I : Phase → AuctionWorld → Prop} {y : AuctionConfig} (h : Phased R I p x)
    (hs : (auctionMachine env).Step x l y) (hR : Outbids R x.world l)
    (hact : ∀ p w q w', HouseAct env x l (p, w) (q, w') → HouseInv R p w → Clock w → I p w →
      I q w') : ∃ q, Phased R I q y ∧ HouseActs env x l (p, x.world) (q, y.world) := by
  obtain ⟨q, hw, ha⟩ := step_acts hs h.waits h.inv.coherent
  obtain ⟨hi, hc, h'⟩ := acts_keep ha hR hact h.inv h.clock h.more
  exact ⟨q, ⟨hw, hi, hc, h'⟩, ha⟩

theorem deployed_inv (d : AuctionDeployment env) : HouseInv R .outside d.world ∧ Clock d.world
    ∧ d.house.auction.Idle ∧ d.house.paused = true := by
  obtain ⟨sender, _, _, _, _, h⟩ := d.house_initialized
  simp only [NounsAuctionHouse.initialize_, NounsAuctionHouse.pause_, bind_ok] at h
  obtain ⟨_, _, house, ⟨_, _, hhouse⟩, h⟩ := h
  obtain rfl := Except.ok.inj hhouse
  have hidle : d.house.auction.Idle := by
    rw [← Except.ok.inj h]
    exact .inl rfl
  refine ⟨.outside ?_ .nil (.idle hidle) (Nat.zero_le _), ⟨d.timestamp_pos, ?_⟩, hidle, ?_⟩
  · show d.house.entered = false
    rw [← Except.ok.inj h]
    rfl
  · intro _
    show d.house.auction.endTime ≤ d.block.timestamp
    rw [← Except.ok.inj h]
    exact Nat.zero_le _
  · rw [← Except.ok.inj h]
    rfl

/-- The runs of the system in which every step meets `P`. -/
abbrev AuctionRuns (P : AuctionConfig → AuctionLabel → Prop) {env : AuctionEnv}
    (d : AuctionDeployment env) (x : AuctionConfig) : Prop :=
  (auctionMachine env).Runs P ⟨d.world, []⟩ x

/-- What every act keeps holds on along a run. -/
theorem Phased.runs {P : AuctionConfig → AuctionLabel → Prop} {I : Phase → AuctionWorld → Prop}
    {y : AuctionConfig} (h : Phased R I p x) (hr : (auctionMachine env).Runs P x y)
    (hP : ∀ x l, P x l → Outbids R x.world l)
    (hact : ∀ x l p w q w', P x l → HouseAct env x l (p, w) (q, w') → HouseInv R p w → Clock w →
      I p w → I q w') : ∃ q, Phased R I q y := by
  induction hr with
  | refl => exact ⟨p, h⟩
  | tail _ hs ih =>
      obtain ⟨q, h⟩ := ih
      obtain ⟨l, hl, hs⟩ := hs
      obtain ⟨q', hq, -⟩ := h.step hs (hP _ l hl) fun p w q w' => hact _ l p w q w' hl
      exact ⟨q', hq⟩

/-- **Every run keeps what every act keeps.** -/
theorem phased_runs {P : AuctionConfig → AuctionLabel → Prop} {I : Phase → AuctionWorld → Prop}
    (d : AuctionDeployment env) (hx : AuctionRuns P d x)
    (hP : ∀ x l, P x l → Outbids R x.world l) (hstart : I .outside d.world)
    (hact : ∀ x l p w q w', P x l → HouseAct env x l (p, w) (q, w') → HouseInv R p w → Clock w →
      I p w → I q w') : ∃ p, Phased R I p x := by
  obtain ⟨hi, hc, -⟩ := deployed_inv (R := R) d
  have h : Phased R I .outside ⟨d.world, []⟩ := ⟨.outside, hi, hc, hstart⟩
  exact h.runs hx hP hact

/-- Nothing more is asked. -/
theorem inv_runs {P : AuctionConfig → AuctionLabel → Prop} (d : AuctionDeployment env)
    (hx : AuctionRuns P d x) (hP : ∀ x l, P x l → Outbids R x.world l) :
    ∃ p, Phased R (fun _ _ => True) p x :=
  phased_runs d hx hP trivial fun _ _ _ _ _ _ _ _ _ _ _ => trivial

/-- Asking for something more from here on. -/
theorem Phased.with {I J : Phase → AuctionWorld → Prop} (h : Phased R I p x) (hj : J p x.world) :
    Phased R J p x := ⟨h.waits, h.inv, h.clock, hj⟩

/-- **The books are kept.** -/
theorem kept_runs {P : AuctionConfig → AuctionLabel → Prop} (d : AuctionDeployment env)
    (hx : AuctionRuns P d x) (hP : ∀ x l, P x l → Outbids R x.world l) : ∃ s, Kept R x.world s := by
  obtain ⟨p, -, hi, -, -⟩ := inv_runs d hx hP
  cases hi with
  | outside _ h | bidding _ _ _ h | placing _ _ _ _ h | settling _ _ h | concluding _ h => exact ⟨_, h⟩

/-- Account 4 is the house, and the minter of the token in `smallGenesis`. -/
def smallAuctionEnv : AuctionEnv := ⟨.ofNat 4, .ofNat 30, .ofNat 31⟩

/-- A house of account 1: a buffer of 10, steps of 5 %, and 100 for an auction. -/
def smallHouse : NounsAuctionHouse := { NounsAuctionHouse.blank with
  nouns := .ofNat 30
  weth := .ofNat 31
  timeBuffer := 10
  reservePrice := 1
  minBidIncrementPercentage := 5
  duration := 100
  owner := .ofNat 1
  paused := true
  initialized := true
  logs := [.ownershipTransferred 0 (.ofNat 1), .paused (.ofNat 1)] }

/-- That house beside a new token and an empty WETH. -/
def smallAuction : AuctionDeployment smallAuctionEnv where
  house := smallHouse
  token := smallGenesis.world.token
  weth := ⟨fun _ => 0, fun _ _ => 0, 0⟩
  balance := 0
  block := ⟨1, 1⟩
  timestamp_pos := by decide
  house_initialized := ⟨.ofNat 1, 10, 1, 5, 100, rfl⟩

/-- A call to the house. -/
def houseTx (sender : Nat) (call : AuctionCall) : AuctionTx := ⟨.ofNat sender, call⟩

theorem outbids_le : Outbids (· ≤ ·) w l := by
  intro sender nounId value _ h _ _
  exact Nat.le_trans (Nat.le_add_right _ _) h.increment

end Nouns.Proof
