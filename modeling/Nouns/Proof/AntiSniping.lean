import Nouns.Proof.HouseInvariant

/-!
# Anti-sniping

The end of an auction only moves away, to no less than the time buffer from each bid. What a
step accepts or settles is in time by the storage the step started in; that a later
settlement waits for the buffer of every earlier bid is read off the books.
-/

namespace Nouns.Proof

open Evm CallMachine EventLog

variable {R : Nat → Nat → Prop} {env : AuctionEnv} {x y : AuctionConfig} {l : AuctionLabel}
  {w w' w'' : AuctionWorld} {p q : Phase} {P : AuctionConfig → AuctionLabel → Prop}

/-! ## The end of an auction -/

/-- The same auction, ending no earlier. -/
structure Prolongs (a a' : Auction) : Prop where
  nounId : a'.nounId = a.nounId
  startTime : a'.startTime = a.startTime
  endTime : a.endTime ≤ a'.endTime

/-- From `w` to `w'` the auction is prolonged, unless a new one is created. -/
def Continues (w w' : AuctionWorld) : Prop :=
  ∃ es, w'.history = w.history ++ es ∧
    ((∀ d ∈ es, AuctionDeed.opens d = false) → Prolongs w.house.auction w'.house.auction)

theorem Continues.refl : Continues w w :=
  ⟨[], (List.append_nil _).symm, fun _ => ⟨rfl, rfl, Nat.le_refl _⟩⟩

theorem Continues.trans (h : Continues w w') (h' : Continues w' w'') : Continues w w'' := by
  obtain ⟨es, hes, hp⟩ := h
  obtain ⟨es', hes', hp'⟩ := h'
  refine ⟨es ++ es', by rw [hes', hes, List.append_assoc], fun hd => ?_⟩
  have h := hp fun d hd' => hd d (List.mem_append_left _ hd')
  have h' := hp' fun d hd' => hd d (List.mem_append_right _ hd')
  exact ⟨h'.nounId.trans h.nounId, h'.startTime.trans h.startTime, Nat.le_trans h.endTime h'.endTime⟩

/-- Nothing but the settled flag and the deeds of others. -/
theorem Continues.same {es : List AuctionDeed} (hh : w'.history = w.history ++ es)
    (hid : w'.house.auction.nounId = w.house.auction.nounId)
    (hstart : w'.house.auction.startTime = w.house.auction.startTime)
    (hend : w'.house.auction.endTime = w.house.auction.endTime) : Continues w w' :=
  ⟨es, hh, fun _ => ⟨hid, hstart, Nat.le_of_eq hend.symm⟩⟩

theorem Creates.continues {view : View} (h : Creates env view w w') : Continues w w' := by
  cases h with
  | opened => exact ⟨_, rfl, fun hd => absurd (hd _ List.mem_cons_self) (by simp [AuctionDeed.opens])⟩
  | halted => exact Continues.same (List.append_nil _).symm rfl rfl rfl

theorem HouseAct.continues (ha : HouseAct env x l (p, w) (q, w')) (hi : HouseInv R p w) :
    Continues w w' := by
  cases ha with
  | calm _ h =>
      obtain ⟨hauction, -, -, -, hhistory⟩ := h.frame
      exact .same (hhistory.trans (List.append_nil _).symm) (by rw [hauction]) (by rw [hauction])
        (by rw [hauction])
  | tick => exact .same (List.append_nil _).symm rfl rfl rfl
  | reopened _ _ _ _ h =>
      obtain ⟨es, hes, hp⟩ := h.continues
      exact ⟨es, hes, hp⟩
  | checked => exact .same (List.append_nil _).symm rfl rfl rfl
  | refunded => exact .same rfl rfl rfl rfl
  | @placed _ sender value auction_ =>
      cases hi with
      | placing _ _ _ hrun => exact ⟨_, rfl, fun _ => ⟨rfl, rfl, (le_endAfter hrun).1⟩⟩
  | released => exact .same rfl rfl rfl rfl
  | paid => exact .same rfl rfl rfl rfl
  | rested => exact .same (List.append_nil _).symm rfl rfl rfl
  | renewed h =>
      obtain ⟨es, hes, hp⟩ := h.continues
      exact ⟨es, hes, hp⟩

/-- **The end never comes nearer.** -/
theorem run_continues {d : AuctionDeployment env} (hx : AuctionRuns P d x)
    (hr : (auctionMachine env).Runs P x y) : Continues x.world y.world := by
  obtain ⟨p, h⟩ := inv_runs (R := (· ≤ ·)) d hx fun _ _ _ => outbids_le
  have hstart : Phased (· ≤ ·) (fun _ w => Continues x.world w) p x := h.with .refl
  obtain ⟨q, hq⟩ := hstart.runs hr (fun _ _ _ => outbids_le)
    fun _ _ _ _ _ _ _ ha hi _ hc => hc.trans (ha.continues hi)
  exact hq.more

/-! ## What a step accepts and settles -/

/-- A bid for the auction that is running, before its end. -/
structure InTime (bid : AcceptedBid) (w : AuctionWorld) : Prop where
  nounId : bid.nounId = w.house.auction.nounId
  time : bid.time = w.block.timestamp
  timeBuffer : bid.timeBuffer = w.house.timeBuffer
  running : ¬ w.house.auction.Idle
  before : w.block.timestamp < w.house.auction.endTime

/-- The settlement of the auction that is running, after its end. -/
structure Ended (settlement : Settlement) (w : AuctionWorld) : Prop where
  nounId : settlement.nounId = w.house.auction.nounId
  bidder : settlement.bidder = w.house.auction.bidder
  amount : settlement.amount = w.house.auction.amount
  payee : settlement.payee = w.house.owner
  time : settlement.time = w.block.timestamp
  running : ¬ w.house.auction.Idle
  expired : w.house.auction.endTime ≤ w.block.timestamp

/-- A bid is on its way. -/
inductive Bids : Phase → Prop where
  | bidding {sender : Address} {value : Nat} {auction_ : Auction} :
      Bids (.bidding sender value auction_)
  | placing {sender : Address} {value : Nat} {auction_ : Auction} :
      Bids (.placing sender value auction_)

/-- The house goes by the same auction, time and buffer. -/
structure Steady (w w' : AuctionWorld) : Prop where
  block : w'.block = w.block
  auction : w'.house.auction = w.house.auction
  timeBuffer : w'.house.timeBuffer = w.house.timeBuffer

/-- What a step from `x` has done so far. -/
structure Adds (x : AuctionConfig) (l : AuctionLabel) (p : Phase) (w : AuctionWorld) : Prop where
  added : ∃ es, w.history = x.world.history ++ es ∧
    (∀ bid, AuctionDeed.accepted bid ∈ es → InTime bid x.world) ∧
    ∀ settlement, AuctionDeed.settled settlement ∈ es → Ended settlement x.world
  steady : Bids p → placesBid l = true → Steady x.world w

theorem Adds.start : Adds x l p x.world :=
  ⟨⟨[], (List.append_nil _).symm, fun _ h => absurd h List.not_mem_nil,
    fun _ h => absurd h List.not_mem_nil⟩, fun _ _ => ⟨rfl, rfl, rfl⟩⟩

/-- Deeds that neither accept nor settle. -/
theorem Adds.more {es : List AuctionDeed} (h : Adds x l p w) (hh : w'.history = w.history ++ es)
    (hbid : ∀ bid, AuctionDeed.accepted bid ∈ es → InTime bid x.world)
    (hsettled : ∀ settlement, AuctionDeed.settled settlement ∈ es → Ended settlement x.world)
    (hs : Bids q → placesBid l = true → Steady x.world w') : Adds x l q w' := by
  obtain ⟨es₀, hes, hb, hd⟩ := h.added
  refine ⟨⟨es₀ ++ es, by rw [hh, hes, List.append_assoc], fun bid hm => ?_, fun s hm => ?_⟩, hs⟩
  · rcases List.mem_append.mp hm with hm | hm
    · exact hb bid hm
    · exact hbid bid hm
  · rcases List.mem_append.mp hm with hm | hm
    · exact hd s hm
    · exact hsettled s hm

/-- No deed at all. -/
theorem Adds.quiet (h : Adds x l p w) (hh : w'.history = w.history)
    (hs : Bids q → placesBid l = true → Steady x.world w') : Adds x l q w' :=
  h.more (hh.trans (List.append_nil _).symm) (fun _ h => absurd h List.not_mem_nil)
    (fun _ h => absurd h List.not_mem_nil) hs

theorem Creates.adds {view : View} (h : Creates env view w w') (hw : Adds x l p w) (hq : ¬ Bids q) :
    Adds x l q w' := by
  cases h with
  | opened => exact hw.more rfl (by simp) (by simp) fun hb => absurd hb hq
  | halted => exact hw.quiet rfl fun hb => absurd hb hq

/-- A step that may place a bid changes no settings. -/
theorem tunes_of_placesBid (h : placesBid l = true) : ¬ tunes l = true := by
  cases l with
  | enter tx =>
      obtain ⟨sender, c⟩ := tx
      cases c with
      | createBid => exact Bool.false_ne_true
      | _ => exact absurd h Bool.false_ne_true
  | resume => exact Bool.false_ne_true
  | tick => exact Bool.false_ne_true

theorem HouseAct.adds (ha : HouseAct env x l (p, w) (q, w')) (hi : HouseInv R p w) (hc : Clock w)
    (hw : Adds x l p w) : Adds x l q w' := by
  have houtside : ¬ Bids .outside := fun h => by cases h
  cases ha with
  | calm _ h =>
      refine hw.quiet h.frame.2.2.2.2 ?_
      intro hb hl
      obtain ⟨hblock, hauction, hbuffer⟩ := hw.steady hb hl
      cases h with
      | token | weth | ether => exact ⟨hblock, hauction, hbuffer⟩
      | house ht => exact absurd ht (tunes_of_placesBid hl)
  | tick => exact hw.quiet rfl fun hb => absurd hb houtside
  | reopened _ hwaits _ hidle h =>
      -- a house that can be reopened is not in the middle of a bid
      have hno : ¬ Bids p := by
        intro hb
        cases hb with
        | bidding => cases hwaits
        | placing =>
            cases hi with
            | placing _ _ hn => exact hn hidle
      exact h.adds (hw.quiet rfl fun hb => absurd hb hno) hno
  | checked => exact hw.quiet rfl fun _ _ => ⟨rfl, rfl, rfl⟩
  | refunded =>
      refine hw.more rfl (by simp) (by simp) ?_
      intro _ hl
      obtain ⟨hblock, hauction, hbuffer⟩ := hw.steady .bidding hl
      exact ⟨hblock, hauction, hbuffer⟩
  | @placed _ sender value auction_ hl =>
      -- nothing the bid depends on has changed while the last bidder was paid
      obtain ⟨hblock, hauction, hbuffer⟩ := hw.steady .placing hl
      cases hi with
      | placing _ _ hn hrun =>
          refine hw.more rfl ?_ (by simp) fun hb => absurd hb houtside
          intro bid hm
          obtain rfl := AuctionDeed.accepted.inj (List.mem_singleton.mp hm)
          rw [hauction] at hn hrun
          rw [hblock] at hrun
          exact ⟨by rw [hauction], by rw [hblock], hbuffer, hn, hrun⟩
  | released hdue =>
      have hrunning : ¬ x.world.house.auction.Idle := by
        intro h
        rcases h with h | h
        · exact hdue.begun h
        · exact Bool.false_ne_true (hdue.unsettled.symm.trans h)
      refine hw.more rfl (by simp) ?_ ?_
      · intro s hm
        obtain rfl := AuctionDeed.settled.inj (List.mem_singleton.mp hm)
        exact ⟨rfl, rfl, rfl, rfl, rfl, hrunning, hdue.expired⟩
      · intro hb
        split at hb <;> cases hb
  | paid => exact hw.more rfl (by simp) (by simp) fun hb => by cases hb
  | rested => exact hw.quiet rfl fun hb => absurd hb houtside
  | renewed h =>
      have h := h.adds (hw.quiet rfl fun hb => absurd hb houtside) houtside
      exact h.quiet rfl fun hb => absurd hb houtside

/-- A step that follows a run. -/
theorem step_adds {d : AuctionDeployment env} (hx : AuctionRuns P d x)
    (hs : (auctionMachine env).Step x l y) : ∃ p, Adds x l p y.world := by
  obtain ⟨p, h⟩ := inv_runs (R := (· ≤ ·)) d hx fun _ _ _ => outbids_le
  have hstart : Phased (· ≤ ·) (Adds x l) p x := h.with .start
  obtain ⟨q, hq, -⟩ := hstart.step hs outbids_le fun _ _ _ _ ha hi hc hw => ha.adds hi hc hw
  exact ⟨q, hq.more⟩

/--
**Anti-sniping.** In every run the end of the current auction never comes nearer. A step
accepts a bid only before that end and while the auction is not settled, and settles only
after it. No auction is settled before `time + timeBuffer` of any bid accepted in it, none
takes a bid once settled, and the winner's bid was the last.
-/
theorem anti_sniping {env : AuctionEnv} (d : AuctionDeployment env) (x : AuctionConfig)
    (hx : AuctionRuns Free d x) :
    (∀ (y : AuctionConfig) (h : List AuctionDeed), (auctionMachine env).Runs Free x y →
        y.world.history = x.world.history ++ h →
        (∀ e ∈ h, AuctionDeed.opens e = false) → Prolongs x.world.house.auction y.world.house.auction)
      ∧ (∀ l y, (auctionMachine env).Step x l y → ∃ h, y.world.history = x.world.history ++ h
        ∧ (∀ bid, AuctionDeed.accepted bid ∈ h → InTime bid x.world)
        ∧ ∀ settlement, AuctionDeed.settled settlement ∈ h → Ended settlement x.world)
      ∧ (∀ (pre mid post : List AuctionDeed) (bid : AcceptedBid) (settlement : Settlement),
        x.world.history = pre ++ .accepted bid :: (mid ++ .settled settlement :: post) →
        (∀ e ∈ mid, AuctionDeed.opens e = false) →
        settlement.nounId = bid.nounId ∧ bid.time + bid.timeBuffer ≤ settlement.time)
      ∧ (∀ (pre mid post : List AuctionDeed) (settlement : Settlement) (bid : AcceptedBid),
        x.world.history = pre ++ .settled settlement :: (mid ++ .accepted bid :: post) →
        ∃ e ∈ mid, AuctionDeed.opens e = true)
      ∧ ∀ (pre post : List AuctionDeed) (settlement : Settlement),
        x.world.history = pre ++ .settled settlement :: post →
        settlement.bidder ≠ 0 → ∃ pre' bid, pre = pre' ++ [.accepted bid]
          ∧ bid.nounId = settlement.nounId ∧ bid.bidder = settlement.bidder
          ∧ bid.amount = settlement.amount ∧ bid.time + bid.timeBuffer ≤ settlement.time := by
  obtain ⟨s, hkept⟩ := kept_runs (R := (· ≤ ·)) d hx fun _ _ _ => outbids_le
  refine ⟨?_, ?_, ?_, ?_, ?_⟩
  · intro y h hr hh hno
    obtain ⟨es, hes, hp⟩ := run_continues hx hr
    exact hp (List.append_cancel_left (hes.symm.trans hh) ▸ hno)
  · intro l y hs
    obtain ⟨p, hadds⟩ := step_adds hx hs
    exact hadds.added
  · intro pre mid post bid settlement hh hmid
    exact settled_after (hkept.of_eq hh) hmid
  · intro pre mid post settlement bid hh
    exact no_bid_after (hkept.of_eq hh)
  · -- the winner is the last bidder, by the books of the history
    intro pre post settlement hh hbidder
    exact winner_last (hkept.of_eq hh) hbidder

/-- Account 7 bids at 50, account 8 at 95; the auction that was to end at 101 ends at 105. -/
def lateBid : List (Machine.Move AuctionTx Block) :=
  [.enter (houseTx 1 (.unpause smallView)), .tick ⟨2, 50⟩, .enter (houseTx 7 (.createBid 1 100)),
    .tick ⟨3, 95⟩, .enter (houseTx 8 (.createBid 1 200)) 1, .tick ⟨4, 105⟩,
    .enter (houseTx 9 (.settleCurrentAndCreateNewAuction smallView smallView)), .resume]

/-- The bid of account 8 stood from 95 to 105. -/
theorem anti_sniping_late : ∃ x, AuctionRuns Free smallAuction x
    ∧ x.world.history = [.created 1, .accepted ⟨1, .ofNat 7, 100, 50, 10⟩,
      .paid (.ofNat 7) 100 .weth, .accepted ⟨1, .ofNat 8, 200, 95, 10⟩,
      .settled ⟨1, .ofNat 8, 200, .ofNat 1, .ofNat 4, .ofNat 8, 105⟩,
      .paid (.ofNat 1) 200 .ether, .created 2]
    ∧ ∃ bid, AuctionDeed.accepted bid ∈ x.world.history ∧ bid.bidder = .ofNat 8
      ∧ bid.time + bid.timeBuffer ≤ 105 := by
  obtain ⟨x, hx, hp⟩ := Machine.script_exists (M := auctionMachine smallAuctionEnv)
    Machine.anything_free (x := ⟨smallAuction.world, []⟩) (m := lateBid)
    (p := fun x => x.world.history = [.created 1, .accepted ⟨1, .ofNat 7, 100, 50, 10⟩,
      .paid (.ofNat 7) 100 .weth, .accepted ⟨1, .ofNat 8, 200, 95, 10⟩,
      .settled ⟨1, .ofNat 8, 200, .ofNat 1, .ofNat 4, .ofNat 8, 105⟩,
      .paid (.ofNat 1) 200 .ether, .created 2]) (by decide +kernel)
  have hh := of_decide_eq_true hp
  refine ⟨x, hx, hh, ?_⟩
  obtain ⟨-, -, -, -, hwinner⟩ := anti_sniping smallAuction x hx
  obtain ⟨pre', bid, hpre, -, hbidder, -, hstood⟩ := hwinner
    [.created 1, .accepted ⟨1, .ofNat 7, 100, 50, 10⟩, .paid (.ofNat 7) 100 .weth,
      .accepted ⟨1, .ofNat 8, 200, 95, 10⟩] _ _ hh (by decide)
  refine ⟨bid, ?_, hbidder, hstood⟩
  have hmem : AuctionDeed.accepted bid ∈ pre' ++ [.accepted bid] :=
    List.mem_append_right _ List.mem_cons_self
  rw [hh]
  exact List.mem_append_left [_, _, _] (hpre.symm ▸ hmem)

end Nouns.Proof
