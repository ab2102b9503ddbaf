import Mathlib.Algebra.GroupWithZero.Nat
import Nouns.Auction.System
import Nouns.Lib.EventLog

/-!
# The books of the auction house

What the house may do, one deed after the other. `Stage` says where it stands, `Books` what
may come next: a bid is paid back before the next one is accepted, a sale is paid for right
after the settlement, and no auction is settled before its end. A bid replaces another
only if their amounts are related by `R`.
-/

namespace Nouns.Proof

open Evm EventLog

/-- Where the house stands. An auction is known by its Noun and its present end. -/
inductive Stage where
  | idle
  | opened (nounId endTime : Nat)
  | standing (bid : AcceptedBid) (endTime : Nat)
  /-- The standing bid has been paid back, the next one is not yet accepted. -/
  | refunded (bid : AcceptedBid) (endTime : Nat)
  | owed (dst : Address) (amount : Nat)

namespace Stage

/-- The house has money that is not its own. -/
def debt : Stage → Nat
  | standing bid _ => bid.amount
  | owed _ amount => amount
  | _ => 0

/-- Nobody has bid. -/
inductive Unbid : Stage → Prop where
  | idle : Unbid .idle
  | opened {nounId endTime : Nat} : Unbid (.opened nounId endTime)

/-- The auction a bid is accepted in. -/
inductive Takes (R : Nat → Nat → Prop) (bid : AcceptedBid) : Stage → Nat → Prop where
  | first {endTime : Nat} : Takes R bid (.opened bid.nounId endTime) endTime
  | next {last : AcceptedBid} {endTime : Nat} :
      last.nounId = bid.nounId → R last.amount bid.amount → Takes R bid (.refunded last endTime) endTime

end Stage

open Stage

variable {R : Nat → Nat → Prop}

variable (R) in
/-- What may be done, and where the house stands then. -/
inductive Books : Stage → AuctionDeed → Stage → Prop where
  | created {s : Stage} {nounId endTime : Nat} :
      Unbid s → Books s (.created nounId) (.opened nounId endTime)
  | accepted {s : Stage} {bid : AcceptedBid} {endTime endTime' : Nat} :
      Takes R bid s endTime → bid.time < endTime → endTime ≤ endTime' →
      bid.time + bid.timeBuffer ≤ endTime' → Books s (.accepted bid) (.standing bid endTime')
  | refunded {bid : AcceptedBid} {endTime : Nat} {coin : Coin} :
      Books (.standing bid endTime) (.paid bid.bidder bid.amount coin) (.refunded bid endTime)
  | unsold {endTime : Nat} {settlement : Settlement} :
      settlement.bidder = 0 → settlement.amount = 0 → endTime ≤ settlement.time →
      Books (.opened settlement.nounId endTime) (.settled settlement) .idle
  | sold {bid : AcceptedBid} {endTime : Nat} {settlement : Settlement} :
      settlement.nounId = bid.nounId → settlement.bidder = bid.bidder →
      settlement.amount = bid.amount → bid.bidder ≠ 0 → endTime ≤ settlement.time →
      Books (.standing bid endTime) (.settled settlement)
        (if 0 < settlement.amount then .owed settlement.payee settlement.amount else .idle)
  | paid {dst : Address} {amount : Nat} {coin : Coin} :
      Books (.owed dst amount) (.paid dst amount coin) .idle

variable {s s' : Stage} {pre mid post h : List AuctionDeed} {d : AuctionDeed}
  {bid bid' : AcceptedBid} {settlement : Settlement}

/-! ## Money -/

/-- What is bid. -/
def takenBy : AuctionDeed → Nat
  | .accepted bid => bid.amount
  | _ => 0

/-- What is paid. -/
def givenBy : AuctionDeed → Nat
  | .paid _ amount _ => amount
  | _ => 0

/-- The total of all accepted bids. -/
def acceptedTotal (h : List AuctionDeed) : Nat := (h.map takenBy).sum

/-- The total of all payments. -/
def paidTotal (h : List AuctionDeed) : Nat := (h.map givenBy).sum

theorem Books.conserves (hb : Books R s d s') : s.debt + takenBy d = givenBy d + s'.debt := by
  cases hb with
  | created hs => cases hs <;> rfl
  | accepted ht => cases ht <;> simp [debt, takenBy, givenBy]
  | refunded => simp [debt, takenBy, givenBy]
  | unsold => rfl
  | @sold bid endTime settlement _ _ hamount =>
      split
      · simp [debt, takenBy, givenBy, hamount]
      · simp [debt, takenBy, givenBy]
        omega
  | paid => simp [debt, takenBy, givenBy]

/-- **What is taken is given or still owed.** -/
theorem totals (hr : Replays (Books R) s h s') :
    s.debt + acceptedTotal h = paidTotal h + s'.debt := by
  induction hr with
  | nil => simp [acceptedTotal, paidTotal]
  | cons hb _ ih =>
      have hd := hb.conserves
      simp only [acceptedTotal, paidTotal, List.map_cons, List.sum_cons] at ih ⊢
      omega

/-! ## What follows what -/

/-- Whether a deed opens an auction. -/
def AuctionDeed.opens : AuctionDeed → Bool
  | .created _ => true
  | _ => false

/-- A standing bid is the last deed. -/
theorem standing_last {endTime : Nat} (hr : Replays (Books R) .idle h (.standing bid endTime)) :
    ∃ h', h = h' ++ [.accepted bid] ∧ bid.time + bid.timeBuffer ≤ endTime := by
  rcases hr.last with ⟨-, hs⟩ | ⟨h', d, s₁, rfl, -, hb⟩
  · cases hs
  · generalize hs : Stage.standing bid endTime = s₂ at hb
    cases hb with
    | accepted _ _ _ hbuffer =>
        cases hs
        exact ⟨h', rfl, hbuffer⟩
    | sold => split at hs <;> cases hs
    | created | refunded | unsold | paid => cases hs

/-- An auction nobody bid in was just opened. -/
theorem opened_last {nounId endTime : Nat} (hr : Replays (Books R) .idle h (.opened nounId endTime)) :
    ∃ h', h = h' ++ [.created nounId] := by
  rcases hr.last with ⟨-, hs⟩ | ⟨h', d, s₁, rfl, -, hb⟩
  · cases hs
  · generalize hs : Stage.opened nounId endTime = s₂ at hb
    cases hb with
    | created =>
        cases hs
        exact ⟨h', rfl⟩
    | sold => split at hs <;> cases hs
    | accepted | refunded | unsold | paid => cases hs

/-- What is owed is owed for the last deed. -/
theorem owed_last {dst : Address} {amount : Nat} (hr : Replays (Books R) .idle h (.owed dst amount)) :
    ∃ h' settlement, h = h' ++ [.settled settlement] ∧ settlement.payee = dst
      ∧ settlement.amount = amount := by
  rcases hr.last with ⟨-, hs⟩ | ⟨h', d, s₁, rfl, -, hb⟩
  · cases hs
  · generalize hs : Stage.owed dst amount = s₂ at hb
    cases hb with
    | sold =>
        split at hs
        · cases hs
          exact ⟨h', _, rfl, rfl, rfl⟩
        · cases hs
    | created | accepted | refunded | unsold | paid => cases hs

/-- Nothing is half done. -/
inductive Settled : Stage → Prop where
  | idle : Settled .idle
  | opened {nounId endTime : Nat} : Settled (.opened nounId endTime)
  | standing {bid : AcceptedBid} {endTime : Nat} : Settled (.standing bid endTime)

/-- **A sale is paid for at once.** -/
theorem payout_next (hr : Replays (Books R) s (pre ++ .settled settlement :: post) s')
    (hs' : Settled s') (hamount : 0 < settlement.amount) :
    ∃ coin rest, post = .paid settlement.payee settlement.amount coin :: rest := by
  obtain ⟨s₁, s₂, -, hb, hpost⟩ := hr.at_event
  cases hb with
  | unsold _ hzero => omega
  | sold =>
      rw [if_pos hamount] at hpost
      cases hpost with
      | nil => cases hs'
      | cons hb =>
          cases hb with
          | created hs => cases hs
          | accepted ht => cases ht
          | paid => exact ⟨_, _, rfl⟩

/-- **No other payment.** What is paid pays a bid back right before the next one, or pays for a sale. -/
theorem paid_because {dst : Address} {amount : Nat} {coin : Coin}
    (hr : Replays (Books R) .idle (pre ++ .paid dst amount coin :: post) s') (hs' : Settled s') :
    (∃ pre' bid bid' post', pre = pre' ++ [.accepted bid] ∧ bid.bidder = dst ∧ bid.amount = amount
        ∧ post = .accepted bid' :: post' ∧ bid'.nounId = bid.nounId)
      ∨ ∃ pre' settlement, pre = pre' ++ [.settled settlement] ∧ settlement.payee = dst
        ∧ settlement.amount = amount := by
  obtain ⟨s₁, s₂, hpre, hb, hpost⟩ := hr.at_event
  clear hr
  cases hb with
  | @refunded bid endTime =>
      obtain ⟨pre', rfl, -⟩ := standing_last hpre
      cases hpost with
      | nil => cases hs'
      | cons hb =>
          cases hb with
          | created hs => cases hs
          | accepted ht =>
              cases ht with
              | next hid _ => exact .inl ⟨pre', bid, _, _, rfl, rfl, rfl, rfl, hid.symm⟩
  | paid =>
      obtain ⟨pre', settlement, rfl, hpayee, hamount⟩ := owed_last hpre
      exact .inr ⟨pre', settlement, rfl, hpayee, hamount⟩

/-! ## The rest of an auction -/

/-- The last bid and the end of the auction are as `Q` says, unless the auction is over. -/
inductive Ongoing (Q : AcceptedBid → Nat → Prop) : Stage → Prop where
  | standing {last : AcceptedBid} {endTime : Nat} : Q last endTime → Ongoing Q (.standing last endTime)
  | refunded {last : AcceptedBid} {endTime : Nat} : Q last endTime → Ongoing Q (.refunded last endTime)
  | owed {dst : Address} {amount : Nat} : Ongoing Q (.owed dst amount)
  | idle : Ongoing Q .idle

variable {Q : AcceptedBid → Nat → Prop}

variable (R Q) in
/-- A later bid keeps what is known of the last one. -/
def Carries : Prop := ∀ (last bid : AcceptedBid) (endTime endTime' : Nat), Q last endTime →
  last.nounId = bid.nounId → R last.amount bid.amount → endTime ≤ endTime' → Q bid endTime'

theorem Books.ongoing (hQ : Carries R Q) (hb : Books R s d s') (hd : AuctionDeed.opens d = false)
    (h : Ongoing Q s) : Ongoing Q s' := by
  cases hb with
  | created => exact absurd hd (by simp [AuctionDeed.opens])
  | accepted ht _ hle =>
      cases ht with
      | first => cases h
      | next hid hR =>
          cases h with
          | refunded hq => exact .standing (hQ _ _ _ _ hq hid hR hle)
  | refunded =>
      cases h with
      | standing hq => exact .refunded hq
  | unsold => cases h
  | sold =>
      split
      · exact .owed
      · exact .idle
  | paid => exact .idle

theorem ongoing_run (hQ : Carries R Q) (hr : Replays (Books R) s h s')
    (hd : ∀ d ∈ h, AuctionDeed.opens d = false) (hs : Ongoing Q s) : Ongoing Q s' := by
  induction hr with
  | nil => exact hs
  | cons hb _ ih =>
      exact ih (fun d hd' => hd d (List.mem_cons_of_mem _ hd'))
        (hb.ongoing hQ (hd _ List.mem_cons_self) hs)

/-- From a bid on, to the settlement of its auction. -/
theorem ongoing_settled (hQ : Carries R Q)
    (hbid : ∀ endTime, bid.time + bid.timeBuffer ≤ endTime → Q bid endTime)
    (hr : Replays (Books R) s (pre ++ .accepted bid :: (mid ++ .settled settlement :: post)) s')
    (hmid : ∀ d ∈ mid, AuctionDeed.opens d = false) :
    ∃ last endTime, Q last endTime ∧ settlement.nounId = last.nounId ∧ settlement.bidder = last.bidder
      ∧ settlement.amount = last.amount ∧ endTime ≤ settlement.time := by
  obtain ⟨s₁, s₂, -, hb, hrest⟩ := hr.at_event
  obtain ⟨s₃, s₄, hmid', hb', -⟩ := hrest.at_event
  have hstart : Ongoing Q s₂ := by
    cases hb with
    | accepted _ _ _ hbuffer => exact .standing (hbid _ hbuffer)
  have hend := ongoing_run hQ hmid' hmid hstart
  cases hb' with
  | unsold => cases hend
  | sold hid hbidder hamount _ htime =>
      cases hend with
      | standing hq => exact ⟨_, _, hq, hid, hbidder, hamount, htime⟩

/-- **No settlement before the buffer has run out**, whatever other bids come after. -/
theorem settled_after (hr : Replays (Books R) s
      (pre ++ .accepted bid :: (mid ++ .settled settlement :: post)) s')
    (hmid : ∀ d ∈ mid, AuctionDeed.opens d = false) :
    settlement.nounId = bid.nounId ∧ bid.time + bid.timeBuffer ≤ settlement.time := by
  have hQ : Carries R fun last endTime => last.nounId = bid.nounId
      ∧ bid.time + bid.timeBuffer ≤ endTime := fun last bid' _ _ hq hid _ hle =>
    ⟨hid.symm.trans hq.1, Nat.le_trans hq.2 hle⟩
  obtain ⟨last, endTime, ⟨hlast, hend⟩, hid, -, -, htime⟩ :=
    ongoing_settled hQ (fun _ h => ⟨rfl, h⟩) hr hmid
  exact ⟨hid.trans hlast, Nat.le_trans hend htime⟩

/-- **No bid after a settlement**, before another auction is opened. -/
theorem no_bid_after (hr : Replays (Books R) s
      (pre ++ .settled settlement :: (mid ++ .accepted bid :: post)) s') :
    ∃ d ∈ mid, AuctionDeed.opens d = true := by
  by_contra hno
  have hmid : ∀ d ∈ mid, AuctionDeed.opens d = false := fun d hd =>
    Bool.eq_false_iff.mpr fun h => hno ⟨d, hd, h⟩
  obtain ⟨s₁, s₂, -, hb, hrest⟩ := hr.at_event
  obtain ⟨s₃, s₄, hmid', hb', -⟩ := hrest.at_event
  -- nothing is known to be impossible of the last bid: there is none
  have hstart : Ongoing (fun _ _ => False) s₂ := by
    cases hb with
    | unsold => exact .idle
    | sold =>
        split
        · exact .owed
        · exact .idle
  have hend := ongoing_run (fun _ _ _ _ h => h.elim) hmid' hmid hstart
  cases hb' with
  | accepted ht =>
      cases ht with
      | first => cases hend
      | next =>
          cases hend with
          | refunded h => exact h

/-- Whether a deed accepts a bid. -/
def AuctionDeed.accepts : AuctionDeed → Bool
  | .accepted _ => true
  | _ => false

/-- **A refund between two bids**: the outbid bidder is paid back once, and nothing else happens. -/
theorem refund_between (hr : Replays (Books R) s (pre ++ .accepted bid :: (mid ++ .accepted bid' :: post)) s')
    (hmid : ∀ d ∈ mid, AuctionDeed.opens d = false ∧ AuctionDeed.accepts d = false) :
    (∃ coin, mid = [.paid bid.bidder bid.amount coin]) ∧ bid.nounId = bid'.nounId
      ∧ R bid.amount bid'.amount := by
  obtain ⟨s₁, s₂, -, hb, hpost⟩ := hr.at_event
  cases hb with
  | accepted =>
      cases mid with
      | nil =>
          cases hpost with
          | cons hb =>
              cases hb with
              | accepted ht => cases ht
      | cons d mid =>
          have hrest : ∀ d ∈ mid, AuctionDeed.opens d = false ∧ AuctionDeed.accepts d = false :=
            fun d hd => hmid d (List.mem_cons_of_mem _ hd)
          have hall : Replays (Books R) _ ([] ++ d :: (mid ++ .accepted bid' :: post)) s' := hpost
          cases hpost with
          | cons hb hr' =>
              cases hb with
              | created hs => cases hs
              | accepted ht => cases ht
              | refunded =>
                  cases mid with
                  | nil =>
                      cases hr' with
                      | cons hb =>
                          cases hb with
                          | accepted ht =>
                              cases ht with
                              | next hid hR => exact ⟨⟨_, rfl⟩, hid, hR⟩
                  | cons d mid =>
                      cases hr' with
                      | cons hb =>
                          cases hb with
                          | created hs => cases hs
                          | accepted =>
                              exact absurd (hrest _ List.mem_cons_self).2 (by simp [AuctionDeed.accepts])
              | sold =>
                  -- the auction is over, and takes no second bid
                  obtain ⟨d, hd, hopens⟩ := no_bid_after hall
                  exact absurd ((hrest d hd).1.symm.trans hopens) Bool.false_ne_true

/-- What is known of a later bid, where every bid beats the one before. -/
theorem carries_above : Carries (· < ·) fun last _ => last = bid ∨ bid.amount < last.amount := by
  intro last bid' _ _ hq _ hlt _
  rcases hq with rfl | hq
  · exact .inr hlt
  · exact .inr (Nat.lt_trans hq hlt)

/-- **Only the winner bid the final amount**, where every bid beats the one before. -/
theorem winner_only (hr : Replays (Books (· < ·)) s
      (pre ++ .accepted bid :: (mid ++ .settled settlement :: post)) s')
    (hmid : ∀ d ∈ mid, AuctionDeed.opens d = false) :
    bid.amount ≤ settlement.amount ∧ (bid.amount = settlement.amount → bid.bidder = settlement.bidder) := by
  obtain ⟨last, endTime, hlast, -, hbidder, hamount, -⟩ :=
    ongoing_settled carries_above (fun _ _ => .inl rfl) hr hmid
  rcases hlast with rfl | hlt
  · exact ⟨Nat.le_of_eq hamount.symm, fun _ => hbidder.symm⟩
  · exact ⟨by omega, fun h => by omega⟩

/-- **Later bids are higher**, where every bid beats the one before. -/
theorem later_higher (hr : Replays (Books (· < ·)) s
      (pre ++ .accepted bid :: (mid ++ .accepted bid' :: post)) s')
    (hmid : ∀ d ∈ mid, AuctionDeed.opens d = false) : bid.amount < bid'.amount := by
  obtain ⟨s₁, s₂, -, hb, hrest⟩ := hr.at_event
  obtain ⟨s₃, s₄, hmid', hb', -⟩ := hrest.at_event
  have hstart : Ongoing (fun last _ => last = bid ∨ bid.amount < last.amount) s₂ := by
    cases hb with
    | accepted => exact .standing (.inl rfl)
  have hend := ongoing_run carries_above hmid' hmid hstart
  cases hb' with
  | accepted ht =>
      cases ht with
      | first => cases hend
      | next _ hlt =>
          cases hend with
          | refunded hq =>
              rcases hq with rfl | hq
              · exact hlt
              · exact Nat.lt_trans hq hlt

/-- The winner's bid comes right before the settlement. -/
theorem winner_last (hr : Replays (Books R) .idle (pre ++ .settled settlement :: post) s')
    (hbidder : settlement.bidder ≠ 0) :
    ∃ pre' bid, pre = pre' ++ [.accepted bid] ∧ bid.nounId = settlement.nounId
      ∧ bid.bidder = settlement.bidder ∧ bid.amount = settlement.amount
      ∧ bid.time + bid.timeBuffer ≤ settlement.time := by
  obtain ⟨s₁, s₂, hpre, hb, -⟩ := hr.at_event
  cases hb with
  | unsold hzero => exact absurd hzero hbidder
  | @sold bid endTime _ hid hb hamount _ htime =>
      obtain ⟨pre', rfl, hbuffer⟩ := standing_last hpre
      exact ⟨pre', bid, rfl, hid.symm, hb.symm, hamount.symm, Nat.le_trans hbuffer htime⟩

/-- Without a winner nobody bid. -/
theorem unsold_last (hr : Replays (Books R) .idle (pre ++ .settled settlement :: post) s')
    (hbidder : settlement.bidder = 0) : ∃ pre', pre = pre' ++ [.created settlement.nounId] := by
  obtain ⟨s₁, s₂, hpre, hb, -⟩ := hr.at_event
  cases hb with
  | unsold => exact opened_last hpre
  | sold _ hb _ hne => exact absurd (hb.symm.trans hbidder) hne

end Nouns.Proof
