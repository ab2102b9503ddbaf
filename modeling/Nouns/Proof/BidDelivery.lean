import Nouns.Lib.Inbox
import Nouns.Webapp.AuctionSlice

/-!
# Bids in any order

From the history query and from the subscription the app gets the bids of an auction late,
in any order and some of them twice. It keeps a bid if it has none of the same transaction,
and the highest of those it has is what it shows. That is the right one, and no bid is
missing, exactly if no transaction made two bids.
-/

namespace Nouns.Webapp

variable {n : Nat}

/-! ## The highest of a list -/

/-- The highest bid of a list is one of its bids. -/
theorem maxBid_mem (first : BidEvent) (bids : List BidEvent) : maxBid first bids ∈ first :: bids := by
  unfold maxBid
  induction bids generalizing first with
  | nil => exact List.mem_singleton_self _
  | cons bid bids ih =>
      rw [List.foldl_cons]
      rcases List.mem_cons.mp (ih (if first.value > bid.value then first else bid)) with h | h
      · rw [h]
        split
        · exact List.mem_cons_self
        · exact List.mem_cons_of_mem _ List.mem_cons_self
      · exact List.mem_cons_of_mem _ (List.mem_cons_of_mem _ h)

theorem first_le_maxBid (first : BidEvent) (bids : List BidEvent) :
    first.value ≤ (maxBid first bids).value := by
  induction bids generalizing first with
  | nil => exact Nat.le_refl _
  | cons next bids ih =>
      refine Nat.le_trans ?_ (ih (if first.value > next.value then first else next))
      split
      · exact Nat.le_refl _
      · exact Nat.le_of_not_lt ‹_›

/-- No bid of the list is higher. -/
theorem le_maxBid {first : BidEvent} {bids : List BidEvent} {bid : BidEvent}
    (h : bid ∈ first :: bids) : bid.value ≤ (maxBid first bids).value := by
  induction bids generalizing first with
  | nil =>
      obtain rfl := List.mem_singleton.mp h
      exact first_le_maxBid bid []
  | cons next bids ih =>
      have hrest := first_le_maxBid (if first.value > next.value then first else next) bids
      show bid.value ≤ (maxBid (if first.value > next.value then first else next) bids).value
      rcases List.mem_cons.mp h with rfl | h
      · refine Nat.le_trans ?_ hrest
        split
        · exact Nat.le_refl _
        · exact Nat.le_of_not_lt ‹_›
      · rcases List.mem_cons.mp h with rfl | h
        · refine Nat.le_trans ?_ hrest
          split
          · exact Nat.le_of_lt ‹_›
          · exact Nat.le_refl _
        · exact ih (List.mem_cons_of_mem _ h)

/-! ## What the state shows -/

/-- The bids on a Noun among what is dispatched. -/
def bidsOn (n : Nat) (actions : List AuctionSlice.Action) : List BidEvent :=
  actions.filterMap fun
    | .appendBid payload => if payload.nounId = n then some payload else none
    | _ => none

theorem mem_bidsOn {actions : List AuctionSlice.Action} {bid : BidEvent} :
    bid ∈ bidsOn n actions ↔ .appendBid bid ∈ actions ∧ bid.nounId = n := by
  rw [bidsOn, List.mem_filterMap]
  constructor
  · intro h
    obtain ⟨action, hmem, hsome⟩ := h
    cases action with
    | appendBid payload =>
        simp only [Option.ite_none_right_eq_some, Option.some.injEq] at hsome
        obtain ⟨hn, rfl⟩ := hsome
        exact ⟨hmem, hn⟩
    | _ => cases hsome
  · intro h
    exact ⟨_, h.1, if_pos h.2⟩

theorem bidsOn_appendBid {bid : BidEvent} :
    bidsOn n [.appendBid bid] = if bid.nounId = n then [bid] else [] := by
  by_cases hn : bid.nounId = n
  · rw [if_pos hn]
    exact List.filterMap_cons_some (if_pos hn)
  · rw [if_neg hn]
    exact List.filterMap_cons_none (if_neg hn)

/-- The state keeps one bid of each transaction, and shows the highest it has. -/
structure Follows (n : Nat) (s : AuctionSlice) (came : List BidEvent) : Prop where
  active : ∃ auction, s.activeAuction = some auction ∧ auction.nounId = n
    ∧ ∀ first rest, s.bids = first :: rest →
      auction.amount = (maxBid first rest).value ∧ auction.bidder = (maxBid first rest).sender
  bids : s.bids = came.foldl (Inbox.take BidEvent.transactionHash) []

/-- What may be dispatched while an auction goes on. -/
def Ongoing : AuctionSlice.Action → Prop
  | .appendBid _ | .setAuctionExtended _ => True
  | _ => False

theorem Follows.appendBid {s : AuctionSlice} {came : List BidEvent} (h : Follows n s came)
    (bid : BidEvent) :
    Follows n (s.appendBid bid) (came ++ if bid.nounId = n then [bid] else []) := by
  obtain ⟨auction, hactive, hn, hhigh⟩ := h.active
  simp only [AuctionSlice.appendBid, hactive, hn]
  by_cases hbid : bid.nounId = n
  · rw [if_neg (not_not.mpr hbid.symm), if_pos hbid]
    have hstep : (came ++ [bid]).foldl (Inbox.take BidEvent.transactionHash) []
        = Inbox.take BidEvent.transactionHash s.bids bid := by
      rw [List.foldl_append, ← h.bids]
      rfl
    by_cases hhash : bid.transactionHash ∈ s.bids.map BidEvent.transactionHash
    · have hcontains : containsBid s.bids bid = true := decide_eq_true hhash
      rw [if_pos hcontains]
      refine ⟨h.active, ?_⟩
      rw [hstep, Inbox.take, if_pos hhash]
    · have hcontains : ¬ containsBid s.bids bid = true := fun hc => hhash (of_decide_eq_true hc)
      rw [if_neg hcontains]
      refine ⟨⟨_, rfl, rfl, ?_⟩, ?_⟩
      · intro first rest heq
        obtain ⟨rfl, rfl⟩ := List.cons.inj heq
        exact ⟨rfl, rfl⟩
      · rw [hstep, Inbox.take, if_neg hhash]
  · rw [if_pos (Ne.symm hbid), if_neg hbid, List.append_nil]
    exact h

theorem Follows.extended {s : AuctionSlice} {came : List BidEvent} (h : Follows n s came)
    (payload : AuctionExtendedEvent) : Follows n (s.setAuctionExtended payload) came := by
  obtain ⟨auction, hactive, hn, hhigh⟩ := h.active
  simp only [AuctionSlice.setAuctionExtended, hactive]
  split
  · exact h
  · exact ⟨⟨_, rfl, hn, hhigh⟩, h.bids⟩

/-- After an auction was made active, the state follows its bids. -/
theorem follows_actions (s : AuctionSlice) (create : AuctionCreateEvent)
    (actions : List AuctionSlice.Action) (h : ∀ a ∈ actions, Ongoing a) :
    Follows create.nounId (actions.foldl AuctionSlice.reducer (s.setActiveAuction create))
      (bidsOn create.nounId actions) := by
  induction actions using List.reverseRecOn with
  | nil =>
      exact ⟨⟨_, rfl, rfl, fun _ _ hcons => absurd hcons (List.cons_ne_nil _ _).symm⟩, rfl⟩
  | append_singleton actions action ih =>
      have ih := ih fun a ha => h a (List.mem_append_left _ ha)
      have hon := h action (List.mem_append_right _ (List.mem_singleton_self _))
      rw [List.foldl_append, bidsOn, List.filterMap_append]
      cases action with
      | appendBid payload =>
          have hlast := ih.appendBid payload
          rw [← bidsOn_appendBid] at hlast
          exact hlast
      | setAuctionExtended payload =>
          rw [List.filterMap_cons_none rfl, List.filterMap_nil, List.append_nil]
          exact ih.extended payload
      | _ => exact hon.elim

/-- The state shows a set of bids: the highest of them, and each of them once. -/
structure ShowsBids (s : AuctionSlice) (bids : List BidEvent) : Prop where
  highest : ∀ top ∈ bids, (∀ bid ∈ bids, bid.value ≤ top.value) →
    ∃ auction, s.activeAuction = some auction ∧ auction.amount = top.value
      ∧ auction.bidder = top.sender
  complete : s.bids.Perm bids

/-- Two bids of the same height are the same. -/
theorem eq_of_value_eq {bids : List BidEvent} (h : bids.Pairwise fun a b => a.value < b.value)
    {a b : BidEvent} (ha : a ∈ bids) (hb : b ∈ bids) (heq : a.value = b.value) : a = b := by
  have hnodup : (bids.map BidEvent.value).Nodup :=
    List.pairwise_map.mpr (h.imp fun hlt => Nat.ne_of_lt hlt)
  exact List.inj_on_of_nodup_map hnodup ha hb heq

/--
**What the app shows does not depend on the order.** For every list of bids on an auction, each
higher than the one before, and every way to dispatch them after the auction was made active, each
at least once, among extensions and bids on other Nouns: the state shows the bids exactly if they
come from different transactions.
-/
theorem dispatched_shows_iff (s : AuctionSlice) (create : AuctionCreateEvent) (bids : List BidEvent)
    (hn : ∀ bid ∈ bids, bid.nounId = create.nounId)
    (hincreasing : bids.Pairwise fun a b => a.value < b.value)
    (actions : List AuctionSlice.Action) (hongoing : ∀ a ∈ actions, Ongoing a)
    (hall : ∀ bid, bid.nounId = create.nounId → (.appendBid bid ∈ actions ↔ bid ∈ bids)) :
    ShowsBids (actions.foldl AuctionSlice.reducer (s.setActiveAuction create)) bids
      ↔ (bids.map BidEvent.transactionHash).Nodup := by
  have hfollows := follows_actions s create actions hongoing
  generalize actions.foldl AuctionSlice.reducer (s.setActiveAuction create) = t at hfollows
  have hkept : Inbox.Kept BidEvent.transactionHash _ (bidsOn create.nounId actions) :=
    Inbox.kept_foldl (bidsOn create.nounId actions)
  rw [← hfollows.bids] at hkept
  have hperm : _ ↔ (bids.map BidEvent.transactionHash).Nodup := hkept.perm_iff fun bid => by
    rw [mem_bidsOn]
    exact ⟨fun h => (hall bid h.2).mp h.1, fun h => ⟨(hall bid (hn bid h)).mpr h, hn bid h⟩⟩
  refine ⟨fun h => hperm.mp h.complete, ?_⟩
  intro hnodup
  have hcomplete := hperm.mpr hnodup
  refine ⟨?_, hcomplete⟩
  intro top htop hhighest
  obtain ⟨auction, hactive, -, hhigh⟩ := hfollows.active
  cases hbids : t.bids with
  | nil =>
      rw [hbids] at hcomplete
      exact absurd (hcomplete.mem_iff.mpr htop) List.not_mem_nil
  | cons first rest =>
      obtain ⟨hamount, hbidder⟩ := hhigh first rest hbids
      rw [hbids] at hcomplete
      have hmem : maxBid first rest ∈ bids := hcomplete.mem_iff.mp (maxBid_mem first rest)
      -- amounts increase, so the highest bid is one and the same
      have heq : maxBid first rest = top := eq_of_value_eq hincreasing hmem htop
        (Nat.le_antisymm (hhighest _ hmem) (le_maxBid (hcomplete.mem_iff.mpr htop)))
      exact ⟨auction, hactive, hamount.trans (congrArg _ heq), hbidder.trans (congrArg _ heq)⟩

/-! ## Two bids -/

/-- The auction of Noun 7. -/
def nounSeven : AuctionCreateEvent := ⟨7, 1000, 2000, false⟩

/-- Two bids in two transactions. -/
def twoBids : List BidEvent :=
  [⟨7, "0xa1", 100, false, "0x01", 1010⟩, ⟨7, "0xa2", 110, false, "0x02", 1020⟩]

/-- The second comes first, twice. -/
theorem dispatched_shows_twoBids :
    ShowsBids (((twoBids.reverse ++ twoBids).map AuctionSlice.Action.appendBid).foldl
      AuctionSlice.reducer ((⟨none, []⟩ : AuctionSlice).setActiveAuction nounSeven)) twoBids := by
  refine (dispatched_shows_iff ⟨none, []⟩ nounSeven twoBids (by decide) (by decide) _ ?_ ?_).mpr
    (by decide)
  · intro a ha
    obtain ⟨bid, -, rfl⟩ := List.mem_map.mp ha
    trivial
  · intro bid _
    rw [List.mem_map_of_injective fun a b h => AuctionSlice.Action.appendBid.inj h,
      List.mem_append, List.mem_reverse, or_self]

/-- Two bids that one transaction made. -/
def oneTransaction : List BidEvent :=
  [⟨7, "0xa1", 100, false, "0x01", 1010⟩, ⟨7, "0xa1", 110, false, "0x01", 1010⟩]

/-- Delivered in order, the second is dropped: the first is shown, and it is the only one. -/
theorem not_dispatched_oneTransaction :
    ¬ ∀ (s : AuctionSlice) (create : AuctionCreateEvent) (bids : List BidEvent),
      (∀ bid ∈ bids, bid.nounId = create.nounId) →
      (bids.Pairwise fun a b => a.value < b.value) →
      ShowsBids ((bids.map AuctionSlice.Action.appendBid).foldl AuctionSlice.reducer
        (s.setActiveAuction create)) bids := by
  intro h
  have hlength := (h ⟨none, []⟩ nounSeven oneTransaction (by decide) (by decide)).complete.length_eq
  exact absurd hlength (by decide)

end Nouns.Webapp
