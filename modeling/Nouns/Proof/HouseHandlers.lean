import Nouns.Proof.AuctionActs
import Nouns.Proof.HandlerEffects
import Nouns.Subgraph.AuctionHandlers

/-!
# What the handlers of the house's events do

An auction's entity is written by the events that are about that auction and by no others,
and only `AuctionSettled` says that it is settled. A bid is filed under the hash of its
transaction; `bidsFiled` are the bids of some events with these hashes, in order.
-/

namespace Nouns

open Evm

namespace Subgraph

/-- The entity that shows an auction of the house. -/
def entity (a : Nouns.Auction) : Auction where
  noun := a.nounId
  amount := a.amount
  startTime := a.startTime
  endTime := a.endTime
  bidder := if a.bidder = 0 then none else some a.bidder
  settled := a.settled

/-- An auction but for whether it is settled. -/
def Auction.terms (e : Auction) : Auction := { e with settled := false }

/-- The bid a handler saves, and the id it saves it under. -/
def bidFiled : EthTransaction × ChainEvent → Option (Nat × Bid)
  | (tx, .house (.auctionBid nounId sender value _)) => some (tx.hash,
      { noun := nounId
        amount := value
        bidder := sender
        blockNumber := tx.block.number
        txIndex := tx.index
        auction := nounId
        blockTimestamp := tx.block.timestamp })
  | _ => none

/-- The bids of some events, with the hashes of their transactions. -/
def bidsFiled (events : List (EthTransaction × ChainEvent)) : List (Nat × Bid) :=
  events.filterMap bidFiled

/-- The Noun whose auction an event gives new terms. -/
def concerns : ChainEvent → Option Nat
  | .house (.auctionCreated nounId _ _) => some nounId
  | .house (.auctionBid nounId _ _ _) => some nounId
  | .house (.auctionExtended nounId _) => some nounId
  | _ => none

/-- Whether an event is about an auction at all. -/
def ofAuction : ChainEvent → Bool
  | .token _ => false
  | .house e => e.ofAuction

/-- Some events of one transaction. -/
def tagged (tx : EthTransaction) (es : List ChainEvent) : List (EthTransaction × ChainEvent) :=
  es.map fun e => (tx, e)

variable {st : HouseStore} {tx : EthTransaction} {events events' : List (EthTransaction × ChainEvent)}

@[simp] theorem bidsFiled_append :
    bidsFiled (events ++ events') = bidsFiled events ++ bidsFiled events' := List.filterMap_append

namespace HouseStore

@[simp] theorem after_append : st.after (events ++ events') = (st.after events).after events' :=
  List.foldl_append

/-! ## What the handlers leave alone -/

/-- The handlers keep what is not about an auction. -/
theorem handleEvent_other {e : EthTransaction × ChainEvent} (he : ofAuction e.2 = false) :
    (st.handleEvent e).auctions = st.auctions ∧ (st.handleEvent e).bids = st.bids := by
  obtain ⟨tx, e⟩ := e
  cases e with
  | token e => exact ⟨rfl, rfl⟩
  | house e =>
      cases e <;> first
        | exact ⟨rfl, rfl⟩
        | exact absurd he (by simp [ofAuction, AuctionEvent.ofAuction])

theorem concerns_other {e : ChainEvent} (he : ofAuction e = false) : concerns e = none := by
  cases e with
  | token e => rfl
  | house e => cases e <;> first | rfl | exact absurd he (by simp [ofAuction, AuctionEvent.ofAuction])

theorem bidFiled_other {e : EthTransaction × ChainEvent} (he : ofAuction e.2 = false) :
    bidFiled e = none := by
  obtain ⟨tx, e⟩ := e
  cases e with
  | token e => rfl
  | house e => cases e <;> first | rfl | exact absurd he (by simp [ofAuction, AuctionEvent.ofAuction])

theorem after_other (h : ∀ e ∈ events, ofAuction e.2 = false) :
    (st.after events).auctions = st.auctions ∧ (st.after events).bids = st.bids
      ∧ bidsFiled events = [] := by
  induction events generalizing st with
  | nil => exact ⟨rfl, rfl, rfl⟩
  | cons e events ih =>
      obtain ⟨ha, hb⟩ := handleEvent_other (h e List.mem_cons_self)
      obtain ⟨ha', hb', hf⟩ := ih fun e he => h e (List.mem_cons_of_mem _ he)
      refine ⟨ha'.trans ha, hb'.trans hb, ?_⟩
      rw [bidsFiled, List.filterMap_cons_none (bidFiled_other (h e List.mem_cons_self))]
      exact hf

/-- An event gives new terms only to the auction it concerns. -/
theorem handleEvent_terms {e : EthTransaction × ChainEvent} {n : Nat} (he : concerns e.2 ≠ some n) :
    ((st.handleEvent e).auctions n).map Auction.terms = (st.auctions n).map Auction.terms := by
  have hsave : ∀ {st : HouseStore} {m : Nat} {a : Auction}, m ≠ n →
      (st.saveAuction m a).auctions n = st.auctions n := fun hm =>
    Function.update_of_ne (Ne.symm hm) _ _
  obtain ⟨tx, e⟩ := e
  cases e with
  | token e => rfl
  | house e =>
      cases e with
      | auctionCreated m start_ end_ =>
          have hm : m ≠ n := fun h => he (h ▸ rfl)
          show ((st.handleAuctionCreated m start_ end_).auctions n).map _ = _
          unfold handleAuctionCreated
          split
          · rfl
          · rw [hsave hm]
      | auctionBid m sender value extended =>
          have hm : m ≠ n := fun h => he (h ▸ rfl)
          show ((st.handleAuctionBid tx m sender value).auctions n).map _ = _
          unfold handleAuctionBid
          dsimp only
          split
          · rfl
          · exact congrArg _ (hsave hm)
      | auctionExtended m end_ =>
          have hm : m ≠ n := fun h => he (h ▸ rfl)
          show ((st.handleAuctionExtended m end_).auctions n).map _ = _
          unfold handleAuctionExtended
          split
          · rfl
          · rw [hsave hm]
      | auctionSettled m winner amount =>
          show ((st.handleAuctionSettled m).auctions n).map _ = _
          unfold handleAuctionSettled
          split
          · rfl
          · next auction hauction =>
              -- a settled auction keeps its terms, whichever it is
              by_cases hm : m = n
              · subst hm
                simp [saveAuction, Auction.terms, hauction]
              · rw [hsave hm]
      | _ => rfl

theorem after_terms {n : Nat} (h : ∀ e ∈ events, concerns e.2 ≠ some n) :
    ((st.after events).auctions n).map Auction.terms = (st.auctions n).map Auction.terms := by
  induction events generalizing st with
  | nil => rfl
  | cons e events ih =>
      exact (ih fun e he => h e (List.mem_cons_of_mem _ he)).trans
        (handleEvent_terms (h e List.mem_cons_self))

/-! ## Auctions that are stored -/

theorem handleAuctionCreated_known {n start_ end_ : Nat} (h : st.nounOwner n ≠ none) :
    st.handleAuctionCreated n start_ end_ = st.saveAuction n ⟨n, 0, start_, end_, none, false⟩ := by
  unfold handleAuctionCreated
  split
  · next hnone => exact absurd (by simp [Store.nounOwner, hnone]) h
  · rfl

theorem handleAuctionBid_known {n value : Nat} {sender : Address} {a : Auction}
    (h : st.auctions n = some a) :
    (st.handleAuctionBid tx n sender value).auctions
        = Function.update st.auctions n (some { a with amount := value, bidder := some sender })
      ∧ (st.handleAuctionBid tx n sender value).bids = Function.update st.bids tx.hash
        (some ⟨a.noun, value, sender, tx.block.number, tx.index, n, tx.block.timestamp⟩) := by
  unfold handleAuctionBid
  dsimp only
  rw [h]
  exact ⟨rfl, rfl⟩

theorem handleAuctionExtended_known {n end_ : Nat} {a : Auction} (h : st.auctions n = some a) :
    st.handleAuctionExtended n end_ = st.saveAuction n { a with endTime := end_ } := by
  unfold handleAuctionExtended
  rw [h]

theorem handleAuctionSettled_known {n : Nat} {a : Auction} (h : st.auctions n = some a) :
    st.handleAuctionSettled n = st.saveAuction n { a with settled := true } := by
  unfold handleAuctionSettled
  rw [h]

/-! ## Nouns stay known -/

theorem handleTokenEvent_known {st : Store} (e : TokenEvent) {n : Nat} (h : st.nounOwner n ≠ none) :
    (st.handleTokenEvent e).nounOwner n ≠ none := by
  cases e with
  | nounCreated id seed =>
      have hsees : Store.Sees st (st.handleNounCreated id seed) := Store.handleNounCreated_spec
      show (st.handleNounCreated id seed).nounOwner n ≠ none
      rw [hsees.nounOwner]
      exact h
  | delegateChanged o src d =>
      show (st.handleDelegateChanged o src d).nounOwner n ≠ none
      rw [(Store.handleDelegateChanged_spec o src d).2.1]
      exact h
  | delegateVotesChanged d previous new =>
      show (st.handleDelegateVotesChanged d previous new).nounOwner n ≠ none
      rw [(Store.handleDelegateVotesChanged_spec d previous new).2.1]
      exact h
  | transfer src dst id =>
      show (st.handleTransfer src dst id).nounOwner n ≠ none
      rw [(Store.handleTransfer_spec src dst id).2.2.1, Function.update_apply]
      split
      · exact Option.some_ne_none _
      · exact h
  | _ => exact h

/-- The receiver of a Noun makes it known. -/
theorem after_known {es : List TokenEvent} {n : Nat}
    (h : st.nounOwner n ≠ none ∨ ∃ src dst, TokenEvent.transfer src dst n ∈ es) :
    (st.after (tagged tx (es.map .token))).nounOwner n ≠ none := by
  induction es generalizing st with
  | nil =>
      obtain h | ⟨_, _, hm⟩ := h
      · exact h
      · exact absurd hm List.not_mem_nil
  | cons e es ih =>
      refine ih ?_
      rcases h with h | ⟨src, dst, hm⟩
      · exact .inl (handleTokenEvent_known e h)
      · rcases List.mem_cons.mp hm with rfl | hm
        · left
          show (st.handleTransfer src dst n).nounOwner n ≠ none
          rw [(Store.handleTransfer_spec src dst n).2.2.1, Function.update_self]
          exact Option.some_ne_none _
        · exact .inr ⟨src, dst, hm⟩

end HouseStore

end Subgraph

end Nouns
