import Nouns.Lib.KeyedLog
import Nouns.Proof.Custody
import Nouns.Proof.HouseHandlers
import Nouns.Proof.IdAllocation

/-!
# What the subgraph knows of the house

The house stores one auction, the subgraph all of them. `HouseMirror` says what the store
knows in every phase of the house: the terms of the auction on, and of every auction ever
created whether it is settled, except that of the one being settled the event is still to
come. The bids filed are the bids accepted. Every act keeps this with the events it logs.
-/

namespace Nouns.Proof

open Evm CallMachine EventLog KeyedLog Subgraph

/-! ## What the history tells -/

/-- Whether a deed settles Noun `n`. -/
def settles (n : Nat) : AuctionDeed → Bool
  | .settled settlement => settlement.nounId = n
  | _ => false

/-- Whether Noun `n` was settled. -/
def settledIn (n : Nat) (h : List AuctionDeed) : Bool := h.any (settles n)

def acceptedBid : AuctionDeed → Option AcceptedBid
  | .accepted bid => some bid
  | _ => none

/-- The bids of a history. -/
def acceptedBids (h : List AuctionDeed) : List AcceptedBid := h.filterMap acceptedBid

@[simp] theorem settledIn_append {n : Nat} {h h' : List AuctionDeed} :
    settledIn n (h ++ h') = (settledIn n h || settledIn n h') := List.any_append

@[simp] theorem acceptedBids_append {h h' : List AuctionDeed} :
    acceptedBids (h ++ h') = acceptedBids h ++ acceptedBids h' := List.filterMap_append

/-- The Noun whose settlement is not logged yet. -/
def pendingId : Phase → Option Nat
  | .settling _ auction_ _ _ | .concluding _ auction_ _ _ => some auction_.nounId
  | _ => none

/-! ## The invariant -/

/-- What the store and the bids filed in it are to the house. -/
structure HouseMirror (st : HouseStore) (filed : List (Nat × Bid)) (p : Phase) (w : AuctionWorld) :
    Prop where
  begun : w.house.auction.startTime ≠ 0 → w.house.auction.nounId ∈ createdIds w.history
  terms : w.house.auction.startTime ≠ 0 →
    (st.auctions w.house.auction.nounId).map Subgraph.Auction.terms
      = some (entity w.house.auction).terms
  known : ∀ n ∈ createdIds w.history, st.auctions n ≠ none
  flags : ∀ n e, st.auctions n = some e →
    e.settled = (settledIn n w.history && decide (pendingId p ≠ some n))
  flag : w.house.auction.startTime ≠ 0 →
    w.house.auction.settled = settledIn w.house.auction.nounId w.history
  pending : ∀ n, pendingId p = some n → n ∈ createdIds w.history ∧ settledIn n w.history = true
  fresh : ∀ n, n ∉ createdIds w.history → settledIn n w.history = false
  drawn : ∀ n ∈ createdIds w.history, n < w.token.currentNounId_
  bids : st.bids = written filed
  accepted : filed.map (fun e => (e.2.auction, e.2.bidder, e.2.amount))
    = (acceptedBids w.history).map fun bid => (bid.nounId, bid.bidder, bid.amount)

/-- What the house has done and logged, the store having been told. -/
structure Advance (st : HouseStore) (filed : List (Nat × Bid)) (tx : EthTransaction)
    (w : AuctionWorld) (es : List ChainEvent) (q : Phase) (w' : AuctionWorld) : Prop where
  log : w'.log = w.log ++ es
  mirror : HouseMirror (st.after (tagged tx es)) (filed ++ bidsFiled (tagged tx es)) q w'
  concerns : ∀ e ∈ es, ∀ n, concerns e = some n → n = w'.house.auction.nounId

variable {env : AuctionEnv} {d : AuctionDeployment env} {x : AuctionConfig} {l : AuctionLabel}
  {w w' w'' : AuctionWorld} {p q : Phase} {st : HouseStore} {filed : List (Nat × Bid)}
  {tx : EthTransaction} {es es' : List ChainEvent} {R : Nat → Nat → Prop}

@[simp] theorem tagged_append : tagged tx (es ++ es') = tagged tx es ++ tagged tx es' :=
  List.map_append

theorem tagged_other (hes : ∀ e ∈ es, ofAuction e = false) :
    ∀ e ∈ tagged tx es, ofAuction e.2 = false := by
  intro e he
  obtain ⟨e', he', rfl⟩ := List.mem_map.mp he
  exact hes e' he'

theorem tokens_other (es : List TokenEvent) : ∀ e ∈ es.map ChainEvent.token, ofAuction e = false := by
  intro e he
  obtain ⟨e', -, rfl⟩ := List.mem_map.mp he
  rfl

/-- Other events, while the auctions stay what they are. -/
theorem HouseMirror.quiet (h : HouseMirror st filed p w) (hlog : w'.log = w.log ++ es)
    (hes : ∀ e ∈ es, ofAuction e = false) (ha : w'.house.auction = w.house.auction)
    (hids : createdIds w'.history = createdIds w.history)
    (hsettled : ∀ n, settledIn n w'.history = settledIn n w.history)
    (hbids : acceptedBids w'.history = acceptedBids w.history)
    (hdrawn : w.token.currentNounId_ ≤ w'.token.currentNounId_) (hp : pendingId q = pendingId p) :
    Advance st filed tx w es q w' := by
  obtain ⟨hauctions, hstored, hnone⟩ := HouseStore.after_other (tagged_other hes)
  refine ⟨hlog, ?_, ?_⟩
  · rw [hnone, List.append_nil]
    -- the handlers write nothing the mirror speaks of
    constructor
    · rw [ha, hids]
      exact h.begun
    · rw [ha, hauctions]
      exact h.terms
    · rw [hids, hauctions]
      exact h.known
    · simp only [hauctions, hsettled, hp]
      exact h.flags
    · rw [ha, hsettled]
      exact h.flag
    · simp only [hids, hsettled, hp]
      exact h.pending
    · simp only [hids, hsettled]
      exact h.fresh
    · rw [hids]
      exact fun n hn => Nat.lt_of_lt_of_le (h.drawn n hn) hdrawn
    · rw [hstored]
      exact h.bids
    · rw [hbids]
      exact h.accepted
  · intro e he n hn
    rw [HouseStore.concerns_other (hes e he)] at hn
    cases hn

/-- One thing after another, the first of which gives no auction new terms. -/
theorem Advance.trans (h : Advance st filed tx w es p w') (hes : ∀ e ∈ es, Subgraph.concerns e = none)
    (h' : Advance (st.after (tagged tx es)) (filed ++ bidsFiled (tagged tx es)) tx w' es' q w'') :
    Advance st filed tx w (es ++ es') q w'' := by
  refine ⟨by rw [h'.log, h.log, List.append_assoc], ?_, ?_⟩
  · rw [tagged_append, HouseStore.after_append, bidsFiled_append, ← List.append_assoc]
    exact h'.mirror
  · intro e he n hn
    rcases List.mem_append.mp he with he | he
    · rw [hes e he] at hn
      cases hn
    · exact h'.concerns e he n hn

/-- Going to rest is not seen. -/
theorem Advance.rest (h : Advance st filed tx w es p w') : Advance st filed tx w es p (atRest w') := by
  obtain ⟨hlog, ⟨hbegun, hterms, hknown, hflags, hflag, hpending, hfresh, hdrawn, hbids, haccepted⟩,
    hconcerns⟩ := h
  exact ⟨(List.append_nil _).trans hlog, ⟨hbegun, hterms, hknown, hflags, hflag, hpending, hfresh,
    hdrawn, hbids, haccepted⟩, hconcerns⟩

/-! ## The acts -/

/-- What a mint logs makes its Noun known. -/
theorem mint_told {m : Msg} {s s' : NounsToken} {id : Nat} (h : s.mint m = .ok (s', id)) :
    (∃ es, s'.logs = s.logs ++ es ∧ ∃ src dst, TokenEvent.transfer src dst id ∈ es)
      ∧ s.currentNounId_ ≤ id ∧ id < s'.currentNounId_ := by
  have hone : ∀ {s s₁ s' : NounsToken} {dst : Address}, s.nextNounId = .ok s₁ →
      s₁.mintTo_ m dst s.currentNounId_ = .ok s' →
      ∃ es, s'.logs = s.logs ++ es ∧ ∃ src dst, TokenEvent.transfer src dst s.currentNounId_ ∈ es := by
    intro s s₁ s' dst h₁ h
    obtain ⟨seed, s₂, hminted, rfl⟩ := mintTo_shape h₁ h
    obtain ⟨es, hlog, -⟩ := hminted.logged
    refine ⟨([] ++ es ++ [.transfer 0 s.owner s.currentNounId_,
      .transfer s.owner dst s.currentNounId_]) ++ [.nounCreated s.currentNounId_ seed], ?_,
      0, s.owner, by simp⟩
    show s₂.logs ++ [_] = _
    rw [hlog, List.append_assoc]
    rfl
  obtain ⟨-, hdrew⟩ := mint_drew h
  simp only [NounsToken.mint, bind_ok] at h
  obtain ⟨_, _, s₁, h₁, s₂, h₂, s₃, h₃, h⟩ := h
  obtain ⟨rfl, rfl⟩ := Prod.mk.inj (Except.ok.inj h)
  -- the nounders' Noun comes first, and is not the one that is returned
  have hreward : ∃ es, s₁.logs = s.logs ++ es := by
    unfold NounsToken.mintReward at h₁
    split at h₁
    · obtain ⟨s₀, h₀, h₁⟩ := bind_ok.mp h₁
      obtain ⟨es, hes, -⟩ := hone h₀ h₁
      exact ⟨es, hes⟩
    · obtain rfl := Except.ok.inj h₁
      exact ⟨[], (List.append_nil _).symm⟩
  obtain ⟨es₁, hes₁⟩ := hreward
  obtain ⟨es, hes, src, dst, hmem⟩ := hone h₂ h₃
  refine ⟨⟨es₁ ++ es, by rw [hes, hes₁, List.append_assoc], src, dst, List.mem_append_right _ hmem⟩, ?_⟩
  rcases hdrew with ⟨-, hid, hdrew⟩ | ⟨-, hid, s₀, hfirst, hsecond⟩
  · have := hdrew.counter
    omega
  · have := hfirst.counter
    have := hsecond.counter
    omega

/-- A new auction of a Noun that is known. -/
theorem HouseMirror.create (h : HouseMirror st filed p w) {nounId startTime endTime : Nat}
    (hnew : nounId ∉ createdIds w.history) (hlt : nounId < w.token.currentNounId_)
    (hknown : st.nounOwner nounId ≠ none) :
    Advance st filed tx w [.house (.auctionCreated nounId startTime endTime)] p ((logged
      { w.house with auction := ⟨nounId, 0, startTime, endTime, 0, false⟩ }
      [.auctionCreated nounId startTime endTime] w).note (.created nounId)) := by
  have hids : createdIds (w.history ++ [.created nounId]) = createdIds w.history ++ [nounId] :=
    createdIds_append
  have hsettled : ∀ n, settledIn n (w.history ++ [.created nounId]) = settledIn n w.history := by
    intro n
    rw [settledIn_append]
    exact Bool.or_false _
  have hstore : st.after (tagged tx [.house (.auctionCreated nounId startTime endTime)])
      = st.saveAuction nounId ⟨nounId, 0, startTime, endTime, none, false⟩ :=
    HouseStore.handleAuctionCreated_known hknown
  refine ⟨rfl, ?_, ?_⟩
  · rw [hstore]
    -- the Noun is new, so there is no entity yet that could be overwritten
    constructor
    · intro _
      show nounId ∈ createdIds (w.history ++ [.created nounId])
      rw [hids]
      exact List.mem_append_right _ List.mem_cons_self
    · intro _
      show (Function.update st.auctions nounId _ nounId).map _ = _
      rw [Function.update_self]
      rfl
    · intro n hn
      show Function.update st.auctions nounId _ n ≠ none
      rw [Function.update_apply]
      split
      · exact Option.some_ne_none _
      · next hne =>
          rcases List.mem_append.mp (hids ▸ hn) with hn | hn
          · exact h.known n hn
          · exact absurd (List.mem_singleton.mp hn) hne
    · intro n e he
      have he : Function.update st.auctions nounId _ n = some e := he
      show e.settled = (settledIn n (w.history ++ [.created nounId]) && _)
      rw [hsettled]
      rw [Function.update_apply] at he
      split at he
      · next heq =>
          subst heq
          rw [← Option.some.inj he, h.fresh n hnew]
          rfl
      · exact h.flags n e he
    · intro _
      show false = settledIn nounId (w.history ++ [.created nounId])
      rw [hsettled, h.fresh nounId hnew]
    · intro n hn
      obtain ⟨hmem, hdone⟩ := h.pending n hn
      refine ⟨?_, (hsettled n).trans hdone⟩
      show n ∈ createdIds (w.history ++ [.created nounId])
      rw [hids]
      exact List.mem_append_left _ hmem
    · intro n hn
      refine (hsettled n).trans (h.fresh n fun hin => hn ?_)
      show n ∈ createdIds (w.history ++ [.created nounId])
      rw [hids]
      exact List.mem_append_left _ hin
    · intro n hn
      rcases List.mem_append.mp (hids ▸ hn) with hn | hn
      · exact h.drawn n hn
      · exact List.mem_singleton.mp hn ▸ hlt
    · exact h.bids.trans (congrArg written (List.append_nil filed).symm)
    · show (filed ++ []).map _ = (acceptedBids (w.history ++ [.created nounId])).map _
      rw [List.append_nil, acceptedBids_append]
      exact h.accepted.trans (congrArg _ (List.append_nil _).symm)
  · intro e he n hn
    obtain rfl := List.mem_singleton.mp he
    exact (Option.some.inj hn).symm

/-- A new auction, or a pause. -/
theorem Creates.advance {view : View} (h : Creates env view w w') (hm : HouseMirror st filed p w) :
    ∃ es, Advance st filed tx w es p w' := by
  cases h with
  | @opened token nounId endTime hmint =>
      obtain ⟨⟨es, hlog, src, dst, hmem⟩, hge, hlt⟩ := mint_told hmint
      have hnew : nounId ∉ createdIds w.history := fun hin =>
        Nat.lt_irrefl _ (Nat.lt_of_lt_of_le (hm.drawn nounId hin) hge)
      -- the Noun is known before the auction is
      have hminted : Advance st filed tx w (es.map .token) p (w.setToken token) := by
        refine hm.quiet ?_ (tokens_other es) rfl rfl (fun _ => rfl) rfl ?_ rfl
        · show w.log ++ (token.logs.drop w.token.logs.length).map .token = _
          rw [hlog, List.drop_left]
        · exact Nat.le_trans hge (Nat.le_of_lt hlt)
      exact ⟨_, hminted.trans (fun e he => HouseStore.concerns_other (tokens_other es e he))
        (hminted.mirror.create hnew hlt (HouseStore.after_known (.inr ⟨src, dst, hmem⟩)))⟩
  | halted =>
      exact ⟨_, hm.quiet rfl (by simp [ofAuction, AuctionEvent.ofAuction]) rfl rfl
        (fun _ => rfl) rfl (Nat.le_refl _) rfl⟩

/-- The settlement that was pending is told. -/
theorem HouseMirror.settle (tx : EthTransaction) {sender payee : Address} {auction_ : Nouns.Auction}
    {next : Option View}
    (h : HouseMirror st filed (.concluding sender auction_ payee next) w) :
    Advance st filed tx w
      [.house (.auctionSettled auction_.nounId auction_.bidder auction_.amount)] .outside
      (settledLog auction_ w) := by
  obtain ⟨hmem, hdone⟩ := h.pending auction_.nounId rfl
  obtain ⟨a, ha⟩ := Option.ne_none_iff_exists'.mp (h.known auction_.nounId hmem)
  have hstore : st.after (tagged tx
      [.house (.auctionSettled auction_.nounId auction_.bidder auction_.amount)])
      = st.saveAuction auction_.nounId { a with settled := true } :=
    HouseStore.handleAuctionSettled_known ha
  have hterms : ∀ n, ((st.saveAuction auction_.nounId { a with settled := true }).auctions n).map
      Subgraph.Auction.terms = (st.auctions n).map Subgraph.Auction.terms := by
    intro n
    rw [← hstore]
    exact HouseStore.after_terms (by simp [tagged, concerns])
  refine ⟨rfl, ?_, by simp [concerns]⟩
  rw [hstore]
  constructor
  · exact h.begun
  · intro hbegun
    rw [hterms]
    exact h.terms hbegun
  · intro n hn hnone
    have := hterms n
    rw [hnone] at this
    exact h.known n hn (Option.map_eq_none_iff.mp this.symm)
  · intro n e he
    have hval : Function.update st.auctions auction_.nounId _ n = some e := he
    rw [Function.update_apply] at hval
    -- the flag of the settled auction catches up, and no other changes
    split at hval
    · next heq =>
        rw [← Option.some.inj hval, heq]
        exact (congrArg (· && true) hdone).symm
    · next hne =>
        have hn : some auction_.nounId ≠ some n := fun heq => hne (Option.some.inj heq).symm
        rw [h.flags n e hval]
        simp [pendingId, hn, settledLog, logged]
  · exact h.flag
  · intro n hn
    cases hn
  · exact h.fresh
  · exact h.drawn
  · exact h.bids.trans (congrArg written (List.append_nil filed).symm)
  · show (filed ++ []).map _ = _
    rw [List.append_nil]
    exact h.accepted

/-- A Noun leaves the house, and its settlement is noted. -/
theorem HouseMirror.release (h : HouseMirror st filed .outside w) {token : NounsToken}
    {auction_ : Nouns.Auction} {m : Msg} (hmove : AuctionWorld.moveNoun m auction_ w.token = .ok token)
    (hbegun : w.house.auction.startTime ≠ 0) (hopen : w.house.auction.settled = false)
    (hp : pendingId q = some w.house.auction.nounId) :
    Advance st filed tx w ((token.logs.drop w.token.logs.length).map .token) q (released token w) := by
  have hids : createdIds (released token w).history = createdIds w.history := by
    show createdIds (w.history ++ [_]) = _
    rw [createdIds_append]
    exact List.append_nil _
  have hbids : acceptedBids (released token w).history = acceptedBids w.history := by
    show acceptedBids (w.history ++ [_]) = _
    rw [acceptedBids_append]
    exact List.append_nil _
  have hsettled : ∀ n, settledIn n (released token w).history
      = (settledIn n w.history || decide (w.house.auction.nounId = n)) := by
    intro n
    show settledIn n (w.history ++ [_]) = _
    rw [settledIn_append]
    simp [settledIn, settles, settlementOf]
  have hcounter : token.currentNounId_ = w.token.currentNounId_ := by
    unfold AuctionWorld.moveNoun at hmove
    split at hmove
    · exact (burn_barren hmove).counter
    · exact (transferred_barren (transferFrom_shape hmove)).counter
  obtain ⟨hauctions, hstored, hnone⟩ := HouseStore.after_other
    (tagged_other (tokens_other (token.logs.drop w.token.logs.length)))
  refine ⟨by simp [released, AuctionWorld.note, AuctionWorld.setToken, logged], ?_, ?_⟩
  · rw [hnone, List.append_nil]
    constructor
    · rw [hids]
      exact h.begun
    · rw [hauctions]
      exact h.terms
    · rw [hids, hauctions]
      exact h.known
    · -- the settlement is in the history before it is in the log, so this one flag is behind
      intro n e he
      rw [hauctions] at he
      rw [h.flags n e he, hsettled, hp]
      by_cases hn : w.house.auction.nounId = n
      · subst hn
        have := h.flag hbegun
        simp [← this, hopen]
      · simp [hn, pendingId]
    · intro _
      rw [hsettled]
      simp [released, AuctionWorld.note, AuctionWorld.setToken, logged]
    · intro n hn
      rw [hp] at hn
      obtain rfl := Option.some.inj hn
      rw [hids, hsettled]
      exact ⟨h.begun hbegun, by simp⟩
    · intro n hn
      rw [hids] at hn
      rw [hsettled, h.fresh n hn]
      exact decide_eq_false fun heq => hn (heq ▸ h.begun hbegun)
    · rw [hids]
      intro n hn
      show n < token.currentNounId_
      rw [hcounter]
      exact h.drawn n hn
    · rw [hstored]
      exact h.bids
    · rw [hbids]
      exact h.accepted
  · intro e he n hn
    obtain ⟨e, -, rfl⟩ := List.mem_map.mp he
    cases hn

/-- The bid that is filed. -/
def bidOf (tx : EthTransaction) (nounId value : Nat) (sender : Address) : Bid :=
  ⟨nounId, value, sender, tx.block.number, tx.index, nounId, tx.block.timestamp⟩

/-- The store once a bid is told, with the extension if it comes late. -/
theorem after_bid {sender : Address} {value : Nat} {a : Subgraph.Auction}
    (ha : st.auctions w.house.auction.nounId = some a)
    (hterms : a.terms = (entity w.house.auction).terms) :
    (st.after (tagged tx ((bidEvents sender value w.house.auction w).map .house))).auctions
        = Function.update st.auctions w.house.auction.nounId (some { a with
          amount := value, bidder := some sender, endTime := endAfter w.house.auction w })
      ∧ (st.after (tagged tx ((bidEvents sender value w.house.auction w).map .house))).bids
        = Function.update st.bids tx.hash (some (bidOf tx w.house.auction.nounId value sender))
      ∧ bidsFiled (tagged tx ((bidEvents sender value w.house.auction w).map .house))
        = [(tx.hash, bidOf tx w.house.auction.nounId value sender)] := by
  have hnoun : a.noun = w.house.auction.nounId := congrArg Subgraph.Auction.noun hterms
  have hend : a.endTime = w.house.auction.endTime := congrArg Subgraph.Auction.endTime hterms
  obtain ⟨hauctions, hbids⟩ := HouseStore.handleAuctionBid_known
    ha
  rw [hnoun] at hbids
  unfold bidEvents endAfter
  split
  · refine ⟨?_, ?_, rfl⟩
    · show ((st.handleAuctionBid tx _ sender value).handleAuctionExtended _ _).auctions = _
      rw [HouseStore.handleAuctionExtended_known (by rw [hauctions, Function.update_self])]
      show Function.update (st.handleAuctionBid tx _ sender value).auctions _ _ = _
      rw [hauctions, Function.update_idem]
    · show ((st.handleAuctionBid tx _ sender value).handleAuctionExtended _ _).bids = _
      rw [HouseStore.handleAuctionExtended_known (by rw [hauctions, Function.update_self])]
      exact hbids
  · refine ⟨?_, hbids, rfl⟩
    rw [← hend]
    exact hauctions

/-- A bid is placed. -/
theorem HouseMirror.bid {sender : Address} {value : Nat}
    (h : HouseMirror st filed (.placing sender value w.house.auction) w) (hsender : sender ≠ 0)
    (hbegun : w.house.auction.startTime ≠ 0) :
    Advance st filed tx w ((bidEvents sender value w.house.auction w).map .house) .outside
      (withBid sender value w.house.auction w) := by
  obtain ⟨a, ha, hterms⟩ := Option.map_eq_some_iff.mp (h.terms hbegun)
  obtain ⟨hauctions, hstored, hfiled⟩ := after_bid ha hterms
  have hids : createdIds (withBid sender value w.house.auction w).history = createdIds w.history := by
    show createdIds (w.history ++ [_]) = _
    rw [createdIds_append]
    exact List.append_nil _
  have hsettled : ∀ n, settledIn n (withBid sender value w.house.auction w).history
      = settledIn n w.history := by
    intro n
    show settledIn n (w.history ++ [_]) = _
    rw [settledIn_append]
    exact Bool.or_false _
  refine ⟨rfl, ?_, ?_⟩
  · rw [hfiled]
    -- the one entity written is that of the auction that runs
    constructor
    · rw [hids]
      exact h.begun
    · intro _
      rw [hauctions]
      show (Function.update st.auctions w.house.auction.nounId _ w.house.auction.nounId).map _ = _
      rw [Function.update_self]
      have hnoun : a.noun = w.house.auction.nounId := congrArg Subgraph.Auction.noun hterms
      have hstart : a.startTime = w.house.auction.startTime :=
        congrArg Subgraph.Auction.startTime hterms
      simp [entity, Subgraph.Auction.terms, withBid, logged, AuctionWorld.note, hnoun, hstart,
        hsender]
    · rw [hids, hauctions]
      intro n hn
      rw [Function.update_apply]
      split
      · exact Option.some_ne_none _
      · exact h.known n hn
    · intro n e he
      rw [hauctions, Function.update_apply] at he
      rw [hsettled]
      split at he
      · next heq =>
          subst heq
          rw [← Option.some.inj he]
          exact h.flags _ a ha
      · exact h.flags n e he
    · intro _
      rw [hsettled]
      exact h.flag hbegun
    · intro n hn
      cases hn
    · intro n hn
      rw [hsettled]
      exact h.fresh n (hids ▸ hn)
    · rw [hids]
      exact h.drawn
    · rw [hstored, written_concat, h.bids]
    · show (filed ++ [_]).map _ = (acceptedBids (w.history ++ [_])).map _
      rw [acceptedBids_append, List.map_append, List.map_append, h.accepted]
      rfl
  · intro e he n hn
    obtain ⟨e', he', rfl⟩ := List.mem_map.mp he
    unfold bidEvents at he'
    split at he'
    · rcases List.mem_cons.mp he' with rfl | he'
      · exact (Option.some.inj hn).symm
      · obtain rfl := List.mem_singleton.mp he'
        exact (Option.some.inj hn).symm
    · obtain rfl := List.mem_singleton.mp he'
      exact (Option.some.inj hn).symm

/-- **An act and its events keep the mirror.** -/
theorem HouseAct.advance (ha : HouseAct env x l (p, w) (q, w')) (hi : HouseInv R p w)
    (hm : HouseMirror st filed p w) : ∃ es, Advance st filed tx w es q w' := by
  cases ha with
  | calm _ h =>
      cases h with
      | @token sender view call token _ htoken =>
          exact ⟨_, hm.quiet rfl (tokens_other _) rfl rfl (fun _ => rfl) rfl
            (call_allots htoken).counter rfl⟩
      | weth | ether =>
          exact ⟨_, hm.quiet (List.append_nil _).symm (by simp) rfl rfl (fun _ => rfl) rfl
            (Nat.le_refl _) rfl⟩
      | house _ ht hes =>
          refine ⟨_, hm.quiet rfl ?_ ht.auction rfl (fun _ => rfl) rfl (Nat.le_refl _) rfl⟩
          intro e he
          obtain ⟨e', he', rfl⟩ := List.mem_map.mp he
          exact hes e' he'
  | tick =>
      exact ⟨_, hm.quiet (List.append_nil _).symm (by simp) rfl rfl (fun _ => rfl) rfl
        (Nat.le_refl _) rfl⟩
  | @reopened _ _ sender _ _ _ _ _ h =>
      have hunpaused : Advance st filed tx x.world [.house (.unpaused sender)] p
          (logged { x.world.house with paused := false } [.unpaused sender] x.world) :=
        hm.quiet rfl (by simp [ofAuction, AuctionEvent.ofAuction]) rfl rfl (fun _ => rfl) rfl
          (Nat.le_refl _) rfl
      -- unpausing logs first, and then the next auction is made
      obtain ⟨es, hes⟩ := h.advance hunpaused.mirror
      exact ⟨_, hunpaused.trans (by simp [concerns]) hes⟩
  | checked =>
      refine ⟨_, hm.quiet (List.append_nil _).symm (by simp) rfl rfl (fun _ => rfl) rfl
        (Nat.le_refl _) ?_⟩
      split <;> rfl
  | refunded | paid =>
      refine ⟨_, hm.quiet (List.append_nil _).symm (by simp) rfl ?_ ?_ ?_ (Nat.le_refl _) rfl⟩
      · show createdIds (w.history ++ [_]) = _
        rw [createdIds_append]
        exact List.append_nil _
      · intro n
        show settledIn n (w.history ++ [_]) = _
        rw [settledIn_append]
        exact Bool.or_false _
      · show acceptedBids (w.history ++ [_]) = _
        rw [acceptedBids_append]
        exact List.append_nil _
  | placed =>
      cases hi with
      | placing _ hsender hn => exact ⟨_, hm.bid hsender fun h => hn (.inl h)⟩
  | released hdue _ hmove =>
      refine ⟨_, hm.release hmove hdue.begun hdue.unsettled ?_⟩
      split <;> rfl
  | rested => exact ⟨_, (hm.settle _).rest⟩
  | renewed h =>
      -- `AuctionSettled` is logged before the next auction is made
      have hsettled := hm.settle tx
      obtain ⟨es, hes⟩ := h.advance hsettled.mirror
      exact ⟨_, (hsettled.trans (by simp [concerns]) hes).rest⟩

end Nouns.Proof
