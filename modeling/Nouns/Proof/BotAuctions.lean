import Nouns.Bots.Ticks
import Nouns.Lib.Watching
import Mathlib.Logic.Relation

/-!
# What the bot tells of auctions

The cache is written before the handlers are told, so whatever fails and however often the bot is
started again, no auction is announced twice, no bid, and no auction's end. Where nothing fails
nothing is missed either: the bot tells what it sees as it changes.
-/

namespace Nouns.Bots

open Watching

def auctionTold : Announcement → Option Nat
  | .newAuction id => some id
  | _ => none

def bidTold : Announcement → Option String
  | .newBid _ bid => some bid.id
  | _ => none

def endingTold : Announcement → Option Nat
  | .auctionEndingSoon id => some id
  | _ => none

variable {works : Call → Bool} {bot bot' : Bot} {now : Int} {last : AuctionBids}

/-! ## A tick that may fail -/

/-- Nothing is done, or something is written down and then told. -/
def Noticed (c : Prop) (write : Redis → Redis) (a : Announcement) (bot bot' : Bot) : Prop :=
  bot' = bot ∨ (c ∧ bot' = ⟨write bot.redis, bot.sent ++ [a]⟩)

theorem inTurn_append (tasks tasks' : List Task) (bot : Bot) :
    inTurn (tasks ++ tasks') bot
      = if (inTurn tasks bot).2 then inTurn tasks' (inTurn tasks bot).1 else inTurn tasks bot := by
  induction tasks generalizing bot with
  | nil => rfl
  | cons task tasks ih =>
      rw [List.cons_append, inTurn, inTurn]
      dsimp only
      split
      · exact ih _
      · next h => rfl

/-- What is written down first is told once, if at all. -/
theorem noticed_told {c : Prop} [Decidable c] {key : String} {write : Redis → Redis}
    {a : Announcement} :
    Noticed c write a bot (whenever c [set works key write, handle works a] bot).1 := by
  unfold whenever
  by_cases hc : c
  · rw [if_pos hc]
    cases hset : works (.set key)
    · exact .inl (by simp [inTurn, set, hset])
    · refine .inr ⟨hc, ?_⟩
      cases hhandle : works (.handle a) <;> simp [inTurn, set, handle, hset, hhandle]
  · rw [if_neg hc]
    exact .inl rfl

theorem noticed_counted {c : Prop} [Decidable c] {key counter counter' : String}
    {write : Redis → Redis} {a : Announcement} :
    Noticed c write a bot (whenever c [incrementCounter works counter, set works key write,
      handle works a, incrementCounter works counter'] bot).1 := by
  unfold whenever
  by_cases hc : c
  · rw [if_pos hc]
    cases hcounter : works (.incrementCounter counter)
    · exact .inl (by simp [inTurn, incrementCounter, hcounter])
    cases hset : works (.set key)
    · exact .inl (by simp [inTurn, incrementCounter, set, hcounter, hset])
    · refine .inr ⟨hc, ?_⟩
      cases hhandle : works (.handle a) <;> cases hcounter' : works (.incrementCounter counter') <;>
        simp [inTurn, incrementCounter, set, handle, hcounter, hset, hhandle, hcounter']
  · rw [if_neg hc]
    exact .inl rfl

theorem inTurn_one (task : Task) (bot : Bot) : (inTurn [task] bot).1 = (task bot).1 := by
  rw [inTurn]
  dsimp only
  split
  · rfl
  · rfl

/-- What a tick notices: an auction, then a bid, then the end of an auction. -/
theorem processAuctionTick_shape (works : Call → Bool) (now : Int) (last : AuctionBids) (bot : Bot) :
    ∃ bot₁ bot₂, Noticed (bot.redis.getAuctionCache < last.id)
        (fun redis => { redis with auction := some last.id }) (.newAuction last.id) bot bot₁
      ∧ (bot₂ = bot₁ ∨ ∃ bid, last.bids.head? = some bid ∧ Noticed (bot.redis.getBidCache ≠ bid.id)
        (fun redis => { redis with bid := some bid.id }) (.newBid last.id bid) bot₁ bot₂)
      ∧ Noticed (last.endTime - now < 20 * 60 ∧ bot.redis.getAuctionEndingSoonCache < last.id)
        (fun redis => { redis with auctionEndingSoon := some last.id }) (.auctionEndingSoon last.id)
        bot₂ (processAuctionTick works now last bot) := by
  have hauction : Noticed (bot.redis.getAuctionCache < last.id)
      (fun redis => { redis with auction := some last.id }) (.newAuction last.id) bot
      (inTurn [whenever (bot.redis.getAuctionCache < last.id)
        [incrementCounter works "bots_auctions_discovered", updateAuctionCache works last.id,
          handle works (.newAuction last.id), incrementCounter works "bots_auction_cache_updates"],
        incrementCounter works "bots_auction_process_last_auction"] bot).1 := by
    rw [inTurn]
    dsimp only
    split
    · rw [inTurn_one]
      exact noticed_counted
    · exact noticed_counted
  have hbid : ∀ b : Bot, (inTurn (discoverBid works bot.redis.getBidCache last) b).1 = b
      ∨ ∃ bid, last.bids.head? = some bid ∧ Noticed (bot.redis.getBidCache ≠ bid.id)
        (fun redis => { redis with bid := some bid.id }) (.newBid last.id bid) b
        (inTurn (discoverBid works bot.redis.getBidCache last) b).1 := by
    intro b
    unfold discoverBid
    cases last.bids with
    | nil => exact .inl rfl
    | cons bid bids =>
        refine .inr ⟨bid, rfl, ?_⟩
        rw [inTurn_one]
        exact noticed_told
  have htick : processAuctionTick works now last bot = (inTurn (
      [whenever (bot.redis.getAuctionCache < last.id)
        [incrementCounter works "bots_auctions_discovered", updateAuctionCache works last.id,
          handle works (.newAuction last.id), incrementCounter works "bots_auction_cache_updates"],
        incrementCounter works "bots_auction_process_last_auction"]
      ++ discoverBid works bot.redis.getBidCache last
      ++ [whenever (last.endTime - now < 20 * 60
          ∧ bot.redis.getAuctionEndingSoonCache < last.id)
        [updateAuctionEndingSoonCache works last.id,
          handle works (.auctionEndingSoon last.id)]]) bot).1 := rfl
  rw [htick, inTurn_append, inTurn_append]
  generalize inTurn [whenever (bot.redis.getAuctionCache < last.id) _, _] bot = r at hauction
  obtain ⟨bot₁, returned⟩ := r
  cases returned
  · exact ⟨bot₁, bot₁, hauction, .inl rfl, .inl rfl⟩
  · have hnext := hbid bot₁
    generalize hr : inTurn (discoverBid works bot.redis.getBidCache last) bot₁ = r at hnext
    obtain ⟨bot₂, returned⟩ := r
    simp only [if_true]
    cases returned
    · exact ⟨bot₁, bot₂, hauction, hnext, .inl rfl⟩
    · refine ⟨bot₁, bot₂, hauction, hnext, ?_⟩
      rw [if_pos rfl, inTurn_one]
      exact noticed_told

/-! ## The other kind of tick -/

theorem inTurn_keeps {P : Bot → Prop} {tasks : List Task}
    (h : ∀ task ∈ tasks, ∀ b, P b → P (task b).1) (hbot : P bot) : P (inTurn tasks bot).1 := by
  induction tasks generalizing bot with
  | nil => exact hbot
  | cons task tasks ih =>
      rw [inTurn]
      dsimp only
      have hnext := h task List.mem_cons_self bot hbot
      split
      · exact ih (fun t ht => h t (List.mem_cons_of_mem _ ht)) hnext
      · exact hnext

/-- The cache has the same of auctions, and nothing more was told of them. -/
structure SameAuctions (bot bot' : Bot) : Prop where
  auction : bot'.redis.auction = bot.redis.auction
  bid : bot'.redis.bid = bot.redis.bid
  auctionEndingSoon : bot'.redis.auctionEndingSoon = bot.redis.auctionEndingSoon
  auctions : bot'.sent.filterMap auctionTold = bot.sent.filterMap auctionTold
  bids : bot'.sent.filterMap bidTold = bot.sent.filterMap bidTold
  endings : bot'.sent.filterMap endingTold = bot.sent.filterMap endingTold

theorem SameAuctions.refl (bot : Bot) : SameAuctions bot bot := ⟨rfl, rfl, rfl, rfl, rfl, rfl⟩

theorem SameAuctions.set {b : Bot} (h : SameAuctions bot b) {key : String} {write : Redis → Redis}
    (hwrite : ∀ r, (write r).auction = r.auction ∧ (write r).bid = r.bid
      ∧ (write r).auctionEndingSoon = r.auctionEndingSoon) :
    SameAuctions bot (Bots.set works key write b).1 := by
  obtain ⟨h₁, h₂, h₃⟩ := hwrite b.redis
  unfold Bots.set
  split
  · exact ⟨h₁.trans h.auction, h₂.trans h.bid, h₃.trans h.auctionEndingSoon, h.auctions, h.bids,
      h.endings⟩
  · exact h

theorem SameAuctions.tell {b : Bot} (h : SameAuctions bot b) {l : List Announcement}
    (hl : ∀ a ∈ l, auctionTold a = none ∧ bidTold a = none ∧ endingTold a = none) :
    SameAuctions bot { b with sent := b.sent ++ l } := by
  have hnone : ∀ {β : Type} {g : Announcement → Option β}, (∀ a ∈ l, g a = none) →
      (b.sent ++ l).filterMap g = b.sent.filterMap g := by
    intro β g hg
    rw [List.filterMap_append, List.filterMap_eq_nil_iff.mpr hg, List.append_nil]
  exact ⟨h.auction, h.bid, h.auctionEndingSoon, (hnone fun a ha => (hl a ha).1).trans h.auctions,
    (hnone fun a ha => (hl a ha).2.1).trans h.bids, (hnone fun a ha => (hl a ha).2.2).trans h.endings⟩

theorem SameAuctions.handle {b : Bot} (h : SameAuctions bot b) {a : Announcement}
    (ha : auctionTold a = none ∧ bidTold a = none ∧ endingTold a = none) :
    SameAuctions bot (Bots.handle works a b).1 := by
  refine h.tell (l := [a]) ?_
  intro a' ha'
  rw [List.mem_singleton.mp ha']
  exact ha

theorem SameAuctions.updateProposalCache {b : Bot} (h : SameAuctions bot b) (p : Proposal) :
    SameAuctions bot (Bots.updateProposalCache works p b).1 :=
  h.set fun _ => ⟨rfl, rfl, rfl⟩

theorem processProposal_sameAuctions (works : Call → Bool) (now : Int) (p : Proposal) (bot : Bot) :
    SameAuctions bot (processProposal works now p bot).1 := by
  have hwhen : ∀ {c : Prop} [Decidable c] {tasks : List Task},
      (∀ task ∈ tasks, ∀ b, SameAuctions bot b → SameAuctions bot (task b).1) →
      ∀ b, SameAuctions bot b → SameAuctions bot (whenever c tasks b).1 := by
    intro c _ tasks htasks b hb
    unfold whenever
    split
    · exact inTurn_keeps htasks hb
    · exact hb
  unfold processProposal
  refine inTurn_keeps ?_ (SameAuctions.refl bot)
  intro task htask b hb
  rcases List.mem_append.mp htask with htask | htask
  · split at htask
    · rw [List.mem_singleton.mp htask]
      exact hb.handle ⟨rfl, rfl, rfl⟩
    · simp only [List.mem_cons, List.not_mem_nil, or_false] at htask
      rcases htask with rfl | rfl | rfl
      · refine hwhen ?_ b hb
        intro task htask b hb
        rw [List.mem_singleton.mp htask]
        exact hb.handle ⟨rfl, rfl, rfl⟩
      · refine hb.tell ?_
        intro a ha
        obtain ⟨v, -, rfl⟩ := List.mem_map.mp ha
        exact ⟨rfl, rfl, rfl⟩
      · refine hwhen ?_ b hb
        intro task htask b hb
        simp only [List.mem_cons, List.not_mem_nil, or_false] at htask
        rcases htask with rfl | rfl
        · exact hb.handle ⟨rfl, rfl, rfl⟩
        · exact hb.set fun _ => ⟨rfl, rfl, rfl⟩
  · rw [List.mem_singleton.mp htask]
    exact hb.updateProposalCache p

theorem SameAuctions.trans {bot'' : Bot} (h : SameAuctions bot bot') (h' : SameAuctions bot' bot'') :
    SameAuctions bot bot'' :=
  ⟨h'.auction.trans h.auction, h'.bid.trans h.bid, h'.auctionEndingSoon.trans h.auctionEndingSoon,
    h'.auctions.trans h.auctions, h'.bids.trans h.bids, h'.endings.trans h.endings⟩

theorem governanceTick_sameAuctions (works : Call → Bool) (now : Int) (proposals : List Proposal)
    (bot : Bot) : SameAuctions bot (processGovernanceTick works now proposals bot) := by
  unfold processGovernanceTick
  induction proposals generalizing bot with
  | nil => exact .refl bot
  | cons p proposals ih => exact (processProposal_sameAuctions works now p bot).trans (ih _)

theorem setupGovernance_sameAuctions (works : Call → Bool) (proposals : List Proposal) (bot : Bot) :
    SameAuctions bot (setupGovernance works proposals bot) := by
  unfold setupGovernance
  induction proposals generalizing bot with
  | nil => exact .refl bot
  | cons p proposals ih => exact ((SameAuctions.refl bot).updateProposalCache p).trans (ih _)

/-! ## Once -/

/-- What the subgraph answers, and the bids it has answered with so far, the last one first. -/
structure AuctionFeed where
  last : AuctionBids
  shown : List String

/-- It goes on to a later answer: no earlier auction, and no bid that it has left behind. -/
structure AuctionFeed.Later (feed feed' : AuctionFeed) : Prop where
  id_le : feed.last.id ≤ feed'.last.id
  bids : match feed'.last.bids.head? with
    | none => feed'.shown = feed.shown
    | some bid => (feed.shown.head? = some bid.id ∧ feed'.shown = feed.shown)
        ∨ (bid.id ∉ feed.shown ∧ feed'.shown = bid.id :: feed.shown)

/--
The bot beside the subgraph: the answer changes, a tick of either kind is made, or the bot is set
up again, its cache being what it was. Any call may fail. One is over before another begins.
-/
inductive BotStep : AuctionFeed × Bot → AuctionFeed × Bot → Prop
  | index {feed feed' : AuctionFeed} {bot : Bot} (h : feed.Later feed') : BotStep (feed, bot) (feed', bot)
  | tick {feed : AuctionFeed} {bot : Bot} (works : Call → Bool) (now : Int) :
      BotStep (feed, bot) (feed, processAuctionTick works now feed.last bot)
  | governance {feed : AuctionFeed} {bot : Bot} (works : Call → Bool) (now : Int)
      (proposals : List Proposal) :
      BotStep (feed, bot) (feed, processGovernanceTick works now proposals bot)
  | setup {feed : AuctionFeed} {bot : Bot} (works : Call → Bool) :
      BotStep (feed, bot) (feed, setupAuction works feed.last bot)
  | setupGovernance {feed : AuctionFeed} {bot : Bot} (works : Call → Bool)
      (proposals : List Proposal) : BotStep (feed, bot) (feed, setupGovernance works proposals bot)

/-- Numbers are told in order, up to the one that is cached. -/
structure Ascending (told : List Nat) (cached : Nat) : Prop where
  pairwise : told.Pairwise (· < ·)
  le : ∀ n ∈ told, n ≤ cached

theorem Ascending.tell {told : List Nat} {cached n : Nat} (h : Ascending told cached)
    (hn : cached < n) : Ascending (told ++ [n]) n := by
  refine ⟨List.pairwise_append.mpr ⟨h.pairwise, List.pairwise_singleton _ _, ?_⟩, ?_⟩
  · intro m hm k hk
    rw [List.mem_singleton.mp hk]
    exact Nat.lt_of_le_of_lt (h.le m hm) hn
  · intro m hm
    rcases List.mem_append.mp hm with hm | hm
    · exact Nat.le_of_lt (Nat.lt_of_le_of_lt (h.le m hm) hn)
    · exact Nat.le_of_eq (List.mem_singleton.mp hm)

/-- The bids told are among those that were shown when the one that is cached was the last. -/
structure BidsOnce (shown told : List String) (cached : Option String) : Prop where
  older : ∃ older, older <:+ shown ∧ told.reverse.Sublist older ∧ cached = older.head?

/-- Nothing has been told twice. -/
structure Once (feed : AuctionFeed) (bot : Bot) : Prop where
  auctions : Ascending (bot.sent.filterMap auctionTold) bot.redis.getAuctionCache
  cached_le : bot.redis.getAuctionCache ≤ feed.last.id
  endings : Ascending (bot.sent.filterMap endingTold) bot.redis.getAuctionEndingSoonCache
  nodup : feed.shown.Nodup
  head : ∀ bid, feed.last.bids.head? = some bid → feed.shown.head? = some bid.id
  bids : BidsOnce feed.shown (bot.sent.filterMap bidTold) bot.redis.bid

variable {feed feed' : AuctionFeed}

theorem filterMap_tell {β : Type} (g : Announcement → Option β) (sent : List Announcement)
    (a : Announcement) : (sent ++ [a]).filterMap g = sent.filterMap g ++ (g a).toList := by
  rw [List.filterMap_append, List.filterMap_cons, List.filterMap_nil]
  cases g a <;> rfl

/-- An auction is announced that is later than all before. -/
theorem Once.discover (h : Once feed bot) (hn : Noticed (bot.redis.getAuctionCache < feed.last.id)
      (fun redis => { redis with auction := some feed.last.id }) (.newAuction feed.last.id) bot bot') :
    Once feed bot' ∧ bot'.redis.bid = bot.redis.bid
      ∧ bot'.redis.auctionEndingSoon = bot.redis.auctionEndingSoon := by
  rcases hn with rfl | ⟨hlt, rfl⟩
  · exact ⟨h, rfl, rfl⟩
  · refine ⟨⟨?_, Nat.le_refl _, ?_, h.nodup, h.head, ?_⟩, rfl, rfl⟩
    · rw [filterMap_tell]
      exact h.auctions.tell hlt
    · rw [filterMap_tell]
      exact (List.append_nil _).symm ▸ h.endings
    · rw [filterMap_tell]
      exact (List.append_nil _).symm ▸ h.bids

/-- A bid is announced that was not shown when the one before was. -/
theorem Once.bid (h : Once feed bot) {bid : Bid} (hbid : feed.last.bids.head? = some bid)
    (hn : Noticed (bot.redis.getBidCache ≠ bid.id) (fun redis => { redis with bid := some bid.id })
      (.newBid feed.last.id bid) bot bot') :
    Once feed bot' ∧ bot'.redis.auctionEndingSoon = bot.redis.auctionEndingSoon := by
  rcases hn with rfl | ⟨hne, rfl⟩
  · exact ⟨h, rfl⟩
  · refine ⟨⟨?_, h.cached_le, ?_, h.nodup, h.head, ?_⟩, rfl⟩
    · rw [filterMap_tell]
      exact (List.append_nil _).symm ▸ h.auctions
    · rw [filterMap_tell]
      exact (List.append_nil _).symm ▸ h.endings
    · rw [filterMap_tell]
      obtain ⟨older, hsuffix, hsub, hcached⟩ := h.bids
      have hhead := h.head bid hbid
      refine ⟨feed.shown, List.suffix_refl _, ?_, hhead.symm⟩
      show (_ ++ [bid.id]).reverse.Sublist _
      rw [List.reverse_append]
      cases hshown : feed.shown with
      | nil => rw [hshown] at hhead; cases hhead
      | cons first rest =>
          rw [hshown] at hhead hsuffix
          obtain rfl := Option.some.inj hhead
          rcases List.suffix_cons_iff.mp hsuffix with rfl | hrest
          · exact absurd (congrArg (Option.getD · "") hcached) hne
          · exact (hsub.trans hrest.sublist).cons_cons _

/-- An auction's end is announced that is later than all before. -/
theorem Once.ending (h : Once feed bot) {c : Prop}
    (hn : Noticed (c ∧ bot.redis.getAuctionEndingSoonCache < feed.last.id)
      (fun redis => { redis with auctionEndingSoon := some feed.last.id })
      (.auctionEndingSoon feed.last.id) bot bot') : Once feed bot' := by
  rcases hn with rfl | ⟨⟨-, hlt⟩, rfl⟩
  · exact h
  · refine ⟨?_, h.cached_le, ?_, h.nodup, h.head, ?_⟩
    · rw [filterMap_tell]
      exact (List.append_nil _).symm ▸ h.auctions
    · rw [filterMap_tell]
      exact h.endings.tell hlt
    · rw [filterMap_tell]
      exact (List.append_nil _).symm ▸ h.bids

theorem Once.tick (h : Once feed bot) (works : Call → Bool) (now : Int) :
    Once feed (processAuctionTick works now feed.last bot) := by
  obtain ⟨bot₁, bot₂, hauction, hbid, hending⟩ :=
    processAuctionTick_shape works now feed.last bot
  obtain ⟨h₁, hbids₁, hendings₁⟩ := h.discover hauction
  have h₂ : Once feed bot₂ ∧ bot₂.redis.auctionEndingSoon = bot₁.redis.auctionEndingSoon := by
    rcases hbid with rfl | ⟨bid, hhead, hbid⟩
    · exact ⟨h₁, rfl⟩
    · refine h₁.bid hhead ?_
      unfold Redis.getBidCache at hbid ⊢
      rw [hbids₁]
      exact hbid
  obtain ⟨h₂, hendings₂⟩ := h₂
  refine h₂.ending (c := feed.last.endTime - now < 20 * 60) ?_
  unfold Redis.getAuctionEndingSoonCache at hending ⊢
  rw [hendings₂, hendings₁]
  exact hending

theorem Once.index (h : Once feed bot) (hl : feed.Later feed') : Once feed' bot := by
  have hbids := hl.bids
  rcases hhead : feed'.last.bids.head? with - | bid
  · rw [hhead] at hbids
    refine ⟨h.auctions, h.cached_le.trans hl.id_le, h.endings, hbids ▸ h.nodup, ?_, hbids ▸ h.bids⟩
    intro bid hbid
    rw [hhead] at hbid
    cases hbid
  · rw [hhead] at hbids
    have hself : feed'.shown.head? = some bid.id ∧ feed'.shown.Nodup ∧ feed.shown <:+ feed'.shown := by
      rcases hbids with ⟨hsame, heq⟩ | ⟨hnew, heq⟩
      · rw [heq]
        exact ⟨hsame, h.nodup, List.suffix_refl _⟩
      · rw [heq]
        exact ⟨rfl, List.nodup_cons.mpr ⟨hnew, h.nodup⟩, List.suffix_cons _ _⟩
    obtain ⟨hfirst, hnodup, hsuffix⟩ := hself
    obtain ⟨older, hold, hsub, hcached⟩ := h.bids
    refine ⟨h.auctions, h.cached_le.trans hl.id_le, h.endings, hnodup, ?_,
      ⟨older, hold.trans hsuffix, hsub, hcached⟩⟩
    intro bid' hbid'
    obtain rfl := Option.some.inj (hhead.symm.trans hbid')
    exact hfirst

theorem Once.setup (h : Once feed bot) (works : Call → Bool) :
    Once feed (setupAuction works feed.last bot) := by
  unfold setupAuction updateAuctionCache set
  split
  · exact ⟨⟨h.auctions.pairwise, fun n hn => (h.auctions.le n hn).trans h.cached_le⟩,
      Nat.le_refl _, h.endings, h.nodup, h.head, h.bids⟩
  · exact h

theorem Once.same (h : Once feed bot) (hs : SameAuctions bot bot') : Once feed bot' := by
  have hauction : bot'.redis.getAuctionCache = bot.redis.getAuctionCache :=
    congrArg (Option.getD · 0) hs.auction
  have hending : bot'.redis.getAuctionEndingSoonCache = bot.redis.getAuctionEndingSoonCache :=
    congrArg (Option.getD · 0) hs.auctionEndingSoon
  refine ⟨?_, hauction.symm ▸ h.cached_le, ?_, h.nodup, h.head, ?_⟩
  · rw [hs.auctions, hauction]
    exact h.auctions
  · rw [hs.endings, hending]
    exact h.endings
  · rw [hs.bids, hs.bid]
    exact h.bids

theorem Once.step (h : Once feed bot) {feed' : AuctionFeed} {bot' : Bot}
    (hs : BotStep (feed, bot) (feed', bot')) : Once feed' bot' := by
  cases hs with
  | index hl => exact h.index hl
  | tick works now => exact h.tick works now
  | governance works now proposals => exact h.same (governanceTick_sameAuctions works now proposals bot)
  | setup works => exact h.setup works
  | setupGovernance works proposals =>
      exact h.same (setupGovernance_sameAuctions works proposals bot)

/-- The subgraph as the bot first finds it. -/
def AuctionFeed.start (last : AuctionBids) : AuctionFeed :=
  ⟨last, (last.bids.head?.map Bid.id).toList⟩

/-- A bot with an empty cache. -/
def Bot.start : Bot := ⟨⟨none, none, none, fun _ => none, fun _ => false⟩, []⟩

theorem Once.start (last : AuctionBids) : Once (.start last) .start := by
  refine ⟨⟨.nil, fun _ h => absurd h List.not_mem_nil⟩, Nat.zero_le _,
    ⟨.nil, fun _ h => absurd h List.not_mem_nil⟩, ?_, ?_, ⟨[], List.nil_suffix, .slnil, rfl⟩⟩
  · unfold AuctionFeed.start
    cases last.bids.head? with
    | none => exact List.nodup_nil
    | some bid => exact List.nodup_singleton _
  · intro bid hbid
    show ((last.bids.head?.map Bid.id).toList).head? = _
    rw [show last.bids.head? = some bid from hbid]
    rfl

/--
**Nothing is told twice** by ticks that do not overlap. However the subgraph's answers go on,
whichever calls fail, and however often the bot is set up again: the auctions it announces are later
and later ones, and so are those whose end it announces, and the bids it announces are different
ones, in the order in which they were shown.
-/
theorem auctions_told_once (last : AuctionBids) (feed : AuctionFeed) (bot : Bot)
    (h : Relation.ReflTransGen BotStep (.start last, .start) (feed, bot)) :
    (bot.sent.filterMap auctionTold).Pairwise (· < ·)
      ∧ (bot.sent.filterMap endingTold).Pairwise (· < ·)
      ∧ (bot.sent.filterMap bidTold).Nodup
      ∧ (bot.sent.filterMap bidTold).reverse.Sublist feed.shown := by
  have honce : ∀ x, Relation.ReflTransGen BotStep (.start last, .start) x → Once x.1 x.2 := by
    intro x hx
    induction hx with
    | refl => exact .start last
    | tail _ hs ih => exact ih.step hs
  obtain ⟨hauctions, -, hendings, hnodup, -, ⟨older, hsuffix, hsub, -⟩⟩ := honce _ h
  have hshown := hsub.trans hsuffix.sublist
  exact ⟨hauctions.pairwise, hendings.pairwise, List.nodup_reverse.mp (hnodup.sublist hshown), hshown⟩

/-- Auction 1, with a bid and without. -/
def smallAuction (bids : List String) : AuctionBids where
  id := 1
  endTime := 86400
  bids := bids.map fun id => ⟨id, "1", ⟨"0x01"⟩⟩

/-- What works when the handlers do not. -/
def handlersFail : Call → Bool
  | .handle _ => false
  | _ => true

/-- The handlers fail, the bot is set up again and ticks on: auction and bid are told of once. -/
theorem auctions_told_once_retried : ∃ bot : Bot, bot.sent.filterMap auctionTold = [1]
    ∧ bot.sent.filterMap bidTold = ["b"]
    ∧ (bot.sent.filterMap auctionTold).Pairwise (· < ·) ∧ (bot.sent.filterMap bidTold).Nodup := by
  have hlater : (AuctionFeed.start (smallAuction [])).Later ⟨smallAuction ["b"], ["b"]⟩ :=
    ⟨Nat.le_refl _, .inr ⟨List.not_mem_nil, rfl⟩⟩
  have hruns : Relation.ReflTransGen BotStep (.start (smallAuction []), .start) _ :=
    .tail (.tail (.tail (.tail (.tail (.tail .refl (.tick handlersFail 0))
      (.setup allWork)) (.tick allWork 30)) (.index hlater)) (.tick handlersFail 60)) (.tick allWork 90)
  obtain ⟨hauctions, -, hbids, -⟩ := auctions_told_once (smallAuction []) _ _ hruns
  exact ⟨_, rfl, rfl, hauctions, hbids⟩

/-! ## Nothing is missed -/

/-- What is noticed when every call comes back. -/
def notice (c : Prop) [Decidable c] (write : Redis → Redis) (a : Announcement) (bot : Bot) : Bot :=
  if c then ⟨write bot.redis, bot.sent ++ [a]⟩ else bot

/-- A tick in which every call comes back. -/
theorem processAuctionTick_allWork (now : Int) (last : AuctionBids) (bot : Bot) :
    processAuctionTick allWork now last bot
      = notice (last.endTime - now < 20 * 60 ∧ bot.redis.getAuctionEndingSoonCache < last.id)
        (fun redis => { redis with auctionEndingSoon := some last.id }) (.auctionEndingSoon last.id)
        (match last.bids with
        | [] => notice (bot.redis.getAuctionCache < last.id)
            (fun redis => { redis with auction := some last.id }) (.newAuction last.id) bot
        | bid :: _ => notice (bot.redis.getBidCache ≠ bid.id)
            (fun redis => { redis with bid := some bid.id }) (.newBid last.id bid)
            (notice (bot.redis.getAuctionCache < last.id)
              (fun redis => { redis with auction := some last.id }) (.newAuction last.id) bot)) := by
  have htold : ∀ {c : Prop} [Decidable c] (key : String) (write : Redis → Redis) (a : Announcement)
      (b : Bot), whenever c [set allWork key write, handle allWork a] b
        = (notice c write a b, true) := by
    intro c _ key write a b
    unfold whenever notice
    split
    · rfl
    · rfl
  have hcounted : ∀ {c : Prop} [Decidable c] (counter key counter' : String)
      (write : Redis → Redis) (a : Announcement) (b : Bot),
      whenever c [incrementCounter allWork counter, set allWork key write, handle allWork a,
        incrementCounter allWork counter'] b = (notice c write a b, true) := by
    intro c _ counter key counter' write a b
    unfold whenever notice
    split
    · rfl
    · rfl
  unfold processAuctionTick discoverBid updateAuctionCache updateBidCache updateAuctionEndingSoonCache
  cases last.bids with
  | nil =>
      simp only [List.cons_append, List.nil_append, List.append_nil, inTurn, hcounted, htold]
      rfl
  | cons bid bids =>
      simp only [List.cons_append, List.nil_append, inTurn, hcounted, htold]
      rfl

theorem notice_told {β : Type} (g : Announcement → Option β) {c : Prop} [Decidable c]
    {write : Redis → Redis} {a : Announcement} : (notice c write a bot).sent.filterMap g
      = bot.sent.filterMap g ++ if c then (g a).toList else [] := by
  unfold notice
  split
  · exact filterMap_tell g bot.sent a
  · exact (List.append_nil _).symm

theorem notice_redis {c : Prop} [Decidable c] {write : Redis → Redis} {a : Announcement} :
    (notice c write a bot).redis = if c then write bot.redis else bot.redis := by
  unfold notice
  split
  · rfl
  · rfl

theorem tick_told {β : Type} (g : Announcement → Option β) (now : Int) (last : AuctionBids)
    (bot : Bot) : (processAuctionTick allWork now last bot).sent.filterMap g
      = bot.sent.filterMap g
        ++ (if bot.redis.getAuctionCache < last.id then (g (.newAuction last.id)).toList else [])
        ++ (match last.bids with
          | [] => []
          | bid :: _ => if bot.redis.getBidCache ≠ bid.id then (g (.newBid last.id bid)).toList
              else [])
        ++ (if last.endTime - now < 20 * 60 ∧ bot.redis.getAuctionEndingSoonCache < last.id
          then (g (.auctionEndingSoon last.id)).toList else []) := by
  rw [processAuctionTick_allWork, notice_told]
  cases last.bids with
  | nil => rw [notice_told, List.append_nil]
  | cons bid bids => rw [notice_told, notice_told]

theorem tick_caches (now : Int) (last : AuctionBids) (bot : Bot) :
    (processAuctionTick allWork now last bot).redis.getAuctionCache
        = (if bot.redis.getAuctionCache < last.id then last.id else bot.redis.getAuctionCache)
      ∧ (processAuctionTick allWork now last bot).redis.getBidCache
        = (match last.bids with | [] => bot.redis.getBidCache | bid :: _ => bid.id)
      ∧ (processAuctionTick allWork now last bot).redis.getAuctionEndingSoonCache
        = (if last.endTime - now < 20 * 60 ∧ bot.redis.getAuctionEndingSoonCache < last.id
          then last.id else bot.redis.getAuctionEndingSoonCache) := by
  rw [processAuctionTick_allWork, notice_redis]
  unfold Redis.getAuctionCache Redis.getBidCache Redis.getAuctionEndingSoonCache
  cases last.bids with
  | nil =>
      rw [notice_redis]
      refine ⟨?_, ?_, ?_⟩ <;> split_ifs <;> rfl
  | cons bid bids =>
      rw [notice_redis, notice_redis]
      refine ⟨?_, ?_, ?_⟩ <;> split_ifs <;> simp_all

/-- A tick, with the time and the answer of the subgraph. -/
structure AuctionPoll where
  now : Int
  last : AuctionBids

/-- The ticks, one after the other. -/
def Bot.pollAuctions (bot : Bot) (polls : List AuctionPoll) : Bot :=
  polls.foldl (fun bot poll => processAuctionTick allWork poll.now poll.last bot) bot

/-- The auction that is about to end. -/
def AuctionPoll.ending (poll : AuctionPoll) : Option Nat :=
  if poll.last.endTime - poll.now < 20 * 60 then some poll.last.id else none

/-- The bid that is shown. -/
def AuctionPoll.bid (poll : AuctionPoll) : Option String := poll.last.bids.head?.map Bid.id

/--
**What the bot tells of auctions.** Whatever it had cached and told before, it ticks any number of
times, one tick after the other, and all its calls come back. It announces an auction when it sees a
later one than before, a bid when it sees another one than before, and the end of an auction when it
first sees it near.
-/
theorem auctions_told (bot : Bot) (polls : List AuctionPoll) :
    (bot.pollAuctions polls).sent.filterMap auctionTold = bot.sent.filterMap auctionTold
        ++ ((polls.map fun poll => poll.last.id).destutter' (· < ·) bot.redis.getAuctionCache).tail
      ∧ (bot.pollAuctions polls).sent.filterMap bidTold = bot.sent.filterMap bidTold
        ++ ((polls.filterMap AuctionPoll.bid).destutter' (· ≠ ·) bot.redis.getBidCache).tail
      ∧ (bot.pollAuctions polls).sent.filterMap endingTold = bot.sent.filterMap endingTold
        ++ ((polls.filterMap AuctionPoll.ending).destutter' (· < ·)
          bot.redis.getAuctionEndingSoonCache).tail := by
  refine ⟨?_, ?_, ?_⟩
  · have hwatch := foldl_watch (R := (· < ·))
      (fun bot (poll : AuctionPoll) => processAuctionTick allWork poll.now poll.last bot)
      (fun _ => True) (fun bot => bot.redis.getAuctionCache)
      (fun bot => bot.sent.filterMap auctionTold) (fun poll => some poll.last.id)
      (fun _ _ _ => trivial) ?_ ?_ (s := bot) trivial polls
    · rw [watch_eq, List.filterMap_eq_map'] at hwatch
      exact hwatch
    · intro b poll _ hsame
      have hle := hsame _ rfl
      rw [tick_told, (tick_caches poll.now poll.last b).1, if_neg hle, if_neg hle]
      refine ⟨?_, rfl⟩
      cases poll.last.bids <;> simp [auctionTold]
    · intro b poll v _ hv hlt
      obtain rfl := Option.some.inj hv
      rw [tick_told, (tick_caches poll.now poll.last b).1, if_pos hlt, if_pos hlt]
      refine ⟨?_, rfl⟩
      cases poll.last.bids <;> simp [auctionTold]
  · have hwatch := foldl_watch (R := (· ≠ ·))
      (fun bot (poll : AuctionPoll) => processAuctionTick allWork poll.now poll.last bot)
      (fun _ => True) (fun bot => bot.redis.getBidCache)
      (fun bot => bot.sent.filterMap bidTold) AuctionPoll.bid
      (fun _ _ _ => trivial) ?_ ?_ (s := bot) trivial polls
    · rw [watch_eq] at hwatch
      exact hwatch
    · intro b poll _ hsame
      unfold AuctionPoll.bid at hsame
      rw [tick_told, (tick_caches poll.now poll.last b).2.1]
      cases hbids : poll.last.bids with
      | nil => simp [bidTold]
      | cons bid bids =>
          have heq := not_not.mp (hsame bid.id (by rw [hbids]; rfl))
          simp [bidTold, heq]
    · intro b poll v _ hv hne
      unfold AuctionPoll.bid at hv
      rw [tick_told, (tick_caches poll.now poll.last b).2.1]
      cases hbids : poll.last.bids with
      | nil =>
          rw [hbids] at hv
          cases hv
      | cons bid bids =>
          rw [hbids] at hv
          obtain rfl := Option.some.inj hv
          simp [bidTold, hne]
  · have hwatch := foldl_watch (R := (· < ·))
      (fun bot (poll : AuctionPoll) => processAuctionTick allWork poll.now poll.last bot)
      (fun _ => True) (fun bot => bot.redis.getAuctionEndingSoonCache)
      (fun bot => bot.sent.filterMap endingTold) AuctionPoll.ending
      (fun _ _ _ => trivial) ?_ ?_ (s := bot) trivial polls
    · rw [watch_eq] at hwatch
      exact hwatch
    · intro b poll _ hsame
      have hnot : ¬ (poll.last.endTime - poll.now < 20 * 60
          ∧ b.redis.getAuctionEndingSoonCache < poll.last.id) := fun h =>
        hsame poll.last.id (if_pos h.1) h.2
      rw [tick_told, (tick_caches poll.now poll.last b).2.2, if_neg hnot, if_neg hnot]
      refine ⟨?_, rfl⟩
      cases poll.last.bids <;> simp [endingTold]
    · intro b poll v _ hv hlt
      unfold AuctionPoll.ending at hv
      split at hv
      · next hnear =>
          obtain rfl := Option.some.inj hv
          have hboth : poll.last.endTime - poll.now < 20 * 60
              ∧ b.redis.getAuctionEndingSoonCache < poll.last.id := ⟨hnear, hlt⟩
          rw [tick_told, (tick_caches poll.now poll.last b).2.2, if_pos hboth, if_pos hboth]
          refine ⟨?_, rfl⟩
          cases poll.last.bids <;> simp [endingTold]
      · cases hv

end Nouns.Bots
