import Nouns.Proof.HouseMirror

/-!
# The subgraph's auctions and bids

An auction's entity follows the auction while it is on and is left alone afterwards, but for
the flag of a settlement that was pending. Bids are another matter: they are stored by
transaction, so one is lost whenever a transaction makes two, and only then.
-/

namespace Nouns.Proof

open Evm CallMachine EventLog KeyedLog Subgraph

variable {env : AuctionEnv} {d : AuctionDeployment env} {x y : AuctionConfig} {l : AuctionLabel}
  {w w' : AuctionWorld} {p q : Phase} {st : HouseStore} {filed : List (Nat × Bid)}
  {tx : EthTransaction} {es : List ChainEvent} {R : Nat → Nat → Prop} {n : Nat}

/-! ## One auction after another -/

/-- The auction but for whether it is settled. -/
def termsOf (w : AuctionWorld) : Subgraph.Auction := (entity w.house.auction).terms

theorem nounId_of_terms (h : termsOf w' = termsOf w) :
    w'.house.auction.nounId = w.house.auction.nounId := congrArg Subgraph.Auction.noun h

theorem startTime_of_terms (h : termsOf w' = termsOf w) :
    w'.house.auction.startTime = w.house.auction.startTime := congrArg Subgraph.Auction.startTime h

/-- Whether a step reopens the house. -/
def reopens : AuctionLabel → Bool
  | .enter ⟨_, .unpause _⟩ => true
  | _ => false

/-- What an act does to the auction: nothing, or it gets a bid, or another takes its place. -/
inductive Shift (l : AuctionLabel) (w : AuctionWorld) (q : Phase) (w' : AuctionWorld) : Prop where
  | steady : termsOf w' = termsOf w → createdIds w'.history = createdIds w.history → Shift l w q w'
  | bid : w'.house.auction.nounId = w.house.auction.nounId →
      w'.house.auction.startTime = w.house.auction.startTime →
      createdIds w'.history = createdIds w.history → q = .outside →
      w.log.length < w'.log.length → Shift l w q w'
  | opened : createdIds w'.history = createdIds w.history ++ [w'.house.auction.nounId] →
      w'.house.auction.nounId ∉ createdIds w.history → w'.house.auction.startTime ≠ 0 →
      q = .outside ∨ reopens l = true → w.log.length < w'.log.length → Shift l w q w'

theorem Creates.shift {view : View} (h : Creates env view w w') (hc : 0 < w.block.timestamp)
    (hdrawn : ∀ n ∈ createdIds w.history, n < w.token.currentNounId_)
    (hq : q = .outside ∨ reopens l = true) : Shift l w q w' := by
  cases h with
  | @opened token nounId endTime hmint =>
      obtain ⟨-, hge, -⟩ := mint_told hmint
      refine .opened createdIds_append ?_ (Nat.ne_of_gt hc) hq ?_
      · intro hin
        exact Nat.lt_irrefl _ (Nat.lt_of_lt_of_le (hdrawn nounId hin) hge)
      · show w.log.length < ((w.log ++ _) ++ [_]).length
        rw [List.length_append, List.length_append, List.length_singleton]
        omega
  | halted => exact .steady rfl rfl

theorem HouseAct.shift (ha : HouseAct env x l (p, w) (q, w')) (hi : HouseInv R p w) (hc : Clock w)
    (hm : HouseMirror st filed p w) : Shift l w q w' := by
  have hnoted : ∀ {d : AuctionDeed}, createdId d = none →
      createdIds (w.history ++ [d]) = createdIds w.history := by
    intro d hd
    rw [createdIds_append]
    simp [createdIds, hd]
  cases ha with
  | calm _ h =>
      obtain ⟨hauction, -, -, -, hhistory⟩ := h.frame
      exact .steady (by rw [termsOf, hauction]; rfl) (by rw [hhistory])
  | tick | checked | rested => exact .steady rfl rfl
  | reopened hl _ _ _ h =>
      -- unpausing is what may open an auction outside a settlement
      have hopens : reopens l = true := by
        rw [hl]
        rfl
      cases h.shift (l := l) (q := p) hc.begun hm.drawn (.inr hopens) with
      | steady h1 h2 => exact .steady h1 h2
      | bid h1 h2 h3 h4 h5 => exact .bid h1 h2 h3 h4 (by simp [logged] at h5; omega)
      | opened h1 h2 h3 h4 h5 => exact .opened h1 h2 h3 h4 (by simp [logged] at h5; omega)
  | refunded | paid => exact .steady rfl (hnoted rfl)
  | @placed _ sender value auction_ =>
      refine .bid rfl rfl (hnoted rfl) rfl ?_
      show w.log.length < (w.log ++ (bidEvents sender value auction_ w).map ChainEvent.house).length
      rw [List.length_append, List.length_map]
      unfold bidEvents
      split <;> simp
  | released => exact .steady rfl (hnoted rfl)
  | renewed h =>
      cases h.shift (l := l) (q := .outside) hc.begun hm.drawn (.inl rfl) with
      | steady h1 h2 => exact .steady h1 h2
      | bid h1 h2 h3 h4 h5 =>
          exact .bid h1 h2 h3 h4 (by simp [settledLog, logged, atRest] at h5 ⊢; omega)
      | opened h1 h2 h3 h4 h5 =>
          exact .opened h1 h2 h3 h4 (by simp [settledLog, logged, atRest] at h5 ⊢; omega)

/-- Only the auction that is on is settled. -/
theorem HouseAct.settledIn_other (ha : HouseAct env x l (p, w) (q, w'))
    (hn : w.house.auction.nounId ≠ n) : settledIn n w'.history = settledIn n w.history := by
  have hnoted : ∀ {h : List AuctionDeed} {d : AuctionDeed}, settles n d = false →
      settledIn n (h ++ [d]) = settledIn n h := by
    intro h d hd
    rw [settledIn_append]
    simp [settledIn, hd]
  cases ha with
  | calm _ h => rw [h.frame.2.2.2.2]
  | tick | checked | rested => rfl
  | refunded | paid | placed => exact hnoted rfl
  | reopened _ _ _ _ h | renewed h =>
      cases h with
      | opened => exact hnoted rfl
      | halted => rfl
  | released => exact hnoted (decide_eq_false hn)

/-- Outside, nothing has been done in this step. -/
theorem HouseAct.from_outside (ha : HouseAct env x l (.outside, w) (q, w')) : w = x.world := by
  cases ha <;> rfl

/-! ## Steps -/

/-- Noun `n` was on auction, another is now, and the store has these terms of it. -/
structure Past (st : HouseStore) (w : AuctionWorld) (n : Nat) (t : Subgraph.Auction) : Prop where
  created : n ∈ createdIds w.history
  other : w.house.auction.nounId ≠ n
  stored : (st.auctions n).map Subgraph.Auction.terms = some t

/-- An act leaves the auctions of the past alone, and puts there the one whose place is taken. -/
theorem Advance.past (ha : Advance st filed tx w es q w') (hs : Shift l w q w')
    {t : Subgraph.Auction} (h : Past st w n t) : Past (st.after (tagged tx es)) w' n t := by
  have hother : w'.house.auction.nounId ≠ n := by
    cases hs with
    | steady hterms => exact nounId_of_terms hterms ▸ h.other
    | bid hid => exact hid ▸ h.other
    | opened _ hfresh => exact fun heq => hfresh (heq ▸ h.created)
  refine ⟨?_, hother, ?_⟩
  · cases hs with
    | steady _ hids => exact hids ▸ h.created
    | bid _ _ hids => exact hids ▸ h.created
    | opened hids => exact hids ▸ List.mem_append_left _ h.created
  · rw [HouseStore.after_terms, h.stored]
    intro e he hn
    obtain ⟨e', he', rfl⟩ := List.mem_map.mp he
    exact hother (ha.concerns e' he' n hn).symm

theorem Advance.replaced (ha : Advance st filed tx w es q w') (hm : HouseMirror st filed p w)
    (hbegun : w.house.auction.startTime ≠ 0)
    (hids : createdIds w'.history = createdIds w.history ++ [w'.house.auction.nounId])
    (hfresh : w'.house.auction.nounId ∉ createdIds w.history) :
    Past (st.after (tagged tx es)) w' w.house.auction.nounId (termsOf w) := by
  have hmem := hm.begun hbegun
  have hother : w'.house.auction.nounId ≠ w.house.auction.nounId := fun heq => hfresh (heq ▸ hmem)
  refine ⟨hids ▸ List.mem_append_left _ hmem, hother, ?_⟩
  rw [HouseStore.after_terms, hm.terms hbegun]
  · rfl
  · intro e he hn
    obtain ⟨e', he', rfl⟩ := List.mem_map.mp he
    exact hother (ha.concerns e' he' _ hn).symm

/-- What a step from `x` has done so far: what it logged, and what became of the auction of `x`. -/
structure StepMirror (x : AuctionConfig) (l : AuctionLabel) (st : HouseStore)
    (filed : List (Nat × Bid)) (tx : EthTransaction) (p : Phase) (w : AuctionWorld)
    (es : List ChainEvent) : Prop where
  log : w.log = x.world.log ++ es
  mirror : HouseMirror (st.after (tagged tx es)) (filed ++ bidsFiled (tagged tx es)) p w
  past : ∀ n t, Past st x.world n t → Past (st.after (tagged tx es)) w n t
    ∧ settledIn n w.history = settledIn n x.world.history
  present : x.world.house.auction.startTime ≠ 0 →
    termsOf w = termsOf x.world
      ∨ (w.house.auction.nounId = x.world.house.auction.nounId
        ∧ w.house.auction.startTime = x.world.house.auction.startTime ∧ p = .outside
        ∧ x.world.log.length < w.log.length)
      ∨ Past (st.after (tagged tx es)) w x.world.house.auction.nounId (termsOf x.world)
  created : reopens l = false → createdIds w.history = createdIds x.world.history
    ∨ (createdIds w.history = createdIds x.world.history ++ [w.house.auction.nounId]
      ∧ w.house.auction.startTime ≠ 0 ∧ p = .outside ∧ x.world.log.length < w.log.length)

theorem StepMirror.start (h : HouseMirror st filed p x.world) :
    StepMirror x l st filed tx p x.world [] where
  log := (List.append_nil _).symm
  mirror := by
    rw [show filed ++ bidsFiled (tagged tx []) = filed from List.append_nil _]
    exact h
  past _ _ hp := ⟨hp, rfl⟩
  present _ := .inl rfl
  created _ := .inl rfl

theorem StepMirror.act (h : StepMirror x l st filed tx p w es)
    (ha : HouseAct env x l (p, w) (q, w')) (hi : HouseInv R p w) (hc : Clock w) :
    ∃ es', StepMirror x l st filed tx q w' (es ++ es') := by
  obtain ⟨es', hadv⟩ : ∃ es', Advance (st.after (tagged tx es))
      (filed ++ bidsFiled (tagged tx es)) tx w es' q w' := ha.advance hi h.mirror
  have hs := ha.shift hi hc h.mirror
  have hlog : w'.log = x.world.log ++ (es ++ es') := by
    rw [hadv.log, h.log, List.append_assoc]
  -- an act that starts outside is the first one
  have hfirst : p = .outside → x.world.log.length < w.log.length → False := by
    rintro rfl hlt
    rw [ha.from_outside] at hlt
    exact Nat.lt_irrefl _ hlt
  have hle : x.world.log.length ≤ w.log.length := by
    rw [h.log, List.length_append]
    omega
  have hstore : st.after (tagged tx (es ++ es')) = (st.after (tagged tx es)).after (tagged tx es') := by
    rw [tagged_append, HouseStore.after_append]
  refine ⟨es', hlog, ?_, ?_, ?_, ?_⟩
  · rw [hstore, tagged_append, bidsFiled_append, ← List.append_assoc]
    exact hadv.mirror
  · intro n t hp
    obtain ⟨hpast, hsame⟩ := h.past n t hp
    rw [hstore]
    exact ⟨hadv.past hs hpast, (ha.settledIn_other hpast.other).trans hsame⟩
  · intro hbegun
    rw [hstore]
    rcases h.present hbegun with hterms | ⟨_, _, hout, hlt⟩ | hpast
    · have hid := nounId_of_terms hterms
      have hstart := startTime_of_terms hterms
      cases hs with
      | steady hsame => exact .inl (hsame.trans hterms)
      | bid hsame hsame' _ hout hlt =>
          exact .inr (.inl ⟨hsame.trans hid, hsame'.trans hstart, hout, Nat.lt_of_le_of_lt hle hlt⟩)
      | opened hids hfresh =>
          have hgone := hadv.replaced h.mirror (hstart ▸ hbegun) hids hfresh
          rw [hid, hterms] at hgone
          exact .inr (.inr hgone)
    · exact (hfirst hout hlt).elim
    · exact .inr (.inr (hadv.past hs hpast))
  · intro hl
    rcases h.created hl with hids | ⟨_, _, hout, hlt⟩
    · cases hs with
      | steady _ hsame => exact .inl (hsame.trans hids)
      | bid _ _ hsame => exact .inl (hsame.trans hids)
      | opened hopened hfresh hbegun hq hlt =>
          refine .inr ⟨hids ▸ hopened, hbegun, ?_, Nat.lt_of_le_of_lt hle hlt⟩
          rcases hq with hq | hq
          · exact hq
          · exact absurd (hq.symm.trans hl) Bool.noConfusion
    · exact (hfirst hout hlt).elim

/-- The house is in a phase in which the mirror holds. -/
abbrev Mirrored (st : HouseStore) (filed : List (Nat × Bid)) (p : Phase) (x : AuctionConfig) : Prop :=
  Phased (· ≤ ·) (fun p w => HouseMirror st filed p w) p x

/-- **A step and its events keep the mirror.** -/
theorem Mirrored.step (h : Mirrored st filed p x) (hs : (auctionMachine env).Step x l y)
    (tx : EthTransaction) :
    ∃ q es, Mirrored (st.after (tagged tx es)) (filed ++ bidsFiled (tagged tx es)) q y
      ∧ StepMirror x l st filed tx q y.world es := by
  have hstart : Phased (· ≤ ·) (fun p w => ∃ es, StepMirror x l st filed tx p w es) p x :=
    h.with ⟨[], .start h.more⟩
  obtain ⟨q, hq, -⟩ := hstart.step hs outbids_le fun p w q w' ha hi hc ⟨es, hes⟩ => by
    obtain ⟨es', hes'⟩ := hes.act ha hi hc
    exact ⟨es ++ es', hes'⟩
  obtain ⟨es, hes⟩ := hq.more
  exact ⟨q, es, hq.with hes.mirror, hes⟩

/-- A step creates one auction at most, and leaves it on. -/
theorem Mirrored.created (h : Mirrored st filed p x) (hs : (auctionMachine env).Step x l y) :
    createdIds y.world.history = createdIds x.world.history
      ∨ (createdIds y.world.history = createdIds x.world.history ++ [y.world.house.auction.nounId]
        ∧ y.world.house.auction.startTime ≠ 0) := by
  cases hl : reopens l with
  | false =>
      obtain ⟨q, es, -, hes⟩ := h.step hs ⟨0, 0, x.world.block⟩
      rcases hes.created hl with hids | ⟨hids, hbegun, -, -⟩
      · exact .inl hids
      · exact .inr ⟨hids, hbegun⟩
  | true =>
      cases hs with
      | @enter tx w fs o y _ he hlands =>
          obtain ⟨sender, call⟩ := tx
          cases call with
          | unpause view =>
              obtain ⟨w', hunpause, ho⟩ := bind_ok.mp he
              obtain rfl := Except.ok.inj ho
              cases hlands with
              | done =>
                  have hact := @unpause_acts env ⟨w, fs⟩ _ w' sender p view rfl h.waits hunpause
                  cases hact.shift h.inv h.clock h.more with
                  | steady _ hids => exact .inl hids
                  | bid _ _ hids => exact .inl hids
                  | opened hids _ hbegun => exact .inr ⟨hids, hbegun⟩
          | _ => cases hl
      | _ => cases hl

/-! ## Runs -/

/-- The clock logs nothing. -/
theorem tick_log {b : Block} (hs : (auctionMachine env).Step x (.tick b) y) :
    y.world.log = x.world.log := by
  cases hs with
  | tick ht =>
      obtain ⟨_, _, rfl⟩ := Option.map_eq_some_iff.mp ht
      rfl

variable {st₀ : Store} {f g g' : Feed}

/-- The mirror, at a point of a history cut into transactions. -/
abbrev FeedMirror (st₀ : Store) (p : Phase) (f : Feed) : Prop :=
  Mirrored (st₀.withHouse.after f.events) (bidsFiled f.events) p f.config

/-- What is logged is what the subgraph is given, with its transaction. -/
theorem FeedMirror.next (h : FeedMirror st₀ p f) (hn : Feed.Next env f g) :
    ∃ l q tx es, (auctionMachine env).Step f.config l g.config ∧ FeedMirror st₀ q g
      ∧ g.events = f.events ++ tagged tx es
      ∧ StepMirror f.config l (st₀.withHouse.after f.events) (bidsFiled f.events) tx q
          g.config.world es := by
  have hstep : ∀ {l : AuctionLabel} {y : AuctionConfig} (tx : EthTransaction),
      (auctionMachine env).Step f.config l y →
      ∃ q es, Mirrored (st₀.withHouse.after (f.events ++ tagged tx es))
          (bidsFiled (f.events ++ tagged tx es)) q y
        ∧ Feed.logged tx f.config y = tagged tx es
        ∧ StepMirror f.config l (st₀.withHouse.after f.events) (bidsFiled f.events) tx q y.world es := by
    intro l y tx hs
    obtain ⟨q, es, hq, hes⟩ := h.step hs tx
    refine ⟨q, es, ?_, ?_, hes⟩
    · rw [HouseStore.after_append, bidsFiled_append]
      exact hq
    · unfold Feed.logged tagged
      rw [hes.log, List.drop_left]
  cases hn with
  | @begins tx c y _ _ _ hs =>
      obtain ⟨q, es, hq, hlogged, hes⟩ := hstep tx hs
      rw [← hlogged] at hq
      exact ⟨_, q, tx, es, hs, hq, congrArg _ hlogged, hes⟩
  | @goesOn tx l y _ _ hs =>
      obtain ⟨q, es, hq, hlogged, hes⟩ := hstep tx hs
      rw [← hlogged] at hq
      exact ⟨_, q, tx, es, hs, hq, congrArg _ hlogged, hes⟩
  | @tick b y hs =>
      obtain ⟨q, es, hq, hlogged, hes⟩ := hstep ⟨0, 0, b⟩ hs
      -- the clock logs nothing, so any transaction will do for it
      have hnone : es = [] := by
        have hlog := hes.log
        rw [tick_log hs] at hlog
        exact List.self_eq_append_right.mp hlog
      subst hnone
      rw [show f.events ++ tagged ⟨0, 0, b⟩ [] = f.events from List.append_nil _] at hq
      exact ⟨_, q, _, [], hs, hq, (List.append_nil _).symm, hes⟩

theorem feedMirror_start (st₀ : Store) (d : AuctionDeployment env) :
    FeedMirror st₀ .outside (Feed.start d) := by
  obtain ⟨hi, hc, -⟩ := deployed_inv (R := (· ≤ ·)) d
  have hzero : d.house.auction.startTime = 0 := by
    obtain ⟨_, _, _, _, _, h⟩ := d.house_initialized
    simp only [NounsAuctionHouse.initialize_, NounsAuctionHouse.pause_, bind_ok] at h
    obtain ⟨_, _, house, ⟨_, _, hhouse⟩, h⟩ := h
    obtain rfl := Except.ok.inj hhouse
    rw [← Except.ok.inj h]
    rfl
  refine ⟨.outside, hi, hc, ?_⟩
  constructor
  · exact fun h => absurd hzero h
  · exact fun h => absurd hzero h
  · exact fun n hn => absurd hn List.not_mem_nil
  · intro n e he
    cases he
  · exact fun h => absurd hzero h
  · intro n hn
    cases hn
  · exact fun n _ => rfl
  · exact fun n hn => absurd hn List.not_mem_nil
  · rfl
  · rfl

theorem feedMirror_runs (st₀ : Store) (h : Feed.Runs env (Feed.start d) f) :
    ∃ p, FeedMirror st₀ p f := by
  induction h with
  | refl => exact ⟨.outside, feedMirror_start st₀ d⟩
  | tail _ hn ih =>
      obtain ⟨p, hp⟩ := ih
      obtain ⟨_, q, _, _, _, hq, _⟩ := hp.next hn
      exact ⟨q, hq⟩

/-- What the store has of past auctions it keeps. -/
theorem past_runs {t : Subgraph.Auction} (hf : Feed.Runs env (Feed.start d) f)
    (hfg : Feed.Runs env f g) (h : Past (st₀.withHouse.after f.events) f.config.world n t) :
    Past (st₀.withHouse.after g.events) g.config.world n t
      ∧ settledIn n g.config.world.history = settledIn n f.config.world.history := by
  induction hfg with
  | refl => exact ⟨h, rfl⟩
  | @tail g g' hfg hn ih =>
      obtain ⟨hpast, hsame⟩ := ih
      obtain ⟨p, hp⟩ := feedMirror_runs st₀ (hf.trans hfg)
      obtain ⟨_, _, _, _, _, _, hevents, hes⟩ := hp.next hn
      obtain ⟨hpast', hsame'⟩ := hes.past n t hpast
      rw [hevents, HouseStore.after_append]
      exact ⟨hpast', hsame'.trans hsame⟩

/-! ## What the contract had last -/

/--
What the contract had for Noun `n` when it was last current, seen from `f`. A settlement is
noted as the flag goes up, be it in the step in which another auction takes the place.
-/
inductive LastHad (d : AuctionDeployment env) (f : Feed) (n : Nat) : Nouns.Auction → Prop where
  | current : f.config.world.house.auction.startTime ≠ 0 →
      f.config.world.house.auction.nounId = n → LastHad d f n f.config.world.house.auction
  | replaced {g g' : Feed} : Feed.Runs env (Feed.start d) g → Feed.Next env g g' →
      Feed.Runs env g' f → g.config.world.house.auction.startTime ≠ 0 →
      g.config.world.house.auction.nounId = n → g'.config.world.house.auction.nounId ≠ n →
      LastHad d f n { g.config.world.house.auction with
        settled := settledIn n g'.config.world.history }

/-- The auction that was on is still on, or it is past. -/
theorem FeedMirror.present (h : FeedMirror st₀ p f) (hn : Feed.Next env f g)
    (hbegun : f.config.world.house.auction.startTime ≠ 0) :
    (g.config.world.house.auction.nounId = f.config.world.house.auction.nounId
        ∧ g.config.world.house.auction.startTime ≠ 0)
      ∨ Past (st₀.withHouse.after g.events) g.config.world f.config.world.house.auction.nounId
          (termsOf f.config.world) := by
  obtain ⟨_, _, _, _, _, _, hevents, hes⟩ := h.next hn
  rcases hes.present hbegun with hterms | ⟨hid, hstart, -, -⟩ | hpast
  · exact .inl ⟨nounId_of_terms hterms, startTime_of_terms hterms ▸ hbegun⟩
  · exact .inl ⟨hid, hstart ▸ hbegun⟩
  · rw [hevents, HouseStore.after_append]
    exact .inr hpast

theorem LastHad.next {a : Nouns.Auction} (h : LastHad d f n a)
    (hf : Feed.Runs env (Feed.start d) f) (hn : Feed.Next env f g) : ∃ a, LastHad d g n a := by
  cases h with
  | current hbegun hid =>
      obtain ⟨p, hp⟩ := feedMirror_runs Store.empty hf
      rcases hp.present hn hbegun with ⟨hsame, hbegun'⟩ | hpast
      · exact ⟨_, .current hbegun' (hsame.trans hid)⟩
      · exact ⟨_, .replaced hf hn .refl hbegun hid (hid ▸ hpast.other)⟩
  | replaced h1 h2 h3 h4 h5 h6 => exact ⟨_, .replaced h1 h2 (h3.tail hn) h4 h5 h6⟩

/-- Every Noun that was ever on auction was last current at some time. -/
theorem exists_lastHad (hf : Feed.Runs env (Feed.start d) f)
    (hn : n ∈ createdIds f.config.world.history) : ∃ a, LastHad d f n a := by
  induction hf with
  | refl => exact absurd hn List.not_mem_nil
  | @tail f g hf hfg ih =>
      obtain ⟨p, hp⟩ := feedMirror_runs Store.empty hf
      obtain ⟨_, _, _, _, hs, _⟩ := hp.next hfg
      have hold : n ∈ createdIds f.config.world.history → ∃ a, LastHad d g n a := fun hn => by
        obtain ⟨a, ha⟩ := ih hn
        exact ha.next hf hfg
      rcases hp.created hs with hids | ⟨hids, hbegun⟩
      · exact hold (hids ▸ hn)
      · rcases List.mem_append.mp (hids ▸ hn) with hn | hn
        · exact hold hn
        · exact ⟨_, .current hbegun (List.mem_singleton.mp hn).symm⟩

/-- Between transactions an auction's entity is what the contract had last. -/
theorem LastHad.stored {a : Nouns.Auction} (h : LastHad d f n a)
    (hf : Feed.Runs env (Feed.start d) f) (hframes : f.config.frames = []) :
    (st₀.withHouse.after f.events).auctions n = some (entity a) := by
  obtain ⟨p, hp⟩ := feedMirror_runs st₀ hf
  have hwaits := hp.waits
  rw [hframes] at hwaits
  obtain rfl := hwaits.nil
  have hm := hp.more
  -- the terms, and whether it is settled
  have hall : ((st₀.withHouse.after f.events).auctions n).map Subgraph.Auction.terms
        = some (entity a).terms → settledIn n f.config.world.history = a.settled →
      (st₀.withHouse.after f.events).auctions n = some (entity a) := by
    intro hterms hsettled
    obtain ⟨e, he, hsame⟩ := Option.map_eq_some_iff.mp hterms
    have hflag := hm.flags n e he
    rw [hsettled] at hflag
    rw [he]
    obtain ⟨noun, amount, startTime, endTime, bidder, settled⟩ := e
    simp only [Subgraph.Auction.terms, Subgraph.Auction.mk.injEq, and_true] at hsame
    obtain ⟨rfl, rfl, rfl, rfl, rfl⟩ := hsame
    simpa [entity, pendingId] using hflag
  cases h with
  | current hbegun hid =>
      subst hid
      exact hall (hm.terms hbegun) (hm.flag hbegun).symm
  | @replaced g g' hg hnext hrest hbegun hid hother =>
      subst hid
      obtain ⟨q, hq⟩ := feedMirror_runs st₀ hg
      rcases hq.present hnext hbegun with ⟨hsame, -⟩ | hpast
      · exact absurd hsame hother
      · obtain ⟨hlast, hsettled⟩ := past_runs (hg.tail hnext) hrest hpast
        exact hall hlast.stored hsettled

/-! ## The auctions and their bids -/

/-- The transaction of a bid. -/
def bidHash : EthTransaction × ChainEvent → Option Nat
  | (tx, .house (.auctionBid _ _ _ _)) => some tx.hash
  | _ => none

/-- No transaction makes two bids. -/
def OneBidEach (events : List (EthTransaction × ChainEvent)) : Prop :=
  (events.filterMap bidHash).Nodup

/-- The stored bids for `n` are, one to one, the accepted ones. -/
def BidsMirrored (st : HouseStore) (h : List AuctionDeed) (n : Nat) : Prop :=
  OneToOne Bid.auction n (fun b => (b.bidder, b.amount)) st.bids
    (((acceptedBids h).filter fun bid => bid.nounId = n).map fun bid => (bid.bidder, bid.amount))

theorem bidsFiled_hashes (events : List (EthTransaction × ChainEvent)) :
    (bidsFiled events).map Prod.fst = events.filterMap bidHash := by
  unfold bidsFiled
  rw [List.map_filterMap]
  refine List.filterMap_congr ?_
  intro e _
  obtain ⟨tx, e⟩ := e
  cases e with
  | token e => rfl
  | house e => cases e <;> rfl

theorem HouseMirror.bidsMirrored_iff (h : HouseMirror st filed p w) :
    (∀ n, BidsMirrored st w.history n) ↔ (filed.map Prod.fst).Nodup := by
  have haccepted : ∀ n, ((acceptedBids w.history).filter fun bid => bid.nounId = n).map
        (fun bid => (bid.bidder, bid.amount))
      = (ofClass Bid.auction n filed).map fun e => (e.2.bidder, e.2.amount) := by
    intro n
    have hlists := congrArg (fun ks => (ks.filter fun k => k.1 = n).map Prod.snd) h.accepted
    simp only [List.filter_map, List.map_map] at hlists
    exact hlists.symm
  simp only [BidsMirrored, haccepted, h.bids]
  exact oneToOne_iff

/--
**Auctions are mirrored, bids unless a transaction makes two.** Between transactions of any
history, however the calls are spread over them, every auction's entity is what the contract
had of it last; and the bids are all there exactly if no transaction has made two.
-/
theorem auction_mirror_iff (env : AuctionEnv) (d : AuctionDeployment env) (st₀ : Store) (f : Feed)
    (hf : Feed.Runs env (Feed.start d) f) (hframes : f.config.frames = []) :
    (∀ n ∈ createdIds f.config.world.history, (∃ a, LastHad d f n a)
      ∧ ∀ a, LastHad d f n a →
        (st₀.withHouse.after f.events).auctions n = some (entity a))
    ∧ ((∀ n, BidsMirrored (st₀.withHouse.after f.events) f.config.world.history n)
      ↔ OneBidEach f.events) := by
  refine ⟨fun n hn => ⟨exists_lastHad hf hn, fun a ha => ha.stored hf hframes⟩, ?_⟩
  obtain ⟨p, hp⟩ := feedMirror_runs st₀ hf
  rw [OneBidEach, ← bidsFiled_hashes]
  exact hp.more.bidsMirrored_iff

/-! ## Two bids of account 7 -/

/-- The next move of a script, in a transaction. -/
def playMove (env : AuctionEnv) (f : Feed) (tx : EthTransaction) (m : Machine.Move AuctionTx Block) :
    Option Feed :=
  ((auctionMachine env).move Machine.anything f.config m).bind fun y =>
    match m with
    | .tick _ => some ⟨y, f.hashes, none, f.events⟩
    | .resume _ =>
        if f.tx = some tx then some ⟨y, f.hashes, some tx, f.events ++ Feed.logged tx f.config y⟩
        else none
    | .enter _ _ =>
        if f.tx = some tx then some ⟨y, f.hashes, some tx, f.events ++ Feed.logged tx f.config y⟩
        else if f.config.frames.isEmpty ∧ tx.hash ∉ f.hashes ∧ tx.block = f.config.world.block then
          some ⟨y, tx.hash :: f.hashes, some tx, f.events ++ Feed.logged tx f.config y⟩
        else none

theorem playMove_next {m : Machine.Move AuctionTx Block} (h : playMove env f tx m = some g) :
    Feed.Next env f g := by
  obtain ⟨y, hy, h⟩ := Option.bind_eq_some_iff.mp h
  obtain ⟨l, -, hmakes, hs⟩ := Machine.move_step hy
  cases m with
  | tick b =>
      obtain rfl := Option.some.inj h
      cases l with
      | tick b' =>
          obtain rfl : b = b' := hmakes
          exact .tick hs
      | _ => exact hmakes.elim
  | resume fails =>
      dsimp only at h
      split at h
      · next htx =>
          obtain rfl := Option.some.inj h
          refine .goesOn htx ?_ hs
          intro b hb
          subst hb
          exact hmakes.elim
      · cases h
  | enter c fails =>
      cases l with
      | enter c' =>
          -- a call goes on in the transaction of the pending ones, or begins a new one
          dsimp only at h
          split at h
          · next htx =>
              obtain rfl := Option.some.inj h
              exact .goesOn htx (fun b hb => by cases hb) hs
          · split at h
            · next hnew =>
                obtain ⟨hframes, hhash, hblock⟩ := hnew
                obtain rfl := Option.some.inj h
                exact .begins (List.isEmpty_iff.mp hframes) hhash hblock hs
            · cases h
      | _ => exact hmakes.elim

/-- A script with the transactions of its moves. -/
def play (env : AuctionEnv) : Feed → List (EthTransaction × Machine.Move AuctionTx Block) → Option Feed
  | f, [] => some f
  | f, (tx, m) :: ms => (playMove env f tx m).bind fun g => play env g ms

theorem play_runs : ∀ {ms : List (EthTransaction × Machine.Move AuctionTx Block)} {f g : Feed},
    play env f ms = some g → Feed.Runs env f g
  | [], f, g, h => by
      obtain rfl := Option.some.inj h
      exact .refl
  | (tx, m) :: ms, f, g, h => by
      obtain ⟨g', hg', h⟩ := Option.bind_eq_some_iff.mp h
      exact (Relation.ReflTransGen.single (playMove_next hg')).trans (play_runs h)

theorem play_exists (env : AuctionEnv) (f : Feed)
    (ms : List (EthTransaction × Machine.Move AuctionTx Block)) {p : Feed → Bool}
    (h : (play env f ms).any p = true) : ∃ g, Feed.Runs env f g ∧ p g = true := by
  obtain ⟨g, hg, hp⟩ := (Option.any_eq_true _ _).mp h
  exact ⟨g, play_runs hg, hp⟩

/-- Account 7 bids 100 and then 200; the second bid is made in transaction `hash`. -/
def twoBids (hash : Nat) : List (EthTransaction × Machine.Move AuctionTx Block) :=
  [(⟨101, 0, ⟨1, 1⟩⟩, .enter (houseTx 1 (.unpause smallView))),
    (⟨101, 0, ⟨1, 1⟩⟩, .tick ⟨2, 50⟩),
    (⟨102, 0, ⟨2, 50⟩⟩, .enter (houseTx 7 (.createBid 1 100))),
    (⟨hash, 0, ⟨2, 50⟩⟩, .enter (houseTx 7 (.createBid 1 200))),
    (⟨hash, 0, ⟨2, 50⟩⟩, .resume)]

/-- In two transactions both bids are kept. -/
theorem auction_mirror_iff_apart : ∃ f, Feed.Runs smallAuctionEnv (Feed.start smallAuction) f
    ∧ f.config.frames = []
    ∧ acceptedBids f.config.world.history = [⟨1, .ofNat 7, 100, 50, 10⟩, ⟨1, .ofNat 7, 200, 50, 10⟩]
    ∧ ∀ n, BidsMirrored (Store.empty.withHouse.after f.events) f.config.world.history n := by
  obtain ⟨f, hf, hp⟩ := play_exists smallAuctionEnv (Feed.start smallAuction)
    (twoBids 103) (p := fun f => f.config.frames.isEmpty
      && (acceptedBids f.config.world.history
        = [⟨1, .ofNat 7, 100, 50, 10⟩, ⟨1, .ofNat 7, 200, 50, 10⟩] : Bool)
      && (f.events.filterMap bidHash = [102, 103] : Bool)) (by decide +kernel)
  obtain ⟨hp, hhashes⟩ := Bool.and_eq_true_iff.mp hp
  obtain ⟨hframes, hbids⟩ := Bool.and_eq_true_iff.mp hp
  have hframes := List.isEmpty_iff.mp hframes
  refine ⟨f, hf, hframes, of_decide_eq_true hbids,
    (auction_mirror_iff smallAuctionEnv smallAuction Store.empty f hf hframes).2.mpr ?_⟩
  rw [OneBidEach, of_decide_eq_true hhashes]
  decide

/-- In one transaction the second takes the place of the first. -/
theorem auction_mirror_together : ∃ f, Feed.Runs smallAuctionEnv (Feed.start smallAuction) f
    ∧ f.config.frames = []
    ∧ acceptedBids f.config.world.history = [⟨1, .ofNat 7, 100, 50, 10⟩, ⟨1, .ofNat 7, 200, 50, 10⟩]
    ∧ ¬ ∀ n, BidsMirrored (Store.empty.withHouse.after f.events) f.config.world.history n := by
  obtain ⟨f, hf, hp⟩ := play_exists smallAuctionEnv (Feed.start smallAuction)
    (twoBids 102) (p := fun f => f.config.frames.isEmpty
      && (acceptedBids f.config.world.history
        = [⟨1, .ofNat 7, 100, 50, 10⟩, ⟨1, .ofNat 7, 200, 50, 10⟩] : Bool)
      && (bidsFiled f.events = [(102, ⟨1, 100, .ofNat 7, 2, 0, 1, 50⟩),
        (102, ⟨1, 200, .ofNat 7, 2, 0, 1, 50⟩)] : Bool)) (by decide +kernel)
  obtain ⟨hp, hfiled⟩ := Bool.and_eq_true_iff.mp hp
  obtain ⟨hframes, hbids⟩ := Bool.and_eq_true_iff.mp hp
  refine ⟨f, hf, List.isEmpty_iff.mp hframes, of_decide_eq_true hbids, ?_⟩
  obtain ⟨p, hm⟩ := feedMirror_runs Store.empty hf
  intro hall
  have hnodup := hm.more.bidsMirrored_iff.mp hall
  rw [of_decide_eq_true hfiled] at hnodup
  exact absurd hnodup (by decide)

end Nouns.Proof
