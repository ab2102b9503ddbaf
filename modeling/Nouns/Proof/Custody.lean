import Nouns.Proof.AntiSniping
import Nouns.Proof.TokenCustody

/-!
# Custody of auctioned Nouns

While the house is the minter, has no proxy and is left alone by the owner it pays, auctions
take turns: the next one is created when the last one is settled. The house keeps the Noun
on auction till then, and each Noun leaves it by its one settlement.
-/

namespace Nouns.Proof

open Evm CallMachine EventLog

/-! ## Taking turns -/

/-- Which Noun is on auction, one deed after the other. -/
inductive Turn : Option Nat → AuctionDeed → Option Nat → Prop where
  | created {nounId : Nat} : Turn none (.created nounId) (some nounId)
  | settled {settlement : Settlement} : Turn (some settlement.nounId) (.settled settlement) none
  | accepted {o : Option Nat} {bid : AcceptedBid} : Turn o (.accepted bid) o
  | paid {o : Option Nat} {dst : Address} {amount : Nat} {coin : Coin} : Turn o (.paid dst amount coin) o

/-- The Noun a deed creates an auction for. -/
def createdId : AuctionDeed → Option Nat
  | .created nounId => some nounId
  | _ => none

/-- A settlement of Noun `n`. -/
def settlementFor (n : Nat) : AuctionDeed → Option Settlement
  | .settled settlement => if settlement.nounId = n then some settlement else none
  | _ => none

/-- The Nouns that were ever on auction. -/
def createdIds (h : List AuctionDeed) : List Nat := h.filterMap createdId

/-- The settlements of Noun `n`. -/
def settlementsFor (n : Nat) (h : List AuctionDeed) : List Settlement := h.filterMap (settlementFor n)

variable {h h' : List AuctionDeed} {o o' : Option Nat} {n nounId : Nat}

@[simp] theorem createdIds_append : createdIds (h ++ h') = createdIds h ++ createdIds h' :=
  List.filterMap_append

@[simp] theorem settlementsFor_append :
    settlementsFor n (h ++ h') = settlementsFor n h ++ settlementsFor n h' := List.filterMap_append

/-- A Noun not on auction was settled once, if it ever was on auction, and else never. -/
def SettledOnce (h : List AuctionDeed) (o : Option Nat) : Prop :=
  (createdIds h).Nodup →
    (∀ n, n ∉ createdIds h → settlementsFor n h = [] ∧ o ≠ some n) ∧
    ∀ n, n ∈ createdIds h → (o = some n ∧ settlementsFor n h = [])
      ∨ (o ≠ some n ∧ ∃ settlement, settlementsFor n h = [settlement])

theorem SettledOnce.quiet (hs : SettledOnce h o) (hc : createdIds h' = createdIds h)
    (hn : ∀ n, settlementsFor n h' = settlementsFor n h) : SettledOnce h' o := by
  unfold SettledOnce
  simp only [hc, hn]
  exact hs

theorem SettledOnce.snoc {d : AuctionDeed} (hs : SettledOnce h o) (ht : Turn o d o') :
    SettledOnce (h ++ [d]) o' := by
  cases ht with
  | @created id =>
      intro hnodup
      rw [createdIds_append, List.nodup_append] at hnodup
      obtain ⟨hnodup, -, hnew⟩ := hnodup
      obtain ⟨hnever, honce⟩ := hs hnodup
      -- the new Noun was never on auction before
      have hid : id ∉ createdIds h := fun hm => hnew id hm id (by simp [createdIds, createdId]) rfl
      have hcreated : createdIds [AuctionDeed.created id] = [id] := rfl
      have hsettled : ∀ n, settlementsFor n [AuctionDeed.created id] = [] := fun _ => rfl
      simp only [createdIds_append, settlementsFor_append, hcreated, hsettled, List.append_nil,
        List.mem_append, List.mem_singleton, not_or]
      refine ⟨fun n ⟨hn, hne⟩ => ⟨(hnever n hn).1, fun heq => hne (Option.some.inj heq).symm⟩, ?_⟩
      intro n hn
      rcases hn with hn | rfl
      · refine .inr ⟨fun heq => hid (Option.some.inj heq ▸ hn), ?_⟩
        rcases honce n hn with ⟨hcur, -⟩ | ⟨-, hset⟩
        · exact absurd hcur (by simp)
        · exact hset
      · exact .inl ⟨rfl, (hnever n hid).1⟩
  | @settled settlement =>
      intro hnodup
      rw [createdIds_append, List.nodup_append] at hnodup
      obtain ⟨hnever, honce⟩ := hs hnodup.1
      have hcreated : createdIds [AuctionDeed.settled settlement] = [] := rfl
      have hsettled : ∀ n, settlementsFor n [AuctionDeed.settled settlement]
          = if settlement.nounId = n then [settlement] else [] := by
        intro n
        simp only [settlementsFor, settlementFor]
        split <;> simp [settlementFor, *]
      simp only [createdIds_append, settlementsFor_append, hcreated, hsettled, List.append_nil]
      constructor
      · intro n hn
        obtain ⟨hnone, hne⟩ := hnever n hn
        rw [hnone, if_neg fun heq => hne (congrArg some heq)]
        exact ⟨rfl, by simp⟩
      · intro n hn
        refine .inr ⟨by simp, ?_⟩
        rcases honce n hn with ⟨hcur, hnone⟩ | ⟨hne, hset⟩
        · rw [hnone, if_pos (Option.some.inj hcur)]
          exact ⟨settlement, rfl⟩
        · rw [if_neg fun heq => hne (congrArg some heq), List.append_nil]
          exact hset
  | accepted | paid =>
      refine hs.quiet ?_ ?_
      · exact createdIds_append.trans (List.append_nil _)
      · intro n
        exact settlementsFor_append.trans (List.append_nil _)

/-- **A Noun is settled once.** -/
theorem settled_once (hr : Replays Turn none h o) : SettledOnce h o := by
  have hstart : SettledOnce [] none := fun _ =>
    ⟨fun _ _ => ⟨rfl, by simp⟩, fun _ hn => absurd hn List.not_mem_nil⟩
  exact @Replays.mirror _ _ Unit _ _ _ _ (fun _ _ => ()) (fun h o _ => SettledOnce h o)
    (fun ht hs => hs.snoc ht) hr [] () hstart

/-- What it takes for the Noun on auction to be another. -/
theorem turn_over (hr : Replays Turn (some n) h o) (ho : o ≠ some n) :
    ∃ settlement, AuctionDeed.settled settlement ∈ h ∧ settlement.nounId = n := by
  induction h with
  | nil =>
      cases hr
      exact absurd rfl ho
  | cons d h ih =>
      cases hr with
      | cons ht hr =>
          generalize hs : some n = s at ht
          cases ht with
          | created => cases hs
          | settled =>
              cases hs
              exact ⟨_, List.mem_cons_self, rfl⟩
          | accepted | paid =>
              subst hs
              obtain ⟨settlement, hm, hid⟩ := ih hr
              exact ⟨settlement, List.mem_cons_of_mem _ hm, hid⟩

/-- **No auction is overwritten**: between two creations the first Noun is settled. -/
theorem never_overwritten {pre mid post : List AuctionDeed} {n' : Nat}
    (hr : Replays Turn none (pre ++ .created n :: (mid ++ .created n' :: post)) o) :
    ∃ settlement, AuctionDeed.settled settlement ∈ mid ∧ settlement.nounId = n := by
  obtain ⟨s₁, s₂, -, ht, hpost⟩ := hr.at_event
  obtain ⟨s₃, s₄, hmid, ht', -⟩ := hpost.at_event
  cases ht with
  | created =>
      cases ht' with
      | created => exact turn_over hmid (by simp)

/-! ## The invariant -/

/-- The calls of the house itself. -/
def ofHouse : AuctionCall → Bool
  | .token .. | .weth _ | .sendEther _ => false
  | _ => true

/-- The owner is being paid. -/
def isPayout : AuctionFrame → Bool
  | .payout .. => true
  | _ => false

/-- The house is the minter, has no proxy, and is not called by the owner it pays. -/
structure Custodial (env : AuctionEnv) (x : AuctionConfig) (l : AuctionLabel) : Prop where
  minter : x.world.token.minter = env.house
  noProxy : ∀ sender view call, l = .enter ⟨sender, .token view call⟩ → view.proxies env.house = 0
  payout : ∀ tx f, l = .enter tx → ofHouse tx.call = true → f ∈ x.frames → isPayout f = false

/-- The Noun on auction, if there is one. -/
def onAuction (a : Auction) : Option Nat := if a.Idle then none else some a.nounId

/-- A house that is not paused has an auction, except while it settles one. -/
def Live (p : Phase) (s : NounsAuctionHouse) : Prop :=
  match p with
  | .outside | .bidding .. | .placing .. => s.paused = false → ¬ s.auction.Idle
  | .settling _ _ _ next | .concluding _ _ _ next =>
      s.auction.Idle ∧ (next = none → s.paused = true)

/-- What the house keeps. -/
structure InCustody (env : AuctionEnv) (p : Phase) (w : AuctionWorld) : Prop where
  guarded : Guarded env.house w.token
  held : ¬ w.house.auction.Idle → w.token.owners_ w.house.auction.nounId = env.house
  turns : Replays Turn none w.history (onAuction w.house.auction)
  distinct : (createdIds w.history).Nodup
  drawn : ∀ n ∈ createdIds w.history, n < w.token.currentNounId_
  moved : ∀ settlement, AuctionDeed.settled settlement ∈ w.history →
    settlement.src = env.house ∧ settlement.dst = settlement.bidder
  live : Live p w.house

variable {R : Nat → Nat → Prop} {env : AuctionEnv} {x : AuctionConfig} {l : AuctionLabel}
  {w w' : AuctionWorld} {p q : Phase}

theorem onAuction_idle {a : Auction} (h : a.Idle) : onAuction a = none := if_pos h

theorem onAuction_running {a : Auction} (h : ¬ a.Idle) : onAuction a = some a.nounId := if_neg h

/-- Nothing was done, and the house still has its Noun. -/
theorem InCustody.same (hc : InCustody env p w) (hguarded : Guarded env.house w'.token)
    (howns : ∀ n, w.token.owners_ n = env.house → w'.token.owners_ n = env.house)
    (hid : w'.token.currentNounId_ = w.token.currentNounId_)
    (ha : w'.house.auction = w.house.auction) (hh : w'.history = w.history)
    (hl : Live q w'.house) : InCustody env q w' := by
  refine ⟨hguarded, ?_, ?_, ?_, ?_, ?_, hl⟩
  · rw [ha]
    exact fun hn => howns _ (hc.held hn)
  · rw [ha, hh]
    exact hc.turns
  · rw [hh]
    exact hc.distinct
  · rw [hh, hid]
    exact hc.drawn
  · rw [hh]
    exact hc.moved

/-- A bid or a payment was noted. -/
theorem InCustody.noted (hc : InCustody env p w) {d : AuctionDeed} (ht : w'.token = w.token)
    (hid : w'.house.auction.nounId = w.house.auction.nounId)
    (hidle : w'.house.auction.Idle ↔ w.house.auction.Idle) (hh : w'.history = w.history ++ [d])
    (hturn : ∀ o, Turn o d o) (hcreated : createdId d = none) (hsettled : ∀ s, d ≠ .settled s)
    (hl : Live q w'.house) : InCustody env q w' := by
  have hids : createdIds w'.history = createdIds w.history := by
    rw [hh, createdIds_append]
    simp [createdIds, hcreated]
  refine ⟨ht ▸ hc.guarded, ?_, ?_, hids ▸ hc.distinct, ?_, ?_, hl⟩
  · rw [hid, ht, hidle]
    exact hc.held
  · have hsame : onAuction w'.house.auction = onAuction w.house.auction := by
      unfold onAuction
      rw [hid]
      exact if_congr hidle rfl rfl
    rw [hh, hsame]
    exact hc.turns.snoc (hturn _)
  · rw [hids, ht]
    exact hc.drawn
  · intro s hm
    rw [hh] at hm
    rcases List.mem_append.mp hm with hm | hm
    · exact hc.moved s hm
    · exact absurd (List.mem_singleton.mp hm).symm (hsettled s)

/-- An idle house takes the next Noun, or is paused. -/
theorem Creates.custody {view : View} (h : Creates env view w w') (hclock : Clock w)
    (hidle : w.house.auction.Idle) (hc : InCustody env p w) : InCustody env .outside w' := by
  cases h with
  | @opened token nounId endTime hmint =>
      obtain ⟨hguarded, hown, hle, hlt⟩ := hc.guarded.mint hmint
      have hrunning : ¬ Auction.Idle ⟨nounId, 0, w.block.timestamp, endTime, 0, false⟩ := by
        intro h
        rcases h with h | h
        · exact absurd h (Nat.ne_of_gt hclock.begun)
        · exact Bool.false_ne_true h
      have hids : createdIds (w.history ++ [.created nounId]) = createdIds w.history ++ [nounId] :=
        createdIds_append
      -- ids are drawn in order, so the new one is none of those before
      have hnew : ∀ n ∈ createdIds w.history, n ≠ nounId := fun n hn =>
        Nat.ne_of_lt (Nat.lt_of_lt_of_le (hc.drawn n hn) hle)
      refine ⟨hguarded, fun _ => hown, ?_, ?_, ?_, fun s hm => ?_, fun _ => hrunning⟩
      · have hturns := hc.turns
        rw [onAuction_idle hidle] at hturns
        show Replays Turn none (w.history ++ [.created nounId])
          (onAuction ⟨nounId, 0, w.block.timestamp, endTime, 0, false⟩)
        rw [onAuction_running hrunning]
        exact hturns.snoc .created
      · show (createdIds (w.history ++ [.created nounId])).Nodup
        rw [hids, List.nodup_append]
        refine ⟨hc.distinct, List.nodup_singleton _, fun n hn m hm => ?_⟩
        rw [List.mem_singleton.mp hm]
        exact hnew n hn
      · intro n hn
        have hn : n ∈ createdIds (w.history ++ [.created nounId]) := hn
        rw [hids] at hn
        rcases List.mem_append.mp hn with hn | hn
        · exact Nat.lt_trans (Nat.lt_of_lt_of_le (hc.drawn n hn) hle) hlt
        · rw [List.mem_singleton.mp hn]
          exact hlt
      · rcases List.mem_append.mp hm with hm | hm
        · exact hc.moved s hm
        · exact absurd (List.mem_singleton.mp hm) (by simp)
  | halted =>
      exact hc.same hc.guarded (fun _ h => h) rfl rfl rfl fun h => absurd h Bool.true_eq_false_eq_False

/-- The owner being paid calls the house. -/
theorem Custodial.not_concluding (hP : Custodial env x l) {sender : Address} {c : AuctionCall}
    (hl : l = .enter ⟨sender, c⟩) (hc : ofHouse c = true) {a : Address} {auction_ : Auction}
    {payee : Address} {next : Option View} :
    ¬ Waits (.concluding a auction_ payee next) (houseFrames x.frames) := by
  intro hw
  have hmem : AuctionFrame.payout a auction_ payee next ∈ houseFrames x.frames := by
    generalize houseFrames x.frames = fs at hw
    cases hw
    exact List.mem_singleton_self _
  have h := hP.payout ⟨sender, c⟩ _ hl hc (List.mem_of_mem_filter hmem)
  exact Bool.false_ne_true h.symm

/-- Settings change, and no house gets idle by it. -/
theorem Live.tuned {s s' : NounsAuctionHouse} (h : Live p s) (ht : Tuned s s')
    (hp : ∀ a auction_ payee next, p ≠ .settling a auction_ payee next
      ∧ p ≠ .concluding a auction_ payee next) : Live p s' := by
  have hlive : (s.paused = false → ¬ s.auction.Idle) → s'.paused = false → ¬ s'.auction.Idle := by
    intro h hs'
    rw [ht.auction]
    by_cases hs : s.paused = true
    · exact ht.paused hs' hs
    · exact h (Bool.eq_false_iff.mpr hs)
  cases p with
  | outside | bidding | placing => exact hlive h
  | settling => exact absurd rfl (hp _ _ _ _).1
  | concluding => exact absurd rfl (hp _ _ _ _).2

/-- **Every act keeps the Nouns in custody.** -/
theorem HouseAct.custody (ha : HouseAct env x l (p, w) (q, w')) (hP : Custodial env x l)
    (hallowed : ∀ tx, l = .enter tx → (auctionMachine env).allowed tx x.world x.frames)
    (hi : HouseInv R p w) (hclock : Clock w) (hc : InCustody env p w) : InCustody env q w' := by
  cases ha with
  | calm hw h =>
      cases h with
      | @token sender view call token hl htoken =>
          obtain ⟨hnonzero, hhouse⟩ := hallowed _ hl
          have hother : sender ≠ env.house := fun heq => Bool.false_ne_true (hhouse heq)
          obtain ⟨hguarded, howns, hid⟩ := hc.guarded.call hP.minter
            ⟨hother, hnonzero, hP.noProxy _ _ _ hl⟩ htoken
          exact hc.same hguarded howns hid rfl rfl hc.live
      | weth | ether => exact hc.same hc.guarded (fun _ h => h) rfl rfl rfl hc.live
      | house htunes ht =>
          refine hc.same hc.guarded (fun _ h => h) rfl ht.auction rfl ?_
          -- the step that changes a setting calls the house
          have hcall : ∃ sender c, l = .enter ⟨sender, c⟩ ∧ ofHouse c = true := by
            cases l with
            | enter tx =>
                obtain ⟨sender, c⟩ := tx
                refine ⟨sender, c, rfl, ?_⟩
                cases c with
                | token | weth | sendEther => exact absurd htunes Bool.false_ne_true
                | _ => rfl
            | resume | tick => exact absurd htunes Bool.false_ne_true
          obtain ⟨sender, c, hl, hhouse⟩ := hcall
          refine hc.live.tuned ⟨ht.auction, ht.entered, ht.paused⟩ fun a auction_ payee next => ⟨?_, ?_⟩
          · intro hsame
            subst hsame
            cases hw
          · intro hsame
            subst hsame
            exact hP.not_concluding hl hhouse hw
  | tick => exact hc.same hc.guarded (fun _ h => h) rfl rfl rfl hc.live
  | @reopened _ _ sender view hl hw hpaused hidle h =>
      -- an idle house makes an auction as it does after a settlement
      have hcreate : InCustody env .outside w' := by
        refine h.custody (w := logged _ _ x.world) ⟨hclock.begun, hclock.expired⟩ hidle
          (p := .settling 0 ⟨0, 0, 0, 0, 0, true⟩ 0 (some view)) ?_
        exact hc.same hc.guarded (fun _ h => h) rfl rfl rfl ⟨hidle, fun h => absurd h (Option.some_ne_none _)⟩
      cases p with
      | outside => exact hcreate
      | bidding => cases hw
      | placing =>
          cases hi with
          | placing _ _ hn => exact absurd hidle hn
      | settling => cases hw
      | concluding => exact absurd hw (hP.not_concluding hl rfl)
  | checked =>
      have hlive := hc.live
      split <;> exact hc.same hc.guarded (fun _ h => h) rfl rfl rfl hlive
  | refunded =>
      exact hc.noted rfl rfl Iff.rfl rfl (fun _ => .paid) rfl (fun _ h => by cases h) hc.live
  | placed =>
      exact hc.noted rfl rfl Iff.rfl rfl (fun _ => .accepted) rfl (fun _ h => by cases h) hc.live
  | @released sender view next token hdue hpaused hmove =>
      have hrunning : ¬ x.world.house.auction.Idle := by
        intro h
        rcases h with h | h
        · exact hdue.begun h
        · exact Bool.false_ne_true (hdue.unsettled.symm.trans h)
      have hidle : Auction.Idle { x.world.house.auction with settled := true } := .inr rfl
      obtain ⟨hguarded, hown, hid⟩ := hc.guarded.moveNoun hmove
      have hheld := hc.held hrunning
      have hturns := hc.turns
      rw [onAuction_running hrunning] at hturns
      have hids : createdIds (x.world.history ++ [.settled (settlementOf token x.world)])
          = createdIds x.world.history := createdIds_append.trans (List.append_nil _)
      -- the Noun leaves the house; the history says so whether or not somebody is paid for it
      have hcustody : ∀ q, Live q (Proof.released token x.world).house →
          InCustody env q (Proof.released token x.world) := by
        intro q hlive
        refine ⟨hguarded, fun h => absurd hidle h, ?_, ?_, ?_, ?_, hlive⟩
        · show Replays Turn none (x.world.history ++ [.settled (settlementOf token x.world)])
            (onAuction { x.world.house.auction with settled := true })
          rw [onAuction_idle hidle]
          exact hturns.snoc (@Turn.settled (settlementOf token x.world))
        · exact hids.symm ▸ hc.distinct
        · intro n hn
          have hn : n ∈ createdIds (x.world.history ++ [.settled (settlementOf token x.world)]) := hn
          rw [hids] at hn
          exact Nat.lt_of_lt_of_eq (hc.drawn n hn) hid.symm
        · intro s hm
          rcases List.mem_append.mp hm with hm | hm
          · exact hc.moved s hm
          · obtain rfl := AuctionDeed.settled.inj (List.mem_singleton.mp hm)
            exact ⟨hheld, hown⟩
      split <;> exact hcustody _ ⟨hidle, hpaused⟩
  | paid =>
      exact hc.noted rfl rfl Iff.rfl rfl (fun _ => .paid) rfl (fun _ h => by cases h) hc.live
  | rested =>
      obtain ⟨hidle, hpaused⟩ := hc.live
      refine hc.same hc.guarded (fun _ h => h) rfl rfl rfl ?_
      intro h
      exact absurd (h.symm.trans (hpaused rfl)) Bool.false_ne_true
  | @renewed _ w₁ sender payee auction_ view h =>
      have hsettled : InCustody env (.concluding sender auction_ payee (some view)) (settledLog auction_ w) :=
        hc.same hc.guarded (fun _ h => h) rfl rfl rfl hc.live
      have hcreate := h.custody ⟨hclock.begun, hclock.expired⟩ hc.live.1 hsettled
      exact hcreate.same hcreate.guarded (fun _ h => h) rfl rfl rfl hcreate.live

/-! ## Along runs -/

/-- The token as it is deployed with the house for its minter. -/
def NewToken (env : AuctionEnv) (s : NounsToken) : Prop :=
  ∃ owner noundersDAO descriptor seeder,
    s = .deploy owner noundersDAO env.house descriptor seeder

theorem custody_runs {d : AuctionDeployment env} (hd : NewToken env d.token)
    (hx : AuctionRuns (Custodial env) d x) : ∃ p, Phased (· ≤ ·) (InCustody env) p x := by
  obtain ⟨-, -, hidle, hpaused⟩ := deployed_inv (R := (· ≤ ·)) d
  have hstart : InCustody env .outside d.world := by
    obtain ⟨owner, noundersDAO, descriptor, seeder, htoken⟩ := hd
    have hguarded : Guarded env.house d.token := by
      rw [htoken]
      exact guarded_deploy
    refine ⟨hguarded, fun h => absurd hidle h, ?_, List.nodup_nil,
      fun n hn => absurd hn List.not_mem_nil, fun s hm => absurd hm List.not_mem_nil, ?_⟩
    · show Replays Turn none [] (onAuction d.house.auction)
      rw [onAuction_idle hidle]
      exact .nil
    · intro h
      exact absurd (h.symm.trans hpaused) Bool.false_ne_true
  exact phased_runs d hx.permitted (fun _ _ _ => outbids_le) hstart
    fun _ _ _ _ _ _ hP ha hi hc h => ha.custody hP.1 hP.2 hi hc h

/-- What became of Noun `n`: it left the house once, to the last bidder, or was burned if there was none. -/
def LeftOnce (env : AuctionEnv) (n : Nat) (h : List AuctionDeed) : Prop :=
  ∃ settlement, settlementsFor n h = [settlement] ∧ settlement.src = env.house
    ∧ settlement.dst = settlement.bidder
    ∧ ∃ pre post, h = pre ++ .settled settlement :: post
      ∧ (settlement.bidder ≠ 0 → ∃ pre' bid, pre = pre' ++ [.accepted bid] ∧ bid.nounId = n
        ∧ bid.bidder = settlement.bidder ∧ bid.amount = settlement.amount)
      ∧ (settlement.bidder = 0 → ∃ pre', pre = pre' ++ [.created n])

theorem InCustody.left (hc : InCustody env p w) {s : Stage} (hkept : Kept R w s) {n : Nat}
    (hn : AuctionDeed.created n ∈ w.history) (hcur : onAuction w.house.auction ≠ some n) :
    LeftOnce env n w.history := by
  have hid : n ∈ createdIds w.history := List.mem_filterMap.mpr ⟨_, hn, rfl⟩
  obtain ⟨-, honce⟩ := settled_once hc.turns hc.distinct
  rcases honce n hid with ⟨heq, -⟩ | ⟨-, settlement, hset⟩
  · exact absurd heq hcur
  · have hmem : settlement ∈ settlementsFor n w.history := hset ▸ List.mem_singleton_self _
    obtain ⟨e, hm, he⟩ := List.mem_filterMap.mp hmem
    -- the one deed that settles `n`
    have hdeed : e = .settled settlement ∧ settlement.nounId = n := by
      cases e with
      | settled s =>
          simp only [settlementFor] at he
          split at he
          · next hsn =>
              obtain rfl := Option.some.inj he
              exact ⟨rfl, hsn⟩
          · cases he
      | created | accepted | paid => cases he
    obtain ⟨rfl, rfl⟩ := hdeed
    obtain ⟨hsrc, hdst⟩ := hc.moved settlement hm
    obtain ⟨pre, post, hh⟩ := List.append_of_mem hm
    refine ⟨settlement, hset, hsrc, hdst, pre, post, hh, ?_, ?_⟩
    · intro hb
      obtain ⟨pre', bid, hpre, hid, hbidder, hamount, -⟩ := winner_last (hkept.of_eq hh) hb
      exact ⟨pre', bid, hpre, hid, hbidder, hamount⟩
    · intro hb
      exact unsold_last (hkept.of_eq hh) hb

/--
**Custody of auctioned Nouns.** Between transactions a house that is not paused has a
running auction; it owns the Noun on auction; and every other Noun it was minted left it by
one settlement. What it burns it owns, and no running auction is overwritten.
-/
theorem house_custody {env : AuctionEnv} (d : AuctionDeployment env) (hd : NewToken env d.token)
    (x : AuctionConfig) (hx : AuctionRuns (Custodial env) d x) (hframes : x.frames = []) :
    (x.world.house.paused = false →
        x.world.house.auction.startTime ≠ 0 ∧ x.world.house.auction.settled = false)
      ∧ (x.world.house.auction.startTime ≠ 0 → x.world.house.auction.settled = false →
        x.world.token.owners_ x.world.house.auction.nounId = env.house)
      ∧ (∀ n, AuctionDeed.created n ∈ x.world.history →
        ¬ (x.world.house.auction.nounId = n ∧ x.world.house.auction.settled = false) →
        LeftOnce env n x.world.history)
      ∧ (∀ settlement, AuctionDeed.settled settlement ∈ x.world.history → settlement.src = env.house)
      ∧ ∀ (pre mid post : List AuctionDeed) (n n' : Nat),
        x.world.history = pre ++ .created n :: (mid ++ .created n' :: post) →
        ∃ settlement, AuctionDeed.settled settlement ∈ mid ∧ settlement.nounId = n := by
  obtain ⟨p, hwaits, hi, -, hc⟩ := custody_runs hd hx
  rw [hframes] at hwaits
  -- no call is pending, so the house is at rest
  obtain rfl := hwaits.nil
  obtain ⟨s, hkept⟩ := kept_runs (R := (· ≤ ·)) d hx fun _ _ _ => outbids_le
  refine ⟨fun hpaused => ?_, fun hbegun hopen => ?_, fun n hn hcur => ?_, fun settlement hm => ?_,
    fun pre mid post n n' hh => ?_⟩
  · obtain ⟨hbegun, hopen⟩ := not_or.mp (hc.live hpaused)
    exact ⟨hbegun, Bool.eq_false_iff.mpr hopen⟩
  · refine hc.held fun hidle => ?_
    rcases hidle with h | h
    · exact hbegun h
    · exact Bool.false_ne_true (hopen.symm.trans h)
  · refine hc.left hkept hn fun honauction => hcur ?_
    unfold onAuction at honauction
    split at honauction
    · cases honauction
    · next hrunning => exact ⟨Option.some.inj honauction, Bool.eq_false_iff.mpr (not_or.mp hrunning).2⟩
  · exact (hc.moved settlement hm).1
  · have hturns := hc.turns
    rw [hh] at hturns
    exact never_overwritten hturns

/-- Whether a step leaves the Nouns in custody, where nobody ever has a proxy. -/
def custodial (env : AuctionEnv) (x : AuctionConfig) (l : AuctionLabel) : Bool :=
  match l with
  | .enter ⟨_, .token view _⟩ => x.world.token.minter = env.house ∧ view.proxies env.house = 0
  | .enter ⟨_, c⟩ => x.world.token.minter = env.house
      ∧ (ofHouse c = false ∨ x.frames.all fun f => isPayout f = false)
  | _ => x.world.token.minter = env.house

theorem custodial_custodial (env : AuctionEnv) (x : AuctionConfig) (l : AuctionLabel)
    (h : custodial env x l = true) :
    Custodial env x l := by
  cases l with
  | enter tx =>
      obtain ⟨sender, c⟩ := tx
      cases c with
      | token view call =>
          obtain ⟨hminter, hproxy⟩ := of_decide_eq_true h
          refine ⟨hminter, ?_, ?_⟩
          · intro _ _ _ hl
            cases hl
            exact hproxy
          · intro tx f hl hhouse
            cases hl
            exact absurd hhouse Bool.false_ne_true
      | _ =>
          obtain ⟨hminter, hframes⟩ := of_decide_eq_true h
          refine ⟨hminter, fun _ _ _ hl => (by cases hl), ?_⟩
          intro tx f hl hhouse hf
          cases hl
          rcases hframes with hno | hframes
          · exact absurd (hhouse.symm.trans hno) Bool.true_eq_false_eq_False
          · exact of_decide_eq_true (List.all_eq_true.mp hframes f hf)
  | resume | tick =>
      exact ⟨of_decide_eq_true h, fun _ _ _ hl => (by cases hl), fun _ _ hl => (by cases hl)⟩

/-- Noun 1 goes to account 8, and the house keeps Noun 2. -/
theorem house_custody_late : ∃ x, AuctionRuns (Custodial smallAuctionEnv) smallAuction x
    ∧ x.frames = [] ∧ x.world.token.owners_ 1 = .ofNat 8 ∧ x.world.token.owners_ 2 = .ofNat 4
    ∧ LeftOnce smallAuctionEnv 1 x.world.history := by
  obtain ⟨x, hx, hp⟩ := Machine.script_exists (M := auctionMachine smallAuctionEnv)
    (custodial_custodial smallAuctionEnv) (x := ⟨smallAuction.world, []⟩) (m := lateBid)
    (p := fun x => x.frames.isEmpty ∧ x.world.token.owners_ 1 = .ofNat 8
      ∧ x.world.token.owners_ 2 = .ofNat 4 ∧ AuctionDeed.created 1 ∈ x.world.history
      ∧ x.world.house.auction.nounId = 2) (by decide +kernel)
  obtain ⟨hframes, howner, hhouse, hcreated, hid⟩ := of_decide_eq_true hp
  have hframes := List.isEmpty_iff.mp hframes
  obtain ⟨-, -, hleft, -⟩ := house_custody smallAuction
    ⟨.ofNat 1, .ofNat 2, .ofNat 5, .ofNat 6, rfl⟩ x hx hframes
  refine ⟨x, hx, hframes, howner, hhouse, hleft 1 hcreated ?_⟩
  intro hcur
  exact absurd (hid.symm.trans hcur.1) (by decide)

end Nouns.Proof
