import Nouns.Proof.HouseInvariant
import Nouns.Proof.Minting
import Nouns.Proof.SeedPrediction
import Nouns.Webapp.OnDisplayAuction

/-!
# Which Nouns the web app takes for rewards

The app looks at the last digit of an id only, the token also at how far its counter got.
They agree up to the last reward, and on every id that is no multiple of ten. A later
multiple of ten is auctioned like any other Noun, but the app has an empty auction for it.
-/

namespace Nouns.Proof

open Evm CallMachine Assets

variable {g : Genesis} {x y : Config TokenWorld TokenFrame} {n id : Nat} {s s' : NounsToken} {m : Msg}

/-! ## Which mint issued a Noun -/

/-- On a run to `x`, a `mint` that returned `id` issued `n`, be it the reward or the one returned. -/
def IssuedBeside (g : Genesis) (x : Config TokenWorld TokenFrame) (n id : Nat) : Prop :=
  ∃ (y z : Config TokenWorld TokenFrame) (tx : TokenTx), TokenRuns g y
    ∧ tokenMachine.Step y (.enter tx) z ∧ tokenMachine.Runs Free z x ∧ tx.call = .mint
    ∧ y.world.token.mint (tx.msg y.world.block) = .ok (z.world.token, id)
    ∧ y.world.token.currentNounId_ ≤ n ∧ n < z.world.token.currentNounId_

/-- Every Noun below the counter was issued by some `mint`. -/
theorem exists_issuedBeside (h : TokenRuns g x) (hn : n < x.world.token.currentNounId_) :
    ∃ id, IssuedBeside g x n id := by
  induction h with
  | refl => exact absurd hn (Nat.not_lt_zero n)
  | @tail y x hy hs ih =>
      obtain ⟨l, hl, hs⟩ := hs
      by_cases hbefore : n < y.world.token.currentNounId_
      · obtain ⟨id, a, b, tx, ha, hab, hb, hrest⟩ := ih hbefore
        exact ⟨id, a, b, tx, ha, hab, hb.tail hl hs, hrest⟩
      · obtain ⟨tx, id, rfl, hc, -, hmint⟩ := step_minter hs (by omega)
        exact ⟨id, y, x, tx, hy, hs, .refl, hc, hmint, by omega, hn⟩

/-- The first branch of `mint` issues the rewards, and returns none of them. -/
theorem mint_first_branch (h : s.mint m = .ok (s', id)) (hle : s.currentNounId_ ≤ n)
    (hlt : n < s'.currentNounId_) : n ≠ id ↔ IsReward n := by
  obtain ⟨-, ⟨hturn, rfl, hd⟩ | ⟨hturn, rfl, s₁, hd, hd'⟩⟩ := mint_drew h
  · rw [hd.counter] at hlt
    obtain rfl : n = s.currentNounId_ := by omega
    exact ⟨fun hne => absurd rfl hne, fun hr => absurd hr hturn⟩
  · rw [hd'.counter, hd.counter] at hlt
    rcases Nat.eq_or_lt_of_le hle with rfl | hgt
    · exact ⟨fun _ => hturn, fun _ => by omega⟩
    · obtain rfl : n = s.currentNounId_ + 1 := by omega
      exact ⟨fun hne => absurd rfl hne, fun hr => absurd hr (not_isReward_succ hturn)⟩

theorem mint_id_not_isReward (h : s.mint m = .ok (s', id)) : ¬ IsReward id := by
  obtain ⟨-, ⟨hturn, rfl, -⟩ | ⟨hturn, rfl, -⟩⟩ := mint_drew h
  · exact hturn
  · exact not_isReward_succ hturn

/-! ## What the house auctions -/

/-- No reward was put up for auction. -/
def NoRewardSold (w : AuctionWorld) : Prop := ∀ n, .created n ∈ w.history → ¬ IsReward n

variable {env : AuctionEnv} {w w' : AuctionWorld} {p q : Phase} {l : AuctionLabel} {c : AuctionConfig}

theorem NoRewardSold.snoc (h : NoRewardSold w) {d : AuctionDeed} (hw : w'.history = w.history ++ [d])
    (hd : ∀ n, d = .created n → ¬ IsReward n) : NoRewardSold w' := by
  intro n hn
  rw [hw, List.mem_append, List.mem_singleton] at hn
  rcases hn with hn | hn
  · exact h n hn
  · exact hd n hn.symm

theorem Creates.noRewardSold {view : View} (hc : Creates env view w w') (h : NoRewardSold w) :
    NoRewardSold w' := by
  cases hc with
  | opened hmint =>
      refine h.snoc rfl ?_
      intro n hn
      obtain rfl := AuctionDeed.created.inj hn
      exact mint_id_not_isReward hmint
  | halted => exact h

theorem HouseAct.noRewardSold (ha : HouseAct env c l (p, w) (q, w')) (h : NoRewardSold w) :
    NoRewardSold w' := by
  cases ha with
  | calm _ hcalm =>
      cases hcalm with
      | token | weth | ether | house => exact h
  | reopened _ _ _ _ hc => exact Creates.noRewardSold hc h
  | renewed hc =>
      have h := hc.noRewardSold h
      exact h
  | refunded | placed | released | paid => exact h.snoc rfl fun n hn => AuctionDeed.noConfusion hn
  | tick | checked | rested => exact h

theorem noRewardSold_runs (d : AuctionDeployment env) (hx : AuctionRuns Free d c) :
    NoRewardSold c.world := by
  obtain ⟨p, h⟩ := phased_runs (R := (· ≤ ·)) (I := fun _ w => NoRewardSold w) d hx
    (fun _ _ _ => outbids_le) (fun n hn => absurd hn List.not_mem_nil)
    fun _ _ _ _ _ _ _ ha _ _ h => ha.noRewardSold h
  exact h.more

/-! ## What the app shows -/

theorem findM?_append {A : Type} {f : A → Option Bool} {before after : List A} {a : A}
    (hbefore : ∀ b ∈ before, f b = some false) (ha : f a = some true) :
    (before ++ a :: after).findM? f = some (some a) := by
  induction before with
  | nil => simp [List.findM?, ha]
  | cons b before ih =>
      have hb := hbefore b List.mem_cons_self
      have ih := ih fun b hb => hbefore b (List.mem_cons_of_mem _ hb)
      simp only [List.cons_append, List.findM?, hb]
      exact ih

section
variable {ethers : Ethers} {keccak256 : List UInt8 → Bytes32} (he : ethers.Documented keccak256)
include he

theorem isNounderNoun_eq (n : Nat) : Webapp.isNounderNoun ethers n = some (decide (n % 10 = 0)) := by
  unfold Webapp.isNounderNoun
  rw [he.mod_eq n 10 (by decide)]
  show some (decide (n % 10 = 0) || decide (n = 0)) = _
  congr 1
  by_cases h0 : n = 0
  · subst h0
    rfl
  · rw [decide_eq_false h0, Bool.or_false]

/-- The app is asked for Noun `n` of the past, and has `auction` for it. -/
structure Asks (state : Webapp.AppState) (n : Nat) (auction : Webapp.Auction) : Prop where
  onDisplay : state.onDisplayAuctionNounId = some n
  current : ∃ a, state.activeAuction = some a ∧ a.nounId ≠ n
  past : ∃ before after, state.pastAuctions = before ++ ⟨some auction⟩ :: after
    ∧ ∀ b ∈ before, ∃ a, b.activeAuction = some a ∧ a.nounId ≠ n ∧ a.nounId ≤ maxSafeInteger
  nounId_eq : auction.nounId = n

variable {state : Webapp.AppState} {auction : Webapp.Auction}

/-- An id with another last digit is looked up. -/
theorem useOnDisplayAuction_past (hn : n < maxSafeInteger) (h : Asks state n auction)
    (hdigit : n % 10 ≠ 0) :
    Webapp.useOnDisplayAuction ethers state = some (some (Webapp.deserializeAuction auction)) := by
  obtain ⟨honDisplay, ⟨current, hcurrent, hother⟩, ⟨before, after, hpast, hbefore⟩, hid⟩ := h
  unfold Webapp.useOnDisplayAuction
  rw [honDisplay, hcurrent]
  simp only [he.fromNumber_safe n hn, isNounderNoun_eq he, hdigit, decide_false, Option.bind_eq_bind,
    Option.bind_some, if_neg (Ne.symm hother), Bool.false_eq_true, if_false]
  have hfound : state.pastAuctions.findM? (Webapp.isPastAuction ethers n) = some (some ⟨some auction⟩) := by
    rw [hpast]
    refine findM?_append (fun b hb => ?_) ?_
    · obtain ⟨a, ha, hne, hsafe⟩ := hbefore b hb
      unfold Webapp.isPastAuction
      simp only [ha, he.toNumber_safe _ hsafe, Option.bind_eq_bind, Option.bind_some]
      exact congrArg some (decide_eq_false hne)
    · unfold Webapp.isPastAuction
      simp only [hid, he.toNumber_safe n (Nat.le_of_lt hn), Option.bind_eq_bind, Option.bind_some]
      exact congrArg some (decide_eq_true trivial)
  rw [hfound]
  rfl

/-- An id that ends in 0 is given an auction nobody bid in. -/
theorem useOnDisplayAuction_nounder (hn : n < maxSafeInteger) (h : Asks state n auction)
    (hdigit : n % 10 = 0) {shown : Option Webapp.Auction}
    (hshown : Webapp.useOnDisplayAuction ethers state = some shown) :
    ∃ a, shown = some a ∧ a.bidder = "" := by
  obtain ⟨honDisplay, ⟨current, hcurrent, hother⟩, -, -⟩ := h
  unfold Webapp.useOnDisplayAuction at hshown
  rw [honDisplay, hcurrent] at hshown
  simp only [he.fromNumber_safe n hn, isNounderNoun_eq he, hdigit, decide_true, Option.bind_eq_bind,
    Option.bind_some, if_neg (Ne.symm hother), if_true, Option.bind_eq_some_iff] at hshown
  obtain ⟨empty, hempty, hshown⟩ := hshown
  obtain rfl := Option.some.inj hshown
  refine ⟨_, rfl, ?_⟩
  show empty.bidder = ""
  simp only [Webapp.generateEmptyNounderAuction, Webapp.emptyNounderAuction, Option.bind_eq_bind,
    Option.bind_eq_some_iff] at hempty
  obtain ⟨_, _, blank, ⟨_, _, hblank⟩, above, _, hempty⟩ := hempty
  obtain rfl := Option.some.inj hblank
  cases above with
  | none =>
      obtain rfl := Option.some.inj hempty
      rfl
  | some above =>
      obtain rfl := Option.some.inj hempty
      rfl

end

/-- An app that is asked for Noun `n`. -/
def askingFor (n : Nat) : Webapp.AppState where
  activeAuction := some ⟨0, "", 0, 0, n + 1, false⟩
  onDisplayAuctionNounId := some n
  pastAuctions := [⟨some ⟨1, "0x0000000000000000000000000000000000000001", 0, 0, n, false⟩⟩]

theorem asks_askingFor (n : Nat) :
    Asks (askingFor n) n ⟨1, "0x0000000000000000000000000000000000000001", 0, 0, n, false⟩ :=
  ⟨rfl, ⟨_, rfl, Nat.succ_ne_self n⟩, ⟨[], [], rfl, fun _ hb => absurd hb List.not_mem_nil⟩, rfl⟩

/--
**The app classifies a Noun as the token does unless it is a later multiple of ten.** Noun
`n` was issued beside the one its mint returned iff the app takes it for a reward, exactly
if `n` is at most 1820 or no multiple of ten; and that is exactly when the app shows every
auction there was for an auctioned Noun, whatever its state.
-/
theorem nounder_nouns (keccak256 : List UInt8 → Bytes32) (ethers : Ethers)
    (he : ethers.Documented keccak256) :
    (∀ (g : Genesis) (x : Config TokenWorld TokenFrame) (n : Nat), TokenRuns g x →
      n < x.world.token.currentNounId_ → (∃ id, IssuedBeside g x n id)
        ∧ ∀ id, IssuedBeside g x n id →
          ((Webapp.isNounderNoun ethers n = some true ↔ n ≠ id) ↔ n ≤ 1820 ∨ n % 10 ≠ 0))
    ∧ ∀ (env : AuctionEnv) (d : AuctionDeployment env) (c : AuctionConfig) (n : Nat),
      AuctionRuns Free d c → .created n ∈ c.world.history → n < maxSafeInteger →
        ((∀ state auction, Asks state n auction → Webapp.useOnDisplayAuction ethers state
          = some (some (Webapp.deserializeAuction auction))) ↔ n ≤ 1820 ∨ n % 10 ≠ 0) := by
  refine ⟨fun g x n hx hn => ⟨exists_issuedBeside hx hn, ?_⟩, fun env d c n hc hn hsafe => ⟨?_, ?_⟩⟩
  · intro id hid
    obtain ⟨y, z, tx, -, -, -, -, hmint, hle, hlt⟩ := hid
    rw [isNounderNoun_eq he, mint_first_branch hmint hle hlt, Option.some.injEq, decide_eq_true_iff]
    unfold IsReward
    omega
  · intro hshows
    by_contra hnot
    have hdigit : n % 10 = 0 := by omega
    have hshown := hshows _ _ (asks_askingFor n)
    obtain ⟨a, ha, hbidder⟩ := useOnDisplayAuction_nounder he hsafe (asks_askingFor n) hdigit hshown
    obtain rfl := Option.some.inj ha
    have hsome : "0x0000000000000000000000000000000000000001" ≠ "" := by decide
    exact hsome hbidder
  · intro hwhen state auction hasks
    have hreward : ¬ IsReward n := noRewardSold_runs d hc n hn
    have hdigit : n % 10 ≠ 0 := by
      unfold IsReward at hreward
      omega
    exact useOnDisplayAuction_past he hsafe hasks hdigit

/-- Noun 0 is a reward, and the app knows. -/
theorem nounder_nouns_first : ∃ x, TokenRuns smallGenesis x ∧ ∃ id, IssuedBeside smallGenesis x 0 id
    ∧ (Webapp.isNounderNoun (plainEthers digest116) 0 = some true ↔ 0 ≠ id) := by
  obtain ⟨x, hx, hp⟩ := Machine.script_exists (M := tokenMachine) Machine.anything_free
    (x := ⟨smallGenesis.world, []⟩) (m := [.enter (smallTx (.ofNat 4) .mint)])
    (p := fun x => x.world.token.currentNounId_ = 2) (by decide +kernel)
  have hcounter : x.world.token.currentNounId_ = 2 := of_decide_eq_true hp
  obtain ⟨⟨id, hid⟩, hiff⟩ := (nounder_nouns _ _ (plainEthers_documented digest116)).1 smallGenesis x 0
    hx (by rw [hcounter]; decide)
  exact ⟨x, hx, id, hid, (hiff id hid).mpr (.inl (by decide))⟩

/-- Noun 1830 is minted and returned to the minter, and the app takes it for a reward. -/
theorem nounder_nouns_1830 : ∃ x, TokenRuns smallGenesis x ∧ IssuedBeside smallGenesis x 1830 1830
    ∧ Webapp.isNounderNoun (plainEthers digest116) 1830 = some true
    ∧ ∃ auction, Asks (askingFor 1830) 1830 auction
      ∧ Webapp.useOnDisplayAuction (plainEthers digest116) (askingFor 1830)
        ≠ some (some (Webapp.deserializeAuction auction)) := by
  obtain ⟨x, hx⟩ := exists_mintedOn 1831 (by decide)
  obtain ⟨id, hid⟩ := exists_issuedBeside hx.runs (n := 1830) hx.least
  have hid' := hid
  obtain ⟨_, _, _, _, _, _, _, hmint, hle, hlt⟩ := hid'
  have hreturned : 1830 = id := by
    by_contra hne
    exact absurd ((mint_first_branch hmint hle hlt).mp hne) (by decide)
  rw [← hreturned] at hid
  refine ⟨x, hx.runs, hid, rfl, _, asks_askingFor 1830, ?_⟩
  decide

end Nouns.Proof
