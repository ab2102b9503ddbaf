import Nouns.Proof.Minting
import Nouns.Proof.Settling
import Nouns.Token.NounsSeeder

/-!
# When the next mint fails

The house catches a revert with a reason and pauses; it does not catch any other. A minter
that was changed, or rewards for the zero address, are told by a reason. A seed that cannot
be drawn is not: an account without code answers with nothing, and a descriptor without
parts makes the compiler's check of a division fail. Then the settlement is undone as well.
-/

namespace Nouns.Proof

open Evm CallMachine DelegatedVotes

/-! ## Drawing seeds -/

/-- A descriptor has parts of every kind. -/
structure Populated (parts : PartCounts) : Prop where
  backgrounds : 0 < parts.backgroundCount
  bodies : 0 < parts.bodyCount
  accessories : 0 < parts.accessoryCount
  heads : 0 < parts.headCount
  glasses : 0 < parts.glassesCount

/-- The token asks a NounsSeeder about a NounsDescriptor with parts of every kind. -/
def Seeds (source : SeedSource) (s : NounsToken) : Prop :=
  source.isSeeder s.seeder = true ∧ ∃ parts, source.parts s.descriptor = some parts ∧ Populated parts

variable {source : SeedSource} {block : Block} {n a b c : Nat} {reason : String}

theorem checkedMod_iff : checkedMod a b = .ok c ↔ 0 < b ∧ c = a % b := by
  unfold checkedMod
  split
  · next hb => simp [hb]
  · next hb => simp [Nat.pos_of_ne_zero hb, eq_comm]

theorem avoids_checkedMod : Avoids (.error reason) (checkedMod a b) := by
  unfold checkedMod
  split <;> simp [Avoids]

/-- Seeds are drawn exactly if there are parts of every kind. -/
theorem generateSeed_iff {keccak256 : List UInt8 → Bytes32} {blockhash : Nat → Bytes32} {parts : PartCounts}
    (hblock : 0 < block.number) :
    (∃ seed, generateSeed keccak256 blockhash block n parts = .ok seed) ↔ Populated parts := by
  constructor
  · intro hin
    obtain ⟨seed, h⟩ := hin
    simp only [generateSeed, bind_ok, checkedMod_iff] at h
    obtain ⟨_, _, _, ⟨h1, -⟩, _, ⟨h2, -⟩, _, ⟨h3, -⟩, _, ⟨h4, -⟩, _, ⟨h5, -⟩, -⟩ := h
    exact ⟨h1, h2, h3, h4, h5⟩
  · intro h
    refine bind_total (sub_ok.mpr ⟨hblock, rfl⟩) (bind_total (checkedMod_iff.mpr ⟨h.backgrounds, rfl⟩) ?_)
    refine bind_total (checkedMod_iff.mpr ⟨h.bodies, rfl⟩) ?_
    refine bind_total (checkedMod_iff.mpr ⟨h.accessories, rfl⟩) ?_
    refine bind_total (checkedMod_iff.mpr ⟨h.heads, rfl⟩) ?_
    exact bind_total (checkedMod_iff.mpr ⟨h.glasses, rfl⟩) ⟨_, rfl⟩

theorem source_generateSeed_iff {s : NounsToken} (hblock : 0 < block.number) :
    (∃ seed, source.generateSeed block s.seeder n s.descriptor = .ok seed) ↔ Seeds source s := by
  unfold SeedSource.generateSeed Seeds
  split
  · next hseeder =>
      split
      · next parts hparts =>
          -- the seeder divides by the number of parts of each kind
          rw [generateSeed_iff hblock]
          constructor
          · intro h
            exact ⟨hseeder, parts, hparts, h⟩
          · intro hin
            obtain ⟨-, parts', hparts', h⟩ := hin
            obtain rfl := Option.some.inj (hparts.symm.trans hparts')
            exact h
      · next hparts =>
          constructor
          · intro hin
            obtain ⟨seed, h⟩ := hin
            obtain ⟨_, _, h⟩ := bind_ok.mp h
            cases h
          · intro hin
            obtain ⟨-, parts, hsome, -⟩ := hin
            rw [hparts] at hsome
            cases hsome
  · next hseeder =>
      constructor
      · intro hin
        obtain ⟨seed, h⟩ := hin
        cases h
      · intro hin
        obtain ⟨h, -⟩ := hin
        exact absurd h hseeder

/-- No code a seed is drawn by reverts with a reason. -/
theorem source_avoids (seeder descriptor : Address) :
    Avoids (.error reason) (source.generateSeed block seeder n descriptor) := by
  unfold SeedSource.generateSeed
  split
  · split
    · unfold generateSeed
      refine avoids_bind avoids_sub fun _ _ => avoids_bind avoids_checkedMod ?_
      intro _ _
      refine avoids_bind avoids_checkedMod fun _ _ => avoids_bind avoids_checkedMod ?_
      intro _ _
      refine avoids_bind avoids_checkedMod fun _ _ => avoids_bind avoids_checkedMod ?_
      intro _ _
      exact avoids_pure
    · exact avoids_bind avoids_sub fun _ _ => by simp [Avoids]
  · simp [Avoids]

/-! ## Minting -/

variable {m : Msg} {s s' : NounsToken} {e : Revert} {α β : Type}

theorem bind_of_error {x : Result α} {f : α → Result β} (h : x = .error e) : (x >>= f) = .error e := by
  rw [h]
  rfl

/-- What a mint draws its seeds from is `source`. -/
def DrawsFrom (source : SeedSource) (m : Msg) : Prop :=
  m.view.generateSeed = source.generateSeed m.block

/-- The turn of a reward, with nobody to give it to. -/
def Unrewarded (s : NounsToken) : Prop := IsReward s.currentNounId_ ∧ s.noundersDAO = 0

theorem mint_stranger (h : m.sender ≠ s.minter) :
    s.mint m = .error (.error "Sender is not the minter") :=
  bind_of_error (if_neg h)

/-- The first Noun of a mint, the reward if it is its turn. -/
theorem mint_first_seed (hsender : m.sender = s.minter) (hroom : s.currentNounId_ + 1 < 2 ^ 256)
    (he : m.view.generateSeed s.seeder s.currentNounId_ s.descriptor = .error e) :
    s.mint m = .error e := by
  have hnext := nextNounId_eq hroom
  refine (bind_of_ok (require_total hsender)).trans ?_
  by_cases hturn : IsReward s.currentNounId_
  · have hreward : s.mintReward m = .error e := by
      refine (if_pos hturn).trans ?_
      exact (bind_of_ok hnext).trans (bind_of_error he)
    exact bind_of_error hreward
  · have hreward : s.mintReward m = .ok s := by
      unfold NounsToken.mintReward
      exact if_neg hturn
    refine (bind_of_ok hreward).trans ((bind_of_ok hnext).trans ?_)
    exact bind_of_error (bind_of_error he)

theorem mint_unrewarded (hsender : m.sender = s.minter) (hroom : s.currentNounId_ + 1 < 2 ^ 256)
    (hseeded : Seeded m s s.currentNounId_) (h : Unrewarded s) :
    s.mint m = .error (.error "ERC721: mint to the zero address") := by
  obtain ⟨hturn, hdao⟩ := h
  obtain ⟨seed, hseed⟩ := hseeded
  have hreward : s.mintReward m = .error (.error "ERC721: mint to the zero address") := by
    refine (if_pos hturn).trans ?_
    refine (bind_of_ok (nextNounId_eq hroom)).trans ((bind_of_ok hseed).trans ?_)
    exact bind_of_error (bind_of_error (if_neg (not_not.mpr hdao)))
  exact (bind_of_ok (require_total hsender)).trans (bind_of_error hreward)

theorem seeded_of_seeds (hi : TokenInv m.block.number s) (hdraws : DrawsFrom source m)
    (h : Seeds source s) (n : Nat) : Seeded m s n := by
  unfold Seeded
  rw [hdraws]
  exact (source_generateSeed_iff hi.checkpoints.now_pos).mpr h

/-- Without seeds the minter's mint fails, and no reason is given. -/
theorem mint_unseeded (hi : TokenInv m.block.number s) (hroom : s.currentNounId_ + 1 < 2 ^ 256)
    (hdraws : DrawsFrom source m) (hsender : m.sender = s.minter) (h : ¬ Seeds source s) :
    ∃ e, s.mint m = .error e ∧ ∀ reason, e ≠ .error reason := by
  generalize hr : source.generateSeed m.block s.seeder s.currentNounId_ s.descriptor = r
  cases r with
  | ok seed => exact absurd ((source_generateSeed_iff hi.checkpoints.now_pos).mp ⟨seed, hr⟩) h
  | error e =>
      refine ⟨e, mint_first_seed hsender hroom (by rw [hdraws]; exact hr), ?_⟩
      intro reason he
      have havoids : Avoids (.error reason)
          (source.generateSeed m.block s.seeder s.currentNounId_ s.descriptor) :=
        source_avoids s.seeder s.descriptor
      rw [he] at hr
      exact havoids hr

/-- **Why a mint fails.** -/
theorem mint_fails (hi : TokenInv m.block.number s) (h32 : m.block.number < 2 ^ 32)
    (hroom : s.currentNounId_ + 2 < 2 ^ 96) (hdraws : DrawsFrom source m) (hsender : m.sender ≠ 0)
    (hfails : ∀ r, s.mint m ≠ .ok r) :
    m.sender ≠ s.minter ∨ ¬ Seeds source s ∨ Unrewarded s := by
  by_contra hnot
  rw [not_or, not_or, not_not, not_not] at hnot
  obtain ⟨hminter, hseeds, hrewarded⟩ := hnot
  have hdao : IsReward s.currentNounId_ → s.noundersDAO ≠ 0 := fun hturn hdao =>
    hrewarded ⟨hturn, hdao⟩
  obtain ⟨r, hr⟩ := mint_total hi h32 hroom hminter (hminter ▸ hsender)
    (seeded_of_seeds hi hdraws hseeds) hdao
  exact hfails r hr

/-- Somebody else is the minter, or seeds can be drawn: what fails then, fails with a reason. -/
def Catchable (source : SeedSource) (a : Address) (s : NounsToken) : Prop :=
  s.minter ≠ a ∨ Seeds source s

/-- What a mint fails for is the same in `s'`. -/
structure SameRoles (s s' : NounsToken) : Prop where
  minter : s'.minter = s.minter
  noundersDAO : s'.noundersDAO = s.noundersDAO
  seeder : s'.seeder = s.seeder
  descriptor : s'.descriptor = s.descriptor
  counter : s'.currentNounId_ = s.currentNounId_

/-- A failing mint is told why exactly if it can be caught, now and as long as the roles stay. -/
theorem mint_reason (hi : TokenInv m.block.number s) (h32 : m.block.number < 2 ^ 32)
    (hroom : s.currentNounId_ + 2 < 2 ^ 96) (hdraws : DrawsFrom source m) (hsender : m.sender ≠ 0)
    (hfails : ∀ r, s.mint m ≠ .ok r) (hcatch : Catchable source m.sender s) (hsame : SameRoles s s')
    (hi' : TokenInv m.block.number s') : ∃ reason, s'.mint m = .error (.error reason) := by
  rcases mint_fails hi h32 hroom hdraws hsender hfails with hminter | hwhy
  · exact ⟨_, mint_stranger (hsame.minter.symm ▸ hminter)⟩
  · by_cases hminter : m.sender = s.minter
    · have hseeds : Seeds source s := hcatch.resolve_left (not_not.mpr hminter.symm)
      obtain ⟨hturn, hdao⟩ := hwhy.resolve_left (not_not.mpr hseeds)
      have hseeds' : Seeds source s' := by
        unfold Seeds
        rw [hsame.seeder, hsame.descriptor]
        exact hseeds
      refine ⟨_, mint_unrewarded (hsame.minter.symm ▸ hminter) (by rw [hsame.counter]; omega)
        (seeded_of_seeds hi' hdraws hseeds' _) ⟨?_, hsame.noundersDAO.trans hdao⟩⟩
      rw [hsame.counter]
      exact hturn
    · exact ⟨_, mint_stranger (hsame.minter.symm ▸ hminter)⟩

theorem mint_no_reason (hi' : TokenInv m.block.number s') (hroom : s.currentNounId_ + 2 < 2 ^ 96)
    (hdraws : DrawsFrom source m) (hcatch : ¬ Catchable source m.sender s) (hsame : SameRoles s s') :
    ∃ e, s'.mint m = .error e ∧ ∀ reason, e ≠ .error reason := by
  unfold Catchable at hcatch
  rw [not_or, not_not] at hcatch
  refine mint_unseeded hi' (by rw [hsame.counter]; omega) hdraws (hcatch.1.symm.trans hsame.minter.symm) ?_
  unfold Seeds
  rw [hsame.seeder, hsame.descriptor]
  exact hcatch.2

theorem Transferred.sameRoles {now id : Nat} {src dst : Address} (h : Transferred now src dst id s s') :
    SameRoles s s' := by
  obtain ⟨_, _, _, _, _, _, _, rfl⟩ := h.book
  exact ⟨rfl, rfl, rfl, rfl, rfl⟩

/-! ## The house, as it creates an auction -/

variable {env : AuctionEnv} {x : AuctionConfig} {w w' : AuctionWorld} {sender : Address}
  {view next : View} {fs : List AuctionFrame} {auction_ : Auction}

theorem createAuction_halts (hpaused : w.house.paused = false)
    (hmint : w.token.mint ⟨env.house, w.block, view⟩ = .error (.error reason)) :
    w.createAuction_ env sender view
      = .ok (logged { w.house with paused := true } [.paused sender] w) := by
  have hpause : w.house.pause_ sender
      = .ok ({ w.house with paused := true }.emit (.paused sender)) :=
    bind_of_ok (require_total hpaused)
  unfold AuctionWorld.createAuction_
  rw [hmint]
  exact (bind_of_ok hpause).trans (congrArg Except.ok (setHouse_logged rfl))

theorem createAuction_reverts (hmint : w.token.mint ⟨env.house, w.block, view⟩ = .error e)
    (he : ∀ reason, e ≠ .error reason) : w.createAuction_ env sender view = .error e := by
  unfold AuctionWorld.createAuction_
  rw [hmint]
  cases e with
  | error reason => exact absurd rfl (he reason)
  | panic | raw => rfl

/-- How a settlement ends that pauses the house. -/
theorem endSettle_halts (hpaused : w.house.paused = false)
    (hmint : w.token.mint ⟨env.house, w.block, next⟩ = .error (.error reason)) :
    w.endSettle env sender auction_ (some next) = .ok (.done (atRest (logged
      { (settledLog auction_ w).house with paused := true } [.paused sender] (settledLog auction_ w)))) := by
  have hlog : w.setHouse (w.house.emit (.auctionSettled auction_.nounId auction_.bidder auction_.amount))
      = settledLog auction_ w := setHouse_logged rfl
  have hnext : (settledLog auction_ w).createNext env sender (some next) = .ok _ :=
    createAuction_halts (w := settledLog auction_ w) hpaused hmint
  unfold AuctionWorld.endSettle
  rw [hlog]
  exact (bind_of_ok hnext).trans (congrArg (fun w => Except.ok (Outcome.done w)) (setHouse_silent rfl))

theorem endSettle_reverts (hmint : w.token.mint ⟨env.house, w.block, next⟩ = .error e)
    (he : ∀ reason, e ≠ .error reason) : w.endSettle env sender auction_ (some next) = .error e := by
  have hlog : w.setHouse (w.house.emit (.auctionSettled auction_.nounId auction_.bidder auction_.amount))
      = settledLog auction_ w := setHouse_logged rfl
  have hnext : (settledLog auction_ w).createNext env sender (some next) = .error e :=
    createAuction_reverts (w := settledLog auction_ w) hmint he
  unfold AuctionWorld.endSettle
  rw [hlog]
  exact bind_of_error hnext

/-! ## A failing mint undoes no settlement -/

/-- The auction of `w` is settled, there is no new one, and the house is paused. -/
def Halted (w w' : AuctionWorld) : Prop :=
  w'.house.paused = true ∧ w'.house.auction = { w.house.auction with settled := true }

/-- Whoever runs meanwhile leaves house and token alone. -/
structure LeftAlone (w w' : AuctionWorld) : Prop where
  house : w'.house = w.house
  token : w'.token = w.token
  block : w'.block = w.block

/-- The owner is paid, in ether or WETH, and the house ends paused. -/
def SettlesAndPauses (env : AuctionEnv) (fs : List AuctionFrame) (w : AuctionWorld) :
    Result (Outcome AuctionWorld AuctionFrame) → Prop
  | .ok (.done w') => w.house.auction.amount = 0 ∧ Halted w w'
  | .ok (.call sent inside f) =>
      (f.sent = some (w.house.owner, w.house.auction.amount)
          ∧ inside.balance = w.balance - w.house.auction.amount)
        ∧ (∃ w', (auctionMachine env).resume f false sent = .ok (.done w')
          ∧ w'.weth.balanceOf w.house.owner = w.weth.balanceOf w.house.owner + w.house.auction.amount
          ∧ Halted w w')
        ∧ ∀ y : AuctionConfig, (auctionMachine env).Runs Free ⟨inside, f :: fs⟩ y →
          y.frames = f :: fs → LeftAlone inside y.world →
            ∃ w', (auctionMachine env).resume f true y.world = .ok (.done w') ∧ Halted w w'
  | .error _ => False

theorem moveNoun_of_settling {o : Outcome AuctionWorld AuctionFrame}
    (h : (auctionMachine env).enter ⟨sender, .settleCurrentAndCreateNewAuction view next⟩ w = .ok o) :
    ∃ token, AuctionWorld.moveNoun ⟨env.house, w.block, view⟩ w.house.auction w.token = .ok token := by
  obtain ⟨_, hhouse, h⟩ := bind_ok.mp h
  obtain ⟨_, _, hhouse⟩ := bind_ok.mp hhouse
  obtain rfl := Except.ok.inj hhouse
  obtain ⟨_, _, h⟩ := bind_ok.mp h
  obtain ⟨_, _, h⟩ := bind_ok.mp h
  obtain ⟨_, hrelease, _⟩ := bind_ok.mp h
  obtain ⟨token, hmove, _⟩ := bind_ok.mp hrelease
  exact ⟨token, hmove⟩

/-- A Noun that goes to the winner was the house's. -/
theorem moveNoun_transferred {m : Msg} (hbidder : auction_.bidder ≠ 0)
    (h : AuctionWorld.moveNoun m auction_ s = .ok s') :
    Transferred m.block.number m.sender auction_.bidder auction_.nounId s s' := by
  unfold AuctionWorld.moveNoun at h
  rw [if_neg hbidder] at h
  exact transferFrom_shape h

/-- Behind its checks and the transfer, a settlement ends paused if its mint fails with a reason. -/
theorem settles_and_pauses {token : NounsToken} (hdue : SettlementDue w) (hpaused : w.house.paused = false)
    (hle : w.house.auction.amount ≤ w.balance)
    (hmove : AuctionWorld.moveNoun ⟨env.house, w.block, view⟩ w.house.auction w.token = .ok token)
    (hweth : RoomInWeth env w.house.owner w.house.auction.amount w)
    (hmint : token.mint ⟨env.house, w.block, next⟩ = .error (.error reason)) :
    SettlesAndPauses env fs w
      ((auctionMachine env).enter ⟨sender, .settleCurrentAndCreateNewAuction view next⟩ w) := by
  have henter : (auctionMachine env).enter ⟨sender, .settleCurrentAndCreateNewAuction view next⟩ w = _ :=
    settling_checked sender (some next) hdue hpaused hmove
  rw [henter]
  split
  · have hcall : (released token w).safeTransferETHWithFallback_ w.house.owner w.house.auction.amount
        (.payout sender w.house.auction w.house.owner (some next)) = .ok (.call _ _ _) :=
      safeTransferETH_total hle
    rw [hcall]
    refine ⟨⟨rfl, rfl⟩, ?_, ?_⟩
    · -- an owner that refuses the Ether is paid in WETH
      obtain ⟨weth, hpay⟩ := payInWeth_total (w := released token w) hle ⟨hweth.house, hweth.dst⟩
      have hcredit := congrFun (payInWeth_credits hpay).1 w.house.owner
      refine ⟨_, bind_ok.mpr ⟨_, hpay, endSettle_halts hpaused hmint⟩, ?_, rfl, rfl⟩
      exact hcredit.trans (Function.update_self _ _ _)
    · intro y _ _ halone
      -- an owner that takes it has left token and house alone
      have hpaused' : y.world.house.paused = false := by rw [halone.house]; exact hpaused
      have hmint' : y.world.token.mint ⟨env.house, y.world.block, next⟩ = .error (.error reason) := by
        rw [halone.token, halone.block]
        exact hmint
      refine ⟨_, bind_ok.mpr ⟨_, rfl, endSettle_halts hpaused' hmint'⟩, rfl, ?_⟩
      show y.world.house.auction = _
      rw [halone.house]
      rfl
  · next hamount =>
      rw [endSettle_halts (w := released token w) hpaused hmint]
      exact ⟨Nat.eq_zero_of_not_pos hamount, rfl, rfl⟩

/-- It does not end at all if its mint fails without one. -/
theorem settling_undone {token : NounsToken} (hdue : SettlementDue w) (hpaused : w.house.paused = false)
    (hmove : AuctionWorld.moveNoun ⟨env.house, w.block, view⟩ w.house.auction w.token = .ok token)
    (hmint : token.mint ⟨env.house, w.block, next⟩ = .error e) (he : ∀ reason, e ≠ .error reason) :
    ¬ SettlesAndPauses env fs w
      ((auctionMachine env).enter ⟨sender, .settleCurrentAndCreateNewAuction view next⟩ w) := by
  have henter : (auctionMachine env).enter ⟨sender, .settleCurrentAndCreateNewAuction view next⟩ w = _ :=
    settling_checked sender (some next) hdue hpaused hmove
  rw [henter]
  intro h
  split at h
  · generalize hr : (released token w).safeTransferETHWithFallback_ w.house.owner w.house.auction.amount
      (.payout sender w.house.auction w.house.owner (some next)) = r at h
    cases r with
    | error => exact h
    | ok o =>
        obtain ⟨_, _, hr⟩ := bind_ok.mp hr
        obtain rfl := Except.ok.inj hr
        obtain ⟨w', hresume, -⟩ := h.2.2 _ .refl rfl ⟨rfl, rfl, rfl⟩
        obtain ⟨_, hpay, hend⟩ := bind_ok.mp hresume
        obtain rfl := Except.ok.inj hpay
        rw [endSettle_reverts hmint he] at hend
        cases hend
  · rw [endSettle_reverts hmint he] at h
    exact h

/-- The owner can unpause an idle house, which then pauses itself. -/
def UnpausesAndPauses (env : AuctionEnv) (next : View) (w : AuctionWorld) : Prop :=
  ∃ w', (auctionMachine env).enter ⟨w.house.owner, .unpause next⟩ w = .ok (.done w')
    ∧ w'.house.paused = true ∧ w'.house.auction = w.house.auction

theorem unpause_checked (hpaused : w.house.paused = true) (hidle : w.house.auction.Idle) :
    w.unpause env w.house.owner next = (logged { w.house with paused := false }
      [.unpaused w.house.owner] w).createAuction_ env w.house.owner next := by
  have hunpause : w.house.unpause_ w.house.owner
      = .ok ({ w.house with paused := false }.emit (.unpaused w.house.owner)) :=
    bind_of_ok (require_total hpaused)
  have hlog : w.setHouse ({ w.house with paused := false }.emit (.unpaused w.house.owner))
      = logged { w.house with paused := false } [.unpaused w.house.owner] w := setHouse_logged rfl
  refine (bind_of_ok (require_total rfl)).trans ((bind_of_ok hunpause).trans ?_)
  rw [hlog]
  exact if_pos hidle

theorem unpauses_and_pauses (hpaused : w.house.paused = true) (hidle : w.house.auction.Idle)
    (hmint : w.token.mint ⟨env.house, w.block, next⟩ = .error (.error reason)) :
    UnpausesAndPauses env next w := by
  have hcreate : (logged { w.house with paused := false } [.unpaused w.house.owner] w).createAuction_
      env w.house.owner next = _ := createAuction_halts rfl hmint
  exact ⟨_, bind_ok.mpr ⟨_, (unpause_checked hpaused hidle).trans hcreate, rfl⟩, rfl, rfl⟩

theorem unpausing_undone (hpaused : w.house.paused = true) (hidle : w.house.auction.Idle)
    (hmint : w.token.mint ⟨env.house, w.block, next⟩ = .error e) (he : ∀ reason, e ≠ .error reason) :
    ¬ UnpausesAndPauses env next w := by
  intro h
  obtain ⟨w', hw, -⟩ := h
  obtain ⟨_, hunpause, _⟩ := bind_ok.mp hw
  rw [unpause_checked hpaused hidle, createAuction_reverts (w := logged _ _ w) hmint he] at hunpause
  cases hunpause

/-- Account 6 is a seeder, account 5 a descriptor with one part of each kind, account 7 one without. -/
def smallSource : SeedSource where
  keccak256 := fun _ => ⟨List.replicate 32 0, rfl⟩
  blockhash := fun _ => ⟨List.replicate 32 0, rfl⟩
  isSeeder := fun a => a = .ofNat 6
  parts := fun a =>
    if a = .ofNat 5 then some ⟨1, 1, 1, 1, 1⟩
    else if a = .ofNat 7 then some ⟨0, 0, 0, 0, 0⟩
    else none

/-- Nobody signs anything, and seeds are drawn from `smallSource`. -/
def sourceView (block : Block) : View where
  generateSeed := smallSource.generateSeed block
  proxies := fun _ => 0
  isContract := fun _ => false
  recover := fun _ _ => 0

/-- Noun 1 is on auction, account 3 bids, the owner makes a call to the token, and the auction ends. -/
def tokenChanged (call : TokenCall) : List (Machine.Move AuctionTx Block) :=
  [.enter (houseTx 1 (.unpause (sourceView ⟨1, 1⟩))), .enter (houseTx 3 (.createBid 1 5)),
    .enter (houseTx 1 (.token (sourceView ⟨1, 1⟩) call)), .tick ⟨2, 101⟩]

theorem tokenChanged_noKey (call : TokenCall) : ∀ m ∈ tokenChanged call, ∀ (x : AuctionConfig)
    (l : AuctionLabel), m.Makes l → NoKey smallAuctionEnv x l := by
  intro m hm x l hl sender view call' heq
  subst heq
  simp only [tokenChanged, List.mem_cons, List.not_mem_nil, or_false] at hm
  rcases hm with rfl | rfl | rfl | rfl
  · cases hl
  · cases hl
  · cases hl
    intro _ _
    show (0 : Address) ≠ .ofNat 4
    decide
  · cases hl

/-- What the scripts check before the end. -/
def Bidden (x : AuctionConfig) : Prop :=
  x.frames.isEmpty = true ∧ x.world.house.auction = ⟨1, 5, 1, 101, .ofNat 3, false⟩
    ∧ x.world.house.paused = false ∧ x.world.block = ⟨2, 101⟩
    ∧ x.world.token.owners_ 1 = .ofNat 4 ∧ x.world.token.currentNounId_ = 2

instance (x : AuctionConfig) : Decidable (Bidden x) :=
  inferInstanceAs (Decidable (_ ∧ _ ∧ _ ∧ _ ∧ _ ∧ _))

/-- A settlement is undone for `e`, whether the owner takes the ether or not. -/
def Undone (env : AuctionEnv) (e : Revert) : Result (Outcome AuctionWorld AuctionFrame) → Prop
  | .ok (.done _) => False
  | .ok (.call sent inside f) => revertOf ((auctionMachine env).resume f true inside) = some e
      ∧ revertOf ((auctionMachine env).resume f false sent) = some e
  | .error e' => e' = e

instance (env : AuctionEnv) (e : Revert) : (r : Result (Outcome AuctionWorld AuctionFrame)) →
    Decidable (Undone env e r)
  | .ok (.done _) => inferInstanceAs (Decidable False)
  | .ok (.call _ _ _) => inferInstanceAs (Decidable (_ ∧ _))
  | .error _ => inferInstanceAs (Decidable (_ = _))

end Nouns.Proof
