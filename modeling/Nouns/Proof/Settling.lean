import Nouns.Proof.AuctionAccounting
import Nouns.Proof.Enumeration
import Nouns.Proof.VotingPower

/-!
# Settling an auction that is over

The house may always hand a Noun it owns to the winner: its votes are there to move, as
nobody can sign for it. Without a winner it burns the Noun, and that only the minter may do;
once the house is no longer the minter, such an auction cannot be settled.
-/

namespace Nouns.Proof

open Evm CallMachine DelegatedVotes

/-! ## The token along the runs of the house -/

/-- What is needed of the token: its invariants, and that `a` can move its votes. -/
structure TokenSound (a : Address) (now : Nat) (s : NounsToken) : Prop where
  inv : TokenInv now s
  listed : Listed s
  itself : s.delegates_ a = 0
  backed : s.ledger.BackedAt a

variable {a : Address} {now now' : Nat} {names : Address → Address → Prop} {s s' : NounsToken}

theorem TokenSound.later (h : TokenSound a now s) (hn : now ≤ now') : TokenSound a now' s :=
  ⟨h.inv.later hn, h.listed, h.itself, h.backed⟩

theorem Booked.delegates (h : Booked s s') : s'.delegates_ = s.delegates_ := by
  obtain ⟨_, _, _, _, _, _, _, rfl⟩ := h
  rfl

theorem Effect.sound (he : Effect now names s s') (ha : a ≠ 0) (hn : ∀ o d, names o d → o ≠ a)
    (h : TokenSound a now s) : TokenSound a now s' := by
  have hzero := h.inv.zero.delegate
  suffices s'.delegates_ a = 0 ∧ s'.ledger.BackedAt a from
    ⟨he.inv h.inv, he.listed h.listed, this.1, this.2⟩
  cases he with
  | mint hm =>
      refine ⟨hm.book.delegates ▸ h.itself, ?_⟩
      rw [hm.ledger hzero]
      exact Ledger.BackedAt.issue (L := s.ledger) h.backed hm.dst_ne
  | burn hb =>
      refine ⟨hb.book.delegates ▸ h.itself, ?_⟩
      rw [(hb.ledger hzero).1]
      exact h.backed.retire hb.owner_ne hb.balance
  | transfer ht =>
      refine ⟨ht.book.delegates ▸ h.itself, ?_⟩
      rw [ht.ledger]
      exact h.backed.transfer ha ht.src_ne ht.balance ht.enough
  | @redelegate o d nonces hod hr =>
      -- `a` has not named anybody, so the delegator is another
      have hother : o ≠ a := hn _ _ hod
      refine ⟨?_, ?_⟩
      · rw [hr.book.delegates]
        show Function.update s.delegates_ o d a = 0
        rw [Function.update_of_ne hother.symm]
        exact h.itself
      · rw [hr.ledger]
        exact Ledger.BackedAt.redelegate (L := s.ledger) h.backed ha hr.delegator_ne hother hr.enough
  | configure hc =>
      refine ⟨?_, hc.ledger.symm ▸ h.backed⟩
      obtain ⟨_, _, _, _, _, _, _, _, _, _, _, _, rfl⟩ := hc
      exact h.itself

theorem Effects.sound (he : Effects now names s s') (ha : a ≠ 0) (hn : ∀ o d, names o d → o ≠ a)
    (h : TokenSound a now s) : TokenSound a now s' := by
  induction he with
  | refl => exact h
  | tail _ he ih => exact he.sound ha hn ih

/-- Moving the Noun of an auction names nobody. -/
theorem moveNoun_effects {m : Msg} {auction_ : Auction}
    (h : AuctionWorld.moveNoun m auction_ s = .ok s') :
    Effects m.block.number (fun _ _ => False) s s' := by
  unfold AuctionWorld.moveNoun at h
  split at h
  · exact burn_effects h
  · exact .single (.transfer (transferFrom_shape h))

/-- The house has no key: nobody recovers its address from a signature. -/
def NoKey (env : AuctionEnv) (_ : AuctionConfig) (l : AuctionLabel) : Prop :=
  ∀ sender view call, l = .enter ⟨sender, .token view call⟩ →
    ∀ delegation sig, view.recover delegation sig ≠ env.house

variable {env : AuctionEnv} {x : AuctionConfig} {l : AuctionLabel} {w w' : AuctionWorld}
  {p q : Phase} {sender : Address} {view : View} {fs : List AuctionFrame}

theorem Creates.sound (h : Creates env view w w') (ha : env.house ≠ 0)
    (hs : TokenSound env.house w.block.number w.token) :
    TokenSound env.house w'.block.number w'.token := by
  cases h with
  | opened hmint =>
      have heffects : Effects w.block.number (fun _ _ => False) w.token _ := mint_effects hmint
      exact heffects.sound ha (fun _ _ hf => hf.elim) hs
  | halted => exact hs

theorem HouseAct.sound (hact : HouseAct env x l (p, w) (q, w')) (ha : env.house ≠ 0)
    (hkey : NoKey env x l)
    (hallowed : ∀ tx, l = .enter tx → (auctionMachine env).allowed tx x.world x.frames)
    (hs : TokenSound env.house w.block.number w.token) :
    TokenSound env.house w'.block.number w'.token := by
  cases hact with
  | calm _ h =>
      cases h with
      | @token sender view call token hl htoken =>
          have hother : sender ≠ env.house := fun heq =>
            Bool.false_ne_true ((hallowed _ hl).2 heq)
          refine (call_effects htoken).sound ha ?_ hs
          intro o d hod
          cases call with
          | delegate =>
              obtain ⟨rfl, -⟩ := hod
              exact hother
          | delegateBySig =>
              obtain ⟨rfl, -⟩ := hod
              exact hkey _ _ _ hl _ _
          | _ => exact hod.elim
      | weth | ether | house => exact hs
  | tick _ hnumber => exact hs.later hnumber
  | reopened _ _ _ _ h => exact Creates.sound (w := logged _ _ x.world) h ha hs
  | released _ _ hmove => exact (moveNoun_effects hmove).sound ha (fun _ _ hf => hf.elim) hs
  | renewed h =>
      have h := h.sound ha hs
      exact h
  | checked | refunded | placed | paid | rested => exact hs

/-- The token as it is deployed, no earlier than the house. -/
def DeployedToken (d : AuctionDeployment env) : Prop :=
  0 < d.block.number ∧ ∃ owner noundersDAO minter descriptor seeder,
    d.token = .deploy owner noundersDAO minter descriptor seeder

theorem sound_runs {d : AuctionDeployment env} (hd : DeployedToken d) (ha : env.house ≠ 0)
    (hx : AuctionRuns (NoKey env) d x) :
    ∃ p, Phased (· ≤ ·) (fun _ w => TokenSound env.house w.block.number w.token) p x := by
  obtain ⟨hblock, owner, noundersDAO, minter, descriptor, seeder, htoken⟩ := hd
  have hstart : TokenSound env.house d.block.number d.token := by
    rw [htoken]
    refine ⟨tokenInv_deploy hblock, listed_deploy, rfl, ?_⟩
    exact Nat.le_of_eq (Finset.sum_eq_zero fun o _ => ite_self _)
  exact phased_runs d hx.permitted (fun _ _ _ => outbids_le) hstart
    fun _ _ _ _ _ _ hP h _ _ hs => h.sound ha hP.1 hP.2 hs

/-! ## The Noun can be moved -/

theorem removeFromAll_total {id : Nat} (hlt : s.allTokensIndex_ id < s.allTokens_.length) :
    ∃ s', s.removeTokenFromAllTokensEnumeration_ id = .ok s' := by
  have hlast : s.allTokens_.length - 1 < s.allTokens_.length := by omega
  refine bind_total (sub_ok.mpr ⟨by omega, rfl⟩) ?_
  refine bind_total (index_ok.mpr (List.getElem?_eq_getElem hlast)) ?_
  exact bind_total (index_ok.mpr (List.getElem?_eq_getElem hlt)) ⟨_, rfl⟩

/-- The enumeration lets go of a Noun that is burned. -/
theorem beforeBurnEnumerable_total {id : Nat} (hi : TokenInv now s) (hl : Listed s)
    (hown : s.owners_ id ≠ 0) :
    ∃ s', s.beforeTokenTransferEnumerable_ (s.owners_ id) 0 id = .ok s' := by
  obtain ⟨hlt, -⟩ := hl.all.finds id hown
  have hremove : ∃ s₁, s.removeTokenFromOwnerEnumeration_ (s.owners_ id) id = .ok s₁ :=
    ⟨_, bind_ok.mpr ⟨_, balanceOf_eq hown, bind_ok.mpr
      ⟨_, sub_ok.mpr ⟨hi.holdings.balance_pos hown, rfl⟩, rfl⟩⟩⟩
  obtain ⟨s₁, h₁⟩ := hremove
  have hall : ∃ s₂, s₁.removeTokenFromAllTokensEnumeration_ id = .ok s₂ := by
    obtain ⟨ot, oti, rfl⟩ := removeFromOwner_shape h₁
    exact removeFromAll_total hlt
  simp only [NounsToken.beforeTokenTransferEnumerable_, if_neg hown, if_pos hown, ne_eq, if_true]
  exact bind_total h₁ hall

/-- An owner with a vote to give up can have its Noun burned. -/
theorem burn_total {m : Msg} {id : Nat} (hi : TokenInv m.block.number s) (hl : Listed s)
    (h32 : m.block.number < 2 ^ 32) (hminter : m.sender = s.minter) (hown : s.owners_ id ≠ 0)
    (hle : 1 ≤ s.getCurrentVotes (s.delegates (s.owners_ id))) : ∃ s', s.burn m id = .ok s' := by
  have hhook : ∃ s₁, s.beforeTokenTransfer_ m.block (s.owners_ id) 0 id = .ok s₁ := by
    obtain ⟨s₁, h₁⟩ := beforeBurnEnumerable_total hi hl hown
    have h₁' := h₁
    obtain ⟨ot, oti, at_, ai, rfl, -⟩ := beforeTokenTransferEnumerable_shape h₁
    refine bind_total h₁' (moveDelegates_total ?_ h32 (fun _ _ => hle) ?_)
    · exact hi.checkpoints.congr rfl rfl
    · -- nobody's votes do not count
      intro _
      show s.getCurrentVotes (s.delegates 0) + 1 < 2 ^ 96
      rw [delegates_zero hi.zero.delegate]
      have hzero : s.getCurrentVotes 0 = 0 := hi.zero.votes
      omega
  obtain ⟨s₁, h₁⟩ := hhook
  have h₁' := h₁
  obtain ⟨_, _, _, _, _, _, _, rfl⟩ := (beforeTokenTransfer_shape h₁).book
  have hburn : ∃ s₂, NounsToken.burn_ (NounsToken.beforeTokenTransfer_ m.block) id s = .ok s₂ := by
    refine bind_total (ownerOf_eq hown) (bind_total h₁' ?_)
    refine bind_total (bind_ok.mpr ⟨_, ownerOf_eq hown, rfl⟩) ?_
    exact bind_total (sub_ok.mpr ⟨hi.holdings.balance_pos hown, rfl⟩) ⟨_, rfl⟩
  obtain ⟨s₂, h₂⟩ := hburn
  exact bind_total (require_total hminter) (bind_total h₂ ⟨_, rfl⟩)

/-- **The house can move a Noun it owns**, if there is a winner or it is still the minter. -/
theorem moveNoun_total {m : Msg} {auction_ : Auction} (hs : TokenSound m.sender m.block.number s)
    (hsender : m.sender ≠ 0) (h32 : m.block.number < 2 ^ 32) (h96 : s.totalSupply < 2 ^ 96)
    (hown : s.owners_ auction_.nounId = m.sender) (hmay : auction_.bidder ≠ 0 ∨ s.minter = m.sender) :
    ∃ s', AuctionWorld.moveNoun m auction_ s = .ok s' := by
  have hne : s.owners_ auction_.nounId ≠ 0 := hown ▸ hsender
  have hitself : s.delegates m.sender = m.sender := if_pos hs.itself
  have hle : 1 ≤ s.getCurrentVotes (s.delegates m.sender) := by
    have hbal : 1 ≤ s.balances_ m.sender := hown ▸ hs.inv.holdings.balance_pos hne
    have hweight := s.ledger.balance_le_weight m.sender
    have hrep : s.ledger.rep m.sender = m.sender := hitself
    rw [hrep] at hweight
    rw [hitself]
    exact Nat.le_trans hbal (Nat.le_trans hweight hs.backed)
  unfold AuctionWorld.moveNoun
  split
  · next hbidder =>
      rcases hmay with hmay | hmay
      · exact absurd hbidder hmay
      · exact burn_total hs.inv hs.listed h32 hmay.symm hne (hown.symm ▸ hle)
  · next hbidder => exact transferFrom_total hs.inv h32 h96 hsender hle hown hbidder

/-! ## Settling -/

/-- The house has the ether of an auction that is not settled. -/
theorem HouseInv.amount_le {R : Nat → Nat → Prop} (hi : HouseInv R .outside w)
    (hbegun : w.house.auction.startTime ≠ 0) (hopen : w.house.auction.settled = false) :
    w.house.auction.amount ≤ w.balance := by
  cases hi with
  | outside _ _ hshows hdebt =>
      cases hshows with
      | idle hidle =>
          rcases hidle with hidle | hidle
          · exact absurd hidle hbegun
          · exact absurd (hopen.symm.trans hidle) Bool.false_ne_true
      | opened _ _ hzero => omega
      | standing _ _ _ _ hamount => exact hamount ▸ hdebt

/-- A settlement goes through and leaves the auction settled, whatever the recipient does. -/
def Settles (env : AuctionEnv) (fs : List AuctionFrame) :
    Result (Outcome AuctionWorld AuctionFrame) → Prop
  | .ok (.done w) => w.house.auction.settled = true
  | .ok (.call sent inside f) =>
      inside.house.auction.settled = true
        ∧ (∃ w, (auctionMachine env).resume f false sent = .ok (.done w)
          ∧ w.house.auction.settled = true)
        ∧ ∀ y : AuctionConfig, (auctionMachine env).Runs Free ⟨inside, f :: fs⟩ y →
          y.frames = f :: fs → ∃ w, (auctionMachine env).resume f true y.world = .ok (.done w)
            ∧ w.house.auction = y.world.house.auction
  | .error _ => False

theorem endSettle_none (sender : Address) (auction_ : Auction) (w : AuctionWorld) :
    w.endSettle env sender auction_ none = .ok (.done (atRest (settledLog auction_ w))) := by
  have hlog : w.setHouse (w.house.emit (.auctionSettled auction_.nounId auction_.bidder auction_.amount))
      = settledLog auction_ w := setHouse_logged rfl
  have hrest : (settledLog auction_ w).setHouse (settledLog auction_ w).house.leave_
      = atRest (settledLog auction_ w) := setHouse_silent rfl
  unfold AuctionWorld.endSettle
  rw [hlog]
  refine (bind_of_ok rfl).trans ?_
  show Except.ok (Outcome.done _) = _
  rw [hrest]

/-- A settlement behind its checks settles once the Noun can be moved. -/
theorem settles_of_moveNoun {token : NounsToken} (hdue : SettlementDue w)
    (hpaused : w.house.paused = true) (hle : w.house.auction.amount ≤ w.balance)
    (hmove : AuctionWorld.moveNoun ⟨env.house, w.block, view⟩ w.house.auction w.token = .ok token)
    (hweth : RoomInWeth env w.house.owner w.house.auction.amount w) :
    Settles env fs ((auctionMachine env).enter ⟨sender, .settleAuction view⟩ w) := by
  have henter : (auctionMachine env).enter ⟨sender, .settleAuction view⟩ w = _ :=
    settling_checked sender none hdue hpaused hmove
  rw [henter]
  split
  · have hcall : (released token w).safeTransferETHWithFallback_ w.house.owner w.house.auction.amount
        (.payout sender w.house.auction w.house.owner none) = .ok (.call _ _ _) :=
      safeTransferETH_total hle
    rw [hcall]
    refine ⟨rfl, ?_, ?_⟩
    · obtain ⟨weth, hpay⟩ := payInWeth_total (w := released token w) hle ⟨hweth.house, hweth.dst⟩
      exact ⟨_, bind_ok.mpr ⟨_, hpay, endSettle_none _ _ _⟩, rfl⟩
    · intro y _ _
      exact ⟨_, bind_ok.mpr ⟨_, rfl, endSettle_none _ _ _⟩, rfl⟩
  · rw [endSettle_none]
    exact rfl

/-- The house is paused, or its owner pauses it first. -/
def PausedFirst (env : AuctionEnv) (w w' : AuctionWorld) : Prop :=
  if w.house.paused then w' = w
  else (auctionMachine env).enter ⟨w.house.owner, .pause⟩ w = .ok (.done w')

/-- The auction can be settled: the house paused if need be, anybody can call `settleAuction`. -/
def Settleable (env : AuctionEnv) (view : View) (x : AuctionConfig) : Prop :=
  ∃ w, PausedFirst env x.world w ∧
    ∀ sender, Settles env x.frames ((auctionMachine env).enter ⟨sender, .settleAuction view⟩ w)

/-- Pausing changes nothing else. -/
theorem PausedFirst.eq (h : PausedFirst env w w') : w'.house.paused = true
    ∧ w'.house.auction = w.house.auction ∧ w'.house.entered = w.house.entered
    ∧ w'.house.owner = w.house.owner ∧ w'.token = w.token ∧ w'.weth = w.weth
    ∧ w'.balance = w.balance ∧ w'.block = w.block := by
  unfold PausedFirst at h
  split at h
  · next hpaused =>
      subst h
      exact ⟨hpaused, rfl, rfl, rfl, rfl, rfl, rfl, rfl⟩
  · obtain ⟨house, hhouse, h⟩ := bind_ok.mp h
    obtain ⟨_, _, hhouse⟩ := bind_ok.mp hhouse
    obtain ⟨_, _, hhouse⟩ := bind_ok.mp hhouse
    obtain rfl := Except.ok.inj hhouse
    obtain rfl := Outcome.done.inj (Except.ok.inj h)
    exact ⟨rfl, rfl, rfl, rfl, rfl, rfl, rfl, rfl⟩

theorem exists_pausedFirst (env : AuctionEnv) (w : AuctionWorld) : ∃ w', PausedFirst env w w' := by
  unfold PausedFirst
  split
  · exact ⟨w, rfl⟩
  · next hpaused =>
      have hpause : w.house.pause w.house.owner = .ok _ :=
        bind_ok.mpr ⟨(), require_ok.mpr rfl,
          bind_ok.mpr ⟨(), require_ok.mpr (Bool.eq_false_iff.mpr hpaused), rfl⟩⟩
      exact ⟨_, bind_ok.mpr ⟨_, hpause, rfl⟩⟩

/-- Without a winner only the minter can settle. -/
theorem Settleable.may (h : Settleable env view x) :
    x.world.house.auction.bidder ≠ 0 ∨ x.world.token.minter = env.house := by
  obtain ⟨w, hpaused, hsettles⟩ := h
  obtain ⟨-, hauction, -, -, htoken, -⟩ := hpaused.eq
  rw [← hauction, ← htoken]
  have hsettles := hsettles 0
  generalize hr : (auctionMachine env).enter ⟨0, .settleAuction view⟩ w = r at hsettles
  cases r with
  | error => exact hsettles.elim
  | ok o =>
      obtain ⟨_, _, hr⟩ := bind_ok.mp hr
      obtain ⟨_, hhouse, hr⟩ := bind_ok.mp hr
      obtain ⟨_, _, hhouse⟩ := bind_ok.mp hhouse
      obtain rfl := Except.ok.inj hhouse
      obtain ⟨_, _, hr⟩ := bind_ok.mp hr
      obtain ⟨_, hrelease, _⟩ := bind_ok.mp hr
      obtain ⟨token, hmove, _⟩ := bind_ok.mp hrelease
      by_cases hbidder : w.house.auction.bidder = 0
      · right
        have hburn : w.token.burn ⟨env.house, w.block, view⟩ w.house.auction.nounId = .ok token :=
          (if_pos hbidder).symm.trans hmove
        obtain ⟨_, hminter, _⟩ := bind_ok.mp hburn
        exact (require_ok.mp hminter).symm
      · exact .inl hbidder

/-- Whether a step is no call of the token. -/
def keyless (_ : AuctionConfig) : AuctionLabel → Bool
  | .enter ⟨_, .token _ _⟩ => false
  | _ => true

theorem keyless_noKey (env : AuctionEnv) (x : AuctionConfig) (l : AuctionLabel) (h : keyless x l = true) :
    NoKey env x l := by
  intro sender view call heq
  subst heq
  exact absurd h Bool.false_ne_true

/-- Noun 1 is on auction, and nobody bids. -/
def unsoldNoun : List (Machine.Move AuctionTx Block) :=
  [.enter (houseTx 1 (.unpause smallView)), .tick ⟨2, 101⟩]

end Nouns.Proof
