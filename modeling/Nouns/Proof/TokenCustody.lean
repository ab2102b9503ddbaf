import Nouns.Auction.System
import Nouns.Proof.TokenInvariant

/-!
# Nouns in the keeping of one account

An account that approves nobody, has no proxy and is the only one to mint keeps its Nouns
until it gives them away itself, whatever others call. Approvals have to be cleared for the
Nouns it holds and for those yet to be minted.
-/

namespace Nouns.Proof

open Evm

/-- Only `a` may move what it owns, and nobody what is yet to be minted. -/
structure Guarded (a : Address) (s : NounsToken) : Prop where
  operators : ∀ o, s.operatorApprovals_ a o = false
  approvals : ∀ n, s.owners_ n = a ∨ s.owners_ n = 0 → s.tokenApprovals_ n = 0
  fresh : ∀ n, s.currentNounId_ ≤ n → s.owners_ n = 0

variable {a : Address} {m : Msg} {s s' : NounsToken} {n nounId : Nat}

theorem Guarded.congr (h : Guarded a s) (hops : s'.operatorApprovals_ = s.operatorApprovals_)
    (happ : s'.tokenApprovals_ = s.tokenApprovals_) (hown : s'.owners_ = s.owners_)
    (hid : s'.currentNounId_ = s.currentNounId_) : Guarded a s' := by
  refine ⟨?_, ?_, ?_⟩
  · rw [hops]; exact h.operators
  · rw [happ, hown]; exact h.approvals
  · rw [hown, hid]; exact h.fresh

theorem guarded_deploy {owner noundersDAO minter descriptor seeder : Address} :
    Guarded a (.deploy owner noundersDAO minter descriptor seeder) :=
  ⟨fun _ => rfl, fun _ _ => rfl, fun _ _ => rfl⟩

/-- A call of somebody else, who is not the proxy of `a`. -/
structure Stranger (a : Address) (m : Msg) : Prop where
  other : m.sender ≠ a
  nonzero : m.sender ≠ 0
  noProxy : m.view.proxies a = 0

theorem Guarded.not_approved (h : Guarded a s) (hm : Stranger a m) :
    NounsToken.isApprovedForAll m.view s a m.sender = false := by
  unfold NounsToken.isApprovedForAll
  rw [if_neg (by rw [hm.noProxy]; exact hm.nonzero.symm), h.operators]

/-- A stranger may not transfer a Noun of `a`. -/
theorem Guarded.not_transferable (h : Guarded a s) (hm : Stranger a m) {src dst : Address}
    (hs : s.transferFrom m src dst nounId = .ok s') : s.owners_ nounId ≠ a := by
  intro hown
  simp only [NounsToken.transferFrom, NounsToken.isApprovedOrOwner_, NounsToken.ownerOf,
    NounsToken.getApproved, bind_ok, require_ok] at hs
  obtain ⟨_, ⟨_, _, owner, ⟨_, _, howner⟩, approved, ⟨_, _, happroved⟩, hallowed⟩, _, htrue, _⟩ := hs
  obtain rfl := Except.ok.inj howner
  obtain rfl := Except.ok.inj happroved
  obtain rfl := Except.ok.inj hallowed
  rcases of_decide_eq_true htrue with hsender | happ | hall
  · exact hm.other (hsender.trans hown)
  · exact hm.nonzero ((h.approvals nounId (.inl hown)).symm.trans happ).symm
  · rw [hown, h.not_approved hm] at hall
    exact Bool.false_ne_true hall

/-- A stranger may not approve anybody for a Noun of `a`. -/
theorem Guarded.approve (h : Guarded a s) (hm : Stranger a m) {dst : Address}
    (hs : s.approve m dst nounId = .ok s') : Guarded a s' ∧ s'.owners_ = s.owners_
      ∧ s'.currentNounId_ = s.currentNounId_ := by
  simp only [NounsToken.approve, NounsToken.erc721Approve, NounsToken.approve_, NounsToken.ownerOf,
    bind_ok, require_ok] at hs
  obtain ⟨owner, ⟨_, hne, howner⟩, _, _, _, hmay, _, _, hs⟩ := hs
  obtain rfl := Except.ok.inj howner
  obtain rfl := Except.ok.inj hs
  have hnot : s.owners_ nounId ≠ a := by
    intro hown
    rcases hmay with hsender | hall
    · exact hm.other (hsender.trans hown)
    · rw [hown, h.not_approved hm] at hall
      exact Bool.false_ne_true hall
  refine ⟨⟨h.operators, ?_, h.fresh⟩, rfl, rfl⟩
  intro n hn
  have hother : n ≠ nounId := by
    intro heq
    subst heq
    rcases hn with hn | hn
    · exact hnot hn
    · exact hne hn
  show Function.update s.tokenApprovals_ nounId dst n = 0
  rw [Function.update_of_ne hother]
  exact h.approvals n hn

/-- Giving a Noun that is there to `dst`, its approval cleared. -/
theorem Guarded.give (h : Guarded a s) {dst : Address} (hexists : s.owners_ nounId ≠ 0)
    (hops : s'.operatorApprovals_ = s.operatorApprovals_)
    (happ : s'.tokenApprovals_ = Function.update s.tokenApprovals_ nounId 0)
    (hown : s'.owners_ = Function.update s.owners_ nounId dst)
    (hid : s'.currentNounId_ = s.currentNounId_) : Guarded a s' := by
  refine ⟨?_, ?_, ?_⟩
  · rw [hops]; exact h.operators
  · intro n hn
    rw [happ]
    rw [hown] at hn
    by_cases hc : n = nounId
    · rw [hc, Function.update_self]
    · rw [Function.update_of_ne hc] at hn ⊢
      exact h.approvals n hn
  · intro n hn
    rw [hid] at hn
    have hother : n ≠ nounId := by
      intro heq
      subst heq
      exact hexists (h.fresh n hn)
    rw [hown, Function.update_of_ne hother]
    exact h.fresh n hn

/-- **Strangers leave the Nouns of the minter alone.** -/
theorem Guarded.call {c : TokenCall} (h : Guarded a s) (hminter : s.minter = a) (hm : Stranger a m)
    (hs : s.call m c = .ok s') : Guarded a s' ∧ (∀ n, s.owners_ n = a → s'.owners_ n = a)
      ∧ s'.currentNounId_ = s.currentNounId_ := by
  have hnot : ¬ m.sender = s.minter := fun heq => hm.other (heq.trans hminter)
  -- what neither moves a Noun nor approves anybody
  have hcongr : s'.operatorApprovals_ = s.operatorApprovals_ → s'.tokenApprovals_ = s.tokenApprovals_ →
      s'.owners_ = s.owners_ → s'.currentNounId_ = s.currentNounId_ →
      Guarded a s' ∧ (∀ n, s.owners_ n = a → s'.owners_ n = a) ∧ s'.currentNounId_ = s.currentNounId_ :=
    fun hops happ hown hid => ⟨h.congr hops happ hown hid, fun n hn => hown ▸ hn, hid⟩
  have htransfer : ∀ {src dst id}, s.transferFrom m src dst id = .ok s' →
      Guarded a s' ∧ (∀ n, s.owners_ n = a → s'.owners_ n = a) ∧ s'.currentNounId_ = s.currentNounId_ := by
    intro src dst id hs
    have hown := h.not_transferable hm hs
    have hmoved := transferFrom_shape hs
    obtain ⟨_, _, _, _, _, _, _, rfl⟩ := hmoved.book
    refine ⟨h.give (hmoved.owner ▸ hmoved.src_ne) rfl rfl rfl rfl, ?_, rfl⟩
    intro n hn
    have hother : n ≠ id := by
      intro hsame
      subst hsame
      exact hown hn
    show Function.update s.owners_ id dst n = a
    rw [Function.update_of_ne hother, hn]
  cases c with
  | mint =>
      simp only [NounsToken.call, NounsToken.mint, bind_ok, require_ok] at hs
      obtain ⟨_, ⟨_, heq, _⟩, _⟩ := hs
      exact absurd heq hnot
  | burn =>
      simp only [NounsToken.call, NounsToken.burn, bind_ok, require_ok] at hs
      obtain ⟨_, heq, _⟩ := hs
      exact absurd heq hnot
  | approve dst id =>
      obtain ⟨hg, hown, hid⟩ := h.approve hm hs
      exact ⟨hg, fun n hn => hown ▸ hn, hid⟩
  | setApprovalForAll o b =>
      simp only [NounsToken.call, NounsToken.setApprovalForAll, bind_ok] at hs
      obtain ⟨_, _, hs⟩ := hs
      obtain rfl := Except.ok.inj hs
      refine ⟨⟨?_, h.approvals, h.fresh⟩, fun n hn => hn, rfl⟩
      intro o'
      show Function.update s.operatorApprovals_ m.sender _ a o' = false
      rw [Function.update_of_ne hm.other.symm]
      exact h.operators o'
  | transferFrom | safeTransferFrom => exact htransfer hs
  | delegate d =>
      obtain ⟨_, _, _, _, _, _, _, rfl⟩ := (delegate_shape hs).book
      exact hcongr rfl rfl rfl rfl
  | delegateBySig d nonce expiry sig =>
      obtain ⟨_, hr⟩ := delegateBySig_shape hs
      obtain ⟨_, _, _, _, _, _, _, rfl⟩ := hr.book
      exact hcongr rfl rfl rfl rfl
  | setNoundersDAO =>
      simp only [NounsToken.call, NounsToken.setNoundersDAO, bind_ok] at hs
      obtain ⟨_, _, hs⟩ := hs
      obtain rfl := Except.ok.inj hs
      exact hcongr rfl rfl rfl rfl
  | renounceOwnership =>
      simp only [NounsToken.call, NounsToken.renounceOwnership, bind_ok] at hs
      obtain ⟨_, _, hs⟩ := hs
      obtain rfl := Except.ok.inj hs
      exact hcongr rfl rfl rfl rfl
  | setMinter | lockMinter | setDescriptor | lockDescriptor | setSeeder | lockSeeder
    | transferOwnership =>
      simp only [NounsToken.call, NounsToken.setMinter, NounsToken.lockMinter,
        NounsToken.setDescriptor, NounsToken.lockDescriptor, NounsToken.setSeeder,
        NounsToken.lockSeeder, NounsToken.transferOwnership, bind_ok] at hs
      obtain ⟨_, _, _, _, hs⟩ := hs
      obtain rfl := Except.ok.inj hs
      exact hcongr rfl rfl rfl rfl

/-! ## Minting and giving away -/

/-- A Noun drawn and minted to `dst`. -/
theorem Guarded.minted {creator dst : Address} {seed : Seed} {now : Nat} (h : Guarded a s)
    (hs : Minted now creator dst s.currentNounId_ (drawn s seed) s') :
    Guarded a s' ∧ s'.owners_ = Function.update s.owners_ s.currentNounId_ dst
      ∧ s'.currentNounId_ = s.currentNounId_ + 1 := by
  have hfresh : s.owners_ s.currentNounId_ = 0 := hs.fresh
  obtain ⟨_, _, _, _, _, _, _, rfl⟩ := hs.book
  refine ⟨⟨h.operators, ?_, ?_⟩, rfl, rfl⟩
  · intro n hn
    have hn : Function.update s.owners_ s.currentNounId_ dst n = a
        ∨ Function.update s.owners_ s.currentNounId_ dst n = 0 := hn
    by_cases hc : n = s.currentNounId_
    · exact h.approvals n (.inr (hc ▸ hfresh))
    · rw [Function.update_of_ne hc] at hn
      exact h.approvals n hn
  · intro n hn
    have hn : s.currentNounId_ + 1 ≤ n := hn
    show Function.update s.owners_ s.currentNounId_ dst n = 0
    rw [Function.update_of_ne (by omega)]
    exact h.fresh n (by omega)

theorem Guarded.mintTo {dst : Address} {s₁ : NounsToken} (h : Guarded a s) (h₁ : s.nextNounId = .ok s₁)
    (h₂ : s₁.mintTo_ m dst s.currentNounId_ = .ok s') :
    Guarded a s' ∧ s'.owners_ = Function.update s.owners_ s.currentNounId_ dst
      ∧ s'.currentNounId_ = s.currentNounId_ + 1 := by
  obtain ⟨seed, s₂, hminted, rfl⟩ := mintTo_shape h₁ h₂
  obtain ⟨hg, hown, hid⟩ := h.minted hminted
  exact ⟨hg.congr rfl rfl rfl rfl, hown, hid⟩

/-- The Noun `mint` returns is new and goes to the minter. -/
theorem Guarded.mint (h : Guarded a s) (hs : s.mint m = .ok (s', nounId)) :
    Guarded a s' ∧ s'.owners_ nounId = m.sender ∧ s.currentNounId_ ≤ nounId
      ∧ nounId < s'.currentNounId_ := by
  simp only [NounsToken.mint, bind_ok, require_ok] at hs
  obtain ⟨_, hminter, s₁, hreward, s₂, hnext, s₃, hmint, hs⟩ := hs
  obtain ⟨rfl, rfl⟩ := Prod.mk.inj (Except.ok.inj hs)
  have hfirst : Guarded a s₁ ∧ s.currentNounId_ ≤ s₁.currentNounId_ ∧ s₁.minter = s.minter := by
    unfold NounsToken.mintReward at hreward
    split at hreward
    · obtain ⟨s₄, hnext', hreward⟩ := bind_ok.mp hreward
      obtain ⟨hg, -, hid⟩ := h.mintTo hnext' hreward
      obtain ⟨seed, s₅, hminted, rfl⟩ := mintTo_shape hnext' hreward
      obtain ⟨_, _, _, _, _, _, _, rfl⟩ := hminted.book
      exact ⟨hg, by omega, rfl⟩
    · obtain rfl := Except.ok.inj hreward
      exact ⟨h, Nat.le_refl _, rfl⟩
  obtain ⟨hg₁, hle, hsame⟩ := hfirst
  obtain ⟨hg, hown, hid⟩ := hg₁.mintTo hnext hmint
  refine ⟨hg, ?_, hle, by omega⟩
  have hnextMinter : s₂.minter = s₁.minter := by
    obtain ⟨_, _, hnext⟩ := bind_ok.mp hnext
    obtain rfl := Except.ok.inj hnext
    rfl
  rw [hown, Function.update_self, hnextMinter, hsame, hminter]

/-- A Noun of `a` that is burned, or goes to the bidder. -/
theorem Guarded.moveNoun {auction_ : Auction} (h : Guarded a s)
    (hs : AuctionWorld.moveNoun m auction_ s = .ok s') : Guarded a s'
      ∧ s'.owners_ auction_.nounId = auction_.bidder ∧ s'.currentNounId_ = s.currentNounId_ := by
  unfold AuctionWorld.moveNoun at hs
  split at hs
  · next hbidder =>
      obtain ⟨_, _, hs⟩ := bind_ok.mp hs
      obtain ⟨s₁, hburn, hs⟩ := bind_ok.mp hs
      obtain rfl := Except.ok.inj hs
      have hburned := burn_shape hburn
      obtain ⟨_, _, _, _, _, _, _, rfl⟩ := hburned.book
      exact ⟨h.give hburned.owner_ne rfl rfl rfl rfl,
        hbidder.symm ▸ Function.update_self _ _ _, rfl⟩
  · have hmoved := transferFrom_shape hs
    obtain ⟨_, _, _, _, _, _, _, rfl⟩ := hmoved.book
    exact ⟨h.give (hmoved.owner ▸ hmoved.src_ne) rfl rfl rfl rfl, Function.update_self _ _ _, rfl⟩

end Nouns.Proof
