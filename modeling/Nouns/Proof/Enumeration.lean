import Nouns.Lib.IndexedArray
import Nouns.Proof.TokenInvariant

/-!
# Enumerating Nouns

`ERC721Enumerable` keeps one array of all Nouns and one for each owner, with the positions
of the Nouns in them. Its hook runs before owners and balances change, so a transfer takes
a Noun out of one array under the old balances and puts it into another; each of these is
an operation of `IndexedArray`.
-/

namespace Nouns.Proof

open Evm DelegatedVotes CallMachine IndexedArray

/-- The owners' arrays list what they own. -/
def OwnedListed (e : NounsToken.Enumeration) (owner : Nat → Address) (balance : Address → Nat) :
    Prop :=
  ∀ o, o ≠ 0 → Enumerates (e.ownedTokens_ o) (balance o) e.ownedTokensIndex_
    (fun n => owner n = o)

/-- The array of all Nouns lists those that exist. -/
def AllListed (e : NounsToken.Enumeration) (owner : Nat → Address) : Prop :=
  Enumerates (fun i => e.allTokens_.getD i 0) e.allTokens_.length e.allTokensIndex_
    (fun n => owner n ≠ 0)

/-- The enumeration agrees with owners and balances. -/
structure Listed (s : NounsToken) : Prop where
  owned : OwnedListed s.enumeration s.owners_ s.balances_
  all : AllListed s.enumeration s.owners_

variable {s s' : NounsToken} {owner : Nat → Address} {balance : Address → Nat}
  {src dst : Address} {id : Nat}

/-! ## The four helpers -/

/-- The cells and positions `_removeTokenFromOwnerEnumeration` leaves. -/
theorem removeFromOwner_cells (hr : s.removeTokenFromOwnerEnumeration_ src id = .ok s') :
    (∀ o, o ≠ src → s'.ownedTokens_ o = s.ownedTokens_ o)
    ∧ (∀ i, i ≠ s.balances_ src - 1 → s'.ownedTokens_ src i =
        if i = s.ownedTokensIndex_ id ∧ s.ownedTokensIndex_ id ≠ s.balances_ src - 1
        then s.ownedTokens_ src (s.balances_ src - 1) else s.ownedTokens_ src i)
    ∧ ∀ x, x ≠ id → s'.ownedTokensIndex_ x =
        if x = s.ownedTokens_ src (s.balances_ src - 1)
          ∧ s.ownedTokensIndex_ id ≠ s.balances_ src - 1
        then s.ownedTokensIndex_ id else s.ownedTokensIndex_ x := by
  simp only [NounsToken.removeTokenFromOwnerEnumeration_, NounsToken.balanceOf, bind_ok,
    sub_ok] at hr
  obtain ⟨_, ⟨_, _, hb⟩, _, ⟨_, rfl⟩, hr⟩ := hr
  obtain rfl := Except.ok.inj hb
  -- the last Noun takes the place of the removed one, unless it is that one
  by_cases hswap : s.ownedTokensIndex_ id ≠ s.balances_ src - 1
  · rw [if_pos hswap] at hr
    obtain rfl := Except.ok.inj hr
    refine ⟨?_, ?_, ?_⟩
    · intro o ho
      simp [NounsToken.swapOwnedTokens_, ho]
    · intro i hi
      simp [NounsToken.swapOwnedTokens_, hi, hswap, Function.update_apply]
    · intro x hx
      simp [NounsToken.swapOwnedTokens_, hx, hswap, Function.update_apply]
  · rw [if_neg hswap] at hr
    obtain rfl := Except.ok.inj hr
    refine ⟨?_, ?_, ?_⟩
    · intro o ho
      simp [ho]
    · intro i hi
      simp [hi, hswap]
    · intro x hx
      simp [hx, hswap]

/-- `_removeTokenFromOwnerEnumeration`, the Noun then being nobody's. -/
theorem OwnedListed.remove (h : OwnedListed s.enumeration owner s.balances_) (hid : owner id = src)
    (hs : src ≠ 0) (hr : s.removeTokenFromOwnerEnumeration_ src id = .ok s') :
    OwnedListed s'.enumeration (Function.update owner id 0)
      (Function.update s.balances_ src (s.balances_ src - 1)) := by
  obtain ⟨hother, hcells, hindex⟩ := removeFromOwner_cells hr
  have hsrc := h src hs
  have hlast : s.balances_ src - 1 + 1 = s.balances_ src :=
    Nat.sub_add_cancel (hsrc.pos_of_mem hid)
  have hlastmem : owner (s.ownedTokens_ src (s.balances_ src - 1)) = src :=
    (hsrc.lists (s.balances_ src - 1) (by omega)).1
  intro o ho
  by_cases hos : o = src
  · subst hos
    rw [Function.update_self]
    rw [← hlast] at hsrc
    have hfound : s.ownedTokens_ o (s.ownedTokensIndex_ id) = id := (hsrc.finds id hid).2
    refine hsrc.swapPop hid (fun i hi => ?_) (fun x _ hne => ?_) (fun x => ?_)
    · refine (hcells i (by omega)).trans ?_
      by_cases hi : i = s.ownedTokensIndex_ id
      · rw [if_pos ⟨hi, by omega⟩]
        exact (if_pos hi).symm
      · rw [if_neg (fun hc => hi hc.1)]
        exact (if_neg hi).symm
    · refine (hindex x hne).trans ?_
      by_cases hx : x = s.ownedTokens_ o (s.balances_ o - 1)
      · -- another Noun is the last one, so the one removed is not
        have hswap : s.ownedTokensIndex_ id ≠ s.balances_ o - 1 := by
          intro heq
          rw [heq] at hfound
          exact hne (hx.trans hfound)
        rw [if_pos ⟨hx, hswap⟩]
        exact (if_pos hx).symm
      · rw [if_neg (fun hc => hx hc.1)]
        exact (if_neg hx).symm
    · by_cases hx : x = id
      · subst hx
        simp [Ne.symm hs]
      · simp [hx]
  · rw [Function.update_of_ne hos]
    refine (h o ho).congr (fun i _ => congrFun (hother o hos) i) (fun x hx => ?_) (fun x => ?_)
    · have hxid : x ≠ id := by
        intro hsame
        subst hsame
        exact hos (hx.symm.trans hid)
      refine (hindex x hxid).trans (if_neg fun hc => ?_)
      rw [hc.1] at hx
      exact hos (hx.symm.trans hlastmem)
    · by_cases hx : x = id
      · subst hx
        simp [hid, Ne.symm ho, Ne.symm hos]
      · simp [hx]

/-- `_addTokenToOwnerEnumeration`, for a Noun that is nobody's. -/
theorem OwnedListed.add (h : OwnedListed s.enumeration owner balance) (hid : owner id = 0)
    (hb : s.balances_ dst = balance dst) (ha : s.addTokenToOwnerEnumeration_ dst id = .ok s') :
    OwnedListed s'.enumeration (Function.update owner id dst)
      (Function.update balance dst (balance dst + 1)) := by
  simp only [NounsToken.addTokenToOwnerEnumeration_, NounsToken.balanceOf, bind_ok] at ha
  obtain ⟨_, ⟨_, _, hbal⟩, ha⟩ := ha
  obtain rfl := Except.ok.inj hbal
  obtain rfl := Except.ok.inj ha
  have hne : ∀ o, o ≠ 0 → ∀ x, owner x = o → x ≠ id := by
    rintro o ho x rfl rfl
    exact ho hid
  intro o ho
  by_cases hod : o = dst
  · subst hod
    rw [Function.update_self]
    -- the Noun goes to the end of its owner's list
    refine (h o ho).push (t := id) (by rw [hid]; exact Ne.symm ho) ?_ ?_ ?_ ?_ ?_
    · intro i hi
      have hil : i ≠ s.balances_ o := by omega
      simp only [NounsToken.enumeration, Function.update_self, Function.update_of_ne hil]
    · simp only [NounsToken.enumeration, hb, Function.update_self]
    · intro x hx
      simp only [NounsToken.enumeration, Function.update_of_ne (hne o ho x hx)]
    · simp only [NounsToken.enumeration, hb, Function.update_self]
    · intro x
      by_cases hx : x = id
      · subst hx
        simp
      · simp [hx]
  · rw [Function.update_of_ne hod]
    refine (h o ho).congr ?_ ?_ ?_
    · intro i _
      simp only [NounsToken.enumeration, Function.update_of_ne hod]
    · intro x hx
      simp only [NounsToken.enumeration, Function.update_of_ne (hne o ho x hx)]
    · intro x
      by_cases hx : x = id
      · subst hx
        simp [hid, Ne.symm ho, Ne.symm hod]
      · simp [hx]

/-- `_addTokenToAllTokensEnumeration` -/
theorem AllListed.add (h : AllListed s.enumeration owner) (hid : owner id = 0) (hd : dst ≠ 0) :
    AllListed (s.addTokenToAllTokensEnumeration_ id).enumeration (Function.update owner id dst) := by
  have hne : ∀ x, owner x ≠ 0 → x ≠ id := by
    intro x hx heq
    subst heq
    exact hx hid
  have hpush : Enumerates (fun i => (s.allTokens_ ++ [id]).getD i 0) (s.allTokens_.length + 1)
      (Function.update s.allTokensIndex_ id s.allTokens_.length)
      (fun n => Function.update owner id dst n ≠ 0) := by
    refine Enumerates.push h (by rw [hid]; exact not_not.mpr rfl) ?_ ?_ ?_ ?_ ?_
    · intro i hi
      have hi' : i < s.allTokens_.length := hi
      simp [NounsToken.enumeration, List.getElem?_append_left hi']
    · simp
    · intro x hx
      simp [NounsToken.enumeration, hne x hx]
    · simp
    · intro x
      by_cases hx : x = id
      · subst hx
        simp [hd]
      · simp [hx]
  rw [AllListed]
  simpa [NounsToken.enumeration, NounsToken.addTokenToAllTokensEnumeration_] using hpush

/-- `_removeTokenFromAllTokensEnumeration`, for a Noun that exists. -/
theorem AllListed.remove (h : AllListed s.enumeration owner) (hid : owner id ≠ 0)
    (hr : s.removeTokenFromAllTokensEnumeration_ id = .ok s') :
    AllListed s'.enumeration (Function.update owner id 0) := by
  simp only [NounsToken.removeTokenFromAllTokensEnumeration_, bind_ok, sub_ok, index_ok] at hr
  obtain ⟨_, ⟨hpos, rfl⟩, last, hlast, _, hcell, hr⟩ := hr
  obtain rfl := Except.ok.inj hr
  have hlen : s.allTokens_.length - 1 + 1 = s.allTokens_.length := Nat.sub_add_cancel hpos
  have hgetlast : s.allTokens_.getD (s.allTokens_.length - 1) 0 = last := by
    rw [List.getD_eq_getElem?_getD, hlast]
    rfl
  have hindex : s.allTokensIndex_ id < s.allTokens_.length :=
    (List.getElem?_eq_some_iff.mp hcell).1
  rw [AllListed, NounsToken.enumeration] at h
  simp only at h
  rw [← hlen] at h
  -- the last Noun takes the place of the one that goes, and the array gets shorter
  have hpop : Enumerates
      (fun i => ((s.allTokens_.set (s.allTokensIndex_ id) last).dropLast).getD i 0)
      (s.allTokens_.length - 1)
      (Function.update (Function.update s.allTokensIndex_ last (s.allTokensIndex_ id)) id 0)
      (fun n => Function.update owner id 0 n ≠ 0) := by
    refine Enumerates.swapPop h hid ?_ ?_ ?_
    · intro i hi
      have hi' : i < (s.allTokens_.set (s.allTokensIndex_ id) last).length - 1 := by
        rw [List.length_set]
        exact hi
      simp only [hgetlast]
      rw [List.getD_eq_getElem?_getD, List.getElem?_dropLast, if_pos hi', List.getElem?_set]
      by_cases hip : i = s.allTokensIndex_ id
      · rw [if_pos hip.symm, if_pos hip, if_pos hindex]
        rfl
      · rw [if_neg (Ne.symm hip), if_neg hip, List.getD_eq_getElem?_getD]
    · intro x _ hne
      simp only [hgetlast, Function.update_of_ne hne, Function.update_apply]
    · intro x
      by_cases hx : x = id
      · subst hx
        simp
      · simp [hx]
  rw [AllListed]
  simpa [NounsToken.enumeration] using hpop

/-! ## The hook -/

theorem OwnedListed.congr {e : NounsToken.Enumeration} {owner' : Nat → Address}
    {balance' : Address → Nat} (h : OwnedListed e owner balance) (ho : owner' = owner)
    (hb : ∀ o, o ≠ 0 → balance' o = balance o) : OwnedListed e owner' balance' := by
  intro o hne
  rw [ho, hb o hne]
  exact h o hne

/-- `_beforeTokenTransfer` of a mint. -/
theorem Renumbered.mint (h : Listed s) (hid : s.owners_ id = 0) (hd : dst ≠ 0)
    (hr : Renumbered 0 dst id s s') :
    OwnedListed s'.enumeration (Function.update s.owners_ id dst)
        (Function.update s.balances_ dst (s.balances_ dst + 1))
      ∧ AllListed s'.enumeration (Function.update s.owners_ id dst) := by
  obtain ⟨s₁, hs₁, heq⟩ := hr
  rw [heq]
  simp only [NounsToken.beforeTokenTransferEnumerable_, bind_ok, if_true, if_neg hd] at hs₁
  obtain ⟨s₂, h₂, hs₁⟩ := hs₁
  obtain rfl := Except.ok.inj h₂
  rw [if_pos hd] at hs₁
  refine ⟨OwnedListed.add (s := s.addTokenToAllTokensEnumeration_ id) h.owned hid rfl hs₁, ?_⟩
  obtain ⟨_, _, rfl⟩ := addToOwner_shape hs₁
  exact h.all.add hid hd

/-- `_beforeTokenTransfer` of a burn. -/
theorem Renumbered.burn (h : Listed s) (hs : s.owners_ id ≠ 0)
    (hr : Renumbered (s.owners_ id) 0 id s s') :
    OwnedListed s'.enumeration (Function.update s.owners_ id 0)
        (Function.update s.balances_ (s.owners_ id) (s.balances_ (s.owners_ id) - 1))
      ∧ AllListed s'.enumeration (Function.update s.owners_ id 0) := by
  obtain ⟨s₁, hs₁, heq⟩ := hr
  rw [heq]
  simp only [NounsToken.beforeTokenTransferEnumerable_, bind_ok, if_true, if_neg hs] at hs₁
  obtain ⟨s₂, h₂, hs₁⟩ := hs₁
  rw [if_pos hs] at h₂
  have howned := h.owned.remove rfl hs h₂
  have hall : AllListed s₂.enumeration s.owners_ := by
    obtain ⟨_, _, rfl⟩ := removeFromOwner_shape h₂
    exact h.all
  have hall' := hall.remove hs hs₁
  obtain ⟨_, _, rfl, _⟩ := removeFromAll_shape hs₁
  exact ⟨howned, hall'⟩

/-- `_beforeTokenTransfer` of a transfer; one to the owner itself moves nothing. -/
theorem Renumbered.transfer (h : Listed s) (howner : s.owners_ id = src) (hs : src ≠ 0)
    (hd : dst ≠ 0) (hbal : 1 ≤ s.balances_ src) (hr : Renumbered src dst id s s') :
    OwnedListed s'.enumeration (Function.update s.owners_ id dst)
        (s.ledger.transfer src dst).balance
      ∧ AllListed s'.enumeration (Function.update s.owners_ id dst) := by
  obtain ⟨s₁, hs₁, heq⟩ := hr
  rw [heq]
  simp only [NounsToken.beforeTokenTransferEnumerable_, bind_ok, if_neg hs, if_neg hd] at hs₁
  obtain ⟨s₂, h₂, hs₁⟩ := hs₁
  -- owners' lists are kept apart from the list of all
  have hall : AllListed s₁.enumeration s.owners_ := by
    split at h₂
    · obtain ⟨_, _, rfl⟩ := removeFromOwner_shape h₂
      split at hs₁
      · obtain ⟨_, _, rfl⟩ := addToOwner_shape hs₁
        exact h.all
      · obtain rfl := Except.ok.inj hs₁
        exact h.all
    · obtain rfl := Except.ok.inj h₂
      split at hs₁
      · obtain ⟨_, _, rfl⟩ := addToOwner_shape hs₁
        exact h.all
      · obtain rfl := Except.ok.inj hs₁
        exact h.all
  refine ⟨?_, hall.congr (fun _ _ => rfl) (fun _ _ => rfl) fun n => ?_⟩
  · -- a transfer to oneself leaves the lists alone
    by_cases hsd : src = dst
    · subst hsd
      rw [if_neg (not_not.mpr rfl)] at h₂ hs₁
      obtain rfl := Except.ok.inj h₂
      obtain rfl := Except.ok.inj hs₁
      refine h.owned.congr (by rw [← howner, Function.update_eq_self]) (fun o _ => ?_)
      simp only [Ledger.transfer, NounsToken.ledger, Function.update_self, Function.update_idem]
      by_cases ho : o = src
      · subst ho
        rw [Function.update_self]
        omega
      · rw [Function.update_of_ne ho]
    · rw [if_pos hsd] at h₂
      rw [if_pos (Ne.symm hsd)] at hs₁
      have hremoved := h.owned.remove howner hs h₂
      have hbalance : s₂.balances_ dst
          = Function.update s.balances_ src (s.balances_ src - 1) dst := by
        obtain ⟨_, _, rfl⟩ := removeFromOwner_shape h₂
        rw [Function.update_of_ne (Ne.symm hsd)]
      have hadded := hremoved.add (Function.update_self _ _ _) hbalance hs₁
      rw [Function.update_idem] at hadded
      exact hadded
  · by_cases hn : n = id
    · subst hn
      rw [Function.update_self, howner]
      exact ⟨fun _ => hs, fun _ => hd⟩
    · rw [Function.update_of_ne hn]

/-! ## Along every history -/

theorem Effect.listed {now : Nat} {names : Address → Address → Prop}
    (he : Effect now names s s') (h : Listed s) : Listed s' := by
  cases he with
  | @mint dst seed hm =>
      obtain ⟨howned, hall⟩ := hm.enumerable.mint (s := drawn s seed) ⟨h.owned, h.all⟩ hm.fresh
        hm.dst_ne
      obtain ⟨_, _, _, _, _, _, _, hbook⟩ := hm.book
      rw [hbook] at howned hall ⊢
      exact ⟨howned, hall⟩
  | burn hb =>
      obtain ⟨howned, hall⟩ := hb.enumerable.burn h hb.owner_ne
      obtain ⟨_, _, _, _, _, _, _, rfl⟩ := hb.book
      exact ⟨howned, hall⟩
  | transfer ht =>
      obtain ⟨howned, hall⟩ := ht.enumerable.transfer h ht.owner ht.src_ne ht.dst_ne ht.balance
      obtain ⟨_, _, _, _, _, _, _, rfl⟩ := ht.book
      exact ⟨howned, hall⟩
  | redelegate _ hr =>
      have hsame : s'.enumeration = s.enumeration := hr.enumerable
      obtain ⟨_, _, _, _, _, _, _, rfl⟩ := hr.book
      exact ⟨hsame ▸ h.owned, hsame ▸ h.all⟩
  | configure hc =>
      obtain ⟨_, _, _, _, _, _, _, _, _, _, _, _, rfl⟩ := hc
      exact ⟨h.owned, h.all⟩

theorem Effects.listed {now : Nat} {names : Address → Address → Prop}
    (he : Effects now names s s') (h : Listed s) : Listed s' := by
  induction he with
  | refl => exact h
  | tail _ he ih => exact he.listed ih

theorem listed_deploy {owner noundersDAO minter descriptor seeder : Address} :
    Listed (.deploy owner noundersDAO minter descriptor seeder) where
  owned _ ho := ⟨fun _ hi => absurd hi (Nat.not_lt_zero _), fun _ hn => absurd hn.symm ho⟩
  all := ⟨fun _ hi => absurd hi (Nat.not_lt_zero _), fun _ hn => absurd rfl hn⟩

theorem listed_runs {g : Genesis} {x : Config TokenWorld TokenFrame} (h : TokenRuns g x) :
    Listed x.world.token :=
  (tokenMachine_keeps (I := fun _ s => Listed s) (fun hI hs _ => (call_effects hs).listed hI)
    (fun _ hI => hI)).runs h listed_deploy

/-! ## What the token answers -/

/-- Asking for everything on a list. -/
theorem mapM_ok {α β : Type} {f : α → Result β} {g : α → β} {l : List α}
    (h : ∀ x ∈ l, f x = .ok (g x)) : l.mapM f = .ok (l.map g) := by
  induction l with
  | nil => rfl
  | cons x l ih =>
      rw [List.mapM_cons, h x List.mem_cons_self, ih fun y hy => h y (List.mem_cons_of_mem _ hy)]
      rfl

/-- The enumeration of a token lists what it should. -/
structure EnumerationOk (s : NounsToken) : Prop where
  /-- `tokenByIndex` lists the Nouns there are, each once. -/
  all : ∃ ids, (List.range s.totalSupply).mapM s.tokenByIndex = .ok ids ∧ ids.Nodup
    ∧ ∀ n, n ∈ ids ↔ s.exists_ n = true
  /-- `tokenOfOwnerByIndex` lists the Nouns of an owner, each once. -/
  owned : ∀ o, o ≠ 0 → ∃ balance ids, s.balanceOf o = .ok balance
    ∧ (List.range balance).mapM (s.tokenOfOwnerByIndex o) = .ok ids ∧ ids.Nodup
    ∧ ∀ n, n ∈ ids ↔ s.ownerOf n = .ok o
  /-- `_allTokensIndex` is the inverse of `tokenByIndex`. -/
  allIndex : (∀ n, s.exists_ n = true → s.tokenByIndex (s.allTokensIndex_ n) = .ok n)
    ∧ ∀ i n, s.tokenByIndex i = .ok n → s.allTokensIndex_ n = i
  /-- `_ownedTokensIndex` is the inverse of `tokenOfOwnerByIndex`. -/
  ownedIndex : (∀ o n, s.ownerOf n = .ok o →
      s.tokenOfOwnerByIndex o (s.ownedTokensIndex_ n) = .ok n)
    ∧ ∀ o i n, s.tokenOfOwnerByIndex o i = .ok n → s.ownedTokensIndex_ n = i
  supply : ∑ a, s.balances_ a = s.totalSupply

theorem exists_iff {n : Nat} : s.exists_ n = true ↔ s.owners_ n ≠ 0 := by
  simp [NounsToken.exists_]

theorem ownerOf_ok {n : Nat} {o : Address} : s.ownerOf n = .ok o ↔ o ≠ 0 ∧ s.owners_ n = o := by
  simp only [NounsToken.ownerOf, bind_ok, require_ok]
  constructor
  · intro hin
    obtain ⟨_, hne, h⟩ := hin
    obtain rfl := Except.ok.inj h
    exact ⟨hne, rfl⟩
  · intro hin
    obtain ⟨hne, rfl⟩ := hin
    exact ⟨(), hne, rfl⟩

theorem tokenByIndex_ok {i n : Nat} :
    s.tokenByIndex i = .ok n ↔ i < s.allTokens_.length ∧ s.allTokens_.getD i 0 = n := by
  simp only [NounsToken.tokenByIndex, NounsToken.totalSupply, bind_ok, index_ok]
  constructor
  · intro hin
    obtain ⟨_, hi, h⟩ := hin
    exact ⟨require_ok.mp hi, by rw [List.getD_eq_getElem?_getD, h]; rfl⟩
  · intro hin
    obtain ⟨hi, rfl⟩ := hin
    refine ⟨(), require_ok.mpr hi, ?_⟩
    rw [List.getD_eq_getElem?_getD, List.getElem?_eq_getElem hi]
    rfl

theorem tokenOfOwnerByIndex_ok {o : Address} {i n : Nat} :
    s.tokenOfOwnerByIndex o i = .ok n
      ↔ o ≠ 0 ∧ i < s.balances_ o ∧ s.ownedTokens_ o i = n := by
  simp only [NounsToken.tokenOfOwnerByIndex, NounsToken.balanceOf, bind_ok, require_ok]
  constructor
  · intro hin
    obtain ⟨_, ⟨_, ho, hb⟩, _, hi, h⟩ := hin
    obtain rfl := Except.ok.inj hb
    exact ⟨ho, hi, Except.ok.inj h⟩
  · intro hin
    obtain ⟨ho, hi, rfl⟩ := hin
    exact ⟨_, ⟨(), ho, rfl⟩, (), hi, rfl⟩

/-- The answers of a token whose arrays are in order. -/
theorem Listed.ok {now : Nat} (h : Listed s) (hi : TokenInv now s) : EnumerationOk s where
  all := by
    refine ⟨_, mapM_ok (g := fun i => s.allTokens_.getD i 0) ?_, h.all.nodup, ?_⟩
    · intro i hi
      -- reading the indices below the length one by one gives the whole list
      exact tokenByIndex_ok.mpr ⟨List.mem_range.mp hi, rfl⟩
    · intro n
      rw [exists_iff]
      exact h.all.mem_iff n
  owned o ho := by
    refine ⟨s.balances_ o, _, bind_ok.mpr ⟨(), require_ok.mpr ho, rfl⟩,
      mapM_ok (g := s.ownedTokens_ o) ?_, (h.owned o ho).nodup, ?_⟩
    · intro i hi
      exact tokenOfOwnerByIndex_ok.mpr ⟨ho, List.mem_range.mp hi, rfl⟩
    · intro n
      rw [ownerOf_ok]
      exact ((h.owned o ho).mem_iff n).trans ⟨fun hn => ⟨ho, hn⟩, fun hn => hn.2⟩
  allIndex := by
    refine ⟨?_, ?_⟩
    · intro n hn
      exact tokenByIndex_ok.mpr (h.all.finds n (exists_iff.mp hn))
    · intro i n hn
      obtain ⟨hlt, rfl⟩ := tokenByIndex_ok.mp hn
      exact (h.all.lists i hlt).2
  ownedIndex := by
    refine ⟨?_, ?_⟩
    · intro o n hn
      obtain ⟨ho, hown⟩ := ownerOf_ok.mp hn
      exact tokenOfOwnerByIndex_ok.mpr ⟨ho, (h.owned o ho).finds n hown⟩
    · intro o i n hn
      obtain ⟨ho, hlt, rfl⟩ := tokenOfOwnerByIndex_ok.mp hn
      exact ((h.owned o ho).lists i hlt).2
  supply := hi.bounded.units

/--
**Enumeration.** At every point of every history `tokenByIndex` lists the Nouns there are
and `tokenOfOwnerByIndex` those of each owner, every one once, the index mappings are the
inverse positions, and the balances add up to the supply.
-/
theorem enumeration_ok (g : Genesis) (x : Config TokenWorld TokenFrame) (hx : TokenRuns g x) :
    EnumerationOk x.world.token :=
  (listed_runs hx).ok (tokenInv_runs hx)

/-- Of the two Nouns of block 1 the first is burned, and the last one takes its place. -/
def burnFirst : List (Machine.Move TokenTx Block) :=
  [.enter (smallTx (.ofNat 4) .mint), .enter (smallTx (.ofNat 4) (.burn 0))]

/-- What is left is Noun 1, at index 0. -/
theorem enumeration_ok_burnFirst :
    ∃ x, TokenRuns smallGenesis x ∧ x.world.token.tokenByIndex 0 = .ok 1
      ∧ x.world.token.allTokensIndex_ 1 = 0 := by
  obtain ⟨x, hx, hp⟩ := Machine.script_exists (M := tokenMachine) Machine.anything_free
    (x := ⟨smallGenesis.world, []⟩) (m := burnFirst)
    (p := fun x => (x.world.token.tokenByIndex 0).toOption = some 1) (by decide +kernel)
  have hone := toOption_some.mp (of_decide_eq_true hp)
  exact ⟨x, hx, hone, (enumeration_ok smallGenesis x hx).allIndex.2 0 1 hone⟩

end Nouns.Proof
