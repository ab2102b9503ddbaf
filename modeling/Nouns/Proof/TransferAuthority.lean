import Nouns.Lib.Traces
import Nouns.Proof.IdAllocation

/-!
# By whose leave a Noun leaves

A Noun changes hands by a transfer its owner allowed, or is burned by the minter. What a
transfer rests on is found in the history: the operator the owner made, the account somebody
in charge approved, neither taken back since.
-/

namespace Nouns.Proof

open Evm CallMachine

/-! ## What a call does to titles -/

/-- Whether `sender` acts for `owner`: as itself, as its proxy, as an operator of its. -/
def InCharge (v : View) (s : NounsToken) (owner sender : Address) : Prop :=
  sender = owner ∨ v.proxies owner = sender ∨ s.operatorApprovals_ owner sender = true

theorem inCharge_iff {v : View} {s : NounsToken} {owner sender : Address} :
    InCharge v s owner sender
      ↔ sender = owner ∨ NounsToken.isApprovedForAll v s owner sender = true := by
  unfold NounsToken.isApprovedForAll InCharge
  split <;> simp [*]

/-- The owners, and who may move what they own. -/
structure Titles where
  owners : Nat → Address
  approvals : Nat → Address
  operators : Address → Address → Bool

namespace Titles

/-- Noun `n` goes to `dst`, its approval cleared. -/
def give (t : Titles) (n : Nat) (dst : Address) : Titles :=
  ⟨Function.update t.owners n dst, Function.update t.approvals n 0, t.operators⟩

/-- `b` is approved for Noun `n`. -/
def approve (t : Titles) (n : Nat) (b : Address) : Titles :=
  { t with approvals := Function.update t.approvals n b }

/-- Whether `o` is an operator of `a`, from now on. -/
def appoint (t : Titles) (a o : Address) (yes : Bool) : Titles :=
  { t with operators := Function.update t.operators a (Function.update (t.operators a) o yes) }

variable (t : Titles) {n k : Nat} {a b o o' : Address} {yes : Bool}

@[simp] theorem give_owners_self : (t.give n b).owners n = b := Function.update_self ..
@[simp] theorem give_approvals_self : (t.give n b).approvals n = 0 := Function.update_self ..
@[simp] theorem give_owners_ne (h : k ≠ n) : (t.give n b).owners k = t.owners k :=
  Function.update_of_ne h ..
@[simp] theorem give_approvals_ne (h : k ≠ n) : (t.give n b).approvals k = t.approvals k :=
  Function.update_of_ne h ..
@[simp] theorem approve_approvals_self : (t.approve n b).approvals n = b := Function.update_self ..
@[simp] theorem approve_approvals_ne (h : k ≠ n) : (t.approve n b).approvals k = t.approvals k :=
  Function.update_of_ne h ..

theorem appoint_operators : (t.appoint a o yes).operators b o'
    = if b = a ∧ o' = o then yes else t.operators b o' := by
  unfold appoint
  by_cases hb : b = a
  · subst hb
    by_cases ho : o' = o <;> simp [ho]
  · simp [hb]

end Titles

/-- The titles of a token. -/
def titles (s : NounsToken) : Titles := ⟨s.owners_, s.tokenApprovals_, s.operatorApprovals_⟩

/-- What the call `c` does to the titles. -/
inductive Deeded (m : Msg) (s : NounsToken) : TokenCall → Titles → Prop where
  | kept {c : TokenCall} : Deeded m s c (titles s)
  | minted {owners : Nat → Address} : (∀ n, s.owners_ n ≠ 0 → owners n = s.owners_ n) →
      Deeded m s .mint { titles s with owners := owners }
  | burned {n : Nat} : m.sender = s.minter → s.owners_ n ≠ 0 →
      Deeded m s (.burn n) ((titles s).give n 0)
  | moved {c : TokenCall} {dst : Address} {n : Nat} :
      c = .transferFrom (s.owners_ n) dst n ∨ c = .safeTransferFrom (s.owners_ n) dst n →
      s.owners_ n ≠ 0 → dst ≠ 0 →
      InCharge m.view s (s.owners_ n) m.sender ∨ s.tokenApprovals_ n = m.sender →
      Deeded m s c ((titles s).give n dst)
  | approved {b : Address} {n : Nat} : s.owners_ n ≠ 0 →
      InCharge m.view s (s.owners_ n) m.sender →
      Deeded m s (.approve b n) ((titles s).approve n b)
  | appointed {o : Address} {yes : Bool} :
      Deeded m s (.setApprovalForAll o yes) ((titles s).appoint m.sender o yes)

variable {m : Msg} {s s₁ s' : NounsToken} {n : Nat}

theorem Deeded.of_eq {c : TokenCall} (h : titles s' = titles s) : Deeded m s c (titles s') := by
  rw [h]
  exact .kept

/-- A minting leaves the Nouns there are with their owners, and all approvals. -/
def Issues (s s' : NounsToken) : Prop :=
  (∀ n, s.owners_ n ≠ 0 → s'.owners_ n = s.owners_ n)
    ∧ s'.tokenApprovals_ = s.tokenApprovals_ ∧ s'.operatorApprovals_ = s.operatorApprovals_

theorem Issues.trans {s'' : NounsToken} (h : Issues s s') (h' : Issues s' s'') : Issues s s'' := by
  obtain ⟨h1, h2, h3⟩ := h
  obtain ⟨h4, h5, h6⟩ := h'
  refine ⟨?_, h5.trans h2, h6.trans h3⟩
  intro n hn
  have hsame := h1 n hn
  rw [h4 n (hsame ▸ hn), hsame]

theorem mintTo_issues {dst : Address} (h₁ : s.nextNounId = .ok s₁)
    (h : s₁.mintTo_ m dst s.currentNounId_ = .ok s') : Issues s s' := by
  obtain ⟨seed, s₂, hm, rfl⟩ := mintTo_shape h₁ h
  have hfresh : s.owners_ s.currentNounId_ = 0 := hm.fresh
  obtain ⟨_, _, _, _, _, _, _, rfl⟩ := hm.book
  refine ⟨?_, rfl, rfl⟩
  intro n hn
  have hne : n ≠ s.currentNounId_ := fun heq => hn (heq ▸ hfresh)
  exact Function.update_of_ne hne _ _

theorem mintReward_issues (h : s.mintReward m = .ok s') : Issues s s' := by
  unfold NounsToken.mintReward at h
  split at h
  · obtain ⟨s₁, h₁, h⟩ := bind_ok.mp h
    exact mintTo_issues h₁ h
  · obtain rfl := Except.ok.inj h
    exact ⟨fun _ _ => rfl, rfl, rfl⟩

theorem mint_deeded (h : s.call m .mint = .ok s') : Deeded m s .mint (titles s') := by
  simp only [NounsToken.call, NounsToken.mint, bind_ok] at h
  obtain ⟨⟨s₄, id⟩, ⟨_, _, s₁, h₁, s₂, h₂, s₃, h₃, h₄⟩, h⟩ := h
  obtain ⟨rfl, rfl⟩ := Prod.mk.inj (Except.ok.inj h₄)
  obtain rfl := Except.ok.inj h
  obtain ⟨howners, happrovals, hoperators⟩ := (mintReward_issues h₁).trans (mintTo_issues h₂ h₃)
  have htitles : titles s₃ = { titles s with owners := s₃.owners_ } := by
    rw [titles, happrovals, hoperators]
    rfl
  rw [htitles]
  exact .minted howners

/-- Who may transfer a Noun. -/
theorem transferFrom_allowed {src dst : Address} (h : s.transferFrom m src dst n = .ok s') :
    InCharge m.view s (s.owners_ n) m.sender ∨ s.tokenApprovals_ n = m.sender := by
  simp only [NounsToken.transferFrom, NounsToken.isApprovedOrOwner_, NounsToken.ownerOf,
    NounsToken.getApproved, bind_ok, require_ok] at h
  obtain ⟨_, ⟨_, _, owner, ⟨_, _, howner⟩, approved, ⟨_, _, happroved⟩, hallowed⟩, _, htrue, _⟩ := h
  obtain rfl := Except.ok.inj howner
  obtain rfl := Except.ok.inj happroved
  obtain rfl := Except.ok.inj hallowed
  rcases of_decide_eq_true htrue with hsender | happ | hall
  · exact .inl (.inl hsender)
  · exact .inr happ
  · exact .inl (inCharge_iff.mpr (.inr hall))

theorem transferFrom_deeded {c : TokenCall} {src dst : Address}
    (hc : c = .transferFrom src dst n ∨ c = .safeTransferFrom src dst n)
    (h : s.transferFrom m src dst n = .ok s') : Deeded m s c (titles s') := by
  have hallowed := transferFrom_allowed h
  have hmoved := transferFrom_shape h
  obtain rfl := hmoved.owner
  have hne := hmoved.src_ne
  have hdst := hmoved.dst_ne
  obtain ⟨_, _, _, _, _, _, _, rfl⟩ := hmoved.book
  exact .moved hc hne hdst hallowed

theorem approve_deeded {dst : Address} (h : s.approve m dst n = .ok s') :
    Deeded m s (.approve dst n) (titles s') := by
  simp only [NounsToken.approve, NounsToken.erc721Approve, NounsToken.approve_, NounsToken.ownerOf,
    bind_ok, require_ok] at h
  obtain ⟨owner, ⟨_, hne, howner⟩, _, _, _, hmay, _, _, h⟩ := h
  obtain rfl := Except.ok.inj howner
  obtain rfl := Except.ok.inj h
  exact .approved hne (inCharge_iff.mpr hmay)

/-- **What a call does to the titles.** -/
theorem call_deeded {c : TokenCall} (h : s.call m c = .ok s') : Deeded m s c (titles s') := by
  cases c with
  | mint => exact mint_deeded h
  | burn n =>
      simp only [NounsToken.call, NounsToken.burn, bind_ok, require_ok] at h
      obtain ⟨_, hminter, s₁, hburn, h⟩ := h
      obtain rfl := Except.ok.inj h
      have hburned := burn_shape hburn
      have hne := hburned.owner_ne
      obtain ⟨_, _, _, _, _, _, _, rfl⟩ := hburned.book
      exact .burned hminter hne
  | approve dst n => exact approve_deeded h
  | setApprovalForAll o b =>
      simp only [NounsToken.call, NounsToken.setApprovalForAll, bind_ok] at h
      obtain ⟨_, _, h⟩ := h
      obtain rfl := Except.ok.inj h
      exact .appointed
  | transferFrom src dst n => exact transferFrom_deeded (.inl rfl) h
  | safeTransferFrom src dst n => exact transferFrom_deeded (.inr rfl) h
  | delegate d =>
      obtain ⟨_, _, _, _, _, _, _, rfl⟩ := (delegate_shape h).book
      exact .of_eq rfl
  | delegateBySig d nonce expiry sig =>
      obtain ⟨_, hr⟩ := delegateBySig_shape h
      obtain ⟨_, _, _, _, _, _, _, rfl⟩ := hr.book
      exact .of_eq rfl
  | setNoundersDAO a =>
      simp only [NounsToken.call, NounsToken.setNoundersDAO, bind_ok] at h
      obtain ⟨_, _, h⟩ := h
      obtain rfl := Except.ok.inj h
      exact .of_eq rfl
  | renounceOwnership =>
      simp only [NounsToken.call, NounsToken.renounceOwnership, bind_ok] at h
      obtain ⟨_, _, h⟩ := h
      obtain rfl := Except.ok.inj h
      exact .of_eq rfl
  | setMinter | lockMinter | setDescriptor | lockDescriptor | setSeeder | lockSeeder
    | transferOwnership =>
      simp only [NounsToken.call, NounsToken.setMinter, NounsToken.lockMinter,
        NounsToken.setDescriptor, NounsToken.lockDescriptor, NounsToken.setSeeder,
        NounsToken.lockSeeder, NounsToken.transferOwnership, bind_ok] at h
      obtain ⟨_, _, _, _, h⟩ := h
      obtain rfl := Except.ok.inj h
      exact .of_eq rfl

/-! ## Along a history -/

/-- Nobody is approved for a Noun that nobody owns. -/
def Unclaimed (s : NounsToken) : Prop := ∀ n, s.owners_ n = 0 → s.tokenApprovals_ n = 0

theorem Deeded.unclaimed {c : TokenCall} (h : Unclaimed s) (hd : Deeded m s c (titles s')) :
    Unclaimed s' := by
  suffices hall : ∀ n, (titles s').owners n = 0 → (titles s').approvals n = 0 from hall
  intro n hn
  generalize titles s' = t at hd hn ⊢
  cases hd with
  | kept | appointed => exact h n hn
  | minted hkeep =>
      by_cases hs : s.owners_ n = 0
      · exact h n hs
      · exact absurd ((hkeep n hs).symm.trans hn) hs
  | @burned id | @moved _ _ id =>
      by_cases hid : n = id
      · subst hid
        simp
      · rw [Titles.give_owners_ne _ hid] at hn
        rw [Titles.give_approvals_ne _ hid]
        exact h n hn
  | @approved b id hne =>
      have hid : n ≠ id := fun heq => hne (heq ▸ hn)
      rw [Titles.approve_approvals_ne _ hid]
      exact h n hn

variable {g : Genesis} {x y : Config TokenWorld TokenFrame} {l : Label TokenTx TokenFrame Block}

theorem unclaimed_runs (h : TokenRuns g x) : Unclaimed x.world.token :=
  (tokenMachine_keeps (I := fun _ s => Unclaimed s) (fun hI hs _ => (call_deeded hs).unclaimed hI)
    (fun _ hI => hI)).runs h fun _ _ => rfl

/-- `a` has `o` as its operator. -/
def Operates (a o : Address) (w : TokenWorld) : Prop := w.token.operatorApprovals_ a o = true

/-- `b` is approved for Noun `n` of `a`. -/
def ApprovedFor (a b : Address) (n : Nat) (w : TokenWorld) : Prop :=
  w.token.owners_ n = a ∧ w.token.tokenApprovals_ n = b

/-- `a` made `o` an operator of its on the way to `x`, and it has been one ever since. -/
def Appointed (g : Genesis) (x : Config TokenWorld TokenFrame) (a o : Address) : Prop :=
  ∃ y v z, TokenRuns g y ∧ tokenMachine.Step y (.enter ⟨a, v, .setApprovalForAll o true⟩) z
    ∧ Operates a o z.world ∧ tokenMachine.Runs (fun u _ => Operates a o u.world) z x

/-- `sender` is the account `a`, its proxy, or an operator it has appointed on the way to `x`. -/
def Trusted (g : Genesis) (x : Config TokenWorld TokenFrame) (v : View) (a sender : Address) : Prop :=
  sender = a ∨ v.proxies a = sender ∨ Appointed g x a sender

/--
Somebody in charge approved `b` for Noun `n` of `a` on the way to `x`, and since then the Noun
has stayed with `a` and `b` approved for it.
-/
def Approved (g : Genesis) (x : Config TokenWorld TokenFrame) (a b : Address) (n : Nat) : Prop :=
  ∃ y tx z, TokenRuns g y ∧ tokenMachine.Step y (.enter tx) z ∧ tx.call = .approve b n
    ∧ y.world.token.owners_ n = a ∧ Trusted g y tx.view a tx.sender
    ∧ ApprovedFor a b n z.world ∧ tokenMachine.Runs (fun u _ => ApprovedFor a b n u.world) z x

/-- Only `a` itself appoints its operators. -/
theorem step_appoints {a o : Address} (hs : tokenMachine.Step x l y) (hx : ¬ Operates a o x.world)
    (hy : Operates a o y.world) : ∃ v, l = .enter ⟨a, v, .setApprovalForAll o true⟩ := by
  rcases step_token hs with heq | ⟨tx, rfl, hcall⟩
  · exact absurd (by rwa [Operates, heq] at hy) hx
  · have hd := call_deeded hcall
    generalize ht : titles y.world.token = t at hd
    have hop : t.operators a o = true := by rw [← ht]; exact hy
    generalize hc : tx.call = c at hd
    cases hd with
    | kept | minted | burned | moved | approved => exact absurd hop hx
    | @appointed o' yes =>
        rw [Titles.appoint_operators] at hop
        split at hop
        · next hsame =>
            obtain ⟨rfl, rfl⟩ := hsame
            subst hop
            exact ⟨tx.view, by rw [← hc]; rfl⟩
        · exact absurd hop hx

theorem appointed_of_operates {a o : Address} (h : TokenRuns g x) (ho : Operates a o x.world) :
    Appointed g x a o := by
  obtain ⟨y, l, z, hy, hbefore, -, hs, hafter, hsince⟩ :=
    h.began (p := Operates a o) Bool.false_ne_true ho
  obtain ⟨v, rfl⟩ := step_appoints hs hbefore hafter
  exact ⟨y, v, z, hy, hs, hafter, hsince.mono fun _ _ hp => hp.2⟩

theorem trusted_of_inCharge {v : View} {a sender : Address} (h : TokenRuns g x)
    (hc : InCharge v x.world.token a sender) : Trusted g x v a sender := by
  rcases hc with hself | hproxy | hoperator
  · exact .inl hself
  · exact .inr (.inl hproxy)
  · exact .inr (.inr (appointed_of_operates h hoperator))

/-- Nobody comes to be approved for a Noun but by `approve`, and then its owner stays. -/
theorem step_approves {a b : Address} (hx : Unclaimed x.world.token)
    (hs : tokenMachine.Step x l y) (hb : b ≠ 0) (hbefore : ¬ ApprovedFor a b n x.world)
    (hafter : ApprovedFor a b n y.world) :
    ∃ tx, l = .enter tx ∧ tx.call = .approve b n ∧ x.world.token.owners_ n = a
      ∧ InCharge tx.view x.world.token a tx.sender := by
  rcases step_token hs with heq | ⟨tx, rfl, hcall⟩
  · exact absurd (by rwa [ApprovedFor, heq] at hafter) hbefore
  · have hd := call_deeded hcall
    generalize ht : titles y.world.token = t at hd
    have hown : t.owners n = a := by rw [← ht]; exact hafter.1
    have happ : t.approvals n = b := by rw [← ht]; exact hafter.2
    generalize hc : tx.call = c at hd
    cases hd with
    | kept | appointed => exact absurd ⟨hown, happ⟩ hbefore
    | minted hkeep =>
        -- a Noun with an owner keeps it, one without has nobody approved
        have happ : x.world.token.tokenApprovals_ n = b := happ
        by_cases hzero : x.world.token.owners_ n = 0
        · exact absurd (happ.symm.trans (hx n hzero)) hb
        · exact absurd ⟨(hkeep n hzero).symm.trans hown, happ⟩ hbefore
    | @burned id | @moved _ _ id =>
        by_cases hid : n = id
        · subst hid
          rw [Titles.give_approvals_self] at happ
          exact absurd happ.symm hb
        · rw [Titles.give_owners_ne _ hid] at hown
          rw [Titles.give_approvals_ne _ hid] at happ
          exact absurd ⟨hown, happ⟩ hbefore
    | @approved b' id hne hcharge =>
        have hown : x.world.token.owners_ n = a := hown
        by_cases hid : n = id
        · subst hid hown
          rw [Titles.approve_approvals_self] at happ
          subst happ
          exact ⟨tx, rfl, hc, rfl, hcharge⟩
        · rw [Titles.approve_approvals_ne _ hid] at happ
          exact absurd ⟨hown, happ⟩ hbefore

theorem approved_of_approval {b : Address} (h : TokenRuns g x) (hb : b ≠ 0)
    (happ : x.world.token.tokenApprovals_ n = b) :
    Approved g x (x.world.token.owners_ n) b n := by
  obtain ⟨y, l, z, hy, hbefore, -, hs, hafter, hsince⟩ :=
    h.began (p := ApprovedFor (x.world.token.owners_ n) b n) (fun h0 => hb h0.2.symm) ⟨rfl, happ⟩
  obtain ⟨tx, rfl, hc, hown, hcharge⟩ := step_approves (unclaimed_runs hy) hs hb hbefore hafter
  exact ⟨y, tx, z, hy, hs, hc, hown, trusted_of_inCharge hy hcharge, hafter,
    hsince.mono fun _ _ hp => hp.2⟩

/-! ## By whose leave -/

/-- A step by which Noun `n` leaves its owner `a`, as its history justifies it. -/
inductive ByLeave (g : Genesis) (x y : Config TokenWorld TokenFrame) (a : Address) (n : Nat)
    (tx : TokenTx) : Prop where
  | burned : tx.call = .burn n → tx.sender = x.world.token.minter → y.world.token.owners_ n = 0 →
      ByLeave g x y a n tx
  | moved {dst : Address} : tx.call = .transferFrom a dst n ∨ tx.call = .safeTransferFrom a dst n →
      y.world.token.owners_ n = dst → dst ≠ 0 →
      Trusted g x tx.view a tx.sender ∨ Approved g x a tx.sender n → ByLeave g x y a n tx

/--
**By whose leave.** In every history, a Noun that leaves its owner is burned by the minter, or
transferred by the owner, its proxy, an operator the owner appointed and has kept since, or the
account that somebody of these approved for it, nothing having changed about that since.
-/
theorem leaves_by_leave {g : Genesis} {x y : Config TokenWorld TokenFrame}
    {l : Label TokenTx TokenFrame Block} {n : Nat} (hx : TokenRuns g x)
    (hs : tokenMachine.Step x l y) (howned : x.world.token.owners_ n ≠ 0)
    (hleft : y.world.token.owners_ n ≠ x.world.token.owners_ n) :
    ∃ tx, l = .enter tx ∧ ByLeave g x y (x.world.token.owners_ n) n tx := by
  rcases step_token hs with heq | ⟨tx, rfl, hcall⟩
  · exact absurd (congrFun (congrArg NounsToken.owners_ heq) n) hleft
  · refine ⟨tx, rfl, ?_⟩
    have hd := call_deeded hcall
    generalize ht : titles y.world.token = t at hd
    have hown : t.owners n = y.world.token.owners_ n := by rw [← ht]; rfl
    rw [← hown] at hleft
    generalize hc : tx.call = c at hd
    cases hd with
    | kept | approved | appointed => exact absurd rfl hleft
    | minted hkeep => exact absurd (hkeep n howned) hleft
    | @burned id hminter =>
        by_cases hid : n = id
        · subst hid
          exact .burned hc hminter (hown.symm.trans (Titles.give_owners_self _))
        · exact absurd (Titles.give_owners_ne _ hid) hleft
    | @moved _ dst id hcall _ hdst hmay =>
        by_cases hid : n = id
        · subst hid
          refine .moved (hc ▸ hcall) (hown.symm.trans (Titles.give_owners_self _)) hdst ?_
          rcases hmay with hcharge | happroved
          · exact .inl (trusted_of_inCharge hx hcharge)
          · exact .inr (approved_of_approval hx hs.allowed happroved)
        · exact absurd (Titles.give_owners_ne _ hid) hleft

/-- Account 4 has Noun 1 minted and approves account 7 for it, who sends it to account 8. -/
theorem leaves_by_leave_approved : ∃ x y tx, TokenRuns smallGenesis x
    ∧ x.world.token.owners_ 1 = .ofNat 4 ∧ y.world.token.owners_ 1 = .ofNat 8
    ∧ ByLeave smallGenesis x y (.ofNat 4) 1 tx := by
  obtain ⟨x, l, y, hx, hs, hp⟩ := Machine.script_then (M := tokenMachine) Machine.anything_free
    (x := ⟨smallGenesis.world, []⟩)
    (s := [.enter (smallTx (.ofNat 4) .mint), .enter (smallTx (.ofNat 4) (.approve (.ofNat 7) 1))])
    (m := .enter (smallTx (.ofNat 7) (.transferFrom (.ofNat 4) (.ofNat 8) 1)))
    (p := fun x y => x.world.token.owners_ 1 = .ofNat 4 ∧ y.world.token.owners_ 1 = .ofNat 8)
    (by decide +kernel)
  obtain ⟨hbefore, hafter⟩ := of_decide_eq_true hp
  obtain ⟨tx, -, hleave⟩ := leaves_by_leave hx hs (n := 1) (by rw [hbefore]; decide)
    (by rw [hbefore, hafter]; decide)
  rw [hbefore] at hleave
  exact ⟨x, y, tx, hx, hbefore, hafter, hleave⟩

end Nouns.Proof
