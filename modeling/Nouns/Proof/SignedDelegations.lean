import Nouns.Proof.TransferAuthority

/-!
# Whom an account has named

An account's delegate is the one it named last, by a call of its own or by a message it
signed, and a message is good for one call: the nonces of the messages accepted count up
from zero.
-/

namespace Nouns.Proof

open Evm CallMachine

/-- Who signed a message, with its nonce. -/
def signing (m : Msg) : TokenCall → Option (Address × Nat)
  | .delegateBySig delegatee nonce expiry sig =>
      some (m.view.recover ⟨delegatee, nonce, expiry⟩ sig, nonce)
  | _ => none

/-- Who names whom. -/
def naming (m : Msg) : TokenCall → Option (Address × Address)
  | .delegate delegatee => some (m.sender, if delegatee = 0 then m.sender else delegatee)
  | .delegateBySig delegatee nonce expiry sig =>
      some (m.view.recover ⟨delegatee, nonce, expiry⟩ sig, delegatee)
  | _ => none

/-- What was written for `a`. -/
def forAccount {α : Type} (a : Address) (o : Option (Address × α)) : Option α :=
  o.bind fun p => if p.1 = a then some p.2 else none

/-- The nonce of the message of `a` that a step accepted. -/
def signedNonce (a : Address) : Label TokenTx TokenFrame Block → Option Nat
  | .enter tx => forAccount a (signing (tx.msg ⟨0, 0⟩) tx.call)
  | _ => none

/-- Whom a step has `a` name. -/
def named (a : Address) : Label TokenTx TokenFrame Block → Option Address
  | .enter tx => forAccount a (naming (tx.msg ⟨0, 0⟩) tx.call)
  | _ => none

/-- The nonces and delegates, after `c` was called. -/
structure Delegations (m : Msg) (c : TokenCall) (s s' : NounsToken) : Prop where
  nonces : ∀ a, s'.nonces a = (forAccount a (signing m c)).elim (s.nonces a) (· + 1)
  inTurn : ∀ a nonce, forAccount a (signing m c) = some nonce → nonce = s.nonces a
  delegates : ∀ a, s'.delegates_ a = (forAccount a (naming m c)).getD (s.delegates_ a)

variable {m : Msg} {s s₁ s' : NounsToken}

/-- Neither a nonce nor a delegate differs. -/
def Undelegated (s s' : NounsToken) : Prop :=
  s'.nonces = s.nonces ∧ s'.delegates_ = s.delegates_

theorem forAccount_some {α : Type} {a o : Address} {v : α} :
    forAccount a (some (o, v)) = if o = a then some v else none := rfl

theorem update_forAccount {α : Type} (f : Address → α) (o : Address) (v : α) (a : Address) :
    Function.update f o v a = (forAccount a (some (o, v))).getD (f a) := by
  rw [forAccount_some]
  split
  · next h => rw [h, Function.update_self, Option.getD_some]
  · next h => rw [Function.update_of_ne (Ne.symm h), Option.getD_none]

theorem Undelegated.delegations {c : TokenCall} (h : Undelegated s s') (hs : signing m c = none)
    (hn : naming m c = none) : Delegations m c s s' := by
  refine ⟨?_, ?_, ?_⟩
  · rw [hs]; exact fun a => congrFun h.1 a
  · rw [hs]; exact fun _ _ h => nomatch h
  · rw [hn]; exact fun a => congrFun h.2 a

theorem mintTo_undelegated {dst : Address} (h₁ : s.nextNounId = .ok s₁)
    (h : s₁.mintTo_ m dst s.currentNounId_ = .ok s') : Undelegated s s' := by
  obtain ⟨seed, s₂, hm, rfl⟩ := mintTo_shape h₁ h
  obtain ⟨_, _, _, _, _, _, _, rfl⟩ := hm.book
  exact ⟨rfl, rfl⟩

theorem mint_undelegated (h : s.call m .mint = .ok s') : Undelegated s s' := by
  simp only [NounsToken.call, NounsToken.mint, bind_ok] at h
  obtain ⟨⟨s₄, id⟩, ⟨_, _, s₁, h₁, s₂, h₂, s₃, h₃, h₄⟩, h⟩ := h
  obtain ⟨rfl, rfl⟩ := Prod.mk.inj (Except.ok.inj h₄)
  obtain rfl := Except.ok.inj h
  have hsecond := mintTo_undelegated h₂ h₃
  have hfirst : Undelegated s s₁ := by
    unfold NounsToken.mintReward at h₁
    split at h₁
    · obtain ⟨s₅, h₅, h₁⟩ := bind_ok.mp h₁
      exact mintTo_undelegated h₅ h₁
    · obtain rfl := Except.ok.inj h₁
      exact ⟨rfl, rfl⟩
  exact ⟨hsecond.1.trans hfirst.1, hsecond.2.trans hfirst.2⟩

/-- A message is accepted when its turn has come, and uses its nonce up. -/
theorem delegateBySig_delegations {d : Address} {nonce expiry : Nat} {sig : Signature}
    (h : s.delegateBySig m d nonce expiry sig = .ok s') :
    Delegations m (.delegateBySig d nonce expiry sig) s s' := by
  simp only [NounsToken.delegateBySig, bind_ok, require_ok, add_ok] at h
  obtain ⟨_, _, next, ⟨_, rfl⟩, _, hturn, _, _, h⟩ := h
  obtain ⟨_, _, _, _, _, _, _, rfl⟩ := (delegate_shape h).book
  refine ⟨?_, ?_, update_forAccount s.delegates_ _ d⟩
  · intro a
    show Function.update s.nonces _ (s.nonces _ + 1) a = _
    rw [update_forAccount, signing, forAccount_some, forAccount_some]
    split
    · next h =>
        subst h
        exact congrArg (· + 1) hturn.symm
    · rfl
  · intro a n hsigned
    rw [signing, forAccount_some] at hsigned
    split at hsigned
    · next h =>
        subst h
        obtain rfl := Option.some.inj hsigned
        exact hturn
    · cases hsigned

/-- **What a call does to nonces and delegates.** -/
theorem call_delegations {c : TokenCall} (h : s.call m c = .ok s') : Delegations m c s s' := by
  by_cases hc : isConfig c = true
  · have hsame : Undelegated s s' := by
      obtain ⟨_, _, _, _, _, _, _, _, _, _, _, _, rfl⟩ := config_configured hc h
      exact ⟨rfl, rfl⟩
    cases c with
    | mint | burn | transferFrom | safeTransferFrom | delegate | delegateBySig =>
        exact absurd hc Bool.false_ne_true
    | _ => exact hsame.delegations rfl rfl
  · cases c with
    | mint => exact (mint_undelegated h).delegations rfl rfl
    | burn n =>
        simp only [NounsToken.call, NounsToken.burn, bind_ok] at h
        obtain ⟨_, _, s₁, hburn, h⟩ := h
        obtain rfl := Except.ok.inj h
        obtain ⟨_, _, _, _, _, _, _, rfl⟩ := (burn_shape hburn).book
        exact Undelegated.delegations ⟨rfl, rfl⟩ rfl rfl
    | transferFrom | safeTransferFrom =>
        obtain ⟨_, _, _, _, _, _, _, rfl⟩ := (transferFrom_shape h).book
        exact Undelegated.delegations ⟨rfl, rfl⟩ rfl rfl
    | delegate d =>
        obtain ⟨_, _, _, _, _, _, _, rfl⟩ := (delegate_shape h).book
        exact ⟨fun _ => rfl, fun _ _ h => (by cases h), update_forAccount s.delegates_ _ _⟩
    | delegateBySig d nonce expiry sig => exact delegateBySig_delegations h
    | _ => exact absurd rfl hc

/-! ## Along a history -/

variable {g : Genesis} {x y : Config TokenWorld TokenFrame}
  {ls : List (Label TokenTx TokenFrame Block)}

/-- A step that enters is a call that goes through. -/
theorem step_enter {tx : TokenTx} (hs : tokenMachine.Step x (.enter tx) y) :
    x.world.token.call (tx.msg x.world.block) tx.call = .ok y.world.token := by
  cases hs with
  | enter _ he hl =>
      obtain ⟨s, hs, rfl | rfl⟩ := tokenMachine_enter he
      · cases hl
        exact hs
      · cases hl with
        | call => exact hs
        | failed hr hl =>
            rw [tokenMachine_resume hr] at hl
            cases hl
            exact hs

/-- The nonces and the delegate of `a`, as a history has them. -/
def KeptBy (a : Address) (ls : List (Label TokenTx TokenFrame Block)) (s : NounsToken) : Prop :=
  ls.filterMap (signedNonce a) = List.range (s.nonces a)
    ∧ s.delegates_ a = (ls.filterMap (named a)).getLastD 0

theorem KeptBy.call {a : Address} {tx : TokenTx} {block : Block} (h : KeptBy a ls s)
    (hs : s.call (tx.msg block) tx.call = .ok s') : KeptBy a (ls ++ [.enter tx]) s' := by
  obtain ⟨hnonces, hdelegate⟩ := h
  have hd := call_delegations hs
  have hsign : signing (tx.msg ⟨0, 0⟩) tx.call = signing (tx.msg block) tx.call := by
    cases tx.call <;> rfl
  have hname : naming (tx.msg ⟨0, 0⟩) tx.call = naming (tx.msg block) tx.call := by
    cases tx.call <;> rfl
  constructor
  · rw [List.filterMap_append, hnonces, hd.nonces a]
    simp only [List.filterMap_cons, List.filterMap_nil, signedNonce, hsign]
    rcases hc : forAccount a (signing (tx.msg block) tx.call) with _ | nonce
    · exact List.append_nil _
    · obtain rfl := hd.inTurn a nonce hc
      exact (List.range_succ).symm
  · rw [List.filterMap_append, hd.delegates a, hdelegate]
    simp only [List.filterMap_cons, List.filterMap_nil, named, hname]
    rcases forAccount a (naming (tx.msg block) tx.call) with _ | d <;> simp

theorem keptBy_trace (a : Address) (h : tokenMachine.Trace ⟨g.world, []⟩ ls x) :
    KeptBy a ls x.world.token := by
  induction h with
  | refl => exact ⟨rfl, rfl⟩
  | @snoc y z ls l _ hs ih =>
      cases l with
      | enter tx => exact ih.call (step_enter hs)
      | resume | tick =>
          rcases step_token hs with heq | ⟨tx, hl, -⟩
          · rw [heq, KeptBy, List.filterMap_append, List.filterMap_append]
            show (_ ++ [] = _) ∧ _ = (_ ++ []).getLastD 0
            rw [List.append_nil, List.append_nil]
            exact ih
          · cases hl

/--
**Delegations.** In every history the messages accepted from an account carry the nonces 0, 1,
2 and so on, each once and in this order, and the account's delegate is the one it named last,
by message or by call.
-/
theorem delegations_in_turn {g : Genesis} {x : Config TokenWorld TokenFrame}
    {ls : List (Label TokenTx TokenFrame Block)} (h : tokenMachine.Trace ⟨g.world, []⟩ ls x)
    (a : Address) : ls.filterMap (signedNonce a) = List.range (x.world.token.nonces a)
      ∧ x.world.token.delegates_ a = (ls.filterMap (named a)).getLastD 0 :=
  keptBy_trace a h

/-- Account 9 signs two messages, the second one naming account 4. -/
theorem delegations_in_turn_signed : ∃ ls x, tokenMachine.Trace ⟨smallGenesis.world, []⟩ ls x
    ∧ ls.filterMap (signedNonce (.ofNat 9)) = [0, 1]
    ∧ (ls.filterMap (named (.ofNat 9))).getLastD 0 = .ofNat 4 := by
  obtain ⟨x, hx, hp⟩ := Machine.script_exists (M := tokenMachine) Machine.anything_free
    (x := ⟨smallGenesis.world, []⟩)
    (m := [.enter (smallTx (.ofNat 5) (.delegateBySig (.ofNat 3) 0 1 ⟨27, 9, 1⟩)),
      .enter (smallTx (.ofNat 6) (.delegateBySig (.ofNat 4) 1 1 ⟨27, 9, 1⟩))])
    (p := fun x => x.world.token.nonces (.ofNat 9) = 2
      ∧ x.world.token.delegates_ (.ofNat 9) = .ofNat 4)
    (by decide +kernel)
  obtain ⟨hnonces, hdelegate⟩ := of_decide_eq_true hp
  obtain ⟨ls, hls⟩ := hx.trace
  obtain ⟨hsigned, hnamed⟩ := delegations_in_turn hls (.ofNat 9)
  rw [hnonces] at hsigned
  exact ⟨ls, x, hls, hsigned, hnamed.symm.trans hdelegate⟩

end Nouns.Proof
