import Nouns.Proof.TokenLog
import Nouns.Subgraph.TokenHandlers

/-!
# What the handlers of the token's events do

Each handler seen through the entities it leaves: an entity that was never saved reads as
a new one, so creating one on the way changes nothing. Of the governance entity only the
counters with a meaning of their own are followed; copies of it that are saved late agree
on these.
-/

namespace Nouns.Subgraph

open Evm

/-- What the governance entity counts about holders and delegates. -/
structure Counters where
  currentTokenHolders : Int
  currentDelegates : Int
  delegatedVotesRaw : Int

def Governance.counters (g : Governance) : Counters :=
  ⟨g.currentTokenHolders, g.currentDelegates, g.delegatedVotesRaw⟩

/-- By how much the number of holders changes with a balance. -/
def holderChange (previousBalance balance : Int) : Int :=
  (if 0 < balance ∧ previousBalance = 0 then 1 else 0)
    - (if balance = 0 ∧ 0 < previousBalance then 1 else 0)

/-- A sender after the Noun is gone. -/
def Account.sent (h : Account) (id : Nat) : Account :=
  { h with
    tokenBalanceRaw := h.tokenBalanceRaw - 1
    tokenBalance := h.tokenBalanceRaw - 1
    nouns := h.nouns.filter (fun n => n ≠ id)
    delegate := if h.tokenBalanceRaw - 1 = 0 ∧ 0 < h.tokenBalanceRaw then none else h.delegate }

/-- A receiver after the Noun has come. -/
def Account.received (h : Account) (dst : Address) (id : Nat) : Account :=
  { h with
    tokenBalanceRaw := h.tokenBalanceRaw + 1
    tokenBalance := h.tokenBalanceRaw + 1
    totalTokensHeldRaw := h.totalTokensHeldRaw + 1
    totalTokensHeld := h.totalTokensHeldRaw + 1
    nouns := h.nouns ++ [id]
    delegate := if 0 < h.tokenBalanceRaw + 1 ∧ h.tokenBalanceRaw = 0 then some dst
      else h.delegate }

@[simp] theorem Account.sent_raw (h : Account) (id : Nat) :
    (h.sent id).tokenBalanceRaw = h.tokenBalanceRaw - 1 := rfl
@[simp] theorem Account.sent_nouns (h : Account) (id : Nat) :
    (h.sent id).nouns = h.nouns.filter (fun n => n ≠ id) := rfl
@[simp] theorem Account.received_raw (h : Account) (dst : Address) (id : Nat) :
    (h.received dst id).tokenBalanceRaw = h.tokenBalanceRaw + 1 := rfl
@[simp] theorem Account.received_nouns (h : Account) (dst : Address) (id : Nat) :
    (h.received dst id).nouns = h.nouns ++ [id] := rfl

namespace Store

/-- An account, a new one if it was never saved. -/
def account (st : Store) (a : Address) : Account := (st.accounts a).getD .new

/-- A delegate, a new one if it was never saved. -/
def delegate (st : Store) (d : Address) : Delegate := (st.delegates d).getD .new

/-- The owner of a Noun that was saved. -/
def nounOwner (st : Store) (n : Nat) : Option Address := (st.nouns n).map Noun.owner

def counters (st : Store) : Counters := st.getGovernanceEntity.counters

variable {st : Store} {a d : Address} {id : Nat}

/-! ## Saving -/

@[simp] theorem account_saveAccount {e : Account} :
    (st.saveAccount a e).account = Function.update st.account a e := by
  funext x
  by_cases hx : x = a
  · subst hx
    simp [account, saveAccount]
  · simp [account, saveAccount, hx]

@[simp] theorem delegate_saveDelegate {e : Delegate} :
    (st.saveDelegate d e).delegate = Function.update st.delegate d e := by
  funext x
  by_cases hx : x = d
  · subst hx
    simp [delegate, saveDelegate]
  · simp [delegate, saveDelegate, hx]

@[simp] theorem nounOwner_saveNoun {e : Noun} :
    (st.saveNoun id e).nounOwner = Function.update st.nounOwner id (some e.owner) := by
  funext x
  by_cases hx : x = id
  · subst hx
    simp [nounOwner, saveNoun]
  · simp [nounOwner, saveNoun, hx]

@[simp] theorem counters_saveGovernance {g : Governance} :
    (st.saveGovernance g).counters = g.counters := rfl

@[simp] theorem delegate_saveAccount {e : Account} : (st.saveAccount a e).delegate = st.delegate :=
  rfl
@[simp] theorem nounOwner_saveAccount {e : Account} :
    (st.saveAccount a e).nounOwner = st.nounOwner := rfl
@[simp] theorem counters_saveAccount {e : Account} : (st.saveAccount a e).counters = st.counters :=
  rfl
@[simp] theorem account_saveDelegate {e : Delegate} : (st.saveDelegate d e).account = st.account :=
  rfl
@[simp] theorem nounOwner_saveDelegate {e : Delegate} :
    (st.saveDelegate d e).nounOwner = st.nounOwner := rfl
@[simp] theorem counters_saveDelegate {e : Delegate} :
    (st.saveDelegate d e).counters = st.counters := rfl
@[simp] theorem account_saveNoun {e : Noun} : (st.saveNoun id e).account = st.account := rfl
@[simp] theorem delegate_saveNoun {e : Noun} : (st.saveNoun id e).delegate = st.delegate := rfl
@[simp] theorem counters_saveNoun {e : Noun} : (st.saveNoun id e).counters = st.counters := rfl
@[simp] theorem account_saveGovernance {g : Governance} :
    (st.saveGovernance g).account = st.account := rfl
@[simp] theorem delegate_saveGovernance {g : Governance} :
    (st.saveGovernance g).delegate = st.delegate := rfl
@[simp] theorem nounOwner_saveGovernance {g : Governance} :
    (st.saveGovernance g).nounOwner = st.nounOwner := rfl

/-- The store sees the same entities, whether created or not. -/
structure Sees (st st' : Store) : Prop where
  account : st'.account = st.account
  delegate : st'.delegate = st.delegate
  nounOwner : st'.nounOwner = st.nounOwner
  counters : st'.counters = st.counters

theorem Sees.refl : Sees st st := ⟨rfl, rfl, rfl, rfl⟩

theorem Sees.trans {st' st'' : Store} (h : Sees st st') (h' : Sees st' st'') : Sees st st'' :=
  ⟨h'.account.trans h.account, h'.delegate.trans h.delegate, h'.nounOwner.trans h.nounOwner,
    h'.counters.trans h.counters⟩

/-- Creating an account is not seen. -/
theorem getOrCreateAccount_spec :
    ∃ st', st.getOrCreateAccount a = (st.account a, st') ∧ Sees st st' := by
  unfold getOrCreateAccount
  cases h : st.accounts a with
  | some e => exact ⟨st, by simp [account, h], .refl⟩
  | none =>
      refine ⟨st.saveAccount a .new, by simp [account, h], ?_, rfl, rfl, rfl⟩
      rw [account_saveAccount, Function.update_eq_self_iff]
      simp [account, h]

/-- Nor is creating a delegate. -/
theorem getOrCreateDelegate_spec :
    ∃ st', st.getOrCreateDelegate d = (st.delegate d, st') ∧ Sees st st' := by
  unfold getOrCreateDelegate
  cases h : st.delegates d with
  | some e => exact ⟨st, by simp [delegate, h], .refl⟩
  | none =>
      have hnew : Function.update st.delegate d .new = st.delegate := by
        rw [Function.update_eq_self_iff]
        simp [delegate, h]
      have hfst : st.delegate d = .new := by simp [delegate, h]
      rw [hfst]
      refine ⟨_, rfl, ?_⟩
      split
      · refine ⟨rfl, ?_, rfl, rfl⟩
        rw [delegate_saveDelegate, delegate_saveGovernance, hnew]
      · refine ⟨rfl, ?_, rfl, rfl⟩
        rw [delegate_saveDelegate, hnew]

/-! ## The handlers -/

theorem countHolder_spec (prev bal : Int) {g : Governance} (hg : st.counters = g.counters) :
    ∃ g' st', countHolder prev bal g st = (g', st') ∧ st'.account = st.account
      ∧ st'.delegate = st.delegate ∧ st'.nounOwner = st.nounOwner ∧ st'.counters = g'.counters
      ∧ g'.counters = { g.counters with
          currentTokenHolders := g.counters.currentTokenHolders + holderChange prev bal } := by
  unfold countHolder holderChange
  by_cases hlost : bal = 0 ∧ 0 < prev
  · have hno : ¬ (0 < bal ∧ prev = 0) := by omega
    rw [if_pos hlost, if_pos hlost, if_neg hno]
    exact ⟨_, _, rfl, rfl, rfl, rfl, rfl, rfl⟩
  · by_cases hgained : 0 < bal ∧ prev = 0
    · rw [if_neg hlost, if_neg hlost, if_pos hgained, if_pos hgained]
      exact ⟨_, _, rfl, rfl, rfl, rfl, rfl, rfl⟩
    · rw [if_neg hlost, if_neg hlost, if_neg hgained, if_neg hgained]
      refine ⟨_, _, rfl, rfl, rfl, rfl, hg, ?_⟩
      simp

/-- The list of a delegate without a Noun, if the delegate is the one meant. -/
def without (st : Store) (named : Option Address) (id : Nat) (d : Address) : Delegate :=
  if named = some d then
    { st.delegate d with nounsRepresented := (st.delegate d).nounsRepresented.filter (fun n => n ≠ id) }
  else st.delegate d

theorem unrepresent_spec (named : Option Address) (id : Nat) :
    (st.unrepresent named id).account = st.account
      ∧ (st.unrepresent named id).delegate = st.without named id
      ∧ (st.unrepresent named id).nounOwner = st.nounOwner
      ∧ (st.unrepresent named id).counters = st.counters := by
  cases named with
  | none =>
      refine ⟨rfl, ?_, rfl, rfl⟩
      funext x
      simp [unrepresent, without]
  | some D =>
      obtain ⟨st', heq, hs⟩ := st.getOrCreateDelegate_spec (d := D)
      simp only [unrepresent, heq]
      refine ⟨hs.account, ?_, hs.nounOwner, hs.counters⟩
      funext x
      rw [delegate_saveDelegate, hs.delegate]
      by_cases hx : x = D
      · subst hx
        simp [without]
      · simp [without, hx, Ne.symm hx]

theorem handleSender_spec (src : Address) (id : Nat) (h : Account) {g : Governance}
    (hg : st.counters = g.counters) :
    ∃ g' st', handleSender src id h g st = (g', st')
      ∧ st'.account = Function.update st.account src (h.sent id)
      ∧ st'.delegate = st.without h.delegate id ∧ st'.nounOwner = st.nounOwner
      ∧ st'.counters = g'.counters
      ∧ g'.counters = { g.counters with
          currentTokenHolders := g.counters.currentTokenHolders
            + holderChange h.tokenBalanceRaw (h.tokenBalanceRaw - 1) } := by
  obtain ⟨ha, hd, hn, hc⟩ := st.unrepresent_spec h.delegate id
  obtain ⟨g', st', h₂, ha', hd', hn', hc', hg'⟩ :=
    countHolder_spec h.tokenBalanceRaw (h.tokenBalanceRaw - 1) (hc.trans hg)
  refine ⟨g', st'.saveAccount src (h.sent id), ?_, ?_, hd'.trans hd, hn'.trans hn, hc', hg'⟩
  · unfold handleSender
    simp only [h₂, Account.sent, Prod.mk.injEq, true_and]
    split
    · rename_i hz
      simp [hz]
    · rfl
  · rw [account_saveAccount, ha', ha]

theorem handleReceiver_spec (dst : Address) (id : Nat) (h : Account) {g : Governance}
    (hg : st.counters = g.counters) :
    (handleReceiver dst id h g st).account
        = Function.update st.account dst (h.received dst id)
      ∧ (handleReceiver dst id h g st).delegate
        = Function.update st.delegate dst
          { st.delegate dst with nounsRepresented := (st.delegate dst).nounsRepresented ++ [id] }
      ∧ (handleReceiver dst id h g st).nounOwner = Function.update st.nounOwner id (some dst)
      ∧ (handleReceiver dst id h g st).counters = { g.counters with
          currentTokenHolders := g.counters.currentTokenHolders
            + holderChange h.tokenBalanceRaw (h.tokenBalanceRaw + 1) } := by
  obtain ⟨st₁, h₁, hs⟩ := st.getOrCreateDelegate_spec (d := dst)
  have hsaved : (st₁.saveDelegate dst { st.delegate dst with
      nounsRepresented := (st.delegate dst).nounsRepresented ++ [id] }).counters = g.counters :=
    hs.counters.trans hg
  obtain ⟨g', st₂, h₂, ha', hd', hn', hc', hg'⟩ :=
    countHolder_spec h.tokenBalanceRaw (h.tokenBalanceRaw + 1) hsaved
  -- the account that is saved, in the order its fields are set
  have hcopy : (if 0 < h.tokenBalanceRaw + 1 ∧ h.tokenBalanceRaw = 0 then
        { delegate := some dst, tokenBalanceRaw := h.tokenBalanceRaw + 1,
          tokenBalance := h.tokenBalanceRaw + 1,
          totalTokensHeldRaw := h.totalTokensHeldRaw + 1,
          totalTokensHeld := h.totalTokensHeldRaw + 1, nouns := h.nouns ++ [id] }
      else { delegate := h.delegate, tokenBalanceRaw := h.tokenBalanceRaw + 1,
             tokenBalance := h.tokenBalanceRaw + 1,
             totalTokensHeldRaw := h.totalTokensHeldRaw + 1,
             totalTokensHeld := h.totalTokensHeldRaw + 1, nouns := h.nouns ++ [id] })
      = h.received dst id := by
    unfold Account.received
    split <;> rfl
  unfold handleReceiver
  simp only [h₁, h₂]
  refine ⟨?_, ?_, ?_, ?_⟩
  · rw [account_saveAccount, account_saveNoun, ha', account_saveDelegate, hs.account]
    exact congrArg _ hcopy
  · rw [delegate_saveAccount, delegate_saveNoun, hd', delegate_saveDelegate, hs.delegate]
  · rw [nounOwner_saveAccount, nounOwner_saveNoun, hn', nounOwner_saveDelegate, hs.nounOwner]
    cases st₂.nouns id with
    | none => rfl
    | some noun => rfl
  · rw [counters_saveAccount, counters_saveNoun, hc', hg']

/-- The entities after `handleTransfer`, a receiver that is the sender included. -/
theorem handleTransfer_spec (src dst : Address) (id : Nat) :
    (st.handleTransfer src dst id).account = (fun x =>
        if x = dst then (st.account dst).received dst id
        else if x = src ∧ src ≠ 0 then (st.account src).sent id else st.account x)
      ∧ (st.handleTransfer src dst id).delegate = (fun x =>
        let d := if src = 0 then st.delegate x else st.without (st.account src).delegate id x
        if x = dst then { d with nounsRepresented := d.nounsRepresented ++ [id] } else d)
      ∧ (st.handleTransfer src dst id).nounOwner = Function.update st.nounOwner id (some dst)
      ∧ (st.handleTransfer src dst id).counters = { st.counters with
          currentTokenHolders := st.counters.currentTokenHolders
            + (if src = 0 then 0 else holderChange (st.account src).tokenBalanceRaw
                ((st.account src).tokenBalanceRaw - 1))
            + holderChange (st.account dst).tokenBalanceRaw
                ((st.account dst).tokenBalanceRaw + 1) } := by
  obtain ⟨st₁, h₁, hs₁⟩ := st.getOrCreateAccount_spec (a := src)
  obtain ⟨st₂, h₂, hs₂⟩ := st₁.getOrCreateAccount_spec (a := dst)
  have hs := hs₁.trans hs₂
  rw [hs₁.account] at h₂
  -- the sender, with the copies of the governance entity in step
  obtain ⟨g₃, st₃, h₃, ha₃, hd₃, hn₃, hc₃, hg₃⟩ : ∃ g₃ st₃,
      (if src = 0 then
        (({ st₂.getGovernanceEntity with
            totalTokenHolders := st₂.getGovernanceEntity.totalTokenHolders + 1 } : Governance),
          st₂.saveGovernance { st₂.getGovernanceEntity with
            totalTokenHolders := st₂.getGovernanceEntity.totalTokenHolders + 1 })
      else st₂.handleSender src id (st.account src) st₂.getGovernanceEntity) = (g₃, st₃)
      ∧ st₃.account = (if src = 0 then st.account
          else Function.update st.account src ((st.account src).sent id))
      ∧ st₃.delegate = (if src = 0 then st.delegate else st.without (st.account src).delegate id)
      ∧ st₃.nounOwner = st.nounOwner ∧ st₃.counters = g₃.counters
      ∧ g₃.counters = { st.counters with
          currentTokenHolders := st.counters.currentTokenHolders
            + (if src = 0 then 0 else holderChange (st.account src).tokenBalanceRaw
                ((st.account src).tokenBalanceRaw - 1)) } := by
    by_cases hsrc : src = 0
    · simp only [if_pos hsrc]
      refine ⟨_, _, rfl, hs.account, hs.delegate, hs.nounOwner, rfl, ?_⟩
      rw [← hs.counters]
      simp [Governance.counters, Store.counters]
    · simp only [if_neg hsrc]
      obtain ⟨g', st', heq, ha, hd, hn, hc, hg⟩ := st₂.handleSender_spec src id (st.account src)
        (g := st₂.getGovernanceEntity) rfl
      refine ⟨g', st', heq, ?_, ?_, hn.trans hs.nounOwner, hc, ?_⟩
      · rw [ha, hs.account]
      · rw [hd]
        unfold without
        rw [hs.delegate]
      · rw [hg, ← hs.counters]
        rfl
  -- then the receiver
  obtain ⟨g₄, st₄, h₄, ha₄, hd₄, hn₄, hc₄, hg₄⟩ : ∃ g₄ st₄,
      (if dst = 0 then
        (({ g₃ with totalTokenHolders := g₃.totalTokenHolders - 1 } : Governance),
          st₃.saveGovernance { g₃ with totalTokenHolders := g₃.totalTokenHolders - 1 })
      else (g₃, st₃)) = (g₄, st₄)
      ∧ st₄.account = st₃.account ∧ st₄.delegate = st₃.delegate ∧ st₄.nounOwner = st₃.nounOwner
      ∧ st₄.counters = g₄.counters ∧ g₄.counters = g₃.counters := by
    by_cases hdst : dst = 0
    · simp only [if_pos hdst]
      exact ⟨_, _, rfl, rfl, rfl, rfl, rfl, rfl⟩
    · simp only [if_neg hdst]
      exact ⟨_, _, rfl, rfl, rfl, rfl, hc₃, rfl⟩
  obtain ⟨ha₅, hd₅, hn₅, hc₅⟩ := st₄.handleReceiver_spec dst id (st.account dst) hc₄
  have heq : st.handleTransfer src dst id = st₄.handleReceiver dst id (st.account dst) g₄ := by
    unfold handleTransfer
    simp only [h₁, h₂, h₃, h₄]
  rw [heq]
  refine ⟨?_, ?_, ?_, ?_⟩
  · rw [ha₅, ha₄, ha₃]
    funext x
    by_cases hx : x = dst
    · subst hx
      simp
    · by_cases hsrc : src = 0
      · simp [hx, hsrc]
      · simp [hx, hsrc, Function.update_apply]
  · rw [hd₅, hd₄, hd₃]
    funext x
    by_cases hx : x = dst
    · subst hx
      by_cases hsrc : src = 0
      · simp [hsrc]
      · simp [hsrc]
    · by_cases hsrc : src = 0
      · simp [hx, hsrc]
      · simp [hx, hsrc]
  · rw [hn₅, hn₄, hn₃]
  · rw [hc₅, hg₄, hg₃]

/-- The entities after `handleDelegateChanged`. -/
theorem handleDelegateChanged_spec (o from_ d : Address) :
    (st.handleDelegateChanged o from_ d).account
        = Function.update st.account o { st.account o with delegate := some d }
      ∧ (st.handleDelegateChanged o from_ d).nounOwner = st.nounOwner
      ∧ (st.handleDelegateChanged o from_ d).counters = st.counters
      ∧ (∀ x, ((st.handleDelegateChanged o from_ d).delegate x).delegatedVotesRaw
        = (st.delegate x).delegatedVotesRaw)
      ∧ ∀ x, ((st.handleDelegateChanged o from_ d).delegate x).nounsRepresented
        = if x = d then (st.delegate d).nounsRepresented ++ (st.account o).nouns
          else if x = from_ then
            (st.delegate from_).nounsRepresented.filter (fun n => n ∉ (st.account o).nouns)
          else (st.delegate x).nounsRepresented := by
  obtain ⟨st₁, h₁, hs₁⟩ := st.getOrCreateAccount_spec (a := o)
  obtain ⟨st₂, h₂, hs₂⟩ := st₁.getOrCreateDelegate_spec (d := from_)
  obtain ⟨st₃, h₃, hs₃⟩ := st₂.getOrCreateDelegate_spec (d := d)
  have hs := (hs₁.trans hs₂).trans hs₃
  rw [hs₁.delegate] at h₂
  rw [(hs₁.trans hs₂).delegate] at h₃
  unfold handleDelegateChanged
  simp only [h₁, h₂, h₃]
  refine ⟨?_, hs.nounOwner, hs.counters, ?_, ?_⟩
  · rw [account_saveDelegate, account_saveDelegate, account_saveAccount, hs.account]
  · intro x
    rw [delegate_saveDelegate, delegate_saveDelegate, delegate_saveAccount, hs.delegate]
    by_cases hd : x = d
    · subst hd
      simp
    · by_cases hf : x = from_
      · subst hf
        simp [hd]
      · simp [hd, hf]
  · intro x
    rw [delegate_saveDelegate, delegate_saveDelegate, delegate_saveAccount, hs.delegate]
    -- the new delegate is saved last, so it wins if it is the old one too
    by_cases hd : x = d
    · subst hd
      simp
    · by_cases hf : x = from_
      · subst hf
        simp [hd]
      · simp [hd, hf]

/-- The entities after `handleDelegateVotesChanged`. -/
theorem handleDelegateVotesChanged_spec (d : Address) (prev new : Nat) :
    (st.handleDelegateVotesChanged d prev new).account = st.account
      ∧ (st.handleDelegateVotesChanged d prev new).nounOwner = st.nounOwner
      ∧ (∀ x, ((st.handleDelegateVotesChanged d prev new).delegate x).nounsRepresented
        = (st.delegate x).nounsRepresented)
      ∧ (∀ x, ((st.handleDelegateVotesChanged d prev new).delegate x).delegatedVotesRaw
        = if x = d then (new : Int) else (st.delegate x).delegatedVotesRaw)
      ∧ (st.handleDelegateVotesChanged d prev new).counters = { st.counters with
          currentDelegates := st.counters.currentDelegates
            + (if prev = 0 ∧ 0 < new then 1 else 0) - (if new = 0 then 1 else 0)
          delegatedVotesRaw := st.counters.delegatedVotesRaw + (new - prev) } := by
  obtain ⟨st₁, h₁, hs⟩ := st.getOrCreateDelegate_spec (d := d)
  unfold handleDelegateVotesChanged
  simp only [h₁]
  refine ⟨?_, ?_, ?_, ?_, ?_⟩
  · rw [account_saveGovernance, account_saveDelegate, hs.account]
  · rw [nounOwner_saveGovernance, nounOwner_saveDelegate, hs.nounOwner]
  · intro x
    rw [delegate_saveGovernance, delegate_saveDelegate, hs.delegate]
    by_cases hx : x = d
    · subst hx
      simp
    · simp [hx]
  · intro x
    rw [delegate_saveGovernance, delegate_saveDelegate, hs.delegate]
    by_cases hx : x = d
    · subst hx
      simp
    · simp [hx]
  · rw [counters_saveGovernance]
    -- a delegate is gained, lost, or kept
    by_cases hgained : prev = 0 ∧ 0 < new
    · have hn : new ≠ 0 := by omega
      simp [hgained, hn, Governance.counters, Store.counters]
    · by_cases hlost : new = 0
      · simp [hlost, Governance.counters, Store.counters]
      · simp [hgained, hlost, Governance.counters, Store.counters]

/-- `handleNounCreated` leaves everybody's Nouns and votes alone. -/
theorem handleNounCreated_spec {seed : Seed} : Sees st (st.handleNounCreated id seed) := by
  unfold handleNounCreated
  cases h : st.nouns id with
  | none =>
      simp only [saveSeed, h]
      exact ⟨rfl, rfl, rfl, rfl⟩
  | some noun =>
      simp only [saveSeed, h]
      refine ⟨rfl, rfl, ?_, rfl⟩
      rw [nounOwner_saveNoun]
      have howner : st.nounOwner id = some noun.owner := by simp [nounOwner, h]
      rw [← howner]
      exact Function.update_eq_self _ _

/-- What is told of nothing that moves is not seen. -/
theorem handleTokenEvent_other {e : TokenEvent} (he : Proof.moves e = false) :
    Sees st (st.handleTokenEvent e) := by
  cases e with
  | nounCreated id seed => exact handleNounCreated_spec
  | transfer | delegateChanged | delegateVotesChanged => simp [Proof.moves] at he
  | _ => exact .refl

/-! ## Saved delegates stay -/

/-- No saved delegate is gone. -/
def Extends (st st' : Store) : Prop :=
  ∀ x, (st.delegates x).isSome → (st'.delegates x).isSome

theorem Extends.of_eq {st' : Store} (h : st'.delegates = st.delegates) : Extends st st' :=
  fun x hx => by rw [h]; exact hx

theorem Extends.trans {st' st'' : Store} (h : Extends st st') (h' : Extends st' st'') :
    Extends st st'' := fun x hx => h' x (h x hx)

theorem extends_saveDelegate {e : Delegate} : Extends st (st.saveDelegate d e) := by
  intro x hx
  by_cases hd : x = d
  · subst hd
    simp [saveDelegate]
  · simpa [saveDelegate, hd] using hx

theorem extends_getOrCreateAccount : Extends st (st.getOrCreateAccount a).2 := by
  unfold getOrCreateAccount
  split <;> exact .of_eq rfl

theorem extends_getOrCreateDelegate : Extends st (st.getOrCreateDelegate d).2 := by
  unfold getOrCreateDelegate
  split
  · exact .of_eq rfl
  · refine Extends.trans ?_ extends_saveDelegate
    split <;> exact .of_eq rfl

theorem extends_countHolder {prev bal : Int} {g : Governance} :
    Extends st (countHolder prev bal g st).2 := by
  unfold countHolder
  split
  · exact .of_eq rfl
  · split <;> exact .of_eq rfl

theorem extends_unrepresent {named : Option Address} : Extends st (st.unrepresent named id) := by
  cases named with
  | none => exact .of_eq rfl
  | some D => exact extends_getOrCreateDelegate.trans extends_saveDelegate

theorem extends_handleSender {src : Address} {h : Account} {g : Governance} :
    Extends st (handleSender src id h g st).2 :=
  (extends_unrepresent.trans extends_countHolder).trans (.of_eq rfl)

theorem extends_handleReceiver {dst : Address} {h : Account} {g : Governance} :
    Extends st (handleReceiver dst id h g st) :=
  ((extends_getOrCreateDelegate.trans extends_saveDelegate).trans extends_countHolder).trans
    (.of_eq rfl)

theorem extends_handleTransfer {src dst : Address} : Extends st (st.handleTransfer src dst id) := by
  have hsender : ∀ (g : Governance) (h : Account) (st : Store), Extends st
      (if src = 0 then
        (({ g with totalTokenHolders := g.totalTokenHolders + 1 } : Governance),
          st.saveGovernance { g with totalTokenHolders := g.totalTokenHolders + 1 })
      else st.handleSender src id h g).2 := by
    intro g h st
    split
    · exact .of_eq rfl
    · exact extends_handleSender
  have hburn : ∀ (g : Governance) (st : Store), Extends st
      (if dst = 0 then
        (({ g with totalTokenHolders := g.totalTokenHolders - 1 } : Governance),
          st.saveGovernance { g with totalTokenHolders := g.totalTokenHolders - 1 })
      else (g, st)).2 := by
    intro g st
    split <;> exact .of_eq rfl
  exact (((extends_getOrCreateAccount.trans extends_getOrCreateAccount).trans
    (hsender _ _ _)).trans (hburn _ _)).trans extends_handleReceiver

theorem extends_handleTokenEvent (e : TokenEvent) : Extends st (st.handleTokenEvent e) := by
  cases e with
  | transfer src dst id => exact extends_handleTransfer
  | delegateChanged o from_ d =>
      exact (((extends_getOrCreateAccount.trans extends_getOrCreateDelegate).trans
        extends_getOrCreateDelegate).trans extends_saveDelegate).trans extends_saveDelegate
  | delegateVotesChanged d prev new =>
      exact (extends_getOrCreateDelegate.trans extends_saveDelegate).trans (.of_eq rfl)
  | nounCreated id seed =>
      show Extends st (st.handleNounCreated id seed)
      unfold handleNounCreated
      cases h : st.nouns id with
      | none =>
          simp only [saveSeed, h]
          exact .of_eq rfl
      | some noun =>
          simp only [saveSeed, h]
          exact .of_eq rfl
  | _ => exact .of_eq rfl

end Store

end Nouns.Subgraph
