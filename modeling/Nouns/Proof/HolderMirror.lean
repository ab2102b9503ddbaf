import Nouns.Proof.Enumeration
import Nouns.Proof.HandlerEffects

/-!
# The subgraph's holders

`handleTransfer` writes back two copies. When they are copies of one account the sender's
is lost: the balance grows by one for nothing, and the Noun is listed once more. When the
receiver is the zero address it is counted as a holder. Nothing else goes wrong, so the
mirror is exact as long as neither happens, and not a moment longer.
-/

namespace Nouns

open Evm DelegatedVotes EventLog CallMachine Subgraph

/-- How many accounts hold something. -/
def holdersNumber (held : Address → Int) : Nat := (Finset.univ.filter (fun a => 0 < held a)).card

/-- Whether an event is `a` sending itself a Noun. -/
def sendsItself (a : Address) : TokenEvent → Bool
  | .transfer src dst _ => src = a && dst = a
  | _ => false

/-- Whether an event is a Noun going to the zero address. -/
def discards : TokenEvent → Bool
  | .transfer _ dst _ => dst = 0
  | _ => false

namespace Proof

theorem holdersNumber_update (held : Address → Int) {a : Address} {x : Int} (ha : 0 ≤ held a)
    (hx : 0 ≤ x) : (holdersNumber (Function.update held a x) : Int)
      = holdersNumber held + holderChange (held a) x := by
  have h := card_filter_change (p := fun b => 0 < held b)
    (q := fun b => 0 < Function.update held a x b) (Finset.mem_univ a)
    (fun b hb => by rw [Function.update_of_ne hb])
  simp only [Function.update_self] at h
  unfold holdersNumber holderChange
  by_cases hpos : 0 < x
  · by_cases hold : 0 < held a
    · rw [if_pos hpos, if_pos hold] at h
      rw [if_neg (by omega), if_neg (by omega)]
      omega
    · rw [if_pos hpos, if_neg hold] at h
      rw [if_pos (by omega), if_neg (by omega)]
      omega
  · by_cases hold : 0 < held a
    · rw [if_neg hpos, if_pos hold] at h
      rw [if_neg (by omega), if_pos (by omega)]
      omega
    · rw [if_neg hpos, if_neg hold] at h
      rw [if_neg (by omega), if_neg (by omega)]
      omega

/-! ## What the store knows of holders, whatever happened -/

/-- `a` sent itself the Noun `n` after `n` last changed hands. -/
def Resent (l : List TokenEvent) (a : Address) (n : Nat) : Prop :=
  ∃ before after, l = before ++ .transfer a a n :: after
    ∧ ∀ src dst, .transfer src dst n ∈ after → src = dst

theorem Resent.now {l : List TokenEvent} {a : Address} {n : Nat} :
    Resent (l ++ [.transfer a a n]) a n := ⟨l, [], rfl, by simp⟩

theorem Resent.append {l : List TokenEvent} {a : Address} {n : Nat} {e : TokenEvent}
    (h : Resent l a n) (he : ∀ src dst, e = .transfer src dst n → src = dst) :
    Resent (l ++ [e]) a n := by
  obtain ⟨before, after, rfl, hafter⟩ := h
  refine ⟨before, after ++ [e], by simp, fun src dst hmem => ?_⟩
  rcases List.mem_append.mp hmem with hmem | hmem
  · exact hafter src dst hmem
  · exact he src dst (List.mem_singleton.mp hmem).symm

/-- Balances and Nouns in the store, the slips included. -/
structure HoldersAgree (l : List TokenEvent) (r : Register) (st : Store) : Prop where
  counts : r.Counts
  raw : ∀ a, a ≠ 0 → (st.account a).tokenBalanceRaw = r.balances a + l.countP (sendsItself a)
  zero : (st.account 0).tokenBalanceRaw = l.countP discards
  nouns : ∀ a, a ≠ 0 → ∀ n, n ∈ (st.account a).nouns ↔ r.owners n = a
  once : ∀ a, a ≠ 0 → ∀ n, ¬ Resent l a n → (st.account a).nouns.count n ≤ 1
  owner : ∀ n, r.owners n ≠ 0 → st.nounOwner n = some (r.owners n)
  holders : (∀ a, a ≠ 0 → l.countP (sendsItself a) = 0) →
    st.counters.currentTokenHolders = holdersNumber fun a => (st.account a).tokenBalanceRaw

variable {l : List TokenEvent} {r r' : Register} {e : TokenEvent} {st : Store}
  {src dst : Address} {id : Nat}

theorem HoldersAgree.raw_nonneg (h : HoldersAgree l r st) (a : Address) :
    0 ≤ (st.account a).tokenBalanceRaw := by
  by_cases ha : a = 0
  · rw [ha, h.zero]
    exact Int.natCast_nonneg _
  · rw [h.raw a ha]
    omega

/-- Whoever sends a Noun has one in the store. -/
theorem HoldersAgree.raw_pos (h : HoldersAgree l r st) {n : Nat} (hn : r.owners n ≠ 0) :
    0 < (st.account (r.owners n)).tokenBalanceRaw := by
  have := h.counts.pos hn
  rw [h.raw _ hn]
  omega

/-- An account after a transfer: the receiver, another sender, or neither. -/
theorem account_transfer (st : Store) (src dst : Address) (id : Nat) (a : Address) :
    (a = dst ∧ (st.handleTransfer src dst id).account a = (st.account dst).received dst id)
    ∨ (a ≠ dst ∧ a = src ∧ src ≠ 0
      ∧ (st.handleTransfer src dst id).account a = (st.account src).sent id)
    ∨ (a ≠ dst ∧ (a = src → src = 0)
      ∧ (st.handleTransfer src dst id).account a = st.account a) := by
  have h := congrFun (st.handleTransfer_spec src dst id).1 a
  by_cases hd : a = dst
  · rw [if_pos hd] at h
    exact .inl ⟨hd, h⟩
  · rw [if_neg hd] at h
    by_cases hs : a = src ∧ src ≠ 0
    · rw [if_pos hs] at h
      exact .inr (.inl ⟨hd, hs.1, hs.2, h⟩)
    · rw [if_neg hs] at h
      exact .inr (.inr ⟨hd, fun has => by by_contra hne; exact hs ⟨has, hne⟩, h⟩)

theorem sendsItself_transfer (a : Address) :
    sendsItself a (.transfer src dst id) = true ↔ a = src ∧ a = dst := by
  simp only [sendsItself, Bool.and_eq_true, decide_eq_true_eq]
  exact ⟨fun h => ⟨h.1.symm, h.2.symm⟩, fun h => ⟨h.1.symm, h.2.symm⟩⟩

theorem countP_snoc (p : TokenEvent → Bool) :
    (l ++ [e]).countP p = l.countP p + if p e then 1 else 0 := by
  rw [List.countP_append, List.countP_singleton]

/-- The balances after a transfer. -/
theorem HoldersAgree.raw_transfer (h : HoldersAgree l r st) (hown : r.owners id = src) {a : Address}
    (ha : a ≠ 0) : ((st.handleTransfer src dst id).account a).tokenBalanceRaw
      = (r.transfer src dst id).balances a
        + (l ++ [TokenEvent.transfer src dst id]).countP (sendsItself a) := by
  have hraw := h.raw a ha
  have hpos : a = src → 1 ≤ r.balances a := by
    intro hsame
    subst hsame
    rw [← hown] at ha ⊢
    exact h.counts.pos ha
  have hbal : (r.transfer src dst id).balances a
      = r.balances a - (if a = src then 1 else 0) + (if a = dst then 1 else 0) := by
    simp only [Register.transfer, if_neg ha]
  rw [hbal, countP_snoc]
  rcases account_transfer st src dst id a with
    ⟨hd, heq⟩ | ⟨hd, hs, _, heq⟩ | ⟨hd, hs, heq⟩
  · rw [heq, Account.received_raw]
    by_cases hs : a = src
    · have := hpos hs
      rw [if_pos hs, if_pos hd, if_pos ((sendsItself_transfer a).mpr ⟨hs, hd⟩), ← hd]
      omega
    · rw [if_neg hs, if_pos hd, if_neg (fun hc => hs ((sendsItself_transfer a).mp hc).1), ← hd]
      omega
  · have := hpos hs
    rw [heq, Account.sent_raw, if_pos hs, if_neg hd,
      if_neg (fun hc => hd ((sendsItself_transfer a).mp hc).2), ← hs]
    omega
  · have hne : a ≠ src := fun has => ha (has.trans (hs has))
    rw [heq, if_neg hne, if_neg hd, if_neg (fun hc => hd ((sendsItself_transfer a).mp hc).2)]
    omega

/-- The lists of Nouns after a transfer. -/
theorem HoldersAgree.nouns_transfer (h : HoldersAgree l r st) (hown : r.owners id = src)
    {a : Address} (ha : a ≠ 0) (n : Nat) :
    n ∈ ((st.handleTransfer src dst id).account a).nouns
      ↔ (r.transfer src dst id).owners n = a := by
  have hnouns := h.nouns a ha n
  rw [Register.transfer_owners]
  rcases account_transfer st src dst id a with
    ⟨rfl, heq⟩ | ⟨hd, rfl, _, heq⟩ | ⟨hd, hs, heq⟩
  · rw [heq, Account.received_nouns, List.mem_append, List.mem_singleton, hnouns]
    by_cases hn : n = id
    · simp [hn]
    · simp [hn]
  · rw [heq, Account.sent_nouns, List.mem_filter, hnouns]
    by_cases hn : n = id
    · simp [hn, Ne.symm hd]
    · simp [hn]
  · rw [heq, hnouns]
    by_cases hn : n = id
    · subst hn
      rw [Function.update_self, hown]
      exact ⟨fun has => absurd (has ▸ hs has.symm) (fun h0 => ha (has ▸ h0)),
        fun hda => absurd hda.symm hd⟩
    · rw [Function.update_of_ne hn]

/-- A Noun is listed twice only after it was sent to its own owner. -/
theorem HoldersAgree.once_transfer (h : HoldersAgree l r st) (hown : r.owners id = src)
    {a : Address} (ha : a ≠ 0) {n : Nat} (hn : ¬ Resent (l ++ [.transfer src dst id]) a n) :
    ((st.handleTransfer src dst id).account a).nouns.count n ≤ 1 := by
  by_cases hid : n = id
  · subst hid
    rcases account_transfer st src dst n a with
      ⟨rfl, heq⟩ | ⟨hd, rfl, _, heq⟩ | ⟨hd, hs, heq⟩
    · -- the receiver did not have the Noun before
      have hnew : n ∉ (st.account a).nouns := by
        rw [h.nouns a ha, hown]
        intro hsame
        subst hsame
        exact hn .now
      rw [heq, Account.received_nouns, List.count_append, List.count_eq_zero_of_not_mem hnew]
      simp
    · have hgone : n ∉ (st.account a).nouns.filter (fun m => m ≠ n) := by simp
      rw [heq, Account.sent_nouns, List.count_eq_zero_of_not_mem hgone]
      exact Nat.zero_le _
    · have hno : n ∉ (st.account a).nouns := by
        rw [h.nouns a ha, hown]
        exact fun hsa => ha (hsa ▸ hs hsa.symm)
      rw [heq, List.count_eq_zero_of_not_mem hno]
      exact Nat.zero_le _
  · have hold : ¬ Resent l a n := fun hr => hn (hr.append fun _ _ heq => by
      obtain ⟨-, -, rfl⟩ := TokenEvent.transfer.inj heq
      exact absurd rfl hid)
    have honce := h.once a ha n hold
    rcases account_transfer st src dst id a with
      ⟨rfl, heq⟩ | ⟨hd, rfl, _, heq⟩ | ⟨hd, hs, heq⟩
    · rw [heq, Account.received_nouns, List.count_append]
      simp only [List.count_singleton]
      rw [if_neg (by simpa using Ne.symm hid)]
      exact honce
    · rw [heq, Account.sent_nouns]
      exact Nat.le_trans (List.Sublist.count_le n List.filter_sublist) honce
    · rw [heq]
      exact honce

/-- The number of holders after a transfer, nobody having sent anything to itself. -/
theorem HoldersAgree.holders_transfer (h : HoldersAgree l r st) (hown : r.owners id = src)
    (hno : ∀ a, a ≠ 0 → (l ++ [TokenEvent.transfer src dst id]).countP (sendsItself a) = 0) :
    (st.handleTransfer src dst id).counters.currentTokenHolders
      = holdersNumber fun a => ((st.handleTransfer src dst id).account a).tokenBalanceRaw := by
  have hbefore : ∀ a, a ≠ 0 → l.countP (sendsItself a) = 0 := fun a ha => by
    have := hno a ha
    rw [countP_snoc] at this
    omega
  have hold := h.holders hbefore
  obtain ⟨hacc, -, -, hcounters⟩ := st.handleTransfer_spec src dst id
  have hdst := h.raw_nonneg dst
  rw [hcounters]
  simp only
  rw [hold]
  -- one account changes on a mint, and two on a transfer
  by_cases hs : src = 0
  · have hheld : (fun a => ((st.handleTransfer src dst id).account a).tokenBalanceRaw)
        = Function.update (fun a => (st.account a).tokenBalanceRaw) dst
          ((st.account dst).tokenBalanceRaw + 1) := by
      funext a
      rw [hacc]
      by_cases hd : a = dst
      · subst hd
        simp [Account.received]
      · simp [hd, hs]
    rw [hheld, holdersNumber_update _ hdst (by omega), if_pos hs]
    omega
  · have hpos : 0 < (st.account src).tokenBalanceRaw := by
      rw [← hown] at hs ⊢
      exact h.raw_pos hs
    -- a Noun sent to oneself is what is excluded
    have hne : dst ≠ src := by
      intro heq
      subst heq
      have := hno dst hs
      rw [countP_snoc, if_pos ((sendsItself_transfer dst).mpr ⟨rfl, rfl⟩)] at this
      omega
    have hheld : (fun a => ((st.handleTransfer src dst id).account a).tokenBalanceRaw)
        = Function.update (Function.update (fun a => (st.account a).tokenBalanceRaw) src
            ((st.account src).tokenBalanceRaw - 1)) dst
          ((st.account dst).tokenBalanceRaw + 1) := by
      funext a
      rw [hacc]
      by_cases hd : a = dst
      · subst hd
        simp [Account.received]
      · by_cases has : a = src
        · subst has
          simp [hd, hs, Account.sent]
        · simp [hd, has]
    have hsecond := holdersNumber_update (Function.update
      (fun a => (st.account a).tokenBalanceRaw) src ((st.account src).tokenBalanceRaw - 1))
      (a := dst) (x := (st.account dst).tokenBalanceRaw + 1)
      (by rw [Function.update_of_ne hne]; exact hdst) (by omega)
    have hfirst := holdersNumber_update (fun a => (st.account a).tokenBalanceRaw)
      (a := src) (x := (st.account src).tokenBalanceRaw - 1) (by omega) (by omega)
    rw [hheld, hsecond, hfirst, Function.update_of_ne hne, if_neg hs]

/-- Every event keeps what the store knows of holders. -/
theorem HoldersAgree.step (hs : Told r e r') (h : HoldersAgree l r st) :
    HoldersAgree (l ++ [e]) r' (st.handleTokenEvent e) := by
  have hcounts := hs.counts h.counts
  -- an event that is no transfer leaves accounts' balances and Nouns alone
  have hquiet : (∀ a b n, e ≠ .transfer a b n) → r'.balances = r.balances →
      r'.owners = r.owners →
      (∀ a, ((st.handleTokenEvent e).account a).tokenBalanceRaw = (st.account a).tokenBalanceRaw
        ∧ ((st.handleTokenEvent e).account a).nouns = (st.account a).nouns) →
      (st.handleTokenEvent e).nounOwner = st.nounOwner →
      (st.handleTokenEvent e).counters.currentTokenHolders = st.counters.currentTokenHolders →
      HoldersAgree (l ++ [e]) r' (st.handleTokenEvent e) := by
    intro he hb ho hacc hnoun hcur
    have hself : ∀ a, (l ++ [e]).countP (sendsItself a) = l.countP (sendsItself a) := by
      intro a
      rw [countP_snoc]
      cases e with
      | transfer src dst id => exact absurd rfl (he src dst id)
      | _ => simp [sendsItself]
    have hdiscards : (l ++ [e]).countP discards = l.countP discards := by
      rw [countP_snoc]
      cases e with
      | transfer src dst id => exact absurd rfl (he src dst id)
      | _ => simp [discards]
    refine ⟨hcounts, ?_, ?_, ?_, ?_, ?_, ?_⟩
    · intro a ha
      rw [(hacc a).1, hb, hself, h.raw a ha]
    · rw [(hacc 0).1, hdiscards, h.zero]
    · intro a ha n
      rw [(hacc a).2, ho, h.nouns a ha]
    · intro a ha n hn
      rw [(hacc a).2]
      exact h.once a ha n fun hr => hn (hr.append fun src dst heq => absurd heq (he src dst n))
    · intro n hn
      rw [hnoun, ho]
      exact h.owner n (ho ▸ hn)
    · intro hno
      rw [hcur, h.holders fun a ha => (hself a).symm.trans (hno a ha)]
      exact congrArg _ (congrArg _ (funext fun a => (hacc a).1.symm))
  cases hs with
  | @transfer src dst id hown =>
      refine ⟨hcounts, fun a ha => h.raw_transfer hown ha, ?_,
        fun a ha => h.nouns_transfer hown ha, fun a ha n hn => h.once_transfer hown ha hn, ?_,
        h.holders_transfer hown⟩
      · rw [countP_snoc]
        rcases account_transfer st src dst id 0 with
          ⟨hd, heq⟩ | ⟨_, hs, hne, _⟩ | ⟨hd, _, heq⟩
        · refine (congrArg Account.tokenBalanceRaw heq).trans ?_
          simp [Account.received, discards, ← hd, h.zero]
        · exact absurd hs.symm hne
        · refine (congrArg Account.tokenBalanceRaw heq).trans ?_
          simp [discards, Ne.symm hd, h.zero]
      · intro n hn
        obtain ⟨-, -, hnoun, -⟩ := st.handleTransfer_spec src dst id
        refine (congrFun hnoun n).trans ?_
        rw [Register.transfer_owners] at hn ⊢
        by_cases hid : n = id
        · subst hid
          simp
        · rw [Function.update_of_ne hid] at hn ⊢
          rw [Function.update_of_ne hid]
          exact h.owner n hn
  | @delegate o d _ =>
      obtain ⟨hacc, hnoun, hcounters, -, -⟩ :=
        st.handleDelegateChanged_spec o (r.delegates o) d
      refine hquiet (by simp) rfl rfl ?_ hnoun (congrArg Counters.currentTokenHolders hcounters)
      intro a
      have hacc' := congrFun hacc a
      by_cases ha : a = o
      · subst ha
        rw [Function.update_self] at hacc'
        have hraw := congrArg Account.tokenBalanceRaw hacc'
        exact ⟨hraw, (congrArg Account.nouns hacc' :)⟩
      · rw [Function.update_of_ne ha] at hacc'
        exact ⟨congrArg Account.tokenBalanceRaw hacc', congrArg Account.nouns hacc'⟩
  | votes hv =>
      cases hv with
      | @changed d new _ =>
          obtain ⟨hacc, hnoun, -, -, hcounters⟩ :=
            st.handleDelegateVotesChanged_spec d (r.votes d) new
          have hcur := congrArg Counters.currentTokenHolders hcounters
          refine hquiet (by simp) rfl rfl ?_ hnoun hcur
          intro a
          have hacc' := congrFun hacc a
          exact ⟨congrArg Account.tokenBalanceRaw hacc', congrArg Account.nouns hacc'⟩
  | other hm =>
      have hsees := st.handleTokenEvent_other hm
      refine hquiet ?_ rfl rfl ?_ hsees.nounOwner (by rw [hsees.counters])
      · intro a b n hsame
        subst hsame
        simp [moves] at hm
      · intro a
        rw [hsees.account]
        exact ⟨rfl, rfl⟩

theorem holdersAgree_empty : HoldersAgree [] .blank .empty where
  counts := Register.counts_blank
  raw _ _ := rfl
  zero := rfl
  nouns a ha n := by
    simp only [Store.account, Store.empty, Option.getD_none, Account.new, Register.blank,
      List.not_mem_nil, false_iff]
    exact Ne.symm ha
  once _ _ _ _ := Nat.zero_le _
  owner _ hn := absurd rfl hn
  holders _ := by simp [holdersNumber, Store.account, Store.counters, Governance.counters,
    Store.getGovernanceEntity, Store.empty, Governance.new, Account.new]

theorem holdersAgree_runs {g : Genesis} {x : Config TokenWorld TokenFrame} (hx : TokenRuns g x) :
    HoldersAgree x.world.token.logs x.world.token.register (.afterToken x.world.token.logs) :=
  (fullyTold_runs hx).mirror (R := HoldersAgree) (fun hs h => h.step hs) holdersAgree_empty

/-! ## When the mirror is exact -/

/-- The subgraph's holders are the token's. An account that was never saved reads as a new one. -/
structure HoldersMirrored (s : NounsToken) (st : Store) : Prop where
  /-- `Account(a).tokenBalanceRaw` -/
  balance : ∀ a, a ≠ 0 → ∃ balance : Nat, s.balanceOf a = .ok balance
    ∧ (st.account a).tokenBalanceRaw = balance
  /-- `Account(a).nouns` -/
  nouns : ∀ a, a ≠ 0 → (st.account a).nouns.Nodup
    ∧ ∀ n, n ∈ (st.account a).nouns ↔ s.ownerOf n = .ok a
  /-- `Noun(n).owner` -/
  owner : ∀ n a, s.ownerOf n = .ok a → ∃ noun, st.nouns n = some noun ∧ noun.owner = a
  /-- `governance.currentTokenHolders` -/
  holders : st.getGovernanceEntity.currentTokenHolders
    = (Finset.univ.filter (fun a => a ≠ 0 ∧ 0 < s.balances_ a)).card

/-- Whether an event is a Noun going to the zero address or to where it comes from. -/
def goesAstray : TokenEvent → Bool
  | .transfer src dst _ => dst = 0 || dst = src
  | _ => false

/-- No Noun was sent to the zero address or from an account to itself. -/
def NoneAstray (l : List TokenEvent) : Prop := ∀ e ∈ l, goesAstray e = false

instance (l : List TokenEvent) : Decidable (NoneAstray l) :=
  inferInstanceAs (Decidable (∀ e ∈ l, goesAstray e = false))

theorem NoneAstray.transfer (h : NoneAstray l) {src dst : Address} {id : Nat}
    (hmem : .transfer src dst id ∈ l) :
    dst ≠ 0 ∧ dst ≠ src := by
  have hgoes := h _ hmem
  simp only [goesAstray, Bool.or_eq_false_iff, decide_eq_false_iff_not] at hgoes
  exact hgoes

theorem NoneAstray.sendsItself (h : NoneAstray l) (a : Address) :
    l.countP (sendsItself a) = 0 := by
  refine List.countP_eq_zero.mpr ?_
  intro e he hc
  cases e with
  | transfer src dst id =>
      obtain ⟨hs, hd⟩ := (sendsItself_transfer a).mp hc
      exact (h.transfer he).2 (hd.symm.trans hs)
  | _ => simp [Nouns.sendsItself] at hc

theorem NoneAstray.discards (h : NoneAstray l) : l.countP discards = 0 := by
  refine List.countP_eq_zero.mpr ?_
  intro e he hc
  cases e with
  | transfer src dst id => exact (h.transfer he).1 (of_decide_eq_true hc)
  | _ => simp [Nouns.discards] at hc

theorem noneAstray_of_counts (hself : ∀ a, a ≠ 0 → l.countP (sendsItself a) = 0)
    (hzero : l.countP discards = 0) : NoneAstray l := by
  intro e hmem
  cases e with
  | transfer src dst id =>
      have hd : dst ≠ 0 := by
        intro heq
        subst heq
        exact List.countP_eq_zero.mp hzero _ hmem (by simp [discards])
      have hs : dst ≠ src := by
        intro heq
        subst heq
        exact List.countP_eq_zero.mp (hself dst hd) _ hmem
          ((sendsItself_transfer dst).mpr ⟨rfl, rfl⟩)
      simp only [goesAstray, Bool.or_eq_false_iff, decide_eq_false_iff_not]
      exact ⟨hd, hs⟩
  | _ => rfl

/-- A count with one thing more to look at than another. -/
theorem card_pos_zero {A : Type} [Fintype A] [DecidableEq A] [Zero A] {f : A → Nat}
    {held : A → Int} (h : ∀ a, a ≠ 0 → held a = f a) :
    (Finset.univ.filter (fun a => 0 < held a)).card
      = (Finset.univ.filter (fun a => a ≠ 0 ∧ 0 < f a)).card + if 0 < held 0 then 1 else 0 := by
  have hcount := card_filter_change (p := fun a => a ≠ 0 ∧ 0 < f a) (q := fun a => 0 < held a)
    (Finset.mem_univ (0 : A)) fun a ha => by
      rw [h a ha]
      exact ⟨fun hp => ⟨ha, by omega⟩, fun hp => by omega⟩
  rw [if_neg (fun hc => hc.1 rfl)] at hcount
  exact hcount

/-- The store's holders are those of the token, and the zero address if it was sent a Noun. -/
theorem holdersNumber_zero {s : NounsToken} {held : Address → Int}
    (h : ∀ a, a ≠ 0 → held a = s.balances_ a) : holdersNumber held
      = (Finset.univ.filter (fun a => a ≠ 0 ∧ 0 < s.balances_ a)).card
        + if 0 < held 0 then 1 else 0 := card_pos_zero h

/--
**When the holders are right.** At every point of every history, after all events logged so
far, balances, Nouns, owners and the number of holders in the store are those on chain if
and only if no Noun was sent to the zero address or from an account to itself.
-/
theorem holders_mirrored_iff (g : Genesis) (x : Config TokenWorld TokenFrame)
    (hx : TokenRuns g x) :
    HoldersMirrored x.world.token (.afterToken x.world.token.logs)
      ↔ NoneAstray x.world.token.logs := by
  have h := holdersAgree_runs hx
  have hbalance : ∀ a, a ≠ 0 →
      x.world.token.balanceOf a = .ok (x.world.token.register.balances a) :=
    fun a ha => bind_ok.mpr ⟨(), require_ok.mpr ha, rfl⟩
  constructor
  · intro hm
    have hexact : ∀ a, a ≠ 0 →
        ((Store.afterToken x.world.token.logs).account a).tokenBalanceRaw
          = x.world.token.balances_ a := by
      intro a ha
      obtain ⟨b, hb, hraw⟩ := hm.balance a ha
      rw [hbalance a ha] at hb
      rw [hraw, ← Except.ok.inj hb]
      rfl
    -- a balance is ahead by the Nouns the account has sent to itself
    have hself : ∀ a, a ≠ 0 → x.world.token.logs.countP (sendsItself a) = 0 := by
      intro a ha
      have hraw := h.raw a ha
      rw [hexact a ha] at hraw
      have : x.world.token.register.balances a = x.world.token.balances_ a := rfl
      omega
    -- with balances right, the number of holders is off by the zero address only
    have hcount := h.holders hself
    rw [holdersNumber_zero hexact, h.zero] at hcount
    have hholders := hm.holders
    refine noneAstray_of_counts hself ?_
    by_contra hne
    rw [if_pos (by omega)] at hcount
    have : (Store.afterToken x.world.token.logs).counters.currentTokenHolders
        = (Store.afterToken x.world.token.logs).getGovernanceEntity.currentTokenHolders := rfl
    omega
  · intro hno
    have hexact : ∀ a, a ≠ 0 →
        ((Store.afterToken x.world.token.logs).account a).tokenBalanceRaw
          = x.world.token.balances_ a := by
      intro a ha
      rw [h.raw a ha, hno.sendsItself a]
      exact Int.add_zero _
    refine ⟨fun a ha => ⟨_, hbalance a ha, hexact a ha⟩, fun a ha => ⟨?_, ?_⟩, ?_, ?_⟩
    · refine List.nodup_iff_count_le_one.mpr fun n => h.once a ha n ?_
      intro hin
      obtain ⟨before, after, heq, -⟩ := hin
      have hmem : .transfer a a n ∈ x.world.token.logs := by
        rw [heq]
        simp
      exact (hno.transfer hmem).2 rfl
    · intro n
      rw [h.nouns a ha n, ownerOf_ok]
      exact ⟨fun hn => ⟨ha, hn⟩, fun hn => hn.2⟩
    · intro n a hn
      obtain ⟨ha, hown⟩ := ownerOf_ok.mp hn
      have howner := h.owner n (by rw [show x.world.token.register.owners n = a from hown]; exact ha)
      obtain ⟨noun, hnoun, heq⟩ := Option.map_eq_some_iff.mp howner
      exact ⟨noun, hnoun, heq.trans hown⟩
    · have hcount := h.holders fun a _ => hno.sendsItself a
      rw [holdersNumber_zero hexact, h.zero, hno.discards, if_neg (by omega), Nat.add_zero] at hcount
      exact hcount

/-- Account 2 gives Noun 0 to account 4. -/
def giveZero : List (Machine.Move TokenTx Block) :=
  [.enter (smallTx (.ofNat 4) .mint),
    .enter (smallTx (.ofNat 2) (.transferFrom (.ofNat 2) (.ofNat 4) 0))]

/-- The subgraph then has it with account 4, too. -/
theorem holders_mirrored_iff_giveZero :
    ∃ x, TokenRuns smallGenesis x ∧ x.world.token.ownerOf 0 = .ok (.ofNat 4)
      ∧ NoneAstray x.world.token.logs
      ∧ HoldersMirrored x.world.token (.afterToken x.world.token.logs) := by
  obtain ⟨x, hx, hp⟩ := Machine.script_exists (M := tokenMachine) Machine.anything_free
    (x := ⟨smallGenesis.world, []⟩) (m := giveZero)
    (p := fun x => (x.world.token.ownerOf 0).toOption = some (.ofNat 4)
      ∧ NoneAstray x.world.token.logs) (by decide +kernel)
  obtain ⟨hown, hno⟩ := of_decide_eq_true hp
  exact ⟨x, hx, toOption_some.mp hown, hno, (holders_mirrored_iff smallGenesis x hx).mpr hno⟩

/-- Account 4 sends its only Noun to itself. -/
def sendOneself : List (Machine.Move TokenTx Block) :=
  [.enter (smallTx (.ofNat 4) .mint),
    .enter (smallTx (.ofNat 4) (.transferFrom (.ofNat 4) (.ofNat 4) 1))]

/--
After that the subgraph has account 4 with two Nouns, both of them Noun 1. And after a burn
it has two holders where there is one.
-/
theorem holders_mirrored_sendOneself :
    (∃ x, TokenRuns smallGenesis x ∧ x.world.token.balanceOf (.ofNat 4) = .ok 1
      ∧ ((Store.afterToken x.world.token.logs).account (.ofNat 4)).tokenBalanceRaw = 2
      ∧ ((Store.afterToken x.world.token.logs).account (.ofNat 4)).nouns = [1, 1]
      ∧ ¬ HoldersMirrored x.world.token (.afterToken x.world.token.logs))
    ∧ ∃ x, TokenRuns smallGenesis x ∧ x.world.token.ownerOf 1 = .ok (.ofNat 4)
      ∧ x.world.token.totalSupply = 1
      ∧ (Store.afterToken x.world.token.logs).getGovernanceEntity.currentTokenHolders = 2 := by
  constructor
  · obtain ⟨x, hx, hp⟩ := Machine.script_exists (M := tokenMachine) Machine.anything_free
      (x := ⟨smallGenesis.world, []⟩) (m := sendOneself)
      (p := fun x => (x.world.token.balanceOf (.ofNat 4)).toOption = some 1
        ∧ ((Store.afterToken x.world.token.logs).account (.ofNat 4)).tokenBalanceRaw = 2
        ∧ ((Store.afterToken x.world.token.logs).account (.ofNat 4)).nouns = [1, 1])
      (by decide +kernel)
    obtain ⟨hb, hraw, hnouns⟩ := of_decide_eq_true hp
    refine ⟨x, hx, toOption_some.mp hb, hraw, hnouns, ?_⟩
    intro hm
    have hnodup := (hm.nouns (.ofNat 4) (by decide)).1
    rw [hnouns] at hnodup
    exact absurd hnodup (by decide)
  · obtain ⟨x, hx, hp⟩ := Machine.script_exists (M := tokenMachine) Machine.anything_free
      (x := ⟨smallGenesis.world, []⟩) (m := burnFirst)
      (p := fun x => (x.world.token.ownerOf 1).toOption = some (.ofNat 4)
        ∧ x.world.token.totalSupply = 1
        ∧ (Store.afterToken x.world.token.logs).getGovernanceEntity.currentTokenHolders = 2)
      (by decide +kernel)
    obtain ⟨hown, hsupply, hcount⟩ := of_decide_eq_true hp
    exact ⟨x, hx, toOption_some.mp hown, hsupply, hcount⟩

end Proof

end Nouns
