import Nouns.Proof.HolderMirror

/-!
# The subgraph's delegations

`nounsRepresented` of a delegate is what its accounts hold, by the delegate the store has
for them. The handlers keep the two in step as long as a Noun only comes to accounts that
the store has as their own delegates; and these are the delegates on chain as long as that
is so on chain, and nobody is delegated where it was before.
-/

namespace Nouns

open Evm DelegatedVotes EventLog CallMachine Subgraph

namespace Proof

variable {l : List TokenEvent} {r r' : Register} {e : TokenEvent} {st : Store}
  {src dst : Address} {id : Nat}

/-! ## Lists and accounts -/

/-- The delegates' lists follow the accounts' delegates. -/
structure ListsAgree (l : List TokenEvent) (r : Register) (st : Store) : Prop where
  holders : HoldersAgree l r st
  nodup : ∀ d, d ≠ 0 → (st.delegate d).nounsRepresented.Nodup
  mem : ∀ d, d ≠ 0 → ∀ n, n ∈ (st.delegate d).nounsRepresented
    ↔ r.owners n ≠ 0 ∧ (st.account (r.owners n)).delegate = some d

/-- Only what the store has of the accounts' delegates and of the lists matters. -/
theorem ListsAgree.congr (h : ListsAgree l r st) {st' : Store} {l' : List TokenEvent}
    (hh : HoldersAgree l' r' st') (ho : r'.owners = r.owners)
    (ha : ∀ a, (st'.account a).delegate = (st.account a).delegate)
    (hd : ∀ d, (st'.delegate d).nounsRepresented = (st.delegate d).nounsRepresented) :
    ListsAgree l' r' st' := by
  refine ⟨hh, ?_, ?_⟩
  · intro d hne
    rw [hd]
    exact h.nodup d hne
  · intro d hne n
    rw [hd, ho, ha]
    exact h.mem d hne n

/-- The lists once the sender's delegate has lost the Noun. -/
theorem ListsAgree.sender (h : ListsAgree l r st) (hown : r.owners id = src) {d : Address}
    (hd : d ≠ 0) :
    (if src = 0 then st.delegate d
      else st.without (st.account src).delegate id d).nounsRepresented.Nodup
    ∧ ∀ n, n ∈ (if src = 0 then st.delegate d
        else st.without (st.account src).delegate id d).nounsRepresented
      ↔ n ≠ id ∧ n ∈ (st.delegate d).nounsRepresented := by
  have hmem := h.mem d hd id
  rw [hown] at hmem
  -- a list that is left alone did not have the Noun
  have hkept : id ∉ (st.delegate d).nounsRepresented →
      (st.delegate d).nounsRepresented.Nodup ∧ ∀ n, n ∈ (st.delegate d).nounsRepresented
        ↔ n ≠ id ∧ n ∈ (st.delegate d).nounsRepresented := by
    intro hnot
    refine ⟨h.nodup d hd, fun n => ⟨fun hn => ⟨?_, hn⟩, fun hn => hn.2⟩⟩
    intro heq
    subst heq
    exact hnot hn
  by_cases hsrc : src = 0
  · rw [if_pos hsrc]
    exact hkept fun hc => (hmem.mp hc).1 hsrc
  · rw [if_neg hsrc, Store.without]
    by_cases hnamed : (st.account src).delegate = some d
    · rw [if_pos hnamed]
      refine ⟨(h.nodup d hd).filter _, ?_⟩
      intro n
      simp only [List.mem_filter, decide_eq_true_eq]
      exact And.comm
    · rw [if_neg hnamed]
      exact hkept fun hc => hnamed (hmem.mp hc).2

/-- Who keeps a Noun keeps its delegate. -/
theorem HoldersAgree.delegate_kept (h : HoldersAgree l r st) (hown : r.owners id = src) {n : Nat}
    (hn : n ≠ id) (ho : r.owners n ≠ 0) :
    ((st.handleTransfer src dst id).account (r.owners n)).delegate
      = (st.account (r.owners n)).delegate := by
  have hpos := h.raw_pos ho
  rcases account_transfer st src dst id (r.owners n) with
    ⟨hd, heq⟩ | ⟨hd, hs, hsrc, heq⟩ | ⟨_, _, heq⟩
  · rw [heq, ← hd, Account.received, if_neg (by omega)]
  · -- the sender has another Noun, so it is not emptied
    have htwo := h.counts.two hn (hs.trans hown.symm) ho
    have hraw := h.raw _ ho
    rw [heq, ← hs, Account.sent, if_neg (by omega)]
  · rw [heq]

/-- A Noun comes to an account that the store has as its own delegate, or as empty. -/
theorem ListsAgree.transfer (h : ListsAgree l r st) (hown : r.owners id = src)
    (hdst : dst ≠ 0 → (st.account dst).tokenBalanceRaw = 0
      ∨ (st.account dst).delegate = some dst) :
    ListsAgree (l ++ [.transfer src dst id]) (r.transfer src dst id)
      (st.handleTransfer src dst id) := by
  have hholders : HoldersAgree (l ++ [.transfer src dst id]) (r.transfer src dst id)
      (st.handleTransfer src dst id) := h.holders.step (.transfer hown)
  have hdelegate := (st.handleTransfer_spec src dst id).2.1
  -- the Noun goes to the list of the receiver, so the receiver has to be its own delegate
  have hnew : dst ≠ 0 →
      ((st.handleTransfer src dst id).account dst).delegate = some dst := by
    intro hd
    rcases account_transfer st src dst id dst with
      ⟨_, heq⟩ | ⟨hne, _⟩ | ⟨hne, _⟩
    · rw [heq, Account.received]
      rcases hdst hd with hz | hnamed
      · rw [if_pos (by omega)]
      · rw [hnamed, ite_self]
    · exact absurd rfl hne
    · exact absurd rfl hne
  refine ⟨hholders, ?_, ?_⟩
  · intro d hd
    obtain ⟨hnodup, hmem⟩ := h.sender hown hd
    rw [hdelegate]
    by_cases hx : d = dst
    · simp only [if_pos hx]
      refine List.Nodup.append hnodup (List.nodup_singleton id) ?_
      intro n hn hid
      exact ((hmem n).mp hn).1 (List.mem_singleton.mp hid)
    · simp only [if_neg hx]
      exact hnodup
  · intro d hd n
    have hlist : n ∈ ((st.handleTransfer src dst id).delegate d).nounsRepresented
        ↔ (n ≠ id ∧ n ∈ (st.delegate d).nounsRepresented) ∨ (d = dst ∧ n = id) := by
      obtain ⟨-, hmem⟩ := h.sender hown hd
      rw [hdelegate]
      by_cases hx : d = dst
      · simp only [if_pos hx, List.mem_append, List.mem_singleton, hmem]
        simp [hx]
      · simp only [if_neg hx, hmem]
        simp [hx]
    rw [hlist, Register.transfer_owners]
    -- the Noun that moved has a new owner; the others keep theirs, and their delegates
    by_cases hn : n = id
    · subst hn
      rw [Function.update_self]
      constructor
      · intro hin
        rcases hin with ⟨hne, _⟩ | ⟨rfl, _⟩
        · exact absurd rfl hne
        · exact ⟨hd, hnew hd⟩
      · intro hin
        obtain ⟨hne, hnamed⟩ := hin
        rw [hnew hne] at hnamed
        exact .inr ⟨(Option.some.inj hnamed).symm, rfl⟩
    · rw [Function.update_of_ne hn]
      constructor
      · intro hin
        rcases hin with ⟨_, hmem⟩ | ⟨_, heq⟩
        · obtain ⟨hne, hnamed⟩ := (h.mem d hd n).mp hmem
          exact ⟨hne, (h.holders.delegate_kept hown hn hne).trans hnamed⟩
        · exact absurd heq hn
      · intro hin
        obtain ⟨hne, hnamed⟩ := hin
        rw [h.holders.delegate_kept hown hn hne] at hnamed
        exact .inl ⟨hn, (h.mem d hd n).mpr ⟨hne, hnamed⟩⟩

/-- An account with no Nouns, or none twice, names another delegate. -/
theorem ListsAgree.delegate (h : ListsAgree l r st) {o d : Address} (ho : o ≠ 0)
    (hfresh : (∀ n, r.owners n ≠ o) ∨ ((st.account o).nouns.Nodup
      ∧ (st.account o).delegate = some (r.delegates o) ∧ r.delegates o ≠ d)) :
    ListsAgree (l ++ [.delegateChanged o (r.delegates o) d]) (r.name o d)
      (st.handleDelegateChanged o (r.delegates o) d) := by
  have hholders : HoldersAgree (l ++ [.delegateChanged o (r.delegates o) d]) (r.name o d)
      (st.handleDelegateChanged o (r.delegates o) d) := h.holders.step (.delegate ho)
  obtain ⟨hacc, -, -, -, hlist⟩ :=
    st.handleDelegateChanged_spec o (r.delegates o) d
  have hnouns := h.holders.nouns o ho
  have hnamed : ∀ a, ((st.handleDelegateChanged o (r.delegates o) d).account a).delegate
      = if a = o then some d else (st.account a).delegate := by
    intro a
    rw [hacc]
    by_cases ha : a = o
    · subst ha
      simp
    · simp [ha]
  refine ⟨hholders, fun x hx => ?_, fun x hx n => ?_⟩
  · rw [hlist]
    by_cases hxd : x = d
    · rw [if_pos hxd, ← hxd]
      rcases hfresh with hnone | ⟨hnodup, hold, hne⟩
      · have hempty : (st.account o).nouns = [] :=
          List.eq_nil_iff_forall_not_mem.mpr fun n hn => hnone n ((hnouns n).mp hn)
        rw [hempty, List.append_nil]
        exact h.nodup x hx
      · refine (h.nodup x hx).append hnodup fun n hn hmem => ?_
        have hno := ((h.mem x hx n).mp hn).2
        rw [(hnouns n).mp hmem, hold] at hno
        exact hne ((Option.some.inj hno).trans hxd)
    · rw [if_neg hxd]
      by_cases hxf : x = r.delegates o
      · rw [if_pos hxf, ← hxf]
        exact (h.nodup x hx).filter _
      · rw [if_neg hxf]
        exact h.nodup x hx
  · rw [hlist, hnamed, Register.name_owners]
    by_cases hno : r.owners n = o
    · -- a Noun of the delegator moves from the old list to the new one
      have hin : n ∈ (st.account o).nouns := (hnouns n).mpr hno
      rw [if_pos hno, hno]
      rcases hfresh with hnone | ⟨hnodup, hold, hne⟩
      · exact absurd hno (hnone n)
      · by_cases hxd : x = d
        · rw [if_pos hxd, List.mem_append, hxd]
          exact ⟨fun _ => ⟨ho, rfl⟩, fun _ => .inr hin⟩
        · rw [if_neg hxd]
          have hother : ¬ (o ≠ 0 ∧ some d = some x) := fun hc =>
            hxd (Option.some.inj hc.2).symm
          by_cases hxf : x = r.delegates o
          · rw [if_pos hxf]
            refine ⟨fun hc => ?_, fun hc => absurd hc hother⟩
            have hout := (List.mem_filter.mp hc).2
            rw [decide_eq_true_eq] at hout
            exact absurd hin hout
          · rw [if_neg hxf]
            refine ⟨fun hc => ?_, fun hc => absurd hc hother⟩
            have hsome := ((h.mem x hx n).mp hc).2
            rw [hno, hold] at hsome
            exact absurd (Option.some.inj hsome).symm hxf
    · -- the Nouns of others stay where they are
      have hout : n ∉ (st.account o).nouns := fun hc => hno ((hnouns n).mp hc)
      rw [if_neg hno]
      by_cases hxd : x = d
      · rw [if_pos hxd, List.mem_append, ← hxd, ← h.mem x hx n]
        exact ⟨fun hc => hc.resolve_right hout, .inl⟩
      · rw [if_neg hxd]
        by_cases hxf : x = r.delegates o
        · rw [if_pos hxf, List.mem_filter, ← hxf, ← h.mem x hx n]
          exact ⟨fun hc => hc.1, fun hc => ⟨hc, by simpa using hout⟩⟩
        · rw [if_neg hxf]
          exact h.mem x hx n

/-! ## Delegates in the store and on chain -/

/-- Lists follow the accounts' delegates, and these are the delegates on chain. -/
structure DelegatesAgree (l : List TokenEvent) (r : Register) (st : Store) : Prop where
  lists : ListsAgree l r st
  named : ∀ o, o ≠ 0 → 0 < (st.account o).tokenBalanceRaw →
    (st.account o).delegate = some (r.delegates o)

/-- Only what the store has of accounts and lists matters. -/
theorem DelegatesAgree.congr (h : DelegatesAgree l r st) {st' : Store} {l' : List TokenEvent}
    (hh : HoldersAgree l' r' st') (ho : r'.owners = r.owners) (hr : r'.delegates = r.delegates)
    (ha : st'.account = st.account)
    (hd : ∀ d, (st'.delegate d).nounsRepresented = (st.delegate d).nounsRepresented) :
    DelegatesAgree l' r' st' := by
  refine ⟨h.lists.congr hh ho (fun a => by rw [ha]) hd, fun o hne hpos => ?_⟩
  rw [ha] at hpos ⊢
  rw [hr]
  exact h.named o hne hpos

/-- Events about nothing that moves. -/
theorem DelegatesAgree.other (h : DelegatesAgree l r st) (he : moves e = false) :
    DelegatesAgree (l ++ [e]) r (st.handleTokenEvent e) := by
  have hsees := st.handleTokenEvent_other he
  exact h.congr (h.lists.holders.step (.other he)) rfl rfl hsees.account
    fun d => by rw [hsees.delegate]

theorem DelegatesAgree.others {es : List TokenEvent} (h : DelegatesAgree l r st)
    (hes : ∀ e ∈ es, moves e = false) :
    DelegatesAgree (l ++ es) r (es.foldl Store.handleTokenEvent st) := by
  induction es generalizing l st with
  | nil =>
      rw [List.append_nil]
      exact h
  | cons e es ih =>
      have hrest := ih (h.other (hes e List.mem_cons_self))
        fun e' he' => hes e' (List.mem_cons_of_mem _ he')
      rw [List.append_assoc] at hrest
      exact hrest

/-- Changes of votes. -/
theorem DelegatesAgree.votes (h : DelegatesAgree l r st) {es : List TokenEvent}
    {v : Address → Nat} (hs : Replays VoteStep r.votes es v) :
    DelegatesAgree (l ++ es) { r with votes := v } (es.foldl Store.handleTokenEvent st) := by
  refine hs.mirror (R := fun l v st => DelegatesAgree l { r with votes := v } st) ?_ h
  intro l v e v' st hstep h
  have hholders := h.lists.holders.step (.votes (r := { r with votes := v }) hstep)
  cases hstep with
  | @changed d new _ =>
      obtain ⟨hacc, -, hlist, -, -⟩ :=
        st.handleDelegateVotesChanged_spec d (v d) new
      exact h.congr hholders rfl rfl hacc hlist

/-- The store has a holder that is its own delegate as its own delegate. -/
theorem DelegatesAgree.own (h : DelegatesAgree l r st) {o : Address} (ho : o ≠ 0)
    (hown : r.delegates o = o) :
    (st.account o).tokenBalanceRaw = 0 ∨ (st.account o).delegate = some o := by
  by_cases hz : (st.account o).tokenBalanceRaw = 0
  · exact .inl hz
  · have := h.lists.holders.raw_nonneg o
    have hnamed := h.named o ho (by omega)
    rw [hown] at hnamed
    exact .inr hnamed

/-- A Noun comes to an account that is its own delegate. -/
theorem DelegatesAgree.transfer (h : DelegatesAgree l r st) (dst : Address) (id : Nat)
    (hown : r.owners id = src) (hdst : dst ≠ 0 → r.delegates dst = dst) :
    DelegatesAgree (l ++ [.transfer src dst id]) (r.transfer src dst id)
      (st.handleTransfer src dst id) := by
  refine ⟨h.lists.transfer hown fun hd => h.own hd (hdst hd), ?_⟩
  intro o ho hpos
  rw [Register.transfer_delegates]
  rcases account_transfer st src dst id o with
    ⟨rfl, heq⟩ | ⟨_, rfl, _, heq⟩ | ⟨_, _, heq⟩
  · rw [heq, Account.received, hdst ho]
    rcases h.own ho (hdst ho) with hz | hnamed
    · rw [if_pos (by omega)]
    · rw [hnamed, ite_self]
  · rw [heq, Account.sent_raw] at hpos
    rw [heq, Account.sent, if_neg (by omega)]
    exact h.named o ho (by omega)
  · rw [heq] at hpos ⊢
    exact h.named o ho hpos

/-- An account names another delegate. -/
theorem DelegatesAgree.delegate (h : DelegatesAgree l r st) {o d : Address} (ho : o ≠ 0)
    (hd : d ≠ 0) (hfresh : (∀ n, r.owners n ≠ o) ∨ (r.delegates o ≠ d
      ∧ ∀ n, r.owners n = o → ¬ Resent l o n)) :
    DelegatesAgree (l ++ [.delegateChanged o (r.delegates o) d]) (r.name o d)
      (st.handleDelegateChanged o (r.delegates o) d) := by
  have hholders := h.lists.holders
  have hnouns := hholders.nouns o ho
  refine ⟨h.lists.delegate ho ?_, fun a ha hpos => ?_⟩
  · by_cases hnone : ∀ n, r.owners n ≠ o
    · exact .inl hnone
    · obtain ⟨n, hn⟩ := not_forall_not.mp hnone
      obtain ⟨hne, hresent⟩ := hfresh.resolve_left hnone
      refine .inr ⟨List.nodup_iff_count_le_one.mpr fun m => ?_, ?_, hne⟩
      · by_cases hm : r.owners m = o
        · exact hholders.once o ho m (hresent m hm)
        · rw [List.count_eq_zero_of_not_mem fun hc => hm ((hnouns m).mp hc)]
          exact Nat.zero_le _
      · refine h.named o ho ?_
        rw [← hn] at ho ⊢
        exact hholders.raw_pos ho
  · obtain ⟨hacc, -, -, -, -⟩ :=
      st.handleDelegateChanged_spec o (r.delegates o) d
    rw [Register.name_delegates hd]
    rw [hacc] at hpos ⊢
    by_cases hao : a = o
    · subst hao
      simp
    · rw [Function.update_of_ne hao] at hpos ⊢
      rw [Function.update_of_ne hao]
      exact h.named a ha hpos

/-- A Noun comes from nobody by way of its creator. -/
theorem DelegatesAgree.mint (h : DelegatesAgree l r st) (creator : Address) (id : Nat)
    (hfresh : r.owners id = 0) (hd : dst ≠ 0) (hdst : r.delegates dst = dst)
    (hcreator : creator = 0 ∨ r.delegates creator = creator
      ∨ (st.account creator).tokenBalanceRaw = 0) :
    DelegatesAgree (l ++ [.transfer 0 creator id, .transfer creator dst id])
      ((r.transfer 0 creator id).transfer creator dst id)
      ((st.handleTransfer 0 creator id).handleTransfer creator dst id) := by
  have hlists : ListsAgree (l ++ [.transfer 0 creator id]) (r.transfer 0 creator id)
      (st.handleTransfer 0 creator id) := h.lists.transfer hfresh fun hne => by
    rcases hcreator with hc | hc | hc
    · exact absurd hc hne
    · exact h.own hne hc
    · exact .inl hc
  -- the creator's account after the first transfer, in case it is a holder
  have hmid : ∀ o, o ≠ 0 → (o ≠ creator → ((st.handleTransfer 0 creator id).account o)
      = st.account o) ∧ (o = creator → ((st.handleTransfer 0 creator id).account o)
      = (st.account o).received o id) := by
    intro o ho
    rcases account_transfer st 0 creator id o with
      ⟨rfl, heq⟩ | ⟨_, hz, _⟩ | ⟨hne, _, heq⟩
    · exact ⟨fun hne => absurd rfl hne, fun _ => heq⟩
    · exact absurd hz ho
    · exact ⟨fun _ => heq, fun hc => absurd hc hne⟩
  have hown := h.own hd hdst
  have hnext : ((st.handleTransfer 0 creator id).account dst).tokenBalanceRaw = 0
      ∨ ((st.handleTransfer 0 creator id).account dst).delegate = some dst := by
    by_cases hc : dst = creator
    · rw [(hmid dst hd).2 hc, Account.received]
      rcases hown with hz | hnamed
      · exact .inr (by rw [if_pos (by omega)])
      · exact .inr (by rw [hnamed, ite_self])
    · rw [(hmid dst hd).1 hc]
      exact hown
  have hboth : ListsAgree (l ++ [.transfer 0 creator id] ++ [.transfer creator dst id])
      ((r.transfer 0 creator id).transfer creator dst id)
      ((st.handleTransfer 0 creator id).handleTransfer creator dst id) :=
    hlists.transfer (Function.update_self _ _ _) fun _ => hnext
  rw [List.append_assoc] at hboth
  refine ⟨hboth, ?_⟩
  intro o ho hpos
  rw [Register.transfer_delegates, Register.transfer_delegates]
  rcases account_transfer (st.handleTransfer 0 creator id) creator dst id o with
    ⟨rfl, heq⟩ | ⟨_, rfl, _, heq⟩ | ⟨_, hs, heq⟩
  · rw [heq, Account.received, hdst]
    rcases hnext with hz | hnamed
    · rw [if_pos (by omega)]
    · rw [hnamed, ite_self]
  · rw [heq, Account.sent_raw, (hmid o ho).2 rfl, Account.received_raw] at hpos
    rw [heq, (hmid o ho).2 rfl, Account.sent, Account.received_raw, if_neg (by omega),
      Account.received, if_neg (by omega)]
    exact h.named o ho (by omega)
  · have hne : o ≠ creator := fun hc => ho (hc.trans (hs hc))
    rw [heq, (hmid o ho).1 hne] at hpos ⊢
    exact h.named o ho hpos

/-! ## Calls -/

/-- The subgraph, given the log of `s`, follows its delegations. -/
def Followed (s : NounsToken) : Prop := DelegatesAgree s.logs s.register (.afterToken s.logs)

/-- The creator of new Nouns is nobody, or its own delegate, or nobody the subgraph knows as a holder. -/
def CreatorApart (s : NounsToken) : Prop :=
  s.owner = 0 ∨ s.delegates s.owner = s.owner
    ∨ (s.balances_ s.owner = 0 ∧ ∀ n, .transfer s.owner s.owner n ∉ s.logs)

/-- `o` holds nothing, or names another delegate and holds no Noun it has sent to itself. -/
def FreshName (s : NounsToken) (o d : Address) : Prop :=
  s.balances_ o = 0 ∨ (s.delegates o ≠ d ∧ ∀ n, s.owners_ n = o → ¬ Resent s.logs o n)

variable {now : Nat} {m : Msg} {s s₁ s' : NounsToken}

theorem afterToken_append (l es : List TokenEvent) :
    Store.afterToken (l ++ es) = es.foldl Store.handleTokenEvent (.afterToken l) :=
  List.foldl_append

theorem Followed.configure (h : Followed s) (hc : Configured s s') : Followed s' := by
  obtain ⟨_, _, _, _, _, _, _, _, _, _, es, hes, rfl⟩ := hc
  unfold Followed
  rw [afterToken_append]
  exact DelegatesAgree.others h hes

theorem Followed.transfer (h : Followed s) (ht : Transferred now src dst id s s')
    (hdst : s.delegates dst = dst) : Followed s' := by
  obtain ⟨es, hlog, hvotes, hreg⟩ := ht.told
  have hquiet := (DelegatesAgree.votes h hvotes).other (e := .approval src 0 id) rfl
  have hdone := hquiet.transfer dst id ht.owner fun _ => hdst
  have hsplit : s.logs ++ (es ++ [.approval src 0 id, .transfer src dst id])
      = s.logs ++ es ++ [.approval src 0 id] ++ [.transfer src dst id] := by simp
  unfold Followed
  rw [hlog, hreg, hsplit, afterToken_append, afterToken_append, afterToken_append]
  exact hdone

theorem Followed.burn (h : Followed s) (hb : Burned now id s s') : Followed s' := by
  obtain ⟨es, hlog, hvotes, hreg⟩ := hb.told
  have hquiet := (DelegatesAgree.votes h hvotes).other (e := .approval (s.owners_ id) 0 id) rfl
  have hdone := hquiet.transfer 0 id rfl fun hne => absurd rfl hne
  have hsplit : s.logs ++ (es ++ [.approval (s.owners_ id) 0 id, .transfer (s.owners_ id) 0 id])
      = s.logs ++ es ++ [.approval (s.owners_ id) 0 id] ++ [.transfer (s.owners_ id) 0 id] := by
    simp
  unfold Followed
  rw [hlog, hreg, hsplit, afterToken_append, afterToken_append, afterToken_append]
  exact hdone

theorem Followed.redelegate (h : Followed s) {o d : Address} (hr : Redelegated now o d s s')
    (hd : d ≠ 0) (hfresh : FreshName s o d) : Followed s' := by
  obtain ⟨es, hlog, hvotes, hreg⟩ := hr.told
  have hnamed := DelegatesAgree.delegate h hr.delegator_ne hd (r := s.register) <| by
    rcases hfresh with hz | hfresh
    · refine .inl ?_
      intro n hn
      have ho := hr.delegator_ne
      rw [← hn] at ho
      have hpos := h.lists.holders.counts.pos ho
      rw [hn, show s.register.balances o = s.balances_ o from rfl] at hpos
      omega
    · exact .inr hfresh
  have hdone := hnamed.votes (v := s'.getCurrentVotes) hvotes
  have hsplit : s.logs ++ (.delegateChanged o (s.delegates o) d :: es)
      = s.logs ++ [.delegateChanged o (s.delegates o) d] ++ es := by simp
  unfold Followed
  rw [hlog, hreg, hsplit, afterToken_append, afterToken_append]
  exact hdone

/-- Changes of votes are no transfers. -/
theorem votes_no_transfer {v v' : Address → Nat} {es : List TokenEvent}
    (h : Replays VoteStep v es v') : .transfer src dst id ∉ es := by
  induction h with
  | nil => simp
  | cons hs _ ih =>
      cases hs with
      | changed =>
          rw [List.mem_cons, not_or]
          exact ⟨by simp, ih⟩

/-- The subgraph has nothing for who holds nothing and never sent itself a Noun. -/
theorem DelegatesAgree.empty (h : DelegatesAgree l r st) {c : Address} (hc : c ≠ 0)
    (hb : r.balances c = 0) (hno : ∀ n, .transfer c c n ∉ l) :
    (st.account c).tokenBalanceRaw = 0 := by
  have hnone : l.countP (sendsItself c) = 0 := by
    refine List.countP_eq_zero.mpr ?_
    intro e he hself
    cases e with
    | transfer src dst n =>
        obtain ⟨rfl, rfl⟩ := (sendsItself_transfer c).mp hself
        exact hno n he
    | _ => simp [sendsItself] at hself
  rw [h.lists.holders.raw c hc, hnone, hb]
  rfl

theorem Followed.mint (h : Followed s) {seed : Seed}
    (hm : Minted now s.owner dst id (drawn s seed) s') (hdst : s.delegates dst = dst)
    (hc : CreatorApart s) : Followed s' := by
  obtain ⟨es, hlog, hvotes, hreg⟩ := hm.told
  have hmoved := DelegatesAgree.votes h (v := s'.getCurrentVotes) hvotes
  have hdone := hmoved.mint s.owner id hm.fresh hm.dst_ne hdst <| by
    by_cases hz : s.owner = 0
    · exact .inl hz
    · rcases hc with hc | hc | ⟨hb, hno⟩
      · exact .inl hc
      · exact .inr (.inl hc)
      · refine .inr (.inr (hmoved.empty hz hb ?_))
        intro n hn
        rcases List.mem_append.mp hn with hn | hn
        · exact hno n hn
        · exact votes_no_transfer hvotes hn
  have hlog' : s'.logs = s.logs ++ es
      ++ [.transfer 0 s.owner id, .transfer s.owner dst id] := by
    rw [hlog, ← List.append_assoc]
    rfl
  unfold Followed
  rw [hlog', hreg, afterToken_append, afterToken_append]
  exact hdone

/-- What stays of the creator's condition after a mint to somebody else who is its own delegate. -/
theorem CreatorApart.mint (hc : CreatorApart s) {seed : Seed}
    (hm : Minted now s.owner dst id (drawn s seed) s') (hdst : s.delegates dst = dst) :
    CreatorApart s' := by
  obtain ⟨es, hlog, hvotes, -⟩ := hm.told
  obtain ⟨_, _, _, _, _, _, _, hbook⟩ := hm.book
  have howner : s'.owner = s.owner := by rw [hbook]; rfl
  have hdelegates : s'.delegates = s.delegates := by
    funext a
    rw [hbook]
    rfl
  unfold CreatorApart
  rw [howner, hdelegates]
  rcases hc with hc | hc | ⟨hb, hno⟩
  · exact .inl hc
  · exact .inr (.inl hc)
  · by_cases hd : s.owner = dst
    · rw [hd]
      exact .inr (.inl hdst)
    · by_cases hz : s.owner = 0
      · exact .inl hz
      · refine .inr (.inr ⟨?_, ?_⟩)
        · rw [hbook]
          exact (Function.update_of_ne hd _ _).trans hb
        · intro n hn
          rw [hlog] at hn
          rcases List.mem_append.mp hn with hn | hn
          · exact hno n hn
          · rcases List.mem_append.mp hn with hn | hn
            · exact votes_no_transfer hvotes hn
            · rcases List.mem_pair.mp hn with hn | hn
              · exact hz (TokenEvent.transfer.inj hn).1
              · exact hd (TokenEvent.transfer.inj hn).2.1

/-- The receivers of the Nouns `mint` creates. -/
def receivers (s : NounsToken) : List Address :=
  (if s.currentNounId_ ≤ 1820 ∧ s.currentNounId_ % 10 = 0 then [s.noundersDAO] else [])
    ++ [s.minter]

/-- What a call has to keep to for the subgraph to follow it. -/
def Trackable (v : View) (sender : Address) (s : NounsToken) : TokenCall → Prop
  | .mint => (∀ dst ∈ receivers s, s.delegates dst = dst) ∧ CreatorApart s
  | .transferFrom _ dst _ | .safeTransferFrom _ dst _ => s.delegates dst = dst
  | .delegate d => FreshName s sender (if d = 0 then sender else d)
  | .delegateBySig d nonce expiry sig => d ≠ 0 ∧ FreshName s (v.recover ⟨d, nonce, expiry⟩ sig) d
  | _ => True

theorem nextNounId_frame (h : s.nextNounId = .ok s₁) :
    s₁.noundersDAO = s.noundersDAO ∧ s₁.minter = s.minter := by
  simp only [NounsToken.nextNounId, bind_ok] at h
  obtain ⟨_, _, h⟩ := h
  obtain rfl := Except.ok.inj h
  exact ⟨rfl, rfl⟩

/-- One `_mintTo` of `mint`. -/
theorem Followed.mintTo (h : Followed s) (hn : s.nextNounId = .ok s₁)
    (hm : s₁.mintTo_ m dst s.currentNounId_ = .ok s') (hdst : s.delegates dst = dst)
    (hc : CreatorApart s) :
    Followed s' ∧ CreatorApart s' ∧ s'.delegates = s.delegates ∧ s'.minter = s.minter := by
  obtain ⟨seed, s₂, hminted, rfl⟩ := mintTo_shape hn hm
  obtain ⟨_, _, _, _, _, _, _, hbook⟩ := hminted.book
  refine ⟨(h.mint hminted hdst hc).configure (configured_emit rfl), ?_, ?_, ?_⟩
  · have hapart := hc.mint hminted hdst
    rcases hapart with ho | hd | ⟨hb, hno⟩
    · exact .inl ho
    · exact .inr (.inl hd)
    · refine .inr (.inr ⟨hb, ?_⟩)
      intro n hmem
      rcases List.mem_append.mp hmem with hmem | hmem
      · exact hno n hmem
      · simp at hmem
  · funext a
    rw [hbook]
    rfl
  · rw [hbook]
    rfl

/-- **A trackable call is followed.** -/
theorem Followed.call (h : Followed s) {c : TokenCall} (hs : s.call m c = .ok s')
    (ht : Trackable m.view m.sender s c) : Followed s' := by
  by_cases hconf : isConfig c = true
  · exact h.configure (config_configured hconf hs)
  · cases c with
    | mint =>
        obtain ⟨hdst, hc⟩ := ht
        simp only [NounsToken.call, NounsToken.mint, bind_ok] at hs
        obtain ⟨⟨s₃, id⟩, ⟨_, _, s₁, h₁, s₂, h₂, s₃', h₃, hpair⟩, hs⟩ := hs
        obtain rfl := Except.ok.inj hs
        obtain ⟨rfl, rfl⟩ := Prod.mk.inj (Except.ok.inj hpair)
        -- every tenth Noun up to 1820 comes with one for the nounders
        have hreward : Followed s₁ ∧ CreatorApart s₁ ∧ s₁.delegates = s.delegates
            ∧ s₁.minter = s.minter := by
          unfold NounsToken.mintReward at h₁
          split at h₁
          · rename_i hdue
            simp only [bind_ok] at h₁
            obtain ⟨_, hn, h₁⟩ := h₁
            refine h.mintTo hn h₁ ?_ hc
            rw [(nextNounId_frame hn).1]
            exact hdst s.noundersDAO (by simp [receivers, hdue])
          · obtain rfl := Except.ok.inj h₁
            exact ⟨h, hc, rfl, rfl⟩
        obtain ⟨hf, hc', hdel, hmin⟩ := hreward
        refine (hf.mintTo h₂ h₃ ?_ hc').1
        rw [hdel, (nextNounId_frame h₂).2, hmin]
        exact hdst s.minter (by simp [receivers])
    | burn id =>
        simp only [NounsToken.call, NounsToken.burn, bind_ok] at hs
        obtain ⟨_, _, s₁, h₁, hs⟩ := hs
        obtain rfl := Except.ok.inj hs
        exact (h.burn (burn_shape h₁)).configure (configured_emit rfl)
    | transferFrom src dst id => exact h.transfer (transferFrom_shape hs) ht
    | safeTransferFrom src dst id => exact h.transfer (transferFrom_shape hs) ht
    | delegate d =>
        have hr := delegate_shape hs
        refine h.redelegate hr ?_ ht
        split
        · exact hr.delegator_ne
        · assumption
    | delegateBySig d nonce expiry sig =>
        obtain ⟨nonces, hr⟩ := delegateBySig_shape hs
        exact Followed.redelegate (s := { s with nonces := nonces }) h hr ht.1 ht.2
    | _ => exact absurd rfl hconf

/-! ## Along every history -/

/-- The subgraph's delegations are the token's. -/
structure DelegationsMirrored (s : NounsToken) (st : Store) : Prop where
  /-- `Delegate(d).nounsRepresented` -/
  represented : ∀ d, d ≠ 0 → (st.delegate d).nounsRepresented.Nodup
    ∧ ∀ n, n ∈ (st.delegate d).nounsRepresented
      ↔ ∃ o, s.ownerOf n = .ok o ∧ s.delegates o = d
  /-- `Account(o).delegate` of a holder. -/
  named : ∀ o, o ≠ 0 → 0 < s.balances_ o → (st.account o).delegate = some (s.delegates o)

theorem Followed.mirrored (h : Followed s) : DelegationsMirrored s (.afterToken s.logs) := by
  have hholders := h.lists.holders
  have hnamed : ∀ n, s.owners_ n ≠ 0 →
      ((Store.afterToken s.logs).account (s.owners_ n)).delegate
        = some (s.delegates (s.owners_ n)) :=
    fun n hn => h.named _ hn (hholders.raw_pos hn)
  refine ⟨fun d hd => ⟨h.lists.nodup d hd, fun n => (h.lists.mem d hd n).trans ?_⟩,
    fun o ho hpos => h.named o ho ?_⟩
  · constructor
    · intro hin
      obtain ⟨hn, hsome⟩ := hin
      have hsame := (hnamed n hn).symm.trans hsome
      exact ⟨s.owners_ n, ownerOf_ok.mpr ⟨hn, rfl⟩, Option.some.inj hsame⟩
    · intro hin
      obtain ⟨o, hown, rfl⟩ := hin
      obtain ⟨ho, rfl⟩ := ownerOf_ok.mp hown
      exact ⟨ho, hnamed n ho⟩
  · have hraw := hholders.raw o ho
    have : s.register.balances o = s.balances_ o := rfl
    omega

/-- The condition on the steps of a history: every call is trackable. -/
def Tracked : Config TokenWorld TokenFrame → Label TokenTx TokenFrame Block → Prop
  | x, .enter tx => Trackable tx.view tx.sender x.world.token tx.call
  | _, _ => True

theorem followed_deploy {owner noundersDAO minter descriptor seeder : Address} :
    Followed (.deploy owner noundersDAO minter descriptor seeder) := by
  have hempty : DelegatesAgree [] .blank .empty := by
    refine ⟨⟨holdersAgree_empty, fun _ _ => List.nodup_nil, ?_⟩, ?_⟩
    · intro d _ n
      simp [Store.delegate, Store.empty, Delegate.new, Register.blank]
    · intro o _ hpos
      simp [Store.account, Store.empty, Account.new] at hpos
  exact hempty.other rfl

/--
**Delegations.** In every history whose calls are all trackable the subgraph has, after all
events logged so far, each delegate with the Nouns of those it represents, every one once,
and each holder with its delegate.
-/
theorem delegations_mirrored (g : Genesis) (x : Config TokenWorld TokenFrame)
    (hx : tokenMachine.Runs Tracked ⟨g.world, []⟩ x) :
    DelegationsMirrored x.world.token (.afterToken x.world.token.logs) :=
  ((tokenMachine_keeps (I := fun _ s => Followed s) (fun hI hs hP => hI.call hs hP)
    (fun _ hI => hI)).runs hx followed_deploy).mirrored

/-- A simple check that implies trackable. -/
def plainlyTracked : Config TokenWorld TokenFrame → Label TokenTx TokenFrame Block → Bool
  | x, .enter ⟨_, _, .mint⟩ =>
      (receivers x.world.token).all (fun dst => x.world.token.delegates dst = dst)
        && x.world.token.delegates x.world.token.owner = x.world.token.owner
  | x, .enter ⟨_, _, .transferFrom _ dst _⟩ => x.world.token.delegates dst = dst
  | x, .enter ⟨sender, _, .delegate d⟩ => d ≠ 0 && x.world.token.delegates sender ≠ d
      && x.world.token.logs.all (fun e => !sendsItself sender e)
  | _, .enter ⟨_, _, .safeTransferFrom ..⟩ | _, .enter ⟨_, _, .delegateBySig ..⟩ => false
  | _, _ => true

theorem plainlyTracked_tracked (x : Config TokenWorld TokenFrame)
    (l : Label TokenTx TokenFrame Block) (h : plainlyTracked x l = true) : Tracked x l := by
  cases l with
  | enter tx =>
      obtain ⟨sender, view, call⟩ := tx
      cases call with
      | mint =>
          simp only [plainlyTracked, Bool.and_eq_true, List.all_eq_true, decide_eq_true_eq] at h
          exact ⟨h.1, .inr (.inl h.2)⟩
      | transferFrom src dst id =>
          show x.world.token.delegates dst = dst
          exact of_decide_eq_true h
      | delegate d =>
          simp only [plainlyTracked, Bool.and_eq_true, List.all_eq_true, decide_eq_true_eq] at h
          obtain ⟨⟨hd, hne⟩, hself⟩ := h
          show FreshName _ _ _
          rw [if_neg hd]
          refine .inr ⟨hne, ?_⟩
          intro n _ hin
          obtain ⟨before, after, heq, -⟩ := hin
          have hno := hself (.transfer sender sender n) (by rw [heq]; simp)
          simp [sendsItself] at hno
      | safeTransferFrom | delegateBySig => exact absurd h (by simp [plainlyTracked])
      | _ => exact trivial
  | _ => exact trivial

/-- Account 2 gives Noun 0 to account 4, which then names account 7. -/
def gatherAndName : List (Machine.Move TokenTx Block) :=
  [.enter (smallTx (.ofNat 4) .mint),
    .enter (smallTx (.ofNat 2) (.transferFrom (.ofNat 2) (.ofNat 4) 0)),
    .enter (smallTx (.ofNat 4) (.delegate (.ofNat 7)))]

/-- Account 7 then represents both Nouns. -/
theorem delegations_mirrored_gatherAndName :
    ∃ x, tokenMachine.Runs Tracked ⟨smallGenesis.world, []⟩ x
      ∧ ((Store.afterToken x.world.token.logs).delegate (.ofNat 7)).nounsRepresented = [1, 0]
      ∧ x.world.token.ownerOf 0 = .ok (.ofNat 4)
      ∧ ((Store.afterToken x.world.token.logs).account (.ofNat 4)).delegate
        = some (x.world.token.delegates (.ofNat 4)) := by
  obtain ⟨x, hx, hp⟩ := Machine.script_exists (M := tokenMachine) plainlyTracked_tracked
    (x := ⟨smallGenesis.world, []⟩) (m := gatherAndName)
    (p := fun x =>
      ((Store.afterToken x.world.token.logs).delegate (.ofNat 7)).nounsRepresented = [1, 0]
      ∧ (x.world.token.ownerOf 0).toOption = some (.ofNat 4)
      ∧ 0 < x.world.token.balances_ (.ofNat 4)) (by decide +kernel)
  obtain ⟨hlist, hown, hpos⟩ := of_decide_eq_true hp
  exact ⟨x, hx, hlist, toOption_some.mp hown,
    (delegations_mirrored smallGenesis x hx).named _ (by decide) hpos⟩

/-- Account 4 names account 7, and then account 2 gives it Noun 0. -/
def nameAndGather : List (Machine.Move TokenTx Block) :=
  [.enter (smallTx (.ofNat 4) .mint),
    .enter (smallTx (.ofNat 4) (.delegate (.ofNat 7))),
    .enter (smallTx (.ofNat 2) (.transferFrom (.ofNat 2) (.ofNat 4) 0))]

/-- The other way round, the subgraph has Noun 0 with account 4, which does not represent it. -/
theorem delegations_mirrored_nameAndGather :
    ∃ x, TokenRuns smallGenesis x ∧ x.world.token.ownerOf 0 = .ok (.ofNat 4)
      ∧ x.world.token.delegates (.ofNat 4) = .ofNat 7
      ∧ ((Store.afterToken x.world.token.logs).delegate (.ofNat 4)).nounsRepresented = [0]
      ∧ ((Store.afterToken x.world.token.logs).delegate (.ofNat 7)).nounsRepresented = [1]
      ∧ ¬ DelegationsMirrored x.world.token (.afterToken x.world.token.logs) := by
  obtain ⟨x, hx, hp⟩ := Machine.script_exists (M := tokenMachine) Machine.anything_free
    (x := ⟨smallGenesis.world, []⟩) (m := nameAndGather)
    (p := fun x => (x.world.token.ownerOf 0).toOption = some (.ofNat 4)
      ∧ x.world.token.delegates (.ofNat 4) = .ofNat 7
      ∧ ((Store.afterToken x.world.token.logs).delegate (.ofNat 4)).nounsRepresented = [0]
      ∧ ((Store.afterToken x.world.token.logs).delegate (.ofNat 7)).nounsRepresented = [1])
    (by decide +kernel)
  obtain ⟨hown, hdel, hfour, hseven⟩ := of_decide_eq_true hp
  have hown' := toOption_some.mp hown
  refine ⟨x, hx, hown', hdel, hfour, hseven, ?_⟩
  intro hm
  have hmem := ((hm.represented (.ofNat 7) (by decide)).2 0).mpr ⟨_, hown', hdel⟩
  rw [hseven] at hmem
  exact absurd hmem (by decide)

end Proof

end Nouns
