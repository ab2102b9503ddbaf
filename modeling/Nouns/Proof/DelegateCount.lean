import Nouns.Proof.HolderMirror
import Nouns.Proof.SourceHandlers

/-!
# The number of delegates

`getOrCreateDelegate` counts a new delegate in a copy of the governance entity of its own.
Two handlers have loaded theirs before they call it and save it afterwards, and what was
counted in between is gone. So a delegate is counted unless one of these is the first
handler to come across it, and the number is right if that happens to none.
-/

namespace Nouns

open Evm EventLog CallMachine Subgraph

namespace Subgraph

namespace Store

variable {st st' : Store} {a d : Address} {g : Governance} {id : Nat}

/-- The delegates with a non-zero address that exist in the store. -/
def savedDelegates (st : Store) : Finset Address :=
  Finset.univ.filter fun d => d ≠ 0 ∧ (st.delegates d).isSome

/-- `governance.totalDelegates` -/
def totalDelegates (st : Store) : Int := st.getGovernanceEntity.totalDelegates

/-- How many delegates exist that were not counted. -/
def uncounted (st : Store) : Int := st.savedDelegates.card - st.totalDelegates

@[simp] theorem mem_savedDelegates : d ∈ st.savedDelegates ↔ d ≠ 0 ∧ (st.delegates d).isSome := by
  simp [savedDelegates]

/-! ## Handlers that count -/

/-- The delegates `ds` are there now, and the new ones among them were counted. -/
structure Gains (ds : Address → Prop) (st st' : Store) : Prop where
  saved : ∀ x, (st'.delegates x).isSome ↔ (st.delegates x).isSome ∨ ds x
  counted : st'.uncounted = st.uncounted

/-- Nothing about delegates changed but what is stored of them. -/
theorem Gains.none (hs : ∀ x, (st'.delegates x).isSome ↔ (st.delegates x).isSome)
    (ht : st'.totalDelegates = st.totalDelegates) : Gains (fun _ => False) st st' := by
  refine ⟨fun x => by rw [hs, or_false], ?_⟩
  have hsame : st'.savedDelegates = st.savedDelegates := by
    ext x
    rw [mem_savedDelegates, mem_savedDelegates, hs]
  unfold uncounted
  rw [hsame, ht]

theorem Gains.trans {ds ds' : Address → Prop} {st'' : Store} (h : Gains ds st st')
    (h' : Gains ds' st' st'') : Gains (fun x => ds x ∨ ds' x) st st'' :=
  ⟨fun x => by rw [h'.saved, h.saved, or_assoc], h'.counted.trans h.counted⟩

theorem Gains.congr {ds ds' : Address → Prop} (h : Gains ds st st') (hds : ∀ x, ds x ↔ ds' x) :
    Gains ds' st st' :=
  ⟨fun x => by rw [h.saved, hds], h.counted⟩

theorem getOrCreateAccount_frame : (st.getOrCreateAccount a).2.delegates = st.delegates
    ∧ (st.getOrCreateAccount a).2.governance = st.governance := by
  unfold getOrCreateAccount
  split
  · exact ⟨rfl, rfl⟩
  · exact ⟨rfl, rfl⟩

theorem gains_getOrCreateAccount : Gains (fun _ => False) st (st.getOrCreateAccount a).2 := by
  unfold getOrCreateAccount
  split
  · exact .none (fun _ => Iff.rfl) rfl
  · exact .none (fun _ => Iff.rfl) rfl

/-- A delegate that is got is there, and counted if it is new. -/
theorem gains_getOrCreateDelegate : Gains (fun x => x = d) st (st.getOrCreateDelegate d).2 := by
  unfold getOrCreateDelegate
  cases hd : st.delegates d with
  | some e =>
      refine ⟨fun x => ⟨.inl, fun h => h.elim id ?_⟩, rfl⟩
      intro heq
      subst heq
      simp [hd]
  | none =>
      have hsaved : ∀ (st : Store) (x : Address), ((st.saveDelegate d .new).delegates x).isSome
          ↔ (st.delegates x).isSome ∨ x = d := fun st x => by
        by_cases hx : x = d
        · subst hx
          simp [saveDelegate]
        · simp [saveDelegate, hx]
      by_cases h0 : d = 0
      · -- the zero address is not counted, nor meant to be
        simp only [h0, ne_eq, not_true_eq_false, if_false]
        rw [← h0]
        refine ⟨hsaved st, ?_⟩
        have hsame : (st.saveDelegate d .new).savedDelegates = st.savedDelegates := by
          ext x
          rw [mem_savedDelegates, mem_savedDelegates, hsaved]
          exact and_congr_right fun hx => or_iff_left fun hxd => hx (hxd.trans h0)
        unfold uncounted
        rw [hsame]
        rfl
      · simp only [ne_eq, h0, not_false_eq_true, if_true]
        refine ⟨hsaved _, ?_⟩
        have hmore : ((st.saveGovernance { st.getGovernanceEntity with
              totalDelegates := st.getGovernanceEntity.totalDelegates + 1 }).saveDelegate d .new
            ).savedDelegates = insert d st.savedDelegates := by
          ext x
          rw [Finset.mem_insert, mem_savedDelegates, mem_savedDelegates, hsaved]
          by_cases hx : x = d
          · subst hx
            simp [h0]
          · simp [hx, saveGovernance]
        have hnew : d ∉ st.savedDelegates := by simp [hd]
        unfold uncounted
        rw [hmore, Finset.card_insert_of_notMem hnew]
        show ((st.savedDelegates.card + 1 : Nat) : Int) - (st.totalDelegates + 1) = _
        omega

/-- What is stored of a delegate that is there may change. -/
theorem Gains.saveDelegate {ds : Address → Prop} (h : Gains ds st st') (hd : ds d) {e : Delegate} :
    Gains ds st (st'.saveDelegate d e) := by
  have hthere : (st'.delegates d).isSome := (h.saved d).mpr (.inr hd)
  have hsave : Gains (fun _ => False) st' (st'.saveDelegate d e) := by
    refine .none ?_ rfl
    intro x
    by_cases hx : x = d
    · subst hx
      simpa [Store.saveDelegate] using hthere
    · simp [Store.saveDelegate, hx]
  exact (h.trans hsave).congr fun x => by rw [or_false]

/-- Changes of accounts and proposals are none of delegates. -/
theorem Gains.same {ds : Address → Prop} (h : Gains ds st st') {st'' : Store}
    (hd : st''.delegates = st'.delegates) (hg : st''.governance = st'.governance) :
    Gains ds st st'' := by
  have hnone : Gains (fun _ => False) st' st'' :=
    .none (fun x => by rw [hd]) (by unfold totalDelegates getGovernanceEntity; rw [hg])
  exact (h.trans hnone).congr fun x => by rw [or_false]

theorem Gains.saveAccount {ds : Address → Prop} (h : Gains ds st st') {e : Account} :
    Gains ds st (st'.saveAccount a e) := h.same rfl rfl

theorem Gains.saveProposal {ds : Address → Prop} (h : Gains ds st st') {e : Proposal} :
    Gains ds st (st'.saveProposal id e) := h.same rfl rfl

theorem Gains.saveVote {ds : Address → Prop} (h : Gains ds st st') {e : Vote} :
    Gains ds st (st'.saveVote (a, id) e) := h.same rfl rfl

theorem gains_handleDelegateChanged {o from_ : Address} :
    Gains (fun x => x = from_ ∨ x = d) st (st.handleDelegateChanged o from_ d) := by
  have h₁ : Gains _ st (st.getOrCreateAccount o).2 := gains_getOrCreateAccount
  have h₂ := h₁.trans (gains_getOrCreateDelegate (d := from_))
  have h₃ := h₂.trans (gains_getOrCreateDelegate (d := d))
  have hall : Gains (fun x => x = from_ ∨ x = d) st _ := h₃.congr fun x => by simp
  exact (hall.saveAccount.saveDelegate (.inl rfl)).saveDelegate (.inr rfl)

theorem gains_getOrCreateProposal : Gains (fun _ => False) st (st.getOrCreateProposal id).2 := by
  unfold getOrCreateProposal
  split
  · exact .none (fun _ => Iff.rfl) rfl
  · exact .none (fun _ => Iff.rfl) rfl

/-- Another copy of the governance entity may be saved if it has the same number. -/
theorem Gains.saveGovernance {ds : Address → Prop} (h : Gains ds st st')
    (hg : g.totalDelegates = st'.totalDelegates) : Gains ds st (st'.saveGovernance g) := by
  have hsave : Gains (fun _ => False) st' (st'.saveGovernance g) := .none (fun _ => Iff.rfl) hg
  exact (h.trans hsave).congr fun x => by rw [or_false]

theorem total_getOrCreateProposal :
    (st.getOrCreateProposal id).2.totalDelegates = st.totalDelegates := by
  unfold getOrCreateProposal
  split <;> rfl

/-- Whose delegate a handler of the DAO's events gets. -/
def metByDAO (x : Address) : DAOEvent → Bool
  | .proposalCreatedWithRequirements _ proposer .. => x = proposer
  | .voteCast voter .. => x = voter
  | _ => false

/-- The handlers of the DAO's events count. -/
theorem gains_handleDAOEvent {block : Block} {e : DAOEvent} :
    Gains (fun x => metByDAO x e = true) st (st.handleDAOEvent block e) := by
  cases e with
  | proposalCreatedWithRequirements id proposer =>
      have hproposal : Gains _ st (st.getOrCreateProposal id).2 := gains_getOrCreateProposal
      have h := hproposal.trans (gains_getOrCreateDelegate (d := proposer))
      exact (h.saveProposal).congr fun x => by simp [metByDAO]
  | voteCast voter id support votes reason =>
      have hproposal : Gains _ st (st.getOrCreateProposal id).2 := gains_getOrCreateProposal
      have h := hproposal.trans (gains_getOrCreateDelegate (d := voter))
      have hvote : Gains (fun x => False ∨ x = voter) st
          (st.handleVoteCast voter id support votes reason) := by
        unfold handleVoteCast
        dsimp only
        split
        · exact h.saveVote.saveProposal
        · exact h.saveVote
      exact hvote.congr fun x => by simp [metByDAO]
  | proposalCanceled id | proposalVetoed id =>
      have hproposal : Gains _ st (st.getOrCreateProposal id).2 := gains_getOrCreateProposal
      exact hproposal.saveProposal.congr fun x => by simp [metByDAO]
  | proposalQueued id | proposalExecuted id =>
      refine Gains.congr (Gains.saveGovernance gains_getOrCreateProposal.saveProposal ?_) fun x => by
        simp [metByDAO]
      exact total_getOrCreateProposal.symm
  | _ => exact (Gains.none (fun _ => Iff.rfl) rfl).congr fun x => by simp [metByDAO]

/-! ## Handlers that save an old copy -/

/-- The delegates `ds` are there now, and none was counted. -/
structure Misses (ds : Address → Prop) (st st' : Store) : Prop where
  saved : ∀ x, (st'.delegates x).isSome ↔ (st.delegates x).isSome ∨ ds x
  total : st'.totalDelegates = st.totalDelegates

theorem misses_handleDelegateVotesChanged {prev new : Nat} :
    Misses (fun x => x = d) st (st.handleDelegateVotesChanged d prev new) := by
  have hgot : Gains _ st (st.getOrCreateDelegate d).2 := gains_getOrCreateDelegate
  have h := hgot.saveDelegate rfl
    (e := { (st.getOrCreateDelegate d).1 with delegatedVotesRaw := new, delegatedVotes := new })
  refine ⟨fun x => h.saved x, ?_⟩
  unfold handleDelegateVotesChanged
  dsimp only
  split <;> split <;> rfl

/-- Nothing new is there, and a copy of the governance entity in hand has the number. -/
structure InStep (st : Store) (g : Governance) (st' : Store) : Prop where
  saved : ∀ x, (st'.delegates x).isSome ↔ (st.delegates x).isSome
  total : st'.totalDelegates = st.totalDelegates
  copy : g.totalDelegates = st.totalDelegates

theorem InStep.countHolder (h : InStep st g st') (prev bal : Int) :
    InStep st (countHolder prev bal g st').1 (countHolder prev bal g st').2 := by
  unfold Store.countHolder
  split
  · exact ⟨h.saved, h.copy, h.copy⟩
  · split
    · exact ⟨h.saved, h.copy, h.copy⟩
    · exact h

theorem InStep.saveGovernance {g' : Governance} (h : InStep st g st')
    (hg : g'.totalDelegates = g.totalDelegates) : InStep st g' (st'.saveGovernance g') :=
  ⟨h.saved, hg.trans h.copy, hg.trans h.copy⟩

/-- The sender's delegate is there already. -/
theorem InStep.unrepresent (h : InStep st g st') {named : Option Address}
    (hnamed : ∀ x, named = some x → (st.delegates x).isSome) :
    InStep st g (st'.unrepresent named id) := by
  cases named with
  | none => exact h
  | some D =>
      have hD : (st'.delegates D).isSome := (h.saved D).mpr (hnamed D rfl)
      obtain ⟨e, he⟩ := Option.isSome_iff_exists.mp hD
      have hgot : st'.getOrCreateDelegate D = (e, st') := by
        unfold getOrCreateDelegate
        rw [he]
      simp only [Store.unrepresent, hgot]
      refine ⟨?_, h.total, h.copy⟩
      intro x
      rw [← h.saved]
      by_cases hx : x = D
      · subst hx
        simpa [saveDelegate] using hD
      · simp [saveDelegate, hx]

theorem InStep.handleSender (h : InStep st g st') {src : Address} {holder : Account}
    (hnamed : ∀ x, holder.delegate = some x → (st.delegates x).isSome) :
    InStep st (st'.handleSender src id holder g).1 (st'.handleSender src id holder g).2 := by
  have hleft : InStep st g (st'.unrepresent holder.delegate id) := h.unrepresent hnamed
  have hcounted := hleft.countHolder holder.tokenBalanceRaw (holder.tokenBalanceRaw - 1)
  exact ⟨hcounted.saved, hcounted.total, hcounted.copy⟩

theorem delegates_countHolder (prev bal : Int) :
    (countHolder prev bal g st).2.delegates = st.delegates := by
  unfold countHolder
  split
  · rfl
  · split <;> rfl

/-- A receiver that is no delegate yet holds nothing yet, so the old copy is saved. -/
theorem InStep.handleReceiver (h : InStep st g st') {dst : Address} {holder : Account}
    (hnew : (st.delegates dst).isSome ∨ holder.tokenBalanceRaw = 0) :
    Misses (fun x => x = dst) st (st'.handleReceiver dst id holder g) := by
  let listed : Delegate := { (st'.getOrCreateDelegate dst).1 with
    nounsRepresented := (st'.getOrCreateDelegate dst).1.nounsRepresented ++ [id] }
  let st₁ : Store := (st'.getOrCreateDelegate dst).2.saveDelegate dst listed
  let counted := Store.countHolder holder.tokenBalanceRaw (holder.tokenBalanceRaw + 1) g st₁
  have hgains : Gains (fun x => x = dst) st' st₁ := gains_getOrCreateDelegate.saveDelegate rfl
  refine ⟨?_, ?_⟩
  · intro x
    have hsaved : (st'.handleReceiver dst id holder g).delegates = st₁.delegates :=
      delegates_countHolder holder.tokenBalanceRaw (holder.tokenBalanceRaw + 1)
    rw [hsaved, hgains.saved, h.saved]
  · show counted.2.totalDelegates = st.totalDelegates
    by_cases hold : (st'.delegates dst).isSome
    · -- nothing is created
      obtain ⟨e, he⟩ := Option.isSome_iff_exists.mp hold
      have hgot : (st'.getOrCreateDelegate dst).2 = st' := by
        unfold getOrCreateDelegate
        rw [he]
      have hstep : InStep st g st₁ := by
        refine ⟨?_, ?_, h.copy⟩
        · intro x
          rw [hgains.saved, h.saved]
          exact or_iff_left_of_imp fun hx => (h.saved x).mp (hx ▸ hold)
        · show (st'.getOrCreateDelegate dst).2.totalDelegates = _
          rw [hgot]
          exact h.total
      exact (hstep.countHolder _ _).total
    · have hzero : holder.tokenBalanceRaw = 0 :=
        hnew.resolve_left fun hd => hold ((h.saved dst).mpr hd)
      have hcounted : counted = ({ g with currentTokenHolders := g.currentTokenHolders + 1 },
          st₁.saveGovernance { g with currentTokenHolders := g.currentTokenHolders + 1 }) := by
        simp [counted, Store.countHolder, hzero]
      rw [hcounted]
      exact h.copy

/-- A transfer counts nobody, if senders' delegates and holders are there already. -/
theorem misses_handleTransfer {src dst : Address}
    (hnamed : ∀ x, (st.account src).delegate = some x → (st.delegates x).isSome)
    (hnew : (st.delegates dst).isSome ∨ (st.account dst).tokenBalanceRaw = 0) :
    Misses (fun x => x = dst) st (st.handleTransfer src dst id) := by
  obtain ⟨st₁, h₁, hs₁⟩ := st.getOrCreateAccount_spec (a := src)
  obtain ⟨st₂, h₂, -⟩ := st₁.getOrCreateAccount_spec (a := dst)
  rw [hs₁.account] at h₂
  have hstart : InStep st st₂.getGovernanceEntity st₂ := by
    have hf₁ := st.getOrCreateAccount_frame (a := src)
    have hf₂ := st₁.getOrCreateAccount_frame (a := dst)
    rw [h₁] at hf₁
    rw [h₂] at hf₂
    have hgov : st₂.governance = st.governance := hf₂.2.trans hf₁.2
    have htotal : st₂.totalDelegates = st.totalDelegates := by
      unfold totalDelegates getGovernanceEntity
      rw [hgov]
    exact ⟨fun x => by rw [hf₂.1, hf₁.1], htotal, htotal⟩
  -- up to the receiver, the entity that was loaded first and the stored one stay in step
  have hsender : ∃ g₃ st₃,
      (if src = 0 then
        (({ st₂.getGovernanceEntity with
            totalTokenHolders := st₂.getGovernanceEntity.totalTokenHolders + 1 } : Governance),
          st₂.saveGovernance { st₂.getGovernanceEntity with
            totalTokenHolders := st₂.getGovernanceEntity.totalTokenHolders + 1 })
      else st₂.handleSender src id (st.account src) st₂.getGovernanceEntity) = (g₃, st₃)
      ∧ InStep st g₃ st₃ := by
    by_cases hsrc : src = 0
    · rw [if_pos hsrc]
      exact ⟨_, _, rfl, hstart.saveGovernance rfl⟩
    · rw [if_neg hsrc]
      exact ⟨_, _, rfl, hstart.handleSender hnamed⟩
  obtain ⟨g₃, st₃, h₃, hin₃⟩ := hsender
  have hburn : ∃ g₄ st₄,
      (if dst = 0 then
        (({ g₃ with totalTokenHolders := g₃.totalTokenHolders - 1 } : Governance),
          st₃.saveGovernance { g₃ with totalTokenHolders := g₃.totalTokenHolders - 1 })
      else (g₃, st₃)) = (g₄, st₄)
      ∧ InStep st g₄ st₄ := by
    by_cases hdst : dst = 0
    · rw [if_pos hdst]
      exact ⟨_, _, rfl, hin₃.saveGovernance rfl⟩
    · rw [if_neg hdst]
      exact ⟨_, _, rfl, hin₃⟩
  obtain ⟨g₄, st₄, h₄, hin₄⟩ := hburn
  have heq : st.handleTransfer src dst id = st₄.handleReceiver dst id (st.account dst) g₄ := by
    unfold handleTransfer
    simp only [h₁, h₂, h₃, h₄]
  rw [heq]
  exact hin₄.handleReceiver hnew

end Store

/-! ## Who is counted -/

/-- Whether the handler of an event gets the delegate `d`, other than a sender's. -/
def meets (d : Address) : SourceEvent → Bool
  | .token (.delegateChanged _ fromDelegate toDelegate) => d = fromDelegate ∨ d = toDelegate
  | .token (.delegateVotesChanged delegate _ _) => d = delegate
  | .token (.transfer _ dst _) => d = dst
  | .token _ => false
  | .house _ => false
  | .dao e => Store.metByDAO d e

/-- Whether the handler of an event saves a governance entity it loaded before it got a delegate. -/
def savesOldCopy : SourceEvent → Bool
  | .token (.delegateVotesChanged ..) | .token (.transfer ..) => true
  | _ => false

/-- The first event whose handler gets the delegate `d` is a `DelegateVotesChanged` or a `Transfer`. -/
def MetLate (logs : List (EthTransaction × SourceEvent)) (d : Address) : Prop :=
  ((logs.find? fun e => meets d e.2).any fun e => savesOldCopy e.2) = true

instance (logs : List (EthTransaction × SourceEvent)) (d : Address) : Decidable (MetLate logs d) :=
  inferInstanceAs (Decidable (_ = true))

end Subgraph

namespace Proof

open Store

variable {L : List (EthTransaction × SourceEvent)} {tx : EthTransaction} {e : SourceEvent}
  {r r' : Register} {st st' : Store} {d : Address}

/-- The delegates that are not counted. -/
def lateDelegates (L : List (EthTransaction × SourceEvent)) : Finset Address :=
  Finset.univ.filter fun d => d ≠ 0 ∧ MetLate L d

theorem mem_lateDelegates : d ∈ lateDelegates L ↔ d ≠ 0 ∧ MetLate L d := by
  simp [lateDelegates]

/-- What the store has of delegates, and what it counts. -/
structure DelegatesCounted (L : List (EthTransaction × SourceEvent)) (r : Register) (st : Store) :
    Prop where
  holders : HoldersAgree (tokenEvents L) r st
  saved : ∀ x, (st.delegates x).isSome ↔ ∃ e ∈ L, meets x e.2 = true
  named : ∀ a x, (st.account a).delegate = some x → (st.delegates x).isSome
  held : ∀ a, 0 < (st.account a).tokenBalanceRaw → (st.delegates a).isSome
  counted : st.uncounted = (lateDelegates L).card

theorem met_of_find {first : EthTransaction × SourceEvent}
    (h : (L.find? fun e => meets d e.2) = some first) : ∃ e ∈ L, meets d e.2 = true := by
  have hfirst := List.find?_some h
  exact ⟨first, List.mem_of_find?_eq_some h, hfirst⟩

/-- Being met late is decided by the first event. -/
theorem metLate_snoc : MetLate (L ++ [(tx, e)]) d
    ↔ MetLate L d ∨ (¬ (∃ e ∈ L, meets d e.2 = true) ∧ meets d e = true ∧ savesOldCopy e = true) := by
  unfold MetLate
  rw [List.find?_append]
  cases hfind : L.find? fun e => meets d e.2 with
  | some first => simp [met_of_find hfind]
  | none =>
      have hnone : ¬ ∃ e ∈ L, meets d e.2 = true := by simpa using hfind
      by_cases hm : meets d e = true
      · simp [hm, hnone]
      · simp [hm]

theorem metLate_met (h : MetLate L d) : ∃ e ∈ L, meets d e.2 = true := by
  unfold MetLate at h
  obtain ⟨first, hfind, -⟩ := (Option.any_eq_true _ _).mp h
  exact met_of_find hfind

/-- Those a handler that counts gets are not late. -/
theorem DelegatesCounted.gains (h : DelegatesCounted L r st) (he : savesOldCopy e = false)
    (hgains : Gains (fun x => meets x e = true) st st') :
    st'.uncounted = (lateDelegates (L ++ [(tx, e)])).card := by
  have hsame : lateDelegates (L ++ [(tx, e)]) = lateDelegates L := by
    ext x
    simp [lateDelegates, metLate_snoc, he]
  rw [hgains.counted, hsame, h.counted]

/-- The new ones another handler gets are late. -/
theorem DelegatesCounted.misses (h : DelegatesCounted L r st) (he : savesOldCopy e = true)
    (hmisses : Misses (fun x => meets x e = true) st st') :
    st'.uncounted = (lateDelegates (L ++ [(tx, e)])).card := by
  let new := Finset.univ.filter fun x => x ≠ 0 ∧ meets x e = true ∧ ¬ (st.delegates x).isSome
  have hnew : ∀ x, x ∈ new ↔ x ≠ 0 ∧ meets x e = true ∧ ¬ (st.delegates x).isSome := fun x => by
    simp [new]
  have hsaved : Disjoint st.savedDelegates new := by
    rw [Finset.disjoint_left]
    intro x hx hn
    exact ((hnew x).mp hn).2.2 (mem_savedDelegates.mp hx).2
  have hlate : Disjoint (lateDelegates L) new := by
    rw [Finset.disjoint_left]
    intro x hx hn
    exact ((hnew x).mp hn).2.2 ((h.saved x).mpr (metLate_met (mem_lateDelegates.mp hx).2))
  have hsaved' : st'.savedDelegates = st.savedDelegates ∪ new := by
    ext x
    rw [Finset.mem_union, mem_savedDelegates, mem_savedDelegates, hnew, hmisses.saved]
    tauto
  have hlate' : lateDelegates (L ++ [(tx, e)]) = lateDelegates L ∪ new := by
    ext x
    rw [Finset.mem_union, mem_lateDelegates, mem_lateDelegates, hnew, metLate_snoc, h.saved]
    tauto
  have hcounted := h.counted
  unfold uncounted at hcounted ⊢
  rw [hsaved', hlate', hmisses.total, Finset.card_union_of_disjoint hsaved,
    Finset.card_union_of_disjoint hlate]
  omega

/-- What an event does about delegates. -/
theorem DelegatesCounted.handles {st : HouseStore} (h : DelegatesCounted L r st.toStore)
    (tx : EthTransaction) (e : SourceEvent) :
    (savesOldCopy e = false
      ∧ Gains (fun x => meets x e = true) st.toStore (st.handle (tx, e)).toStore)
    ∨ (savesOldCopy e = true
      ∧ Misses (fun x => meets x e = true) st.toStore (st.handle (tx, e)).toStore) := by
  cases e with
  | dao event => exact .inl ⟨rfl, gains_handleDAOEvent⟩
  | house event =>
      refine .inl ⟨rfl, ?_⟩
      have hnone : ∀ x, False ↔ meets x (.house event) = true := fun x => by simp [meets]
      rcases st.handleHouseEvent_toStore tx event with heq | ⟨a, heq⟩
      · show Gains _ _ (st.handleHouseEvent tx event).toStore
        rw [heq]
        exact (Gains.none (fun _ => Iff.rfl) rfl).congr hnone
      · show Gains _ _ (st.handleHouseEvent tx event).toStore
        rw [heq]
        exact gains_getOrCreateAccount.congr hnone
  | token event =>
      cases event with
      | delegateChanged o from_ d =>
          exact .inl ⟨rfl, gains_handleDelegateChanged.congr fun x => by simp [meets]⟩
      | delegateVotesChanged d prev new =>
          have hm : Misses _ _ (st.handleDelegateVotesChanged d prev new) :=
            misses_handleDelegateVotesChanged
          exact .inr ⟨rfl, fun x => (hm.saved x).trans (by simp [meets]), hm.total⟩
      | transfer src dst id =>
          -- who holds something is a delegate
          have hnew : (st.delegates dst).isSome ∨ (st.account dst).tokenBalanceRaw = 0 := by
            by_cases hpos : 0 < (st.account dst).tokenBalanceRaw
            · exact .inl (h.held dst hpos)
            · have := h.holders.raw_nonneg dst
              exact .inr (by omega)
          have hm : Misses _ _ (st.handleTransfer src dst id) :=
            misses_handleTransfer (fun x hx => h.named src x hx) hnew
          exact .inr ⟨rfl, fun x => (hm.saved x).trans (by simp [meets]), hm.total⟩
      | nounCreated id seed =>
          have hnone : Gains (fun _ => False) st.toStore (st.handleNounCreated id seed) := by
            unfold handleNounCreated
            dsimp only
            split
            · exact .none (fun _ => Iff.rfl) rfl
            · exact .none (fun _ => Iff.rfl) rfl
          exact .inl ⟨rfl, hnone.congr fun x => by simp [meets]⟩
      | _ => exact .inl ⟨rfl, (Gains.none (fun _ => Iff.rfl) rfl).congr fun x => by simp [meets]⟩

/-- What is stored of an account is only changed by the token's events. -/
theorem handle_account {st : HouseStore} (he : e.token? = none) :
    Sees st.toStore (st.handle (tx, e)).toStore := by
  cases e with
  | token event => simp [SourceEvent.token?] at he
  | dao event => exact sees_handleDAOEvent
  | house event =>
      show Sees _ (st.handleHouseEvent tx event).toStore
      rcases st.handleHouseEvent_toStore tx event with heq | ⟨a, heq⟩
      · rw [heq]
        exact .refl
      · rw [heq]
        obtain ⟨st', hgot, hs⟩ := st.toStore.getOrCreateAccount_spec (a := a)
        rw [hgot]
        exact hs

/-- Holders are not concerned by what the store does not see. -/
theorem HoldersAgree.sees {l : List TokenEvent} (h : HoldersAgree l r st) (hs : Sees st st') :
    HoldersAgree l r st' := by
  refine ⟨h.counts, ?_, ?_, ?_, ?_, ?_, ?_⟩
  · rw [hs.account]
    exact h.raw
  · rw [hs.account]
    exact h.zero
  · rw [hs.account]
    exact h.nouns
  · rw [hs.account]
    exact h.once
  · rw [hs.nounOwner]
    exact h.owner
  · rw [hs.account, hs.counters]
    exact h.holders

/-- A delegate an account names, and a delegate that holds something, was there or is got. -/
theorem DelegatesCounted.names {st : HouseStore} (h : DelegatesCounted L r st.toStore)
    {event : TokenEvent} (a : Address) :
    (∀ x, ((st.handleTokenEvent event).account a).delegate = some x →
      (st.delegates x).isSome ∨ meets x (.token event) = true)
    ∧ (0 < ((st.handleTokenEvent event).account a).tokenBalanceRaw →
      (st.delegates a).isSome ∨ meets a (.token event) = true) := by
  -- most events leave accounts alone
  have hkept : (st.handleTokenEvent event).account = st.account →
      (∀ x, ((st.handleTokenEvent event).account a).delegate = some x →
        (st.delegates x).isSome ∨ meets x (.token event) = true)
      ∧ (0 < ((st.handleTokenEvent event).account a).tokenBalanceRaw →
        (st.delegates a).isSome ∨ meets a (.token event) = true) := by
    intro heq
    rw [heq]
    exact ⟨fun x hx => .inl (h.named a x hx), fun hpos => .inl (h.held a hpos)⟩
  cases event with
  | delegateChanged o from_ d =>
      have hacc := congrFun (st.handleDelegateChanged_spec o from_ d).1 a
      show (∀ x, ((st.handleDelegateChanged o from_ d).account a).delegate = some x → _)
        ∧ (0 < ((st.handleDelegateChanged o from_ d).account a).tokenBalanceRaw → _)
      rw [hacc]
      by_cases ha : a = o
      · subst ha
        rw [Function.update_self]
        refine ⟨fun x hx => .inr ?_, fun hpos => .inl (h.held a hpos)⟩
        obtain rfl := Option.some.inj hx
        simp [meets]
      · rw [Function.update_of_ne ha]
        exact ⟨fun x hx => .inl (h.named a x hx), fun hpos => .inl (h.held a hpos)⟩
  | delegateVotesChanged d prev new => exact hkept (st.handleDelegateVotesChanged_spec d prev new).1
  | transfer src dst id =>
      show (∀ x, ((st.handleTransfer src dst id).account a).delegate = some x → _)
        ∧ (0 < ((st.handleTransfer src dst id).account a).tokenBalanceRaw → _)
      rcases account_transfer st.toStore src dst id a with
        ⟨hd, heq⟩ | ⟨hd, hs, _, heq⟩ | ⟨hd, hs, heq⟩
      · rw [heq]
        refine ⟨?_, fun _ => .inr (by simp [meets, hd])⟩
        intro x hx
        unfold Account.received at hx
        dsimp only at hx
        -- a receiver that held nothing becomes its own delegate, and is met
        split at hx
        · exact .inr (by simp [meets, Option.some.inj hx])
        · exact .inl (h.named dst x hx)
      · rw [heq]
        refine ⟨?_, fun hpos => .inl (h.held a ?_)⟩
        · intro x hx
          unfold Account.sent at hx
          dsimp only at hx
          split at hx
          · cases hx
          · exact .inl (h.named src x hx)
        · rw [Account.sent_raw] at hpos
          rw [hs]
          omega
      · rw [heq]
        exact ⟨fun x hx => .inl (h.named a x hx), fun hpos => .inl (h.held a hpos)⟩
  | _ => exact hkept (handleTokenEvent_other rfl).account

/-- One event, given what it does to holders and to the delegates of accounts. -/
theorem DelegatesCounted.next {st : HouseStore} (h : DelegatesCounted L r st.toStore)
    (hholders : HoldersAgree (tokenEvents (L ++ [(tx, e)])) r' (st.handle (tx, e)).toStore)
    (hnames : ∀ a, (∀ x, ((st.handle (tx, e)).account a).delegate = some x →
        (st.delegates x).isSome ∨ meets x e = true)
      ∧ (0 < ((st.handle (tx, e)).account a).tokenBalanceRaw →
        (st.delegates a).isSome ∨ meets a e = true)) :
    DelegatesCounted (L ++ [(tx, e)]) r' (st.handle (tx, e)).toStore := by
  have hsaved : ∀ x, ((st.handle (tx, e)).delegates x).isSome
      ↔ (st.delegates x).isSome ∨ meets x e = true := by
    rcases h.handles tx e with ⟨-, hgains⟩ | ⟨-, hmisses⟩
    · exact hgains.saved
    · exact hmisses.saved
  refine ⟨hholders, ?_, fun a x hx => (hsaved x).mpr ((hnames a).1 x hx),
    fun a hpos => (hsaved a).mpr ((hnames a).2 hpos), ?_⟩
  · intro x
    rw [hsaved, h.saved]
    simp only [List.mem_append, List.mem_singleton, or_and_right, exists_or, exists_eq_left]
  · rcases h.handles tx e with ⟨he, hgains⟩ | ⟨he, hmisses⟩
    · exact h.gains he hgains
    · exact h.misses he hmisses

theorem DelegatesCounted.token {st : HouseStore} {event : TokenEvent}
    (h : DelegatesCounted L r st.toStore) (ht : Told r event r') :
    DelegatesCounted (L ++ [(tx, .token event)]) r' (st.handle (tx, .token event)).toStore := by
  have hevents : tokenEvents (L ++ [(tx, .token event)]) = tokenEvents L ++ [event] :=
    List.filterMap_append
  refine h.next ?_ h.names
  rw [hevents]
  exact h.holders.step ht

theorem DelegatesCounted.other {st : HouseStore} (h : DelegatesCounted L r st.toStore)
    (he : e.token? = none) :
    DelegatesCounted (L ++ [(tx, e)]) r (st.handle (tx, e)).toStore := by
  have hevents : tokenEvents (L ++ [(tx, e)]) = tokenEvents L := by
    simp [tokenEvents, he]
  have hsees : Sees st.toStore (st.handle (tx, e)).toStore := handle_account he
  refine h.next ?_ ?_
  · rw [hevents]
    exact h.holders.sees hsees
  · intro a
    rw [hsees.account]
    exact ⟨fun x hx => .inl (h.named a x hx), fun hpos => .inl (h.held a hpos)⟩

/-- **Every delegate is counted but the late ones**, after any events in any order. -/
theorem DelegatesCounted.run {L' : List (EthTransaction × SourceEvent)} {st : HouseStore}
    (h : DelegatesCounted L r st.toStore) (ht : Replays Told r (tokenEvents L') r') :
    DelegatesCounted (L ++ L') r' (L'.foldl HouseStore.handle st).toStore := by
  induction L' generalizing L r st with
  | nil =>
      cases ht with
      | nil =>
          rw [List.append_nil]
          exact h
  | cons e L' ih =>
      obtain ⟨tx, e⟩ := e
      rw [List.append_cons]
      cases e with
      | token event =>
          cases ht with
          | cons he ht => exact ih (h.token he) ht
      | house event => exact ih (h.other rfl) ht
      | dao event => exact ih (h.other rfl) ht

theorem delegatesCounted_empty : DelegatesCounted [] .blank Store.empty where
  holders := holdersAgree_empty
  saved := fun _ => by simp [Store.empty]
  named := fun _ _ h => by simp [Store.account, Store.empty, Account.new] at h
  held := fun _ h => by simp [Store.account, Store.empty, Account.new] at h
  counted := by
    have hsaved : savedDelegates Store.empty = ∅ := by
      ext x
      simp [Store.empty]
    have hlate : lateDelegates [] = ∅ := by
      ext x
      simp [mem_lateDelegates, MetLate]
    unfold uncounted
    rw [hsaved, hlate]
    rfl

/--
**When the number of delegates is right.** Whatever the other contracts log in between, and in
whatever order the events come, the number is right exactly if no delegate is first got by
`handleDelegateVotesChanged`, or by `handleTransfer` for a receiver.
-/
theorem totalDelegates_iff (g : Genesis) (x : Config TokenWorld TokenFrame) (hx : TokenRuns g x)
    (logs : List (EthTransaction × SourceEvent)) (hlogs : tokenEvents logs = x.world.token.logs) :
    (HouseStore.afterSources logs).getGovernanceEntity.totalDelegates
        = (HouseStore.afterSources logs).savedDelegates.card
      ↔ ∀ d, d ≠ 0 → ¬ MetLate logs d := by
  have htold : Replays Told .blank (tokenEvents logs) x.world.token.register :=
    hlogs ▸ fullyTold_runs hx
  have hrun : DelegatesCounted ([] ++ logs) _ (HouseStore.afterSources logs).toStore :=
    DelegatesCounted.run delegatesCounted_empty htold
  have hcounted := hrun.counted
  rw [List.nil_append] at hcounted
  have hlate : (lateDelegates logs).card = 0 ↔ ∀ d, d ≠ 0 → ¬ MetLate logs d := by
    rw [Finset.card_eq_zero, Finset.eq_empty_iff_forall_notMem]
    simp only [mem_lateDelegates, not_and]
  rw [← hlate]
  unfold uncounted totalDelegates at hcounted
  omega

/-- The token's events alone, all in one transaction. -/
def asLogged (logs : List TokenEvent) : List (EthTransaction × SourceEvent) :=
  logs.map fun e => (⟨0, 0, ⟨1, 1⟩⟩, .token e)

theorem tokenEvents_asLogged (logs : List TokenEvent) : tokenEvents (asLogged logs) = logs := by
  unfold tokenEvents asLogged
  rw [List.filterMap_map]
  exact List.filterMap_some

/-- The accounts 1, 2 and 4 delegate to themselves before Nouns 0 and 1 are minted. -/
def delegateFirst : List (Machine.Move TokenTx Block) :=
  [.enter (smallTx (.ofNat 1) (.delegate (.ofNat 1))),
    .enter (smallTx (.ofNat 2) (.delegate (.ofNat 2))),
    .enter (smallTx (.ofNat 4) (.delegate (.ofNat 4))),
    .enter (smallTx (.ofNat 4) .mint)]

/-- What they log. -/
def delegateFirstLogs : List TokenEvent :=
  [.ownershipTransferred 0 (.ofNat 1),
    .delegateChanged (.ofNat 1) (.ofNat 1) (.ofNat 1),
    .delegateChanged (.ofNat 2) (.ofNat 2) (.ofNat 2),
    .delegateChanged (.ofNat 4) (.ofNat 4) (.ofNat 4),
    .delegateVotesChanged (.ofNat 2) 0 1, .transfer 0 (.ofNat 1) 0,
    .transfer (.ofNat 1) (.ofNat 2) 0, .nounCreated 0 ⟨0, 0, 0, 0, 0⟩,
    .delegateVotesChanged (.ofNat 4) 0 1, .transfer 0 (.ofNat 1) 1,
    .transfer (.ofNat 1) (.ofNat 4) 1, .nounCreated 1 ⟨0, 0, 0, 0, 0⟩]

/-- Then all are counted. -/
theorem totalDelegates_delegateFirst : ∃ x : Config TokenWorld TokenFrame, TokenRuns smallGenesis x
    ∧ (HouseStore.afterSources (asLogged x.world.token.logs)).getGovernanceEntity.totalDelegates = 3
    ∧ (HouseStore.afterSources (asLogged x.world.token.logs)).savedDelegates.card = 3 := by
  obtain ⟨x, hx, hp⟩ := Machine.script_exists (M := tokenMachine) Machine.anything_free
    (x := ⟨smallGenesis.world, []⟩) (m := delegateFirst)
    (p := fun x => x.world.token.logs = delegateFirstLogs
      ∧ (HouseStore.afterSources
          (asLogged x.world.token.logs)).getGovernanceEntity.totalDelegates = 3)
    (by decide +kernel)
  obtain ⟨hlogs, htotal⟩ := of_decide_eq_true hp
  have hcount := (totalDelegates_iff smallGenesis x hx _ (tokenEvents_asLogged _)).mpr ?_
  · rw [htotal] at hcount
    exact ⟨x, hx, htotal, by omega⟩
  · intro d _
    rw [hlogs]
    unfold MetLate
    by_cases h1 : d = .ofNat 1
    · subst h1
      decide
    · by_cases h2 : d = .ofNat 2
      · subst h2
        decide
      · by_cases h4 : d = .ofNat 4
        · subst h4
          decide
        · simp [asLogged, delegateFirstLogs, meets, h1, h2, h4]

/-- The first mint makes three delegates, and counts none. -/
theorem not_counted_firstMint : ∃ x : Config TokenWorld TokenFrame, TokenRuns smallGenesis x
    ∧ (HouseStore.afterSources (asLogged x.world.token.logs)).getGovernanceEntity.totalDelegates
      ≠ (HouseStore.afterSources (asLogged x.world.token.logs)).savedDelegates.card := by
  obtain ⟨x, hx, hp⟩ := Machine.script_exists (M := tokenMachine) Machine.anything_free
    (x := ⟨smallGenesis.world, []⟩) (m := [.enter (smallTx (.ofNat 4) .mint)])
    (p := fun x =>
      (HouseStore.afterSources
        (asLogged x.world.token.logs)).getGovernanceEntity.totalDelegates = 0
      ∧ ((HouseStore.afterSources
        (asLogged x.world.token.logs)).delegates (.ofNat 4)).isSome)
    (by decide +kernel)
  obtain ⟨htotal, hsaved⟩ := of_decide_eq_true hp
  have hmem : Address.ofNat 4
      ∈ (HouseStore.afterSources (asLogged x.world.token.logs)).savedDelegates :=
    mem_savedDelegates.mpr ⟨by decide, hsaved⟩
  have hpos := Finset.card_pos.mpr ⟨_, hmem⟩
  refine ⟨x, hx, ?_⟩
  rw [htotal]
  omega

end Proof

end Nouns
