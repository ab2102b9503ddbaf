import Nouns.Proof.HandlerEffects

/-!
# The subgraph's vote totals

Only `handleDelegateVotesChanged` touches delegated votes, and the pairs it is given follow
on each other: each event starts from the votes the last one for that delegate ended with,
and none goes from no votes to no votes. So the totals it keeps by differences are the
totals.
-/

namespace Nouns

open Evm DelegatedVotes EventLog CallMachine Subgraph

/-- The votes of all accounts together. -/
def votesTotal (votes : Address → Nat) : Nat := ∑ a, votes a

/-- How many accounts have votes. -/
def delegatesNumber (votes : Address → Nat) : Nat :=
  (Finset.univ.filter (fun a => votes a ≠ 0)).card

namespace Proof

theorem votesTotal_update (votes : Address → Nat) (d : Address) (new : Nat) :
    votesTotal (Function.update votes d new) + votes d = votesTotal votes + new :=
  sum_update votes d new

theorem delegatesNumber_update (votes : Address → Nat) (d : Address) (new : Nat) :
    delegatesNumber (Function.update votes d new) + (if votes d ≠ 0 then 1 else 0)
      = delegatesNumber votes + (if new ≠ 0 then 1 else 0) := by
  have h := card_filter_change (p := fun a => votes a ≠ 0)
    (q := fun a => Function.update votes d new a ≠ 0) (Finset.mem_univ d)
    (fun x hx => by rw [Function.update_of_ne hx])
  simp only [Function.update_self] at h
  exact h

/-- The store's votes are those of the register. -/
structure VotesAgree (l : List TokenEvent) (r : Register) (st : Store) : Prop where
  raw : ∀ d, (st.delegate d).delegatedVotesRaw = r.votes d
  total : st.counters.delegatedVotesRaw = votesTotal r.votes
  current : st.counters.currentDelegates = delegatesNumber r.votes
  saved : ∀ d prev new, .delegateVotesChanged d prev new ∈ l → (st.delegates d).isSome

variable {l : List TokenEvent} {r r' : Register} {e : TokenEvent} {st : Store}

/-- Handlers that leave votes alone. -/
theorem VotesAgree.congr (h : VotesAgree l r st) (hv : r'.votes = r.votes)
    (hraw : ∀ d, ((st.handleTokenEvent e).delegate d).delegatedVotesRaw
      = (st.delegate d).delegatedVotesRaw)
    (htotal : (st.handleTokenEvent e).counters.delegatedVotesRaw = st.counters.delegatedVotesRaw)
    (hcurrent : (st.handleTokenEvent e).counters.currentDelegates = st.counters.currentDelegates)
    (he : ∀ d prev new, e ≠ .delegateVotesChanged d prev new) :
    VotesAgree (l ++ [e]) r' (st.handleTokenEvent e) := by
  refine ⟨?_, ?_, ?_, ?_⟩
  · intro d
    rw [hraw, hv, h.raw]
  · rw [htotal, hv, h.total]
  · rw [hcurrent, hv, h.current]
  · intro d prev new hmem
    rcases List.mem_append.mp hmem with hl | hl
    · exact st.extends_handleTokenEvent e d (h.saved d prev new hl)
    · exact absurd (List.mem_singleton.mp hl).symm (he d prev new)

/-- The event of a change of votes. -/
theorem VotesAgree.changed {v : Address → Nat} (h : VotesAgree l r st)
    (hs : VoteStep r.votes e v) :
    VotesAgree (l ++ [e]) { r with votes := v } (st.handleTokenEvent e) := by
  cases hs with
  | @changed d new hne =>
      obtain ⟨_, _, _, hraw, hcounters⟩ :=
        st.handleDelegateVotesChanged_spec d (r.votes d) new
      refine ⟨?_, ?_, ?_, ?_⟩
      · intro x
        refine (hraw x).trans ?_
        by_cases hx : x = d
        · subst hx
          simp
        · simp [hx, h.raw]
      · refine (congrArg Counters.delegatedVotesRaw hcounters).trans ?_
        have hsum := votesTotal_update r.votes d new
        have htotal := h.total
        simp only
        omega
      · refine (congrArg Counters.currentDelegates hcounters).trans ?_
        have hcount := delegatesNumber_update r.votes d new
        have hcurrent := h.current
        simp only
        -- the handler compares old and new votes with zero, and so does the count
        by_cases hnew : new = 0
        · rw [if_pos (fun h0 => hne ⟨h0, hnew⟩), if_neg (not_not.mpr hnew)] at hcount
          rw [if_neg (by omega), if_pos hnew]
          omega
        · by_cases hold : r.votes d = 0
          · rw [if_neg (not_not.mpr hold), if_pos hnew] at hcount
            rw [if_pos ⟨hold, by omega⟩, if_neg hnew]
            omega
          · rw [if_pos hold, if_pos hnew] at hcount
            rw [if_neg (fun hc => hold hc.1), if_neg hnew]
            omega
      · intro x prev' new' hmem
        rcases List.mem_append.mp hmem with hl | hl
        · exact st.extends_handleTokenEvent _ x (h.saved x prev' new' hl)
        · obtain ⟨rfl, -, -⟩ := TokenEvent.delegateVotesChanged.inj (List.mem_singleton.mp hl)
          show ((st.handleDelegateVotesChanged x _ _).delegates x).isSome
          simp [Store.handleDelegateVotesChanged, Store.saveGovernance, Store.saveDelegate]

/-- Every event keeps the votes in agreement. -/
theorem VotesAgree.step (hs : Told r e r') (h : VotesAgree l r st) :
    VotesAgree (l ++ [e]) r' (st.handleTokenEvent e) := by
  cases hs with
  | @transfer src dst id _ =>
      obtain ⟨_, hdelegate, _, hcounters⟩ := st.handleTransfer_spec src dst id
      have htotal := congrArg Counters.delegatedVotesRaw hcounters
      have hcurrent := congrArg Counters.currentDelegates hcounters
      refine h.congr rfl (fun d => ?_) htotal hcurrent (fun _ _ _ => by simp)
      refine (congrArg Delegate.delegatedVotesRaw (congrFun hdelegate d)).trans ?_
      simp only [Store.without]
      split <;> split <;> (try split) <;> rfl
  | @delegate o d _ =>
      obtain ⟨_, _, hcounters, hraw, _⟩ :=
        st.handleDelegateChanged_spec o (r.delegates o) d
      exact h.congr rfl hraw (congrArg Counters.delegatedVotesRaw hcounters)
        (congrArg Counters.currentDelegates hcounters) (fun _ _ _ => by simp)
  | votes hv => exact h.changed hv
  | other hm =>
      have hsees := st.handleTokenEvent_other hm
      refine h.congr rfl (fun d => by rw [hsees.delegate]) (by rw [hsees.counters])
        (by rw [hsees.counters]) (fun d prev new => ?_)
      intro heq
      subst heq
      simp [moves] at hm

theorem votesAgree_empty : VotesAgree [] .blank .empty where
  raw _ := rfl
  total := by simp [votesTotal, Register.blank, Store.counters, Governance.counters,
    Store.getGovernanceEntity, Store.empty, Governance.new]
  current := by simp [delegatesNumber, Register.blank, Store.counters, Governance.counters,
    Store.getGovernanceEntity, Store.empty, Governance.new]
  saved _ _ _ h := by simp at h

/-- The subgraph's votes are the token's. -/
structure VotesMirrored (s : NounsToken) (st : Store) : Prop where
  /-- `Delegate(d).delegatedVotesRaw`, for the delegates that events were about. -/
  delegate : ∀ d prev new, .delegateVotesChanged d prev new ∈ s.logs →
    ∃ e, st.delegates d = some e ∧ e.delegatedVotesRaw = s.getCurrentVotes d
  /-- `governance.delegatedVotesRaw` -/
  total : st.getGovernanceEntity.delegatedVotesRaw = votesTotal s.getCurrentVotes
  /-- `governance.currentDelegates` -/
  current : st.getGovernanceEntity.currentDelegates = delegatesNumber s.getCurrentVotes

/--
**Vote totals.** At every point of every history, after all events logged so far, the
delegates that changes of votes were about have the votes they have on chain, and the
governance entity has the sum of all votes and the number of accounts with votes.
-/
theorem votes_mirrored (g : Genesis) (x : Config TokenWorld TokenFrame) (hx : TokenRuns g x) :
    VotesMirrored x.world.token (.afterToken x.world.token.logs) := by
  have h : VotesAgree x.world.token.logs x.world.token.register
      (.afterToken x.world.token.logs) :=
    (fullyTold_runs hx).mirror (R := VotesAgree) (fun hs h => h.step hs) votesAgree_empty
  refine ⟨?_, h.total, h.current⟩
  intro d prev new hmem
  obtain ⟨e, he⟩ := Option.isSome_iff_exists.mp (h.saved d prev new hmem)
  refine ⟨e, he, ?_⟩
  have hraw := h.raw d
  rw [Store.delegate, he] at hraw
  exact hraw

/-- Account 4 names account 7, whose one vote is then all there is beside account 2's. -/
def nameSeven : List (Machine.Move TokenTx Block) :=
  [.enter (smallTx (.ofNat 4) .mint), .enter (smallTx (.ofNat 4) (.delegate (.ofNat 7)))]

/-- The subgraph then has one vote for account 7. -/
theorem votes_mirrored_nameSeven :
    ∃ x, TokenRuns smallGenesis x
      ∧ .delegateVotesChanged (.ofNat 7) 0 1 ∈ x.world.token.logs
      ∧ x.world.token.getCurrentVotes (.ofNat 7) = 1
      ∧ ∃ e, (Store.afterToken x.world.token.logs).delegates (.ofNat 7) = some e
        ∧ e.delegatedVotesRaw = 1 := by
  obtain ⟨x, hx, hp⟩ := Machine.script_exists (M := tokenMachine) Machine.anything_free
    (x := ⟨smallGenesis.world, []⟩) (m := nameSeven)
    (p := fun x => .delegateVotesChanged (.ofNat 7) 0 1 ∈ x.world.token.logs
      ∧ x.world.token.getCurrentVotes (.ofNat 7) = 1) (by decide +kernel)
  obtain ⟨hmem, hvotes⟩ := of_decide_eq_true hp
  obtain ⟨e, he, hraw⟩ := (votes_mirrored smallGenesis x hx).delegate _ _ _ hmem
  exact ⟨x, hx, hmem, hvotes, e, he, by rw [hraw, hvotes]; rfl⟩

end Proof

end Nouns
