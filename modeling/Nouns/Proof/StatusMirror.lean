import Nouns.Proof.TreasuryAuthority
import Nouns.Subgraph.DAOHandlers

/-!
# The subgraph's proposals

The subgraph keeps the last thing that happened to a proposal, the contract a set of flags
in an order of their own. The two tell the same as long as nobody cancels what is vetoed
already. The number of queued proposals goes up when one is queued and down when one is
executed; a queued proposal that is canceled or vetoed stays counted.

While a proposal is being executed its flag is up and its event is still to come, so the
subgraph is compared with the contract where no call is pending.
-/

namespace Nouns

open Evm CallMachine EventLog Subgraph

namespace Subgraph.Store

variable {st : Store} {id : Nat}

/-! ## What the handlers do -/

/-- The status of a proposal, if it was saved with one. -/
def status (st : Store) (id : Nat) : Option ProposalStatus :=
  (st.proposals id).bind Proposal.status

def proposalsQueued (st : Store) : Int := st.getGovernanceEntity.proposalsQueued

theorem getOrCreateProposal_spec (id : Nat) : ∃ p st', st.getOrCreateProposal id = (p, st')
    ∧ st'.proposals = st.proposals ∧ st'.proposalsQueued = st.proposalsQueued
    ∧ p.status = st.status id := by
  unfold getOrCreateProposal
  cases h : st.proposals id with
  | some p => exact ⟨p, st, rfl, rfl, rfl, by simp [status, h]⟩
  | none => exact ⟨.new, _, rfl, rfl, rfl, by simp [status, h, Proposal.new]⟩

theorem getOrCreateDelegate_frame (a : Address) :
    (st.getOrCreateDelegate a).2.proposals = st.proposals
      ∧ (st.getOrCreateDelegate a).2.proposalsQueued = st.proposalsQueued := by
  unfold getOrCreateDelegate
  split
  · exact ⟨rfl, rfl⟩
  · split <;> exact ⟨rfl, rfl⟩

theorem status_saveProposal {p : Subgraph.Proposal} {st' : Store}
    (h : st'.proposals = st.proposals) :
    (st'.saveProposal id p).status = Function.update st.status id p.status := by
  funext j
  by_cases hj : j = id
  · subst hj
    simp [status, saveProposal]
  · simp [status, saveProposal, hj, h]

/-- A handler that sets a status, and by how much the number of queued proposals changes. -/
structure Marks (id : Nat) (s : Option ProposalStatus) (d : Int) (st st' : Store) : Prop where
  status : st'.status = Function.update st.status id s
  queued : st'.proposalsQueued = st.proposalsQueued + d

theorem handleProposalCanceled_spec :
    Marks id (some .cancelled) 0 st (st.handleProposalCanceled id) := by
  obtain ⟨p, st', heq, hp, hq, -⟩ := st.getOrCreateProposal_spec id
  simp only [handleProposalCanceled, heq]
  exact ⟨status_saveProposal hp, hq.trans (Int.add_zero _).symm⟩

theorem handleProposalVetoed_spec :
    Marks id (some .vetoed) 0 st (st.handleProposalVetoed id) := by
  obtain ⟨p, st', heq, hp, hq, -⟩ := st.getOrCreateProposal_spec id
  simp only [handleProposalVetoed, heq]
  exact ⟨status_saveProposal hp, hq.trans (Int.add_zero _).symm⟩

theorem handleProposalQueued_spec {eta : Nat} :
    Marks id (some .queued) 1 st (st.handleProposalQueued id eta) := by
  obtain ⟨p, st', heq, hp, -, -⟩ := st.getOrCreateProposal_spec id
  simp only [handleProposalQueued, heq]
  exact ⟨status_saveProposal hp, rfl⟩

theorem handleProposalExecuted_spec :
    Marks id (some .executed) (-1) st (st.handleProposalExecuted id) := by
  obtain ⟨p, st', heq, hp, -, -⟩ := st.getOrCreateProposal_spec id
  simp only [handleProposalExecuted, heq]
  exact ⟨status_saveProposal hp, rfl⟩

theorem handleProposalCreated_spec {block : Block} {proposer : Address} {targets : List Address}
    {values : List Nat} {signatures : List String} {calldatas : List Bytes}
    {startBlock endBlock threshold quorum : Nat} {description : String} :
    Marks id (some (if startBlock ≤ block.number then .active else .pending)) 0 st
      (st.handleProposalCreatedWithRequirements block id proposer targets values signatures
        calldatas startBlock endBlock threshold quorum description) := by
  obtain ⟨p, st', heq, hp, hq, -⟩ := st.getOrCreateProposal_spec id
  obtain ⟨hp', hq'⟩ := st'.getOrCreateDelegate_frame proposer
  simp only [handleProposalCreatedWithRequirements, heq]
  refine ⟨status_saveProposal (hp'.trans hp), ?_⟩
  exact (hq'.trans hq).trans (Int.add_zero _).symm

/-- A vote makes a pending proposal active. -/
theorem handleVoteCast_spec {voter : Address} {support votes : Nat} {reason : String} :
    Marks id (if st.status id = some .pending then some .active else st.status id) 0 st
      (st.handleVoteCast voter id support votes reason) := by
  obtain ⟨p, st', heq, hp, hq, hs⟩ := st.getOrCreateProposal_spec id
  obtain ⟨hp', hq'⟩ := st'.getOrCreateDelegate_frame voter
  simp only [handleVoteCast, heq, hs]
  split
  · exact ⟨status_saveProposal (hp'.trans hp), (hq'.trans hq).trans (Int.add_zero _).symm⟩
  · refine ⟨?_, (hq'.trans hq).trans (Int.add_zero _).symm⟩
    rw [Function.update_eq_self]
    funext j
    simp only [Store.status, saveVote, hp', hp]

end Subgraph.Store

/-- How many of the proposals up to `count` have the status of a queued one. -/
def queuedNumber (count : Nat) (status : Nat → Option ProposalStatus) : Nat :=
  ((Finset.range (count + 1)).filter (fun id => status id = some .queued)).card

namespace Proof

variable {H : Type} {env : Env H}

theorem queuedNumber_update {count id : Nat} (status : Nat → Option ProposalStatus)
    (s : Option ProposalStatus) (hid : id ≤ count) :
    queuedNumber count (Function.update status id s)
        + (if status id = some .queued then 1 else 0)
      = queuedNumber count status + (if s = some .queued then 1 else 0) := by
  have h := card_filter_change (p := fun j => status j = some .queued)
    (q := fun j => Function.update status id s j = some .queued)
    (Finset.mem_range.mpr (Nat.lt_succ_of_le hid))
    (fun j hj => by rw [Function.update_of_ne hj])
  simp only [Function.update_self] at h
  exact h

theorem queuedNumber_succ {count : Nat} {status : Nat → Option ProposalStatus}
    (h : status (count + 1) ≠ some .queued) :
    queuedNumber (count + 1) status = queuedNumber count status := by
  unfold queuedNumber
  rw [Finset.range_add_one, Finset.filter_insert, if_neg h]

/-! ## Statuses and flags -/

/-- What the status of a proposal shows; `running` if it is being executed. -/
structure Shows (running : Prop) (p : Proposal) (s : Option ProposalStatus) : Prop where
  vetoed : p.vetoed = true → s = some .vetoed
  canceled : p.vetoed = false → p.canceled = true → s = some .cancelled
  executed : p.executed = true → ¬ running → s = some .executed
  queued : p.vetoed = false → p.canceled = false → p.eta ≠ 0 → (p.executed = true → running) →
    s = some .queued
  live : p.vetoed = false → p.canceled = false → p.eta = 0 → s ≠ some .vetoed
    ∧ s ≠ some .cancelled ∧ s ≠ some .executed ∧ s ≠ some .queued

/-- What shows a proposal without flags that is not queued either, or that is. -/
theorem Shows.unflagged {running : Prop} {p : Proposal} {s : Option ProposalStatus}
    (hv : p.vetoed = false) (hc : p.canceled = false) (hx : p.executed = false)
    (hqueued : p.eta ≠ 0 → s = some .queued)
    (hlive : p.eta = 0 → s ≠ some .vetoed ∧ s ≠ some .cancelled ∧ s ≠ some .executed
      ∧ s ≠ some .queued) : Shows running p s where
  vetoed h := absurd (hv.symm.trans h) (by decide)
  canceled _ h := absurd (hc.symm.trans h) (by decide)
  executed h := absurd (hx.symm.trans h) (by decide)
  queued _ _ he _ := hqueued he
  live _ _ he := hlive he

/-- What the store shows of the DAO, the proposals in `run` being executed. -/
structure Shown (run : Nat → Prop) (s : NounsDAO) (st : Store) : Prop where
  status : ∀ id, Shows (run id) (s.proposals id) (st.status id)
  queued : st.proposalsQueued = queuedNumber s.proposalCount st.status

/-- Whatever blocks its events were logged in, the store shows the DAO. -/
def Mirrors (run : Nat → Prop) (s : NounsDAO) : Prop :=
  ∀ es : List (Block × DAOEvent), es.map Prod.snd = s.logs → Shown run s (.afterDAO es)

variable {run run' : Nat → Prop} {s s' : NounsDAO} {st st' : Store} {id : Nat}

/-- One proposal is written and its status set. -/
theorem Shown.marks {v : Option ProposalStatus} {d : Int} (h : Shown run s st)
    (hid : id ≤ s.proposalCount) (hm : Store.Marks id v d st st')
    (hother : ∀ j, j ≠ id → s'.proposals j = s.proposals j) (hrun : ∀ j, j ≠ id → (run' j ↔ run j))
    (hcount : s'.proposalCount = s.proposalCount)
    (hd : d = (if v = some .queued then 1 else 0)
      - (if st.status id = some .queued then 1 else 0))
    (hshows : Shows (run' id) (s'.proposals id) v) : Shown run' s' st' := by
  refine ⟨?_, ?_⟩
  · intro j
    rw [hm.status]
    by_cases hj : j = id
    · subst hj
      rw [Function.update_self]
      exact hshows
    · rw [Function.update_of_ne hj, hother j hj, propext (hrun j hj)]
      exact h.status j
  · have hnumber := queuedNumber_update st.status v hid
    have hqueued := h.queued
    rw [hm.queued, hm.status, hcount, hd]
    split_ifs at hnumber ⊢ <;> omega

/-- Nothing is logged and no proposal touched. -/
theorem Mirrors.same (h : Mirrors run s) (hl : s'.logs = s.logs)
    (hp : s'.proposals = s.proposals) (hc : s'.proposalCount = s.proposalCount)
    (hrun : ∀ id, run' id ↔ run id) : Mirrors run' s' := by
  intro es hes
  obtain ⟨hstatus, hqueued⟩ := h es (hes.trans hl)
  refine ⟨fun id => ?_, by rw [hc]; exact hqueued⟩
  rw [hp, propext (hrun id)]
  exact hstatus id

/-- Events are logged and handled. -/
theorem Mirrors.events (h : Mirrors run s) {evs : List DAOEvent} (hl : s'.logs = s.logs ++ evs)
    (hstep : ∀ (st : Store) (es : List (Block × DAOEvent)), es.map Prod.snd = evs → Shown run s st →
      Shown run' s' (es.foldl (fun st e => st.handleDAOEvent e.1 e.2) st)) : Mirrors run' s' := by
  intro es hes
  rw [hl] at hes
  obtain ⟨es₁, es₂, rfl, h₁, h₂⟩ := List.map_eq_append_iff.mp hes
  unfold Store.afterDAO
  rw [List.foldl_append]
  exact hstep _ es₂ h₂ (h es₁ h₁)

/-- One event is logged and handled. -/
theorem Mirrors.event (h : Mirrors run s) {e : DAOEvent} (hl : s'.logs = s.logs ++ [e])
    (hstep : ∀ st block, Shown run s st → Shown run' s' (st.handleDAOEvent block e)) :
    Mirrors run' s' := by
  refine h.events hl ?_
  intro st es hes hshown
  obtain ⟨⟨block, e'⟩, rfl, rfl⟩ := List.map_eq_singleton_iff.mp hes
  exact hstep st block hshown

/-- Events that tell of no proposal. -/
theorem handle_quiet {es : List (Block × DAOEvent)}
    (h : ∀ e ∈ es.map Prod.snd, tellsOfProposal e = false) :
    es.foldl (fun st e => st.handleDAOEvent e.1 e.2) st = st := by
  induction es generalizing st with
  | nil => rfl
  | cons e es ih =>
      have he : tellsOfProposal e.2 = false := h e.2 (by simp)
      have hquiet : st.handleDAOEvent e.1 e.2 = st := by
        obtain ⟨block, e⟩ := e
        cases e with
        | proposalCreatedWithRequirements | voteCast | proposalCanceled | proposalQueued
          | proposalExecuted | proposalVetoed | proposalCreated =>
            simp [tellsOfProposal] at he
        | _ => rfl
      rw [List.foldl_cons, hquiet]
      exact ih fun e' he' => h e' (by simp at he' ⊢; exact .inr he')

/-! ## Steps -/

/-- The proposals whose execution is pending. -/
def Running (fs : List GovernanceFrame) (id : Nat) : Prop := ∃ f ∈ fs, running f = some id

/-- The pending executions are of proposals flagged as executed, no two of the same. -/
structure PendingOk (x : GovConfig H) : Prop where
  executed : ∀ id, Running x.frames id → (x.world.dao.proposals id).executed = true
    ∧ id ≤ x.world.dao.proposalCount
  apart : x.frames.Pairwise (fun f g => ∀ id, running f = some id → running g ≠ some id)

/-- What holds along every history whose steps are accounted for. -/
structure StatusInv (x : GovConfig H) : Prop where
  dao : DAOInv x.world
  pending : PendingOk x
  mirrors : Mirrors (Running x.frames) x.world.dao

/--
The condition on steps: nobody cancels or vetoes a proposal that has an eta and is neither
canceled nor vetoed, and nobody cancels a vetoed one.
-/
def Accounted (x : GovConfig H) (l : GovLabel) : Prop :=
  ∀ id, stops l = some id →
    ((x.world.dao.proposals id).eta = 0 ∨ (x.world.dao.proposals id).canceled = true
      ∨ (x.world.dao.proposals id).vetoed = true)
    ∧ (vetoes l = false → (x.world.dao.proposals id).vetoed = false)

/-- A proposal with an eta and none of the flags is shown as queued. -/
theorem Shows.of_queued {p : Proposal} {r : Prop} {v : Option ProposalStatus} (h : Shows r p v)
    (hv : p.vetoed = false) (hc : p.canceled = false) (he : p.eta ≠ 0)
    (hx : p.executed = false) : v = some .queued :=
  h.queued hv hc he fun hex => absurd (hx.symm.trans hex) (by decide)

/-- A proposal that is stopped, or never had an eta, is not shown as queued. -/
theorem Shows.not_queued {p : Proposal} {r : Prop} {v : Option ProposalStatus} (h : Shows r p v)
    (hp : p.eta = 0 ∨ p.canceled = true ∨ p.vetoed = true) : v ≠ some .queued := by
  cases hv : p.vetoed with
  | true =>
      rw [h.vetoed hv]
      decide
  | false =>
      cases hc : p.canceled with
      | true =>
          rw [h.canceled hv hc]
          decide
      | false =>
          rcases hp with he | hp | hp
          · exact (h.live hv hc he).2.2.2
          · exact absurd (hc.symm.trans hp) (by decide)
          · exact absurd (hv.symm.trans hp) (by decide)

/-- An id more, of a proposal nothing has happened to. -/
theorem Shown.grow (h : Shown run s st) (hfresh : s.proposals (s.proposalCount + 1) = .blank) :
    Shown run { s with proposalCount := s.proposalCount + 1 } st := by
  refine ⟨h.status, ?_⟩
  have hlive := h.status (s.proposalCount + 1)
  rw [hfresh] at hlive
  exact h.queued.trans (congrArg Nat.cast (queuedNumber_succ (hlive.not_queued (.inl rfl))).symm)

/-- `propose` adds a proposal that nothing has happened to. -/
theorem Mirrors.propose {block : Block} {p : Proposal} (h : Mirrors run s)
    (hp : Proposed block id s s' p) (hfresh : s.proposals id = .blank) : Mirrors run s' := by
  obtain ⟨description, hlog⟩ := hp.logged
  obtain ⟨_, _, hbook⟩ := hp.book
  obtain ⟨hc, hv, hx⟩ := hp.flags
  obtain rfl := hp.id_eq
  have hself : s'.proposals (s.proposalCount + 1) = p := by
    rw [hbook]
    exact Function.update_self _ _ _
  have hother : ∀ j, j ≠ s.proposalCount + 1 → s'.proposals j = s.proposals j := fun j hj => by
    rw [hbook]
    exact Function.update_of_ne hj _ _
  refine h.events hlog ?_
  intro st es hes hshown
  obtain ⟨⟨b₁, e₁⟩, es₁, rfl, rfl, hes₁⟩ := List.map_eq_cons_iff.mp hes
  obtain ⟨⟨b₂, e₂⟩, rfl, rfl⟩ := List.map_eq_singleton_iff.mp hes₁
  -- the id was not given out yet, so the store has it as nothing
  have hold : st.status (s.proposalCount + 1) ≠ some .queued := by
    have hlive := hshown.status (s.proposalCount + 1)
    rw [hfresh] at hlive
    exact hlive.not_queued (.inl rfl)
  refine (hshown.grow hfresh).marks (Nat.le_refl _) Store.handleProposalCreated_spec hother
    (fun _ _ => Iff.rfl) (by rw [hbook]) ?_ ?_
  · rw [if_neg hold]
    split <;> simp
  · rw [hself]
    refine .unflagged hv hc hx (fun he => absurd hp.eta he) ?_
    intro _
    split <;> decide

/-- A vote makes its proposal active if it was pending, and changes no flag. -/
theorem Mirrors.vote {block : Block} {nouns : NounsToken} {voter : Address} {votes : Nat}
    (h : Mirrors run s) (hv : Voted block nouns voter id votes s s') : Mirrors run s' := by
  obtain ⟨_, _, hlog⟩ := hv.logged
  obtain ⟨_, _, _, _, _, hwrote⟩ := hv.book
  obtain ⟨hself, hother, hcount⟩ := hwrote.proposals
  refine h.event hlog ?_
  intro st b hshown
  have hold := hshown.status id
  refine hshown.marks hv.id_le Store.handleVoteCast_spec hother (fun _ _ => Iff.rfl) hcount ?_ ?_
  · split_ifs <;> simp_all
  · rw [hself]
    split_ifs with hp
    · refine ⟨fun h => ?_, fun h h' => ?_, fun h h' => ?_, fun h h' he hx => ?_,
        fun _ _ _ => by decide⟩
      · exact absurd (hp.symm.trans (hold.vetoed h)) (by decide)
      · exact absurd (hp.symm.trans (hold.canceled h h')) (by decide)
      · exact absurd (hp.symm.trans (hold.executed h h')) (by decide)
      · exact absurd (hp.symm.trans (hold.queued h h' he hx)) (by decide)
    · exact ⟨hold.vetoed, hold.canceled, hold.executed, hold.queued, hold.live⟩

variable {hs : Hashing H} {block : Block} {e e' : NounsDAOExecutor H}

/-- `queue` gives an eta to a proposal that has none of the flags. -/
theorem Mirrors.queue (h : Mirrors run s) (hq : Queued hs block id s e s' e')
    (hok : ProposalOk block (s.proposals id)) (hdelay : MINIMUM_DELAY ≤ e.delay) :
    Mirrors run s' := by
  obtain ⟨hv, hc, -, -, -, -, heta⟩ := stateOf_succeeded hq.succeeded
  have hx : (s.proposals id).executed = false := by
    rw [← Bool.not_eq_true]
    exact fun hx => (hok.executed hx).1 heta
  have hpos : 0 < MINIMUM_DELAY := by decide
  obtain ⟨hself, hother, hcount⟩ := hq.book.proposals
  refine h.event hq.logged ?_
  intro st b hshown
  have hold : st.status id ≠ some .queued := (hshown.status id).not_queued (.inl heta)
  refine hshown.marks hq.id_le Store.handleProposalQueued_spec hother (fun _ _ => Iff.rfl) hcount
    (by rw [if_pos rfl, if_neg hold]; rfl) ?_
  rw [hself]
  refine .unflagged hv hc hx (fun _ => rfl) ?_
  intro he
  simp only at he
  omega

/-- `cancel` and `veto`, where they leave the counter right and the status that of the flags. -/
theorem Mirrors.stop {veto : Bool} (h : Mirrors run s) (hs : Stopped hs block veto id s e s' e')
    (hok : ProposalOk block (s.proposals id))
    (hcounted : (s.proposals id).eta = 0 ∨ (s.proposals id).canceled = true
      ∨ (s.proposals id).vetoed = true)
    (hveto : veto = false → (s.proposals id).vetoed = false) : Mirrors run s' := by
  have hx := hok.not_executed hs.not_executed
  obtain ⟨hself, hother, hcount⟩ := hs.wrote.proposals
  refine h.event hs.logged ?_
  intro st b hshown
  -- so the number of queued proposals, which no handler takes back, is not off
  have hold : st.status id ≠ some .queued := (hshown.status id).not_queued hcounted
  cases veto with
  | true =>
      refine hshown.marks hs.id_le Store.handleProposalVetoed_spec hother (fun _ _ => Iff.rfl)
        hcount (by simp [hold]) ?_
      rw [hself]
      refine ⟨fun _ => rfl, ?_, ?_, ?_, ?_⟩
      · intro hv
        exact absurd hv (by simp)
      · intro hx'
        exact absurd (hx.symm.trans hx') (by decide)
      · intro hv
        exact absurd hv (by simp)
      · intro hv
        exact absurd hv (by simp)
  | false =>
      have hv := hveto rfl
      refine hshown.marks hs.id_le Store.handleProposalCanceled_spec hother (fun _ _ => Iff.rfl)
        hcount (by simp [hold]) ?_
      rw [hself]
      refine ⟨?_, fun _ _ => rfl, ?_, ?_, ?_⟩
      · intro hv'
        exact absurd (hv.symm.trans hv') (by decide)
      · intro hx'
        exact absurd (hx.symm.trans hx') (by decide)
      · intro _ hc
        exact absurd hc (by simp)
      · intro _ hc
        exact absurd hc (by simp)

/-- `execute` raises the flag and leaves the event to the end of the loop. -/
theorem Mirrors.start (h : Mirrors run s) (hs : Started block id s s') :
    Mirrors (fun j => j = id ∨ run j) s' := by
  obtain ⟨-, hq, -, rfl⟩ := hs
  intro es hes
  have hshown := h es hes
  refine ⟨?_, hshown.queued⟩
  intro j
  by_cases hj : j = id
  · subst hj
    have hstatus := (hshown.status j).of_queued hq.not_vetoed hq.not_canceled hq.eta_ne
      hq.not_executed
    rw [hstatus]
    simp only [NounsDAO.setProposal, Function.update_self]
    refine ⟨?_, ?_, fun _ hr => absurd (.inl trivial) hr, fun _ _ _ _ => rfl,
      fun _ _ he => absurd he hq.eta_ne⟩
    · intro hv
      exact absurd (hq.not_vetoed.symm.trans hv) (by decide)
    · intro _ hc
      exact absurd (hq.not_canceled.symm.trans hc) (by decide)
  · simp only [NounsDAO.setProposal, Function.update_of_ne hj, hj, false_or]
    exact hshown.status j

/-- The event at the end of `execute`. -/
theorem Mirrors.finish (h : Mirrors (fun j => j = id ∨ run j) s) (hid : id ≤ s.proposalCount)
    (hok : ProposalOk block (s.proposals id)) (hx : (s.proposals id).executed = true)
    (hrun : ¬ run id) :
    Mirrors run { s with logs := s.logs ++ [.proposalExecuted id] } := by
  obtain ⟨heta, hc, hv⟩ := hok.executed hx
  refine h.event rfl ?_
  intro st b hshown
  have hold : st.status id = some .queued :=
    (hshown.status id).queued hv hc heta fun _ => .inl rfl
  refine hshown.marks hid Store.handleProposalExecuted_spec (fun _ _ => rfl)
    (fun j hj => by simp [hj]) rfl (by rw [if_pos hold, if_neg (by decide)]; rfl) ?_
  refine ⟨?_, ?_, fun _ _ => rfl, fun _ _ _ hr => absurd (hr hx) hrun, fun _ _ he => absurd he heta⟩
  · intro hv'
    exact absurd (hv.symm.trans hv') (by decide)
  · intro _ hc'
    exact absurd (hc.symm.trans hc') (by decide)

/-! ## Every step -/

theorem running_cons {f : GovernanceFrame} {fs : List GovernanceFrame} {id : Nat} :
    Running (f :: fs) id ↔ running f = some id ∨ Running fs id := by
  simp [Running]

/-- Frames that execute no proposal come and go. -/
theorem running_quiet {f : GovernanceFrame} {fs : List GovernanceFrame} (hf : running f = none)
    (id : Nat) : Running (f :: fs) id ↔ Running fs id := by
  rw [running_cons, hf]
  simp

/-- The pending executions stay, and what is shown of the DAO is right. -/
theorem StatusInv.keep {x y : GovConfig H} (h : StatusInv x) (ho : Onward x.world y.world)
    (hr : ∀ id, Running y.frames id ↔ Running x.frames id)
    (ha : y.frames.Pairwise (fun f g => ∀ id, running f = some id → running g ≠ some id))
    (hm : Mirrors (Running x.frames) y.world.dao) : StatusInv y := by
  refine ⟨ho.inv, ⟨?_, ha⟩, hm.same rfl rfl rfl hr⟩
  intro id hid
  obtain ⟨hx, hle⟩ := h.pending.executed id ((hr id).mp hid)
  exact ⟨(ho.advances id hle).executed hx, hle.trans ho.count⟩

variable [DecidableEq H] {w : Governance H} {fs : List GovernanceFrame} {x y : GovConfig H}
  {l : GovLabel} {i : Nat}

/-- The loop of `execute` goes on, or ends with the event. -/
theorem Act.status (hdao : DAOInv w)
    (hpending : PendingOk ⟨w, fs⟩) (hid : id ≤ w.dao.proposalCount)
    (hx : (w.dao.proposals id).executed = true) (hnone : ¬ Running fs id)
    (hm : Mirrors (fun j => j = id ∨ Running fs j) w.dao) (ha : Act env id i w fs y) :
    StatusInv y := by
  have hon := ha.onward hdao
  cases ha with
  | @calls w' t _ _ hct =>
      obtain rfl := hct.book
      have hr : ∀ j, Running (.execute id i t :: fs) j ↔ j = id ∨ Running fs j := fun j => by
        rw [running_cons]
        simp [running, eq_comm]
      refine ⟨hon.inv, ⟨?_, ?_⟩, hm.same rfl rfl rfl hr⟩
      · intro j hj
        rcases (hr j).mp hj with rfl | hj
        · exact ⟨hx, hid⟩
        · exact hpending.executed j hj
      · refine List.pairwise_cons.mpr ⟨fun g hg j hj hj' => hnone ?_, hpending.apart⟩
        obtain rfl : id = j := Option.some.inj hj
        exact ⟨g, hg, hj'⟩
  | finishes _ =>
      exact ⟨hon.inv, ⟨hpending.executed, hpending.apart⟩,
        hm.finish hid (hdao.proposals id) hx hnone⟩

theorem GovEffect.status (h : StatusInv x) (hP : Accounted x l) (he : GovEffect env x l y) :
    StatusInv y := by
  have hon := he.onward h.dao
  have hdao := h.dao
  have hm := h.mirrors
  have hsame : ∀ {fs : List GovernanceFrame} (id : Nat), Running fs id ↔ Running fs id :=
    fun _ => Iff.rfl
  cases he with
  | token _ hfs =>
      rcases hfs with rfl | rfl
      · exact h.keep hon hsame h.pending.apart hm
      · exact h.keep hon (running_quiet rfl)
          (List.pairwise_cons.mpr ⟨by rintro _ _ _ ⟨⟩, h.pending.apart⟩) hm
  | reconfigure hr =>
      obtain ⟨evs, hquiet, hlog⟩ := hr.logged
      obtain ⟨_, _, _, _, _, _, _, _, _, logs, rfl⟩ := hr.book
      refine h.keep hon hsame h.pending.apart (hm.events hlog ?_)
      -- settings log nothing that a status depends on
      intro st es hes hshown
      rw [handle_quiet (hes ▸ hquiet)]
      exact ⟨hshown.status, hshown.queued⟩
  | administer => exact h.keep hon hsame h.pending.apart hm
  | propose hp =>
      refine h.keep hon hsame h.pending.apart (hm.propose hp (hdao.unborn _ ?_))
      rw [hp.id_eq]
      exact Nat.lt_succ_self _
  | vote _ hv => exact h.keep hon hsame h.pending.apart (hm.vote hv)
  | queue hq =>
      exact h.keep hon hsame h.pending.apart (hm.queue hq (hdao.proposals _) hdao.delay)
  | stop hl hs =>
      obtain ⟨hcounted, hveto⟩ := hP _ hl
      exact h.keep hon hsame h.pending.apart (hm.stop hs (hdao.proposals _) hcounted hveto)
  | @execute w fs l s id y hs ha =>
      have hstart : Onward w { w with dao := s } :=
        DAOInv.write hdao (e := w.executor) ⟨w.dao.logs, hs.book⟩ hs.id_le hdao.delay
          (ProposalOk.execute (hdao.proposals id) hs.queued) (List.prefix_refl _)
          (fun _ => .inl rfl)
      -- what is queued has not been executed, so no `execute` of it is pending
      have hnone : ¬ Running fs id := fun hr => by
        have := (h.pending.executed id hr).1
        rw [hs.queued.not_executed] at this
        exact absurd this (by decide)
      have hx : (s.proposals id).executed = true := by
        rw [hs.book]
        simp [NounsDAO.setProposal]
      refine ha.status hstart.inv ⟨?_, h.pending.apart⟩ (hs.id_le.trans hstart.count) hx hnone
        (hm.start hs)
      intro j hj
      obtain ⟨hx, hle⟩ := h.pending.executed j hj
      exact ⟨(hstart.advances j hle).executed hx, hle.trans hstart.count⟩
  | @next w fs id i t logs y ha =>
      obtain ⟨hhead, htail⟩ := List.pairwise_cons.mp h.pending.apart
      -- the loop at the head goes on; it was started on a proposal that is executed since
      obtain ⟨hx, hid⟩ := h.pending.executed id (running_cons.mpr (.inl rfl))
      have hlog : Onward w { w with executor := { w.executor with logs := logs } } :=
        DAOInv.unchanged hdao rfl rfl rfl hdao.delay (List.prefix_refl _)
      refine ha.status hlog.inv ⟨?_, htail⟩ hid hx ?_ ?_
      · intro j hj
        exact h.pending.executed j (running_cons.mpr (.inr hj))
      · intro hin
        obtain ⟨g, hg, hj⟩ := hin
        exact hhead g hg id rfl hj
      · refine hm.same rfl rfl rfl ?_
        intro j
        rw [running_cons]
        simp [running, eq_comm]
  | direct _ _ _ hfs =>
      rcases hfs with rfl | ⟨_, rfl⟩
      · exact h.keep hon hsame h.pending.apart hm
      · exact h.keep hon (running_quiet rfl)
          (List.pairwise_cons.mpr ⟨by rintro _ _ _ ⟨⟩, h.pending.apart⟩) hm
  | @returned w fs f logs hf =>
      have hquiet : running f = none := by
        cases f with
        | execute id i t => exact absurd rfl (hf id i t)
        | _ => rfl
      exact h.keep hon (fun id => (running_quiet hquiet id).symm)
        (List.pairwise_cons.mp h.pending.apart).2 hm
  | tick => exact h.keep hon hsame h.pending.apart hm

/-! ## Runs -/

omit [DecidableEq H] in
theorem statusInv_deployment (d : Deployment env) : StatusInv ⟨d.world, []⟩ := by
  obtain ⟨-, hunused⟩ := deployment_unused d
  refine ⟨daoInv_deployment d, ⟨?_, List.Pairwise.nil⟩, ?_⟩
  · intro id hr
    obtain ⟨_, hm, _⟩ := hr
    exact absurd hm List.not_mem_nil
  · intro es hes
    have hquiet : ∀ e ∈ es.map Prod.snd, tellsOfProposal e = false := by
      rw [hes]
      exact deployment_quiet d
    unfold Store.afterDAO
    rw [handle_quiet hquiet]
    refine ⟨?_, ?_⟩
    · intro id
      have hnone : Store.empty.status id = none := rfl
      simp only [Deployment.world, hunused, hnone]
      exact ⟨fun h => absurd h (by decide), fun _ h => absurd h (by decide),
        fun h => absurd h (by decide), fun _ _ h => absurd rfl h,
        fun _ _ _ => ⟨by decide, by decide, by decide, by decide⟩⟩
    · simp [queuedNumber, Store.proposalsQueued, Store.status, Store.empty,
        Store.getGovernanceEntity, Governance.new]

/-- What a status should tell of a proposal. -/
structure StatusTells (p : Proposal) (v : Option ProposalStatus) : Prop where
  vetoed : v = some .vetoed ↔ p.vetoed = true
  cancelled : v = some .cancelled ↔ p.canceled = true ∧ p.vetoed = false
  executed : v = some .executed ↔ p.executed = true
  queued : v = some .queued ↔ p.eta ≠ 0 ∧ p.vetoed = false ∧ p.canceled = false
    ∧ p.executed = false

theorem Shows.tells {p : Proposal} {v : Option ProposalStatus} (h : Shows False p v)
    (hok : ProposalOk block p) : StatusTells p v := by
  have hx := hok.executed
  cases hv : p.vetoed with
  | true =>
      obtain rfl := h.vetoed hv
      cases hp : p.executed with
      | true => exact absurd (hv.symm.trans (hx hp).2.2) (by decide)
      | false => constructor <;> simp [hv, hp]
  | false =>
      cases hc : p.canceled with
      | true =>
          obtain rfl := h.canceled hv hc
          cases hp : p.executed with
          | true => exact absurd (hc.symm.trans (hx hp).2.1) (by decide)
          | false => constructor <;> simp [hv, hc, hp]
      | false =>
          cases hp : p.executed with
          | true =>
              obtain rfl := h.executed hp id
              constructor <;> simp [hv, hc, hp]
          | false =>
              by_cases he : p.eta = 0
              · obtain ⟨h1, h2, h3, h4⟩ := h.live hv hc he
                constructor <;> simp [hv, hc, hp, he, h1, h2, h3, h4]
              · obtain rfl := h.of_queued hv hc he hp
                constructor <;> simp [hv, hc, hp, he]

/-- The subgraph's proposals are the DAO's. -/
structure StatusesMirrored (s : NounsDAO) (st : Store) : Prop where
  status : ∀ id, StatusTells (s.proposals id) (st.status id)
  /-- `governance.proposalsQueued` -/
  queued : st.getGovernanceEntity.proposalsQueued = queuedNumber s.proposalCount st.status

/--
**Proposal statuses.** In every history whose steps are accounted for, whenever no call is
pending, the statuses after all events logged so far tell the flags of their proposals, and
the governance entity counts the queued ones. The blocks the events were logged in do not
matter.
-/
theorem statuses_mirrored (env : Env H) (d : Deployment env) (x : GovConfig H)
    (hx : (governanceMachine env).Runs Accounted ⟨d.world, []⟩ x) (hidle : x.frames = [])
    (es : List (Block × DAOEvent)) (hes : es.map Prod.snd = x.world.dao.logs) :
    StatusesMirrored x.world.dao (.afterDAO es) := by
  have hI : StatusInv x := governance_runs (fun hI hP he => he.status hI hP) hx
    (statusInv_deployment d)
  obtain ⟨hstatus, hqueued⟩ := hI.mirrors es hes
  refine ⟨?_, hqueued⟩
  intro id
  have hshows := hstatus id
  have hno : ¬ Running x.frames id := by
    rw [hidle]
    intro h
    obtain ⟨_, hm, _⟩ := h
    exact absurd hm List.not_mem_nil
  rw [eq_false hno] at hshows
  exact hshows.tells (hI.dao.proposals id)

/-- Whether a step of the small DAO neither cancels nor vetoes. -/
def stopsNothing : GovConfig Transaction → GovLabel → Bool := fun _ l => (stops l).isNone

theorem stopsNothing_accounted (x : GovConfig Transaction) (l : GovLabel)
    (h : stopsNothing x l = true) : Accounted x l := by
  intro id hid
  rw [stopsNothing, hid] at h
  exact absurd h (by simp)

/-- The events of a DAO, as if all were logged in the first block. -/
def inFirstBlock (s : NounsDAO) : List (Block × DAOEvent) := s.logs.map fun e => (⟨1, 1⟩, e)

theorem inFirstBlock_snd (s : NounsDAO) : (inFirstBlock s).map Prod.snd = s.logs := by
  simp [inFirstBlock, List.map_map, Function.comp_def]

/-- The payment waits to be executed, and is counted. -/
theorem statuses_mirrored_payment :
    ∃ x, (governanceMachine smallEnv).Runs Accounted ⟨smallDeployment.world, []⟩ x
      ∧ x.frames = []
      ∧ (x.world.dao.proposals 1).eta ≠ 0
      ∧ (Store.afterDAO (inFirstBlock x.world.dao)).status 1 = some .queued
      ∧ (Store.afterDAO (inFirstBlock x.world.dao)).getGovernanceEntity.proposalsQueued = 1
      ∧ StatusesMirrored x.world.dao (.afterDAO (inFirstBlock x.world.dao)) := by
  obtain ⟨x, hx, hp⟩ := Machine.script_exists (M := governanceMachine smallEnv)
    stopsNothing_accounted (x := ⟨smallDeployment.world, []⟩) (m := votedPayment)
    (p := fun x => x.frames.isEmpty ∧ (x.world.dao.proposals 1).eta ≠ 0
      ∧ (Store.afterDAO (inFirstBlock x.world.dao)).status 1 = some .queued
      ∧ (Store.afterDAO (inFirstBlock x.world.dao)).getGovernanceEntity.proposalsQueued = 1)
    (by decide +kernel)
  obtain ⟨hidle, heta, hstatus, hcount⟩ := of_decide_eq_true hp
  have hidle := List.isEmpty_iff.mp hidle
  exact ⟨x, hx, hidle, heta, hstatus, hcount,
    statuses_mirrored smallEnv smallDeployment x hx hidle _ (inFirstBlock_snd _)⟩

/--
The subgraph goes wrong in two ways. Canceled while it is queued, the payment stays counted,
and nothing is queued; vetoed and then canceled, it is shown as canceled.
-/
theorem statuses_mirrored_cancelPayment :
    (∃ x, GovRuns smallDeployment x ∧ x.frames = []
      ∧ (Store.afterDAO (inFirstBlock x.world.dao)).getGovernanceEntity.proposalsQueued = 1
      ∧ queuedNumber x.world.dao.proposalCount
        (Store.afterDAO (inFirstBlock x.world.dao)).status = 0
      ∧ ¬ StatusesMirrored x.world.dao (.afterDAO (inFirstBlock x.world.dao)))
    ∧ ∃ x, GovRuns smallDeployment x ∧ x.frames = []
      ∧ (x.world.dao.proposals 1).vetoed = true
      ∧ (Store.afterDAO (inFirstBlock x.world.dao)).status 1 = some .cancelled
      ∧ ¬ StatusesMirrored x.world.dao (.afterDAO (inFirstBlock x.world.dao)) := by
  constructor
  · obtain ⟨x, hx, hp⟩ := Machine.script_exists (M := governanceMachine smallEnv)
      Machine.anything_free (x := ⟨smallDeployment.world, []⟩)
      (m := votedPayment ++ [.enter (daoTx 2 (.cancel 1))])
      (p := fun x => x.frames.isEmpty
        ∧ (Store.afterDAO (inFirstBlock x.world.dao)).getGovernanceEntity.proposalsQueued = 1
        ∧ queuedNumber x.world.dao.proposalCount
          (Store.afterDAO (inFirstBlock x.world.dao)).status = 0) (by decide +kernel)
    obtain ⟨hidle, hcount, hnumber⟩ := of_decide_eq_true hp
    refine ⟨x, hx, List.isEmpty_iff.mp hidle, hcount, hnumber, ?_⟩
    intro hm
    have hqueued := hm.queued
    rw [hcount, hnumber] at hqueued
    exact absurd hqueued (by decide)
  · obtain ⟨x, hx, hp⟩ := Machine.script_exists (M := governanceMachine smallEnv)
      Machine.anything_free (x := ⟨smallDeployment.world, []⟩)
      (m := [.enter mintTwo, .tick ⟨2, 20⟩, .enter (daoTx 2 proposePayment),
        .enter (daoTx 13 (.veto 1)), .enter (daoTx 2 (.cancel 1))])
      (p := fun x => x.frames.isEmpty ∧ (x.world.dao.proposals 1).vetoed = true
        ∧ (Store.afterDAO (inFirstBlock x.world.dao)).status 1 = some .cancelled)
      (by decide +kernel)
    obtain ⟨hidle, hvetoed, hstatus⟩ := of_decide_eq_true hp
    refine ⟨x, hx, List.isEmpty_iff.mp hidle, hvetoed, hstatus, ?_⟩
    intro hm
    have hv := (hm.status 1).vetoed.mpr hvetoed
    rw [hstatus] at hv
    exact absurd hv (by decide)

end Proof

end Nouns
