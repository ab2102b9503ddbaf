import Nouns.Proof.GovernanceEffects
import Nouns.Proof.Timelock

/-!
# The life of a proposal

`Leads` is the graph of proposal states. The state of a proposal is derived from its
flags, its tallies, its eta and two clocks; `ProposalOk` is what has to hold between
them for every move to be along the graph: a proposal that has an eta has carried, one
that is executed has an eta and is not canceled, and one that has not started has no votes.
-/

namespace Nouns

/-- What `propose` fixes for good. -/
structure Terms where
  proposer : Evm.Address
  proposalThreshold : Nat
  quorumVotes : Nat
  targets : List Evm.Address
  values : List Nat
  signatures : List String
  calldatas : List Bytes
  startBlock : Nat
  endBlock : Nat

def Proposal.terms (p : Proposal) : Terms where
  proposer := p.proposer
  proposalThreshold := p.proposalThreshold
  quorumVotes := p.quorumVotes
  targets := p.targets
  values := p.values
  signatures := p.signatures
  calldatas := p.calldatas
  startBlock := p.startBlock
  endBlock := p.endBlock

namespace Proof

open Evm CallMachine

/-! ## The graph -/

/-- The moves from one state to the next. -/
inductive Edge : ProposalState → ProposalState → Prop where
  | start : Edge .pending .active
  | fail : Edge .active .defeated
  | succeed : Edge .active .succeeded
  | failUnseen : Edge .pending .defeated
  | queue : Edge .succeeded .queued
  | execute : Edge .queued .executed
  | expire : Edge .queued .expired
  | cancel {s : ProposalState} : s ≠ .executed → s ≠ .vetoed → Edge s .canceled
  | veto {s : ProposalState} : s ≠ .executed → Edge s .vetoed

/-- The states a proposal can get to. -/
abbrev Leads : ProposalState → ProposalState → Prop := Relation.ReflTransGen Edge

theorem Leads.of_eq {s s' : ProposalState} (h : s = s') : Leads s s' := h ▸ .refl

theorem Leads.executed {s : ProposalState} (h : Leads .executed s) : s = .executed := by
  induction h with
  | refl => rfl
  | tail _ he ih =>
      subst ih
      cases he <;> contradiction

theorem Leads.vetoed {s : ProposalState} (h : Leads .vetoed s) : s = .vetoed := by
  induction h with
  | refl => rfl
  | tail _ he ih =>
      subst ih
      cases he with
      | cancel _ hv => exact absurd rfl hv
      | veto => rfl

/-- A dead proposal stays dead. -/
theorem Leads.dead {s s' : ProposalState} (h : Leads s s')
    (hs : s = .canceled ∨ s = .defeated ∨ s = .expired) : s' ≠ .queued ∧ s' ≠ .executed := by
  suffices s' = .canceled ∨ s' = .defeated ∨ s' = .expired ∨ s' = .vetoed by
    rcases this with rfl | rfl | rfl | rfl <;> exact ⟨by decide, by decide⟩
  induction h with
  | refl => tauto
  | tail _ he ih =>
      rcases ih with rfl | rfl | rfl | rfl <;> cases he <;> tauto

/-! ## What keeps a proposal on the graph -/

/-- What holds between the fields of a proposal. -/
structure ProposalOk (block : Block) (p : Proposal) : Prop where
  span : p.startBlock ≤ p.endBlock
  even : Proposal.Even p
  quiet : block.number ≤ p.startBlock → p.forVotes = 0 ∧ p.againstVotes = 0
  carried : p.eta ≠ 0 →
    p.endBlock < block.number ∧ p.againstVotes < p.forVotes ∧ p.quorumVotes ≤ p.forVotes
  executed : p.executed = true → p.eta ≠ 0 ∧ p.canceled = false ∧ p.vetoed = false

/-- A proposal moves on, from one block to another. -/
structure Advances (block next : Block) (p p' : Proposal) : Prop where
  ok : ProposalOk next p'
  leads : Leads (p.stateOf block) (p'.stateOf next)
  terms : p'.terms = p.terms
  executed : p.executed = true → p'.executed = true
  eta : p.eta ≠ 0 → p'.eta = p.eta

variable {block next : Block} {p : Proposal}

theorem ProposalOk.same (h : ProposalOk block p) : Advances block block p p :=
  ⟨h, .refl, rfl, id, fun _ => rfl⟩

theorem proposalOk_blank : ProposalOk block .blank where
  span := Nat.le_refl _
  even := ⟨rfl, rfl, rfl⟩
  quiet _ := ⟨rfl, rfl⟩
  carried h := absurd rfl h
  executed h := by simp [Proposal.blank] at h

/-- The state of a proposal that is neither canceled nor vetoed once its vote is over. -/
theorem stateOf_over (hv : p.vetoed = false) (hc : p.canceled = false)
    (hs : p.startBlock < block.number) (he : p.endBlock < block.number) :
    p.stateOf block =
      if p.forVotes ≤ p.againstVotes ∨ p.forVotes < p.quorumVotes then .defeated
      else if p.eta = 0 then .succeeded
      else if p.executed then .executed
      else if p.eta + GRACE_PERIOD ≤ block.timestamp then .expired
      else .queued := by
  rw [Proposal.stateOf, if_neg (by simp [hv]), if_neg (by simp [hc]), if_neg (by omega),
    if_neg (by omega)]

theorem stateOf_pending (hv : p.vetoed = false) (hc : p.canceled = false)
    (hs : block.number ≤ p.startBlock) : p.stateOf block = .pending := by
  rw [Proposal.stateOf, if_neg (by simp [hv]), if_neg (by simp [hc]), if_pos hs]

theorem stateOf_active (hv : p.vetoed = false) (hc : p.canceled = false)
    (hs : p.startBlock < block.number) (he : block.number ≤ p.endBlock) :
    p.stateOf block = .active := by
  rw [Proposal.stateOf, if_neg (by simp [hv]), if_neg (by simp [hc]), if_neg (by omega), if_pos he]

theorem ProposalOk.eta_zero (h : ProposalOk block p) (hn : block.number ≤ p.endBlock) :
    p.eta = 0 := by
  by_contra hne
  have := (h.carried hne).1
  omega

/-- Time alone moves a proposal along the graph. -/
theorem ProposalOk.tick (h : ProposalOk block p) (hn : block.number ≤ next.number)
    (ht : block.timestamp ≤ next.timestamp) : Advances block next p p where
  ok := ⟨h.span, h.even, fun hq => h.quiet (by omega), fun he => by
    obtain ⟨h1, h2, h3⟩ := h.carried he
    exact ⟨by omega, h2, h3⟩, h.executed⟩
  terms := rfl
  executed := id
  eta := fun _ => rfl
  leads := by
    cases hv : p.vetoed with
    | true => exact .of_eq (by simp [Proposal.stateOf, hv])
    | false =>
        cases hc : p.canceled with
        | true => exact .of_eq (by simp [Proposal.stateOf, hv, hc])
        | false =>
            have hspan := h.span
            rcases Nat.lt_or_ge p.startBlock block.number with hs | hs
            · rcases Nat.lt_or_ge p.endBlock block.number with he | he
              · -- the vote was over before: only the window of a queued proposal can close
                rw [stateOf_over hv hc hs he, stateOf_over hv hc (by omega) (by omega)]
                split_ifs with _ _ _ hx hx'
                · exact .refl
                · exact .refl
                · exact .refl
                · exact .refl
                · omega
                · exact .single .expire
                · exact .refl
              · rw [stateOf_active hv hc hs he]
                rcases Nat.lt_or_ge p.endBlock next.number with he' | he'
                · rw [stateOf_over hv hc (by omega) he', if_pos (h.eta_zero he)]
                  split_ifs
                  · exact .single .fail
                  · exact .single .succeed
                · rw [stateOf_active hv hc (by omega) he']
            · rw [stateOf_pending hv hc hs]
              rcases Nat.lt_or_ge p.startBlock next.number with hs' | hs'
              · rcases Nat.lt_or_ge p.endBlock next.number with he' | he'
                · obtain ⟨hf, ha⟩ := h.quiet hs
                  rw [stateOf_over hv hc hs' he', if_pos (by omega)]
                  exact .single .failUnseen
                · rw [stateOf_active hv hc hs' he']
                  exact .single .start
              · rw [stateOf_pending hv hc hs']

/-! ## What each function does to its proposal -/

theorem ProposalOk.stateOf_executed (h : ProposalOk block p) (he : p.executed = true) :
    p.stateOf block = .executed := by
  obtain ⟨hne, hc, hv⟩ := h.executed he
  obtain ⟨hend, hfor, hquorum⟩ := h.carried hne
  have hspan := h.span
  rw [stateOf_over hv hc (by omega) hend, if_neg (by omega), if_neg hne, if_pos he]

theorem stateOf_ne_vetoed (h : p.vetoed = false) : p.stateOf block ≠ .vetoed := by
  unfold Proposal.stateOf
  rw [if_neg (by simp [h])]
  split_ifs <;> decide

/-- What it takes to have succeeded. -/
theorem stateOf_succeeded (h : p.stateOf block = .succeeded) :
    p.vetoed = false ∧ p.canceled = false ∧ p.startBlock < block.number
      ∧ p.endBlock < block.number ∧ p.againstVotes < p.forVotes ∧ p.quorumVotes ≤ p.forVotes
      ∧ p.eta = 0 := by
  unfold Proposal.stateOf at h
  split_ifs at h with h1 h2 h3 h4 h5 h6
  obtain ⟨h5, h5'⟩ := not_or.mp h5
  exact ⟨by simpa using h1, by simpa using h2, by omega, by omega, by omega, by omega, h6⟩

theorem stateOf_eq_active (h : p.stateOf block = .active) :
    p.vetoed = false ∧ p.canceled = false ∧ p.startBlock < block.number
      ∧ block.number ≤ p.endBlock := by
  unfold Proposal.stateOf at h
  split_ifs at h with h1 h2 h3 h4
  exact ⟨by simpa using h1, by simpa using h2, by omega, h4⟩

theorem ProposalOk.queue (h : ProposalOk block p) (hs : p.stateOf block = .succeeded)
    {delay : Nat} (hd : MINIMUM_DELAY ≤ delay) :
    Advances block block p { p with eta := block.timestamp + delay } := by
  obtain ⟨hv, hc, hst, hend, hfor, hquorum, heta⟩ := stateOf_succeeded hs
  have hpos : 0 < MINIMUM_DELAY := by decide
  have hex : p.executed = false := by
    rw [← Bool.not_eq_true]
    intro he
    exact (h.executed he).1 heta
  refine ⟨⟨h.span, h.even, fun hn => absurd hn (by simpa using hst), fun _ => ⟨hend, hfor, hquorum⟩,
    fun he => absurd he (by simp [hex])⟩, ?_, rfl, id, fun hne => absurd heta hne⟩
  have hgrace : 0 < GRACE_PERIOD := by decide
  have hto : IsQueued block { p with eta := block.timestamp + delay } :=
    ⟨hv, hc, hst, hend, hfor, hquorum, by simp only; omega, hex, by simp only; omega⟩
  rw [hs, stateOf_queued.mpr hto]
  exact .single .queue

theorem ProposalOk.execute (h : ProposalOk block p) (hq : IsQueued block p) :
    Advances block block p { p with executed := true } := by
  have hok : ProposalOk block { p with executed := true } :=
    ⟨h.span, h.even, h.quiet, h.carried, fun _ => ⟨hq.eta_ne, hq.not_canceled, hq.not_vetoed⟩⟩
  refine ⟨hok, ?_, rfl, fun _ => rfl, fun _ => rfl⟩
  rw [stateOf_queued.mpr hq, hok.stateOf_executed rfl]
  exact .single .execute

theorem ProposalOk.not_executed (h : ProposalOk block p) (hs : p.stateOf block ≠ .executed) :
    p.executed = false := by
  rw [← Bool.not_eq_true]
  exact fun he => hs (h.stateOf_executed he)

theorem ProposalOk.cancel (h : ProposalOk block p) (hs : p.stateOf block ≠ .executed) :
    Advances block block p { p with canceled := true } := by
  have hex := h.not_executed hs
  refine ⟨⟨h.span, h.even, h.quiet, h.carried, fun he => absurd he (by simp [hex])⟩, ?_, rfl, id,
    fun _ => rfl⟩
  by_cases hv : p.vetoed = true
  · exact .of_eq (by simp [Proposal.stateOf, hv])
  · have hto : ({ p with canceled := true } : Proposal).stateOf block = .canceled := by
      simp [Proposal.stateOf, hv]
    rw [hto]
    exact .single (.cancel hs (stateOf_ne_vetoed (by simpa using hv)))

theorem ProposalOk.veto (h : ProposalOk block p) (hs : p.stateOf block ≠ .executed) :
    Advances block block p { p with vetoed := true } := by
  have hex := h.not_executed hs
  refine ⟨⟨h.span, h.even, h.quiet, h.carried, fun he => absurd he (by simp [hex])⟩, ?_, rfl, id,
    fun _ => rfl⟩
  have hto : ({ p with vetoed := true } : Proposal).stateOf block = .vetoed := by
    simp [Proposal.stateOf]
  rw [hto]
  exact .single (.veto hs)

theorem ProposalOk.vote (h : ProposalOk block p) (ha : p.stateOf block = .active)
    (forVotes againstVotes abstainVotes : Nat) (receipts : Address → Receipt) :
    Advances block block p { p with
      forVotes := forVotes
      againstVotes := againstVotes
      abstainVotes := abstainVotes
      receipts := receipts } := by
  obtain ⟨hv, hc, hst, hend⟩ := stateOf_eq_active ha
  have heta := h.eta_zero hend
  refine ⟨⟨h.span, h.even, fun hn => absurd hn (by simpa using hst), fun he => absurd heta he,
    h.executed⟩, ?_, rfl, id, fun _ => rfl⟩
  rw [ha, stateOf_active (by exact hv) (by exact hc) (by exact hst) (by exact hend)]

/-! ## Every step moves every proposal along the graph -/

variable {H : Type} {env : Env H} {w : Governance H} {s s' : NounsDAO}

/-- Proposal `id` got its eta when it was queued. -/
def QueuedFor (history : List Milestone) (id eta : Nat) : Prop :=
  ∃ now delay, .queued id now delay ∈ history ∧ now + delay = eta ∧ MINIMUM_DELAY ≤ delay

/-- Every proposal is in order, and the ids not yet given out are unused. -/
structure DAOInv (w : Governance H) : Prop where
  proposals : ∀ id, ProposalOk w.block (w.dao.proposals id)
  unborn : ∀ id, w.dao.proposalCount < id → w.dao.proposals id = .blank
  delay : MINIMUM_DELAY ≤ w.executor.delay
  queued : ∀ id, (w.dao.proposals id).eta ≠ 0 →
    QueuedFor w.history id (w.dao.proposals id).eta

theorem QueuedFor.mono {history history' : List Milestone} {id eta : Nat}
    (h : QueuedFor history id eta) (hh : history <+: history') : QueuedFor history' id eta := by
  obtain ⟨now, delay, hm, hsum, hd⟩ := h
  exact ⟨now, delay, hh.subset hm, hsum, hd⟩

/-- The DAO moves on: no proposal disappears, and each one there was advances. -/
structure Onward (w w' : Governance H) : Prop where
  inv : DAOInv w'
  count : w.dao.proposalCount ≤ w'.dao.proposalCount
  advances : ∀ id, id ≤ w.dao.proposalCount →
    Advances w.block w'.block (w.dao.proposals id) (w'.dao.proposals id)
  history : w.history <+: w'.history

/-- Writing one proposal. -/
theorem DAOInv.write (h : DAOInv w) {id : Nat} {p : Proposal} {s : NounsDAO}
    {e : NounsDAOExecutor H} {history : List Milestone} (hw : Wrote id p w.dao s)
    (hid : id ≤ w.dao.proposalCount) (hd : MINIMUM_DELAY ≤ e.delay)
    (hp : Advances w.block w.block (w.dao.proposals id) p) (hh : w.history <+: history)
    (hq : p.eta ≠ 0 → p.eta = (w.dao.proposals id).eta ∨ QueuedFor history id p.eta) :
    Onward w { w with dao := s, executor := e, history := history } := by
  obtain ⟨logs, rfl⟩ := hw
  have hall : ∀ j, Advances w.block w.block (w.dao.proposals j)
      (Function.update w.dao.proposals id p j) := by
    intro j
    by_cases hj : j = id
    · subst hj; rw [Function.update_self]; exact hp
    · rw [Function.update_of_ne hj]; exact (h.proposals j).same
  refine ⟨⟨fun j => (hall j).ok, ?_, hd, ?_⟩, Nat.le_refl _, fun j _ => hall j, hh⟩
  · intro j hj
    have hne : j ≠ id := fun heq => by
      subst heq
      exact absurd hid (Nat.not_le_of_lt hj)
    exact (Function.update_of_ne hne _ _).trans (h.unborn j hj)
  · intro j
    simp only
    by_cases hj : j = id
    · subst hj
      rw [Function.update_self]
      intro hne
      rcases hq hne with hold | hnew
      · rw [hold] at hne ⊢
        exact (h.queued j hne).mono hh
      · exact hnew
    · rw [Function.update_of_ne hj]
      exact fun hne => (h.queued j hne).mono hh

/-- Steps that write no proposal. -/
theorem DAOInv.unchanged (h : DAOInv w) {w' : Governance H} (hb : w'.block = w.block)
    (hp : w'.dao.proposals = w.dao.proposals) (hc : w'.dao.proposalCount = w.dao.proposalCount)
    (hd : MINIMUM_DELAY ≤ w'.executor.delay) (hh : w.history <+: w'.history) : Onward w w' := by
  refine ⟨⟨?_, ?_, hd, ?_⟩, Nat.le_of_eq hc.symm, ?_, hh⟩
  · intro j
    rw [hb, hp]; exact h.proposals j
  · intro j hj
    rw [hp]; exact h.unborn j (hc ▸ hj)
  · intro j
    rw [hp]; exact fun hne => (h.queued j hne).mono hh
  · intro j _
    rw [hb, hp]; exact (h.proposals j).same

theorem Onward.trans {w w' w'' : Governance H} (h : Onward w w') (h' : Onward w' w'') :
    Onward w w'' where
  inv := h'.inv
  count := h.count.trans h'.count
  advances id hid := by
    obtain ⟨_, hl, ht, hx, he⟩ := h.advances id hid
    obtain ⟨hok, hl', ht', hx', he'⟩ := h'.advances id (hid.trans h.count)
    exact ⟨hok, hl.trans hl', ht'.trans ht, fun h => hx' (hx h), fun hne =>
      (he' (by rw [he hne]; exact hne)).trans (he hne)⟩
  history := h.history.trans h'.history

/-- A new proposal, and everything else as it was. -/
theorem Proposed.onward {id : Nat} {p : Proposal} {history : List Milestone} (h : DAOInv w)
    (hp : Proposed w.block id w.dao s p) (hh : w.history <+: history) :
    Onward w { w with dao := s, history := history } := by
  obtain ⟨_, _, hbook⟩ := hp.book
  have hother : ∀ j, j ≠ id → s.proposals j = w.dao.proposals j := fun j hj => by
    rw [hbook]; exact Function.update_of_ne hj _ _
  have hself : s.proposals id = p := by rw [hbook]; exact Function.update_self _ _ _
  have hcount : s.proposalCount = w.dao.proposalCount + 1 := by rw [hbook]; exact hp.id_eq
  have hid := hp.id_eq
  obtain ⟨_, _, hx⟩ := hp.flags
  refine ⟨⟨?_, ?_, h.delay, ?_⟩, ?_, ?_, hh⟩
  · intro j
    by_cases hj : j = id
    · subst hj
      simp only [hself]
      exact ⟨hp.endBlock ▸ Nat.le_add_right _ _, hp.even, fun _ => ⟨hp.tallies.1, hp.tallies.2.1⟩,
        fun hne => absurd hp.eta hne, fun he => absurd he (by simp [hx])⟩
    · simp only [hother j hj]
      exact h.proposals j
  · intro j hj
    -- ids beyond the new count were beyond the old one
    simp only [hcount] at hj
    rw [hother j (by omega)]
    exact h.unborn j (by omega)
  · intro j
    by_cases hj : j = id
    · subst hj
      simp only [hself]
      exact fun hne => absurd hp.eta hne
    · simp only [hother j hj]
      exact fun hne => (h.queued j hne).mono hh
  · simp only [hcount]
    omega
  · intro j hj
    simp only
    rw [hother j (by omega)]
    exact (h.proposals j).same

variable [DecidableEq H]

theorem Act.onward {id i : Nat} {fs : List GovernanceFrame} {y : GovConfig H} (h : DAOInv w)
    (ha : Act env id i w fs y) : Onward w y.world := by
  cases ha with
  | calls _ _ hct =>
      obtain rfl := hct.book
      exact h.unchanged rfl rfl rfl h.delay (List.prefix_append _ _)
  | finishes _ => exact h.unchanged rfl rfl rfl h.delay (List.prefix_refl _)

theorem GovEffect.onward {x y : GovConfig H} {l : GovLabel} (h : DAOInv x.world)
    (he : GovEffect env x l y) : Onward x.world y.world := by
  cases he with
  | token => exact h.unchanged rfl rfl rfl h.delay (List.prefix_refl _)
  | reconfigure hr =>
      obtain ⟨_, _, _, _, _, _, _, _, _, _, rfl⟩ := hr.book
      exact h.unchanged rfl rfl rfl h.delay (List.prefix_refl _)
  | administer ha =>
      obtain ⟨_, _, _, _, rfl⟩ := ha.book
      exact h.unchanged rfl rfl rfl (ha.delay h.delay) (List.prefix_refl _)
  | propose hp => exact hp.onward h (List.prefix_append _ _)
  | vote hl hv =>
      obtain ⟨f, a, ab, support, _, hw⟩ := hv.book
      exact h.write hw hv.id_le h.delay ((h.proposals _).vote hv.active f a ab _)
        (List.prefix_refl _) (fun _ => .inl rfl)
  | queue hq =>
      obtain ⟨_, _, he⟩ := hq.flagged.frame
      have hd : MINIMUM_DELAY ≤ _ := h.delay
      refine h.write hq.book hq.id_le ?_ ((h.proposals _).queue hq.succeeded hd)
        (List.prefix_append _ _) (fun _ => .inr ⟨_, _, ?_, rfl, hd⟩)
      · rw [he]
        exact hd
      · simp
  | stop hl hs =>
      obtain ⟨_, _, he⟩ := hs.cleared.frame
      have hd : MINIMUM_DELAY ≤ _ := h.delay
      rcases hs.book with hw | hw
      · refine h.write hw hs.id_le ?_ ((h.proposals _).cancel hs.not_executed)
          (List.prefix_refl _) (fun _ => .inl rfl)
        rw [he]
        exact hd
      · refine h.write hw hs.id_le ?_ ((h.proposals _).veto hs.not_executed)
          (List.prefix_refl _) (fun _ => .inl rfl)
        rw [he]
        exact hd
  | execute hs ha =>
      -- `execute` sets its flag before it calls anybody
      have hstart := h.write ⟨_, hs.book⟩ hs.id_le h.delay
        ((h.proposals _).execute hs.queued) (List.prefix_refl _) (fun _ => .inl rfl)
      exact hstart.trans (ha.onward hstart.inv)
  | @next w fs id i t logs y ha =>
      have hlog : Onward w { w with executor := { w.executor with logs := logs } } :=
        DAOInv.unchanged h rfl rfl rfl h.delay (List.prefix_refl _)
      exact hlog.trans (ha.onward hlog.inv)
  | direct _ hb hh _ =>
      obtain ⟨_, _, rfl⟩ := hb
      refine h.unchanged rfl rfl rfl h.delay ?_
      rcases hh with rfl | ⟨_, rfl⟩
      · exact List.prefix_refl _
      · exact List.prefix_append _ _
  | returned => exact h.unchanged rfl rfl rfl h.delay (List.prefix_refl _)
  | @tick w b hn ht =>
      exact ⟨⟨fun j => ((h.proposals j).tick hn ht).ok, h.unborn, h.delay, h.queued⟩,
        Nat.le_refl _, fun j _ => (h.proposals j).tick hn ht, List.prefix_refl _⟩

/-! ## Runs -/

omit [DecidableEq H] in
/-- A new DAO has no proposals. -/
theorem deployment_unused (d : Deployment env) :
    d.dao.proposalCount = 0 ∧ ∀ id, d.dao.proposals id = .blank := by
  obtain ⟨_, _, _, _, _, _, _, hdao⟩ := d.dao_deployed
  simp only [NounsDAO.deploy, NounsDAO.initialize_, bind_ok] at hdao
  obtain ⟨_, ⟨_, _, _, _, _, _, _, _, _, _, _, _, _, _, _, _, hinit⟩, hdao⟩ := hdao
  obtain rfl := Except.ok.inj hinit
  rw [← Except.ok.inj hdao]
  exact ⟨rfl, fun _ => rfl⟩

omit [DecidableEq H] in
/-- The events of the initialization tell of no proposal. -/
theorem deployment_quiet (d : Deployment env) : ∀ e ∈ d.dao.logs, tellsOfProposal e = false := by
  obtain ⟨_, _, _, _, _, _, _, hdao⟩ := d.dao_deployed
  simp only [NounsDAO.deploy, bind_ok] at hdao
  obtain ⟨_, hinit, hdao⟩ := hdao
  obtain ⟨evs, hevs, hlog⟩ := (initialize_reconfigured (w := ⟨d.token, _, d.executor, d.block,
    []⟩) hinit).logged
  simp only [← Except.ok.inj hdao, hlog]
  simpa [NounsDAO.blank] using hevs

omit [DecidableEq H] in
theorem daoInv_deployment (d : Deployment env) : DAOInv d.world := by
  obtain ⟨_, hunused⟩ := deployment_unused d
  obtain ⟨_, _, hex⟩ := d.executor_created
  simp only [NounsDAOExecutor.create, bind_ok, require_ok] at hex
  obtain ⟨_, hmin, _, _, hex⟩ := hex
  refine ⟨?_, fun id _ => hunused id, ?_, ?_⟩
  · intro id
    simp only [Deployment.world, hunused]
    exact proposalOk_blank
  · simp only [Deployment.world, ← Except.ok.inj hex]
    exact hmin
  · intro id
    simp only [Deployment.world, hunused]
    exact fun hne => absurd rfl hne

/-- The histories of the three contracts. -/
abbrev GovRuns (d : Deployment env) (x : GovConfig H) : Prop :=
  (governanceMachine env).Runs Free ⟨d.world, []⟩ x

theorem onward_runs {P : GovConfig H → GovLabel → Prop} {x y : GovConfig H} (h : DAOInv x.world)
    (hr : (governanceMachine env).Runs P x y) : Onward x.world y.world :=
  governance_runs (I := fun y => Onward x.world y.world)
    (fun hI _ he => hI.trans (he.onward hI.inv)) hr
    (h.unchanged rfl rfl rfl h.delay (List.prefix_refl _))

theorem daoInv_runs {d : Deployment env} {x : GovConfig H} (h : GovRuns d x) : DAOInv x.world :=
  (onward_runs (daoInv_deployment d) h).inv

/--
**The life of a proposal.** From any point of any history to any later one, a proposal
there is keeps its terms, and its state moves along the graph; in particular an executed
or vetoed proposal stays so, and a dead one is never queued or executed.
-/
theorem state_leads (env : Env H) (d : Deployment env) (x y : GovConfig H) (hx : GovRuns d x)
    (hy : (governanceMachine env).Runs Free x y) (id : Nat)
    (hid : id ≤ x.world.dao.proposalCount) :
    (y.world.dao.proposals id).terms = (x.world.dao.proposals id).terms
    ∧ ∀ s s', x.world.dao.state x.world.block id = .ok s →
      y.world.dao.state y.world.block id = .ok s' →
      Leads s s' ∧ (s = .executed → s' = .executed) ∧ (s = .vetoed → s' = .vetoed)
        ∧ (s = .canceled ∨ s = .defeated ∨ s = .expired → s' ≠ .queued ∧ s' ≠ .executed) := by
  obtain ⟨_, hleads, hterms, _, _⟩ := (onward_runs (daoInv_runs hx) hy).advances id hid
  refine ⟨hterms, ?_⟩
  intro s s' hs hs'
  obtain ⟨_, rfl⟩ := state_ok hs
  obtain ⟨_, rfl⟩ := state_ok hs'
  refine ⟨hleads, ?_, ?_, hleads.dead⟩
  · intro he
    rw [he] at hleads
    exact hleads.executed
  · intro hv
    rw [hv] at hleads
    exact hleads.vetoed

/-! ## A small DAO -/

/-- The DAO is account 10, its timelock 11; a ballot counts as signed by the account its `r` names. -/
def smallEnv : Env Transaction where
  self := .ofNat 10
  timelock := .ofNat 11
  nouns := .ofNat 12
  hashing := plainHashing
  recoverBallot := fun _ _ sig => .ofNat sig.r

/-- The DAO with the shortest delay and period; its timelock is its admin. -/
def smallDAO : NounsDAO := { NounsDAO.blank (.ofNat 11) with
  vetoer := .ofNat 13
  votingDelay := 1
  votingPeriod := 5760
  proposalThresholdBPS := 1
  quorumVotesBPS := 200
  timelock := .ofNat 11
  nouns := .ofNat 12
  logs := [.votingPeriodSet 0 5760, .votingDelaySet 0 1, .proposalThresholdBPSSet 0 1,
    .quorumVotesBPSSet 0 200] }

/-- The small DAO deployed together with the small token. -/
def smallDeployment : Deployment smallEnv where
  token := smallGenesis.world.token
  dao := smallDAO
  executor := ⟨.ofNat 10, 0, MINIMUM_DELAY, fun _ => false, []⟩
  block := ⟨1, 1⟩
  token_runs := ⟨smallGenesis, .refl⟩
  dao_deployed := ⟨.ofNat 1, .ofNat 13, .ofNat 11, 5760, 1, 1, 200, rfl⟩
  executor_created := ⟨.ofNat 10, MINIMUM_DELAY, rfl⟩

/-- A call to the DAO. -/
def daoTx (sender : Nat) (call : GovernanceCall) : GovernanceTx := ⟨.ofNat sender, call⟩

/-- A proposal to pay account 9. -/
def proposePayment : GovernanceCall := .propose [.ofNat 9] [1] [""] [[]] ""

/-- Accounts 2 and 4 are minted a Noun each in block 1. -/
def mintTwo : GovernanceTx := daoTx 4 (.token smallView .mint)

/-- Account 2 proposes in block 2; in block 4 its proposal is active. -/
theorem state_leads_active :
    ∃ x y, GovRuns smallDeployment x ∧ (governanceMachine smallEnv).Runs Free x y
      ∧ x.world.dao.state x.world.block 1 = .ok .pending
      ∧ y.world.dao.state y.world.block 1 = .ok .active ∧ Leads .pending .active := by
  obtain ⟨x, hx, hp⟩ := Machine.script_exists (M := governanceMachine smallEnv)
    Machine.anything_free (x := ⟨smallDeployment.world, []⟩)
    (m := [.enter mintTwo, .tick ⟨2, 20⟩, .enter (daoTx 2 proposePayment)])
    (p := fun x => decide (x.world.dao.proposalCount = 1)
      && decide ((x.world.dao.state x.world.block 1).toOption = some .pending)
      && (Machine.script (governanceMachine smallEnv) Machine.anything x [.tick ⟨4, 40⟩]).any
        fun y => (y.world.dao.state y.world.block 1).toOption = some .active) (by decide +kernel)
  obtain ⟨hp, hnext⟩ := Bool.and_eq_true_iff.mp hp
  obtain ⟨hcount, hpending⟩ := Bool.and_eq_true_iff.mp hp
  obtain ⟨y, hy, hactive⟩ := Machine.script_exists Machine.anything_free hnext
  have hpending := toOption_some.mp (of_decide_eq_true hpending)
  have hactive := toOption_some.mp (of_decide_eq_true hactive)
  obtain ⟨-, hleads⟩ := state_leads smallEnv smallDeployment x y hx hy 1
    (Nat.le_of_eq (of_decide_eq_true hcount).symm)
  exact ⟨x, y, hx, hy, hpending, hactive, (hleads _ _ hpending hactive).1⟩

end Proof

end Nouns
