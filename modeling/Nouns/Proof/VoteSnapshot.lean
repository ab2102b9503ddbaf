import Nouns.Proof.Lifecycle
import Nouns.Proof.VoteHistory

/-!
# The snapshot of a proposal

A vote counts what its voter had at the end of the block the proposal was created in.
The DAO does not store that block: it takes today's voting delay off the start block,
which goes wrong once the delay has been changed since. `SteadyDelay` is the condition
that a vote finds the delay its proposal was created with. While it is met every receipt
is what the voter had when that block ended, so the votes of a proposal can be given
Nouns of their own.
-/

namespace Nouns

open Evm CallMachine DelegatedVotes

/-- What is counted of a proposal. -/
structure Ballots where
  startBlock : Nat
  forVotes : Nat
  againstVotes : Nat
  abstainVotes : Nat
  receipts : Address → Receipt

def Proposal.ballots (p : Proposal) : Ballots where
  startBlock := p.startBlock
  forVotes := p.forVotes
  againstVotes := p.againstVotes
  abstainVotes := p.abstainVotes
  receipts := p.receipts

namespace Proof

/-! ## Nouns behind votes -/

/-- The Nouns of those `a` represents. -/
def represented (s : NounsToken) (a : Address) : Finset Nat :=
  (Finset.range s.currentNounId_).filter (fun n => s.owners_ n ≠ 0 ∧ s.delegates (s.owners_ n) = a)

theorem card_represented {now : Nat} {s : NounsToken} (h : TokenInv now s) (a : Address) :
    (represented s a).card = s.ledger.weight a := by
  rw [Finset.card_eq_sum_card_fiberwise (f := s.owners_) (t := Finset.univ)
    (fun _ _ => Finset.mem_coe.mpr (Finset.mem_univ _))]
  refine Finset.sum_congr rfl ?_
  intro o _
  simp only [represented, Finset.filter_filter]
  by_cases ho : o = 0
  · subst ho
    have hb : s.ledger.balance 0 = 0 := h.zero.balance
    rw [hb, ite_self, Finset.card_eq_zero, Finset.filter_eq_empty_iff]
    exact fun n _ hn => hn.1.1 hn.2
  · by_cases hrep : s.ledger.rep o = a
    · rw [if_pos hrep]
      refine Eq.trans ?_ (h.holdings.balance o ho).symm
      congr 1
      exact Finset.filter_congr fun n _ => ⟨fun hn => hn.2, fun hn => ⟨⟨hn ▸ ho, hn ▸ hrep⟩, hn⟩⟩
    · rw [if_neg hrep, Finset.card_eq_zero, Finset.filter_eq_empty_iff]
      exact fun n _ hn => hrep (hn.2 ▸ hn.1.2)

/-- The votes of every account can be covered by Nouns of those it represents. -/
theorem votes_le_represented {now : Nat} {s : NounsToken} (h : TokenInv now s) (a : Address) :
    s.getCurrentVotes a ≤ (represented s a).card := by
  by_cases ha : a = 0
  · subst ha
    have hv : s.getCurrentVotes 0 = 0 := h.zero.votes
    omega
  · rw [card_represented h]
    exact h.covered a ha

/-! ## Ballots -/

/-- Receipts and tallies agree. -/
structure BallotsOk (b : Ballots) : Prop where
  total : b.forVotes + b.againstVotes + b.abstainVotes = ∑ a, (b.receipts a).votes
  unvoted : ∀ a, (b.receipts a).hasVoted = false → (b.receipts a).votes = 0

variable {H : Type} {env : Env H} {w w' : Governance H}

/-- The condition on steps: a vote finds the voting delay its proposal was created with. -/
def SteadyDelay (x : GovConfig H) (l : GovLabel) : Prop :=
  ∀ id, votesOn l = some id → ∀ c delay, .proposed id c delay ∈ x.world.history →
    x.world.dao.votingDelay = delay

/--
Receipts of a proposal created in block `c` have what their voters had at the end of `c`.
The history began in block `start`.
-/
structure SnapshotInv (start : Nat) (w : Governance H) : Prop where
  token : TokenInv w.block.number w.token
  dao : DAOInv w
  start_le : start ≤ w.block.number
  ballots : ∀ id, BallotsOk (w.dao.proposals id).ballots
  recorded : ∀ id, 0 < id → id ≤ w.dao.proposalCount →
    ∃ c delay, .proposed id c delay ∈ w.history
  created : ∀ id c delay, .proposed id c delay ∈ w.history →
    id ≤ w.dao.proposalCount ∧ start ≤ c ∧ (w.dao.proposals id).startBlock = c + delay
  counted : ∀ id c delay, .proposed id c delay ∈ w.history → ∀ a,
    ((w.dao.proposals id).receipts a).hasVoted = true →
    c < w.block.number ∧ ((w.dao.proposals id).receipts a).votes = w.token.votesAt a c

/-- The token goes on: nothing is recorded for a block that is over. -/
structure Ages (w w' : Governance H) : Prop where
  block : w.block.number ≤ w'.block.number
  token : TokenInv w'.block.number w'.token
  past : ∀ a c, c < w.block.number → w'.token.votesAt a c = w.token.votesAt a c

theorem Ages.same (h : TokenInv w.block.number w.token) (hb : w'.block = w.block)
    (ht : w'.token = w.token) : Ages w w' :=
  ⟨Nat.le_of_eq (hb ▸ rfl), by rw [hb, ht]; exact h, fun a c _ => by rw [ht]⟩

theorem Ages.trans {w'' : Governance H} (h : Ages w w') (h' : Ages w' w'') : Ages w w'' :=
  ⟨h.block.trans h'.block, h'.token, fun a c hc =>
    (h'.past a c (Nat.lt_of_lt_of_le hc h.block)).trans (h.past a c hc)⟩

/-- Steps that neither create a proposal nor count a vote. -/
theorem SnapshotInv.keep {start : Nat} (h : SnapshotInv start w) (hdao : DAOInv w')
    (ha : Ages w w') (hp : ∀ id, (w'.dao.proposals id).ballots = (w.dao.proposals id).ballots)
    (hcount : w'.dao.proposalCount = w.dao.proposalCount)
    (hh : ∀ id c delay, .proposed id c delay ∈ w'.history ↔ .proposed id c delay ∈ w.history) :
    SnapshotInv start w' where
  token := ha.token
  dao := hdao
  start_le := h.start_le.trans ha.block
  ballots id := hp id ▸ h.ballots id
  recorded id h0 hid := by
    obtain ⟨c, delay, hm⟩ := h.recorded id h0 (hcount ▸ hid)
    exact ⟨c, delay, (hh id c delay).mpr hm⟩
  created id c delay hm := by
    obtain ⟨h1, h2, h3⟩ := h.created id c delay ((hh id c delay).mp hm)
    exact ⟨hcount ▸ h1, h2, (congrArg Ballots.startBlock (hp id)).trans h3⟩
  counted id c delay hm a hvoted := by
    have hr : (w'.dao.proposals id).receipts = (w.dao.proposals id).receipts :=
      congrArg Ballots.receipts (hp id)
    rw [hr] at hvoted ⊢
    obtain ⟨h1, h2⟩ := h.counted id c delay ((hh id c delay).mp hm) a hvoted
    exact ⟨Nat.lt_of_lt_of_le h1 ha.block, h2.trans (ha.past a c h1).symm⟩

theorem Wrote.ballots {id : Nat} {p : Proposal} {s s' : NounsDAO} (h : Wrote id p s s')
    (hp : p.ballots = (s.proposals id).ballots) (j : Nat) :
    (s'.proposals j).ballots = (s.proposals j).ballots := by
  obtain ⟨_, rfl⟩ := h
  by_cases hj : j = id
  · subst hj
    exact (congrArg Proposal.ballots (Function.update_self _ _ _)).trans hp
  · exact congrArg Proposal.ballots (Function.update_of_ne hj _ _)

/-- A vote counts what the voter had at the end of the block the proposal was created in. -/
theorem SnapshotInv.vote {start votes id : Nat} {voter : Address} {s : NounsDAO}
    (h : SnapshotInv start w) (hv : Voted w.block w.token voter id votes w.dao s)
    (hdelay : ∀ c delay, .proposed id c delay ∈ w.history → w.dao.votingDelay = delay)
    (hdao : DAOInv { w with dao := s }) : SnapshotInv start { w with dao := s } := by
  obtain ⟨forVotes, againstVotes, abstainVotes, support, hcounts, hw⟩ := hv.book
  have hsum := hcounts.total
  obtain ⟨hself, hother, hcount⟩ := hw.proposals
  refine ⟨h.token, hdao, h.start_le, fun j => ?_, fun j h0 hj => h.recorded j h0 (hcount ▸ hj),
    fun j c delay hm => ?_, fun j c delay hm a ha => ?_⟩
  · by_cases hj : j = id
    · subst hj
      obtain ⟨htotal, hunvoted⟩ := h.ballots j
      simp only [hself]
      refine ⟨?_, fun a ha => ?_⟩
      · have hadd := sum_field_update Receipt.votes (w.dao.proposals j).receipts voter
          ⟨true, support, votes⟩
        have hzero : ((w.dao.proposals j).receipts voter).votes = 0 := hunvoted voter hv.fresh
        simp only [hzero] at hadd
        simp only [Proposal.ballots] at htotal ⊢
        omega
      · simp only [Proposal.ballots] at ha ⊢
        by_cases hvoter : a = voter
        · subst hvoter
          simp at ha
        · rw [Function.update_of_ne hvoter] at ha ⊢
          exact hunvoted a ha
    · simp only [hother j hj]
      exact h.ballots j
  · obtain ⟨h1, h2, h3⟩ := h.created j c delay hm
    refine ⟨hcount ▸ h1, h2, ?_⟩
    by_cases hj : j = id
    · subst hj
      simp only [hself]
      exact h3
    · simp only [hother j hj]
      exact h3
  · by_cases hj : j = id
    · subst hj
      simp only [hself] at ha ⊢
      by_cases hvoter : a = voter
      · subst hvoter
        -- the delay taken off the start block is the one that was put on it
        obtain ⟨_, _, hstart⟩ := h.created j c delay hm
        have hactive := (stateOf_eq_active hv.active).2.2.1
        have hcounted := hv.counted
        rw [hdelay c delay hm, hstart, Nat.add_sub_cancel] at hcounted
        have hc : c < w.block.number := by omega
        rw [getPriorVotes_eq h.token.checkpoints a hc] at hcounted
        simp only [Function.update_self]
        exact ⟨hc, (Except.ok.inj hcounted).symm⟩
      · rw [Function.update_of_ne hvoter] at ha ⊢
        exact h.counted j c delay hm a ha
    · simp only [hother j hj] at ha ⊢
      exact h.counted j c delay hm a ha

/-- A proposal starts without ballots. -/
theorem SnapshotInv.propose {start id : Nat} {p : Proposal} {s : NounsDAO}
    (h : SnapshotInv start w) (hp : Proposed w.block id w.dao s p)
    (hdao : DAOInv { w with
      dao := s
      history := w.history ++ [.proposed id w.block.number w.dao.votingDelay] }) :
    SnapshotInv start { w with
      dao := s
      history := w.history ++ [.proposed id w.block.number w.dao.votingDelay] } := by
  obtain ⟨_, _, hbook⟩ := hp.book
  have hid := hp.id_eq
  have hself : s.proposals id = p := by rw [hbook]; exact Function.update_self _ _ _
  have hother : ∀ j, j ≠ id → s.proposals j = w.dao.proposals j := fun j hj => by
    rw [hbook]; exact Function.update_of_ne hj _ _
  have hcount : s.proposalCount = id := by rw [hbook]
  have hblank : p.receipts = fun _ => ⟨false, 0, 0⟩ := by
    rw [hp.receipts, h.dao.unborn id (by omega)]
    rfl
  have hmem : ∀ {j c delay},
      Milestone.proposed j c delay
          ∈ w.history ++ [.proposed id w.block.number w.dao.votingDelay] →
        .proposed j c delay ∈ w.history ∧ j ≠ id
          ∨ j = id ∧ c = w.block.number ∧ delay = w.dao.votingDelay := by
    intro j c delay hm
    rcases List.mem_append.mp hm with hm | hm
    · exact .inl ⟨hm, by have := (h.created j c delay hm).1; omega⟩
    · cases List.mem_singleton.mp hm
      exact .inr ⟨rfl, rfl, rfl⟩
  refine ⟨h.token, hdao, h.start_le, fun j => ?_, fun j h0 hj => ?_, fun j c delay hm => ?_,
    fun j c delay hm a ha => ?_⟩
  · by_cases hj : j = id
    · subst hj
      obtain ⟨h1, h2, h3⟩ := hp.tallies
      simp only [hself]
      refine ⟨?_, fun a _ => ?_⟩
      · simp [Proposal.ballots, h1, h2, h3, hblank]
      · simp [Proposal.ballots, hblank]
    · simp only [hother j hj]
      exact h.ballots j
  · by_cases hjid : j = id
    · subst hjid
      exact ⟨_, _, List.mem_append_right _ (List.mem_singleton.mpr rfl)⟩
    · obtain ⟨c, delay, hm⟩ := h.recorded j h0 (by simp only [hcount] at hj; omega)
      exact ⟨c, delay, List.mem_append_left _ hm⟩
  · rcases hmem hm with ⟨hm, hj⟩ | ⟨rfl, rfl, rfl⟩
    · obtain ⟨h1, h2, h3⟩ := h.created j c delay hm
      simp only [hother j hj, hcount]
      exact ⟨by omega, h2, h3⟩
    · simp only [hself, hcount]
      exact ⟨Nat.le_refl _, h.start_le, hp.startBlock⟩
  · rcases hmem hm with ⟨hm, hj⟩ | ⟨rfl, rfl, rfl⟩
    · simp only [hother j hj] at ha ⊢
      exact h.counted j c delay hm a ha
    · simp only [hself, hblank] at ha
      exact absurd ha (by decide)

variable [DecidableEq H]

theorem Act.ages {id i : Nat} {fs : List GovernanceFrame} {y : GovConfig H}
    (ha : Act env id i w fs y) (h : TokenInv w.block.number w.token) : Ages w y.world := by
  cases ha with
  | calls _ _ hct =>
      obtain rfl := hct.book
      exact .same h rfl rfl
  | finishes _ => exact .same h rfl rfl

theorem GovEffect.ages {x y : GovConfig H} {l : GovLabel}
    (h : TokenInv x.world.block.number x.world.token) (he : GovEffect env x l y) :
    Ages x.world y.world := by
  cases he with
  | token hes =>
      exact ⟨Nat.le_refl _, hes.inv h, fun a c hc => (hes.records h.checkpoints).2 a c hc⟩
  | execute _ ha | next ha =>
      refine Ages.trans ?_ (ha.ages h)
      exact .same h rfl rfl
  | tick hn _ => exact ⟨hn, h.later hn, fun _ _ _ => rfl⟩
  | _ => exact .same h rfl rfl

theorem Act.snapshot {start id i : Nat} {fs : List GovernanceFrame} {y : GovConfig H}
    (h : SnapshotInv start w) (ha : Act env id i w fs y) : SnapshotInv start y.world := by
  have hdao := (ha.onward h.dao).inv
  have hages := ha.ages h.token
  cases ha with
  | calls _ _ hct =>
      obtain rfl := hct.book
      exact h.keep hdao hages (fun _ => rfl) rfl (fun _ _ _ => by simp)
  | finishes _ => exact h.keep hdao hages (fun _ => rfl) rfl (fun _ _ _ => Iff.rfl)

theorem GovEffect.snapshot {start : Nat} {x y : GovConfig H} {l : GovLabel}
    (h : SnapshotInv start x.world) (hP : SteadyDelay x l) (he : GovEffect env x l y) :
    SnapshotInv start y.world := by
  have hdao := (he.onward h.dao).inv
  have hages := he.ages h.token
  cases he with
  | token | administer | returned | tick =>
      exact h.keep hdao hages (fun _ => rfl) rfl (fun _ _ _ => Iff.rfl)
  | reconfigure hr =>
      obtain ⟨_, _, _, _, _, _, _, _, _, _, rfl⟩ := hr.book
      exact h.keep hdao hages (fun _ => rfl) rfl (fun _ _ _ => Iff.rfl)
  | propose hp => exact h.propose hp hdao
  | vote hl hv => exact h.vote hv (hP _ hl) hdao
  | queue hq =>
      exact h.keep hdao hages (hq.book.ballots rfl) hq.book.proposals.2.2 (fun _ _ _ => by simp)
  | stop hl hs =>
      rcases hs.book with hw | hw
      · exact h.keep hdao hages (hw.ballots rfl) hw.proposals.2.2 (fun _ _ _ => Iff.rfl)
      · exact h.keep hdao hages (hw.ballots rfl) hw.proposals.2.2 (fun _ _ _ => Iff.rfl)
  | @execute w fs l s id y hs ha =>
      have hw : Wrote id { w.dao.proposals id with executed := true } w.dao s :=
        ⟨w.dao.logs, hs.book⟩
      have hstart := h.dao.write (e := w.executor) hw hs.id_le h.dao.delay
        ((h.dao.proposals id).execute hs.queued) (List.prefix_refl _) (fun _ => .inl rfl)
      exact ha.snapshot (h.keep hstart.inv (.same h.token rfl rfl) (hw.ballots rfl)
        hw.proposals.2.2 (fun _ _ _ => Iff.rfl))
  | @next w fs id i t logs y ha =>
      have hlog : Onward w { w with executor := { w.executor with logs := logs } } :=
        DAOInv.unchanged h.dao rfl rfl rfl h.dao.delay (List.prefix_refl _)
      exact ha.snapshot (h.keep hlog.inv (.same h.token rfl rfl) (fun _ => rfl) rfl
        (fun _ _ _ => Iff.rfl))
  | direct _ _ hh _ =>
      refine h.keep hdao hages (fun _ => rfl) rfl ?_
      intro _ _ _
      rcases hh with rfl | ⟨_, rfl⟩
      · exact Iff.rfl
      · simp

/-! ## The end of a block -/

omit [DecidableEq H] in
theorem tokenInv_deployment (d : Deployment env) :
    TokenInv d.world.block.number d.world.token := by
  obtain ⟨_, h⟩ := d.token_runs
  exact tokenInv_runs h

theorem ages_runs {P : GovConfig H → GovLabel → Prop} {x y : GovConfig H}
    (h : TokenInv x.world.block.number x.world.token)
    (hr : (governanceMachine env).Runs P x y) : Ages x.world y.world :=
  governance_runs (I := fun y => Ages x.world y.world)
    (fun hI _ he => hI.trans (he.ages hI.token)) hr (.same h rfl rfl)

omit [DecidableEq H] in
theorem snapshotInv_deployment (d : Deployment env) :
    SnapshotInv d.block.number d.world := by
  obtain ⟨hcount, hunused⟩ := deployment_unused d
  refine ⟨tokenInv_deployment d, daoInv_deployment d, Nat.le_refl _, ?_, ?_,
    fun _ _ _ hm => absurd hm List.not_mem_nil, fun _ _ _ hm => absurd hm List.not_mem_nil⟩
  · intro id
    simp only [Deployment.world, hunused]
    exact ⟨by simp [Proposal.ballots, Proposal.blank], fun _ _ => rfl⟩
  · intro id h0 hid
    simp only [Deployment.world, hcount] at hid
    exact absurd (Nat.lt_of_lt_of_le h0 hid) (Nat.lt_irrefl 0)

/-- Block `b` ended in `x`, in the history of `z`. -/
structure GovEndOfBlock (d : Deployment env) (b : Nat) (x z : GovConfig H) : Prop where
  before : GovRuns d x
  last : x.world.block.number ≤ b
  after : ∃ t y, (governanceMachine env).Step x (.tick t) y ∧ b < y.world.block.number
    ∧ (governanceMachine env).Runs Free y z

theorem GovEndOfBlock.votesAt {d : Deployment env} {b : Nat} {x z : GovConfig H}
    (h : GovEndOfBlock d b x z) (a : Address) :
    z.world.token.votesAt a b = x.world.token.getCurrentVotes a := by
  obtain ⟨t, y, hs, hb, hz⟩ := h.after
  have hx := (ages_runs (tokenInv_deployment d) h.before).token
  have hy : Ages x.world y.world := (step_effect hs).ages hx
  have htoken : y.world.token = x.world.token := by
    cases hs with
    | tick ht =>
        obtain ⟨_, _, rfl⟩ := Option.map_eq_some_iff.mp ht
        rfl
  rw [(ages_runs hy.token hz).past a b hb, htoken]
  exact hx.checkpoints.currentVotes a h.last

theorem exists_govEndOfBlock {P : GovConfig H → GovLabel → Prop} {d : Deployment env} {b : Nat}
    {z : GovConfig H} (h : (governanceMachine env).Runs P ⟨d.world, []⟩ z)
    (hd : d.block.number ≤ b) (hb : b < z.world.block.number) : ∃ x, GovEndOfBlock d b x z := by
  have hclock : ∀ {x l y}, (governanceMachine env).Step x l y → x.world.block.number ≤ b →
      ¬ y.world.block.number ≤ b → ∃ t, l = .tick t := by
    intro x l y hs hx hy
    rcases (step_effect hs).block with ht | hblock
    · exact ht
    · exact absurd (hblock ▸ hx) hy
  obtain ⟨x, t, y, hx, hlast, hs, hy, hz⟩ := h.last (p := fun w => w.block.number ≤ b) hclock hd
    (Nat.not_le_of_lt hb)
  exact ⟨x, hx.mono fun _ _ _ => trivial, hlast, t, y, hs, Nat.lt_of_not_le hy,
    hz.mono fun _ _ _ => trivial⟩

/-! ## What a proposal counts -/

/-- The votes on a proposal are those of the token `s`. -/
structure Snapshot (s : NounsToken) (p : Proposal) : Prop where
  receipts : ∀ a, (p.receipts a).hasVoted = true → (p.receipts a).votes = s.getCurrentVotes a
  total : p.forVotes + p.againstVotes + p.abstainVotes ≤ ∑ a, s.getCurrentVotes a
  /-- Each vote can be given a Noun of a holder the voter represents, no Noun twice. -/
  apart : ∃ counted : Address → Finset Nat, (∀ a, (counted a).card = (p.receipts a).votes)
    ∧ (∀ a n, n ∈ counted a → s.owners_ n ≠ 0 ∧ s.delegates (s.owners_ n) = a)
    ∧ ∀ a b, a ≠ b → Disjoint (counted a) (counted b)

omit [DecidableEq H] in
theorem BallotsOk.snapshot {now : Nat} {s : NounsToken} {p : Proposal} (hs : TokenInv now s)
    (h : BallotsOk p.ballots) (hcounted : ∀ a, (p.receipts a).hasVoted = true →
      (p.receipts a).votes = s.getCurrentVotes a) : Snapshot s p := by
  have hle : ∀ a, (p.receipts a).votes ≤ s.getCurrentVotes a := by
    intro a
    cases hv : (p.receipts a).hasVoted with
    | true => exact Nat.le_of_eq (hcounted a hv)
    | false =>
        have hzero : (p.receipts a).votes = 0 := h.unvoted a hv
        omega
  choose counted hsub hcard using fun a =>
    Finset.exists_subset_card_eq ((hle a).trans (votes_le_represented hs a))
  refine ⟨hcounted, ?_, counted, hcard, ?_, ?_⟩
  · have htotal : p.forVotes + p.againstVotes + p.abstainVotes = ∑ a, (p.receipts a).votes :=
      h.total
    rw [htotal]
    exact Finset.sum_le_sum fun a _ => hle a
  · intro a n hn
    exact (Finset.mem_filter.mp (hsub a hn)).2
  · -- a Noun has one owner, who has one representative
    intro a b hab
    refine Finset.disjoint_left.mpr fun n ha hb => hab ?_
    exact (Finset.mem_filter.mp (hsub a ha)).2.2.symm.trans (Finset.mem_filter.mp (hsub b hb)).2.2

/--
**Votes count from the creation block**, as long as no vote finds another voting delay
than its proposal was created with. Every proposal there is has a creation block `c`;
nobody has voted on it before `c` is over, and from then on its receipts are the votes at
the end of `c`, whenever they were cast, with a Noun of its own behind every vote.
-/
theorem receipts_snapshot (env : Env H) (d : Deployment env) (z : GovConfig H)
    (hz : (governanceMachine env).Runs SteadyDelay ⟨d.world, []⟩ z) :
    (∀ id, 0 < id → id ≤ z.world.dao.proposalCount →
      ∃ c delay, .proposed id c delay ∈ z.world.history)
    ∧ ∀ id c delay, .proposed id c delay ∈ z.world.history →
      (∀ a, ((z.world.dao.proposals id).receipts a).hasVoted = true → c < z.world.block.number)
      ∧ (c < z.world.block.number → ∃ x, GovEndOfBlock d c x z)
      ∧ ∀ x, GovEndOfBlock d c x z → Snapshot x.world.token (z.world.dao.proposals id) := by
  have hI : SnapshotInv d.block.number z.world :=
    governance_runs (I := fun x => SnapshotInv d.block.number x.world)
      (fun hI hP he => he.snapshot hI hP) hz (snapshotInv_deployment d)
  refine ⟨hI.recorded, fun id c delay hm => ⟨fun a ha => (hI.counted id c delay hm a ha).1,
    fun hc => exists_govEndOfBlock hz (hI.created id c delay hm).2.1 hc, ?_⟩⟩
  intro x hx
  have htoken := (ages_runs (tokenInv_deployment d) hx.before).token
  refine (hI.ballots id).snapshot htoken ?_
  intro a ha
  rw [(hI.counted id c delay hm a ha).2, hx.votesAt]

/-- Whether a vote finds the voting delay of every proposal. -/
def steadyDelay : GovConfig Transaction → GovLabel → Bool := fun x l =>
  (votesOn l).isNone || x.world.history.all fun
    | .proposed _ _ delay => x.world.dao.votingDelay = delay
    | _ => true

theorem steadyDelay_steady (x : GovConfig Transaction) (l : GovLabel)
    (h : steadyDelay x l = true) : SteadyDelay x l := by
  intro id hl c delay hm
  rcases Bool.or_eq_true_iff.mp h with hnone | hall
  · rw [Option.isNone_iff_eq_none.mp hnone] at hl
    cases hl
  · exact of_decide_eq_true (List.all_eq_true.mp hall _ hm)

/-- In `votedPayment` account 2 votes with the Noun it had at the end of block 2. -/
theorem receipts_snapshot_payment :
    ∃ x z, (governanceMachine smallEnv).Runs SteadyDelay ⟨smallDeployment.world, []⟩ z
      ∧ ((z.world.dao.proposals 1).receipts (.ofNat 2)).votes = 1
      ∧ GovEndOfBlock smallDeployment 2 x z
      ∧ Snapshot x.world.token (z.world.dao.proposals 1) := by
  obtain ⟨z, hz, hp⟩ := Machine.script_exists (M := governanceMachine smallEnv) steadyDelay_steady
    (x := ⟨smallDeployment.world, []⟩)
    (m := [.enter mintTwo, .tick ⟨2, 20⟩, .enter (daoTx 2 proposePayment), .tick ⟨4, 40⟩,
      .enter (daoTx 2 (.castVote 1 1))])
    (p := fun z => decide (((z.world.dao.proposals 1).receipts (.ofNat 2)).votes = 1)
      && decide (2 < z.world.block.number)
      && z.world.history.any fun
        | .proposed id c delay => id = 1 ∧ c = 2 ∧ delay = 1
        | _ => false) (by decide +kernel)
  simp only [Bool.and_eq_true, decide_eq_true_eq, List.any_eq_true] at hp
  obtain ⟨⟨hvotes, hb⟩, m, hm, hcreated⟩ := hp
  cases m with
  | proposed id c delay =>
      obtain ⟨rfl, rfl, rfl⟩ := of_decide_eq_true hcreated
      obtain ⟨-, hend, hsnapshot⟩ := (receipts_snapshot smallEnv smallDeployment z hz).2 1 2 1 hm
      obtain ⟨x, hx⟩ := hend hb
      exact ⟨x, z, hz, hvotes, hx, hsnapshot x hx⟩
  | _ => exact absurd hcreated (by simp)

/-- A proposal that the DAO double its voting delay. -/
def proposeDelay : GovernanceCall :=
  .propose [.ofNat 10] [0] ["_setVotingDelay(uint256)"] [[2]] ""

/--
The first proposal doubles the voting delay and is executed while the second is voted on.
The second was created in block 6001, in which account 4 gave its Noun to account 7.
-/
def movedDelay : List (Machine.Move GovernanceTx Block) :=
  [.enter mintTwo, .tick ⟨2, 20⟩, .enter (daoTx 2 proposeDelay), .tick ⟨4, 40⟩,
    .enter (daoTx 2 (.castVote 1 1)), .tick ⟨6000, 60000⟩, .enter (daoTx 5 (.queue 1)),
    .tick ⟨6001, 60010⟩, .enter (daoTx 2 proposePayment),
    .enter (daoTx 4 (.token smallView (.transferFrom (.ofNat 4) (.ofNat 7) 1))),
    .tick ⟨6003, 60000 + MINIMUM_DELAY⟩, .enter (daoTx 2 (.castVote 2 1)),
    .enter (daoTx 7 (.castVote 2 1)), .enter (daoTx 5 (.execute 1)),
    .enter (daoTx 11 (.setVotingDelay_ 2)), .resume, .enter (daoTx 4 (.castVote 2 1))]

/--
Account 4 had no votes at the end of block 6001 and casts one. There are two Nouns, and
three votes for the proposal.
-/
theorem receipts_movedDelay :
    ∃ x z, GovRuns smallDeployment z ∧ .proposed 2 6001 1 ∈ z.world.history
      ∧ GovEndOfBlock smallDeployment 6001 x z
      ∧ ((z.world.dao.proposals 2).receipts (.ofNat 4)).hasVoted = true
      ∧ ((z.world.dao.proposals 2).receipts (.ofNat 4)).votes = 1
      ∧ x.world.token.getCurrentVotes (.ofNat 4) = 0
      ∧ (z.world.dao.proposals 2).forVotes = 3 ∧ z.world.token.currentNounId_ = 2
      ∧ ¬ Snapshot x.world.token (z.world.dao.proposals 2) := by
  obtain ⟨z, hz, hp⟩ := Machine.script_exists (M := governanceMachine smallEnv)
    Machine.anything_free (x := ⟨smallDeployment.world, []⟩) (m := movedDelay)
    (p := fun z => (decide (((z.world.dao.proposals 2).receipts (.ofNat 4)).hasVoted = true
        ∧ ((z.world.dao.proposals 2).receipts (.ofNat 4)).votes = 1
        ∧ (z.world.token.getPriorVotes z.world.block (.ofNat 4) 6001).toOption = some 0
        ∧ (z.world.dao.proposals 2).forVotes = 3 ∧ z.world.token.currentNounId_ = 2
        ∧ 6001 < z.world.block.number))
      && z.world.history.any fun
        | .proposed id c delay => id = 2 ∧ c = 6001 ∧ delay = 1
        | _ => false) (by decide +kernel)
  simp only [Bool.and_eq_true, decide_eq_true_eq, List.any_eq_true] at hp
  obtain ⟨⟨hvoted, hvotes, hprior, hfor, hnouns, hb⟩, m, hm, hcreated⟩ := hp
  obtain ⟨x, hx⟩ := exists_govEndOfBlock hz (b := 6001) (by decide) hb
  have htoken := (ages_runs (tokenInv_deployment smallDeployment) hz).token
  have hnone : x.world.token.getCurrentVotes (.ofNat 4) = 0 := by
    rw [toOption_some, getPriorVotes_eq htoken.checkpoints _ hb, hx.votesAt] at hprior
    exact Except.ok.inj hprior
  cases m with
  | proposed id c delay =>
      obtain ⟨rfl, rfl, rfl⟩ := of_decide_eq_true hcreated
      refine ⟨x, z, hz, hm, hx, hvoted, hvotes, hnone, hfor, hnouns, ?_⟩
      intro hs
      have := hs.receipts _ hvoted
      omega
  | _ => exact absurd hcreated (by simp)

end Proof

end Nouns
