import Nouns.Proof.TreasuryAuthority

/-!
# Which proposals can be queued

`propose` compares nothing but the lengths of the arrays, and `queue` raises the bits of
the actions one after the other and refuses a bit that is up. A proposal that lists an
action twice therefore passes and can never be queued. Nothing else stands in the way of
one that succeeded: every bit that is up is that of an action of a proposal queued under
its eta (`Owned`), which one that succeeded has not been, so its own actions cannot find
their bits taken unless by another proposal.
-/

namespace Nouns

/-- Two of the actions of a proposal are the same at `eta`. -/
def Proposal.Repeats (p : Proposal) (eta : Nat) : Prop :=
  ∃ i j t, i < j ∧ p.action i eta = .ok t ∧ p.action j eta = .ok t

namespace Proof

open Evm CallMachine

variable {H : Type} {env : Env H}

/-- The bit is that of an action of a proposal, under the eta it was queued with. -/
def HasOwner (env : Env H) (w : Governance H) (b : H) : Prop :=
  ∃ q, q ≤ w.dao.proposalCount ∧ (w.dao.proposals q).eta ≠ 0
    ∧ HashOf env.hashing (w.dao.proposals q) (w.dao.proposals q).eta
        (w.dao.proposals q).targets.length b

/-- Every bit that is up has an owner. -/
def Owned (env : Env H) (w : Governance H) : Prop :=
  ∀ b, w.executor.queuedTransactions b = true → HasOwner env w b

theorem HashOf.congr {hs : Hashing H} {p p' : Proposal} (hp : p'.terms = p.terms)
    {eta : Nat} {b : H} (hh : HashOf hs p eta p.targets.length b) :
    HashOf hs p' eta p'.targets.length b := by
  obtain ⟨i, t, hi, hact, hhash⟩ := hh
  simp only [Proposal.terms, Terms.mk.injEq] at hp
  obtain ⟨-, -, -, ht, hv, hsig, hcd, -, -⟩ := hp
  refine ⟨i, t, ht ▸ hi, action_ok.mpr ?_, hhash⟩
  rw [ht, hv, hsig, hcd]
  exact action_ok.mp hact

/-- A proposal keeps its actions and its eta, so it stays the owner of its bits. -/
theorem HasOwner.onward {w w' : Governance H} {b : H} (h : HasOwner env w b)
    (ho : Onward w w') : HasOwner env w' b := by
  obtain ⟨q, hq, hne, hhash⟩ := h
  obtain ⟨_, _, hterms, _, heta⟩ := ho.advances q hq
  refine ⟨q, hq.trans ho.count, ?_, ?_⟩
  · rw [heta hne]
    exact hne
  · rw [heta hne]
    exact hhash.congr hterms

variable [DecidableEq H]

/-- The loop of `execute` takes bits down only. -/
theorem Act.lowers {w : Governance H} {fs : List GovernanceFrame} {id i : Nat} {y : GovConfig H}
    (ha : Act env id i w fs y) {b : H} (hb : y.world.executor.queuedTransactions b = true) :
    w.executor.queuedTransactions b = true := by
  cases ha with
  | finishes _ => exact hb
  | calls _ _ hct =>
      obtain rfl := hct.book
      simp only [Function.update_apply] at hb
      split_ifs at hb
      exact hb

/-- Only `queue` raises bits, and gives the proposal the eta they are under. -/
theorem GovEffect.owned {x y : GovConfig H} {l : GovLabel} (hI : DAOInv x.world)
    (h : Owned env x.world) (hadmin : AdminIsDAO env x l) (he : GovEffect env x l y) :
    Owned env y.world := by
  have ho := he.onward hI
  have hkeep : (∀ b, y.world.executor.queuedTransactions b = true →
      x.world.executor.queuedTransactions b = true) → Owned env y.world :=
    fun hbits b hb => (h b (hbits b hb)).onward ho
  cases he with
  | administer ha =>
      obtain ⟨_, _, _, _, rfl⟩ := ha.book
      exact hkeep fun _ hb => hb
  | @queue w fs l s e id hq =>
      intro b hb
      rcases (hq.flagged.bits b).mp hb with hb | hb
      · exact (h b hb).onward ho
      · obtain ⟨hself, _, hcount⟩ := hq.book.proposals
        have hd : MINIMUM_DELAY ≤ w.executor.delay := hI.delay
        have hpos : 0 < MINIMUM_DELAY := by decide
        refine ⟨id, hcount ▸ hq.id_le, ?_, ?_⟩
        · simp only [hself]
          omega
        · simp only [hself]
          exact hb.congr rfl
  | stop hl hs => exact hkeep fun b hb => ((hs.cleared.bits b).mp hb).1
  | execute hs ha => exact hkeep fun _ hb => ha.lowers hb
  | next ha => exact hkeep fun _ hb => ha.lowers hb
  | direct hne => exact absurd hadmin hne
  | _ => exact hkeep fun _ hb => hb

theorem owned_runs {d : Deployment env} {x : GovConfig H}
    (hx : (governanceMachine env).Runs (AdminIsDAO env) ⟨d.world, []⟩ x) :
    DAOInv x.world ∧ Owned env x.world := by
  refine governance_runs (I := fun x => DAOInv x.world ∧ Owned env x.world) (fun hI hP he =>
    ⟨(he.onward hI.1).inv, he.owned hI.1 hI.2 hP⟩) hx ⟨daoInv_deployment d, ?_⟩
  intro b hb
  obtain ⟨_, _, hex⟩ := d.executor_created
  simp only [NounsDAOExecutor.create, bind_ok, require_ok] at hex
  obtain ⟨_, _, _, _, hex⟩ := hex
  simp only [Deployment.world, ← Except.ok.inj hex] at hb
  exact absurd hb (by decide)

/-- The loop of `queue` goes through when its actions differ and their bits are down. -/
theorem queueLoop_total {hs : Hashing H} {self : Address} {block : Block} {p : Proposal}
    {e : NounsDAOExecutor H} (hinj : Function.Injective hs.txHash) (heven : Proposal.Even p)
    (hadmin : e.admin = self) (hfits : block.timestamp + e.delay < 2 ^ 256)
    (hfree : ∀ b, HashOf hs p (block.timestamp + e.delay) p.targets.length b →
      e.queuedTransactions b = false)
    (hdist : ¬ p.Repeats (block.timestamp + e.delay)) :
    ∃ e', (List.range p.targets.length).foldlM (fun timelock i => do
      let t ← p.action i (block.timestamp + e.delay)
      NounsDAO.queueOrRevertInternal hs self block t timelock) e = .ok e' := by
  refine Exists.imp (fun _ h => h.1) (foldlM_range_total (I := fun n e₁ => BitsOnly e e₁ ∧ ∀ b,
    e₁.queuedTransactions b = true → e.queuedTransactions b = true
      ∨ HashOf hs p (block.timestamp + e.delay) n b) ⟨⟨_, _, rfl⟩, fun b hb => .inl hb⟩ ?_)
  intro n e₁ hn hin
  obtain ⟨⟨_, _, rfl⟩, hbits⟩ := hin
  obtain ⟨t, ht⟩ := heven.action hn (block.timestamp + e.delay)
  obtain ⟨-, -, -, -, heta⟩ := action_ok.mp ht
  -- the bit was not up before the loop, and it is not that of an action before this one
  have hdown : ¬ _ := fun hup => by
    rcases hbits (hs.txHash t) hup with hup | ⟨i, t', hi, ht', hhash⟩
    · exact absurd (hup.symm.trans (hfree _ ⟨n, t, hn, ht, rfl⟩)) (by decide)
    · obtain rfl := hinj hhash
      exact hdist ⟨i, n, t', hi, ht', ht⟩
  refine ⟨_, bind_ok.mpr ⟨t, ht, bind_ok.mpr ⟨(), require_total hdown,
    bind_ok.mpr ⟨(), require_total hadmin.symm, bind_ok.mpr ⟨_, add_ok.mpr ⟨hfits, rfl⟩,
    bind_ok.mpr ⟨(), require_total (Nat.le_of_eq heta.symm), rfl⟩⟩⟩⟩⟩, ⟨_, _, rfl⟩, ?_⟩
  intro b hb
  rw [hashOf_succ ht]
  simp only [NounsDAOExecutor.emit, Function.update_apply] at hb
  by_cases hh : b = hs.txHash t
  · exact .inr (.inr hh.symm)
  · rw [if_neg hh] at hb
    rcases hbits b hb with hb | hb
    · exact .inl hb
    · exact .inr (.inl hb)

/--
**What succeeded can be queued unless it repeats itself.** In every history in which the
executor's admin is the DAO, once a proposal has succeeded and the actions of the others
leave its bits alone, `queue` goes through exactly if no two of its actions are the same
and its eta fits a word.
-/
theorem queue_iff (env : Env H) (hinj : Function.Injective env.hashing.txHash)
    (d : Deployment env) (x : GovConfig H)
    (hx : (governanceMachine env).Runs (AdminIsDAO env) ⟨d.world, []⟩ x)
    (hadmin : x.world.executor.admin = env.self) (id : Nat)
    (hs : x.world.dao.state x.world.block id = .ok .succeeded)
    (hothers : ∀ q i t, q ≤ x.world.dao.proposalCount → q ≠ id →
      (x.world.dao.proposals q).action i (x.world.block.timestamp + x.world.executor.delay) = .ok t →
      x.world.executor.queuedTransactions (env.hashing.txHash t) = false) (sender : Address) :
    (∃ o, Governance.enter env ⟨sender, .queue id⟩ x.world = .ok o)
      ↔ x.world.block.timestamp + x.world.executor.delay < 2 ^ 256
        ∧ ¬ (x.world.dao.proposals id).Repeats
          (x.world.block.timestamp + x.world.executor.delay) := by
  obtain ⟨hI, howned⟩ := owned_runs hx
  obtain ⟨hid, hsucc⟩ := state_ok hs
  obtain ⟨-, -, -, -, -, -, hzero⟩ := stateOf_succeeded hsucc
  constructor
  · intro h
    obtain ⟨o, ho⟩ := h
    obtain ⟨⟨s, e⟩, hq, -⟩ := bind_ok.mp ho
    refine ⟨?_, ?_⟩
    · obtain ⟨_, _, hq⟩ := bind_ok.mp hq
      obtain ⟨_, _, hq⟩ := bind_ok.mp hq
      obtain ⟨_, hadd, _⟩ := bind_ok.mp hq
      exact (add_ok.mp hadd).1
    · intro h
      obtain ⟨i, j, t, hij, hi, hj⟩ := h
      have hlt : j < (x.world.dao.proposals id).targets.length :=
        (List.getElem?_eq_some_iff.mp (action_ok.mp hj).1).1
      exact (queue_shape hq).flagged.distinct i j t t hij hlt hi hj rfl
  · intro h
    obtain ⟨hfits, hdist⟩ := h
    have hfree : ∀ b, HashOf env.hashing (x.world.dao.proposals id)
        (x.world.block.timestamp + x.world.executor.delay)
        (x.world.dao.proposals id).targets.length b →
        x.world.executor.queuedTransactions b = false := by
      intro b h
      obtain ⟨i, t, _, hact, rfl⟩ := h
      rw [← Bool.not_eq_true]
      intro hup
      -- whoever owns the bit is another proposal with the same eta
      obtain ⟨q, hq, hne, j, t', _, hact', hhash⟩ := howned _ hup
      obtain rfl := hinj hhash
      have heta := (action_ok.mp hact').2.2.2.2.symm.trans (action_ok.mp hact).2.2.2.2
      rw [heta] at hact'
      have hqid : q ≠ id := fun heq => hne (heq ▸ hzero)
      exact absurd (hup.symm.trans (hothers q j t' hq hqid hact')) (by decide)
    obtain ⟨e, he⟩ := queueLoop_total hinj (hI.proposals id).even hadmin hfits
      hfree hdist
    obtain ⟨r, hr⟩ : ∃ r, x.world.dao.queue env.hashing env.self x.world.block id
        x.world.executor = .ok r :=
      bind_total hs <| bind_total (require_total rfl) <|
        bind_total (add_ok.mpr ⟨hfits, rfl⟩) <| bind_total he ⟨_, rfl⟩
    exact bind_total hr ⟨_, rfl⟩

/-! ## Two proposals of the small DAO -/

/-- Account 2 makes a proposal, votes for it, and the period ends. -/
def passed (call : GovernanceCall) : List (Machine.Move GovernanceTx Block) :=
  [.enter mintTwo, .tick ⟨2, 20⟩, .enter (daoTx 2 call), .tick ⟨4, 40⟩,
    .enter (daoTx 2 (.castVote 1 1)), .tick ⟨6000, 60000⟩]

/-- A proposal to pay account 9 twice. -/
def proposeTwice : GovernanceCall := .propose [.ofNat 9, .ofNat 9] [1, 1] ["", ""] [[], []] ""

/-- The first proposal has succeeded, and there is no other. -/
structure FirstPassed (x : GovConfig Transaction) : Prop where
  admin : x.world.executor.admin = smallEnv.self
  count : x.world.dao.proposalCount = 1
  blank : (x.world.dao.proposals 0).targets = []
  succeeded : x.world.dao.state x.world.block 1 = .ok .succeeded

/-- No other proposal has an action at all. -/
theorem FirstPassed.others {x : GovConfig Transaction} (h : FirstPassed x) {q i eta : Nat}
    {t : Transaction} (hq : q ≤ x.world.dao.proposalCount) (hne : q ≠ 1) :
    (x.world.dao.proposals q).action i eta ≠ .ok t := by
  intro hact
  have hcount := h.count
  obtain rfl : q = 0 := by omega
  have htarget := (action_ok.mp hact).1
  rw [h.blank] at htarget
  exact absurd htarget (by simp)

instance (x : GovConfig Transaction) : Decidable (FirstPassed x) :=
  decidable_of_iff (x.world.executor.admin = smallEnv.self ∧ x.world.dao.proposalCount = 1
    ∧ (x.world.dao.proposals 0).targets = []
    ∧ (x.world.dao.state x.world.block 1).toOption = some .succeeded)
    ⟨fun ⟨h1, h2, h3, h4⟩ => ⟨h1, h2, h3, toOption_some.mp h4⟩,
      fun ⟨h1, h2, h3, h4⟩ => ⟨h1, h2, h3, toOption_some.mpr h4⟩⟩

/-- A single payment can be queued once it has succeeded. -/
theorem queue_iff_payment :
    ∃ x, (governanceMachine smallEnv).Runs (AdminIsDAO smallEnv) ⟨smallDeployment.world, []⟩ x
      ∧ x.world.dao.state x.world.block 1 = .ok .succeeded
      ∧ ∃ o, Governance.enter smallEnv (daoTx 5 (.queue 1)) x.world = .ok o := by
  obtain ⟨x, hx, hp⟩ := Machine.script_exists (M := governanceMachine smallEnv)
    adminIsSmallDAO_adminIsDAO (x := ⟨smallDeployment.world, []⟩) (m := passed proposePayment)
    (p := fun x => decide (FirstPassed x) && decide ((x.world.dao.proposals 1).targets.length = 1)
      && decide (x.world.block.timestamp + x.world.executor.delay < 2 ^ 256)) (by decide +kernel)
  obtain ⟨hp, hfits⟩ := Bool.and_eq_true_iff.mp hp
  obtain ⟨hp, hone⟩ := Bool.and_eq_true_iff.mp hp
  have hp := of_decide_eq_true hp
  refine ⟨x, hx, hp.succeeded, (queue_iff smallEnv Function.injective_id smallDeployment x hx
    hp.admin 1 hp.succeeded (fun q i t hq hne hact => absurd hact (hp.others hq hne)) _).mpr
    ⟨of_decide_eq_true hfits, ?_⟩⟩
  intro h
  obtain ⟨i, j, t, hij, -, hj⟩ := h
  obtain ⟨hlt, _⟩ := List.getElem?_eq_some_iff.mp (action_ok.mp hj).1
  have := of_decide_eq_true hone
  omega

/-- A proposal with the same payment twice succeeds and cannot be queued. -/
theorem queue_iff_repeated :
    ∃ x, (governanceMachine smallEnv).Runs (AdminIsDAO smallEnv) ⟨smallDeployment.world, []⟩ x
      ∧ x.world.executor.admin = smallEnv.self
      ∧ x.world.dao.state x.world.block 1 = .ok .succeeded
      ∧ (∀ q i t, q ≤ x.world.dao.proposalCount → q ≠ 1 →
        (x.world.dao.proposals q).action i
          (x.world.block.timestamp + x.world.executor.delay) = .ok t →
        x.world.executor.queuedTransactions (smallEnv.hashing.txHash t) = false)
      ∧ revertOf (Governance.enter smallEnv (daoTx 5 (.queue 1)) x.world) = some
        (.error "NounsDAO::queueOrRevertInternal: identical proposal action already queued at eta") := by
  obtain ⟨x, hx, hp⟩ := Machine.script_exists (M := governanceMachine smallEnv)
    adminIsSmallDAO_adminIsDAO (x := ⟨smallDeployment.world, []⟩) (m := passed proposeTwice)
    (p := fun x => decide (FirstPassed x) && decide (revertOf
      (Governance.enter smallEnv (daoTx 5 (.queue 1)) x.world) = some (.error
        "NounsDAO::queueOrRevertInternal: identical proposal action already queued at eta")))
    (by decide +kernel)
  obtain ⟨hp, hrevert⟩ := Bool.and_eq_true_iff.mp hp
  have hp := of_decide_eq_true hp
  exact ⟨x, hx, hp.admin, hp.succeeded,
    fun q i t hq hne hact => absurd hact (hp.others hq hne), of_decide_eq_true hrevert⟩

end Proof

end Nouns
