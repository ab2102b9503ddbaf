import Nouns.Proof.DAOSettings
import Nouns.Proof.Tallies

/-!
# The veto

A proposal is vetoed by the vetoer alone, the role is the vetoer's to give away, and when it is
burned nothing brings it back.
-/

namespace Nouns.Proof

open Evm CallMachine

variable {H : Type} {env : Env H} [DecidableEq H] {x y : GovConfig H} {id : Nat}

/-- A proposal is vetoed by the vetoer. -/
theorem step_vetoed {l : GovLabel} (hs : (governanceMachine env).Step x l y)
    (hbefore : (x.world.dao.proposals id).vetoed = false)
    (hafter : (y.world.dao.proposals id).vetoed = true) :
    ∃ sender, l = .enter ⟨sender, .veto id⟩ ∧ sender = x.world.dao.vetoer ∧ sender ≠ 0 := by
  have hsame : ∀ {p : Proposal}, p = x.world.dao.proposals id → p.vetoed = true → False := by
    intro p hp hv
    rw [hp, hbefore] at hv
    exact Bool.false_ne_true hv
  -- what writes another flag, or another proposal, vetoes nothing
  have hwrote : ∀ {j : Nat} {p : Proposal} {s : NounsDAO}, Wrote j p x.world.dao s →
      (s.proposals id).vetoed = true →
      j = id ∧ p.vetoed = true := by
    intro j p s hw hv
    obtain ⟨hj, hother, -⟩ := hw.proposals
    by_cases hji : id = j
    · subst hji
      exact ⟨rfl, hj ▸ hv⟩
    · exact (hsame (hother id hji) hv).elim
  have he := step_effect hs
  cases he with
  | token | administer | direct | returned | tick => exact (hsame rfl hafter).elim
  | reconfigure hr =>
      obtain ⟨_, _, _, _, _, _, _, _, _, _, rfl⟩ := hr.book
      exact (hsame rfl hafter).elim
  | @propose w fs l s new p hp =>
      obtain ⟨-, hnew, -⟩ := hp.flags
      obtain ⟨_, _, rfl⟩ := hp.book
      obtain ⟨rfl, hv⟩ := hwrote (j := new) (p := p) (s := { w.dao with
        proposals := Function.update w.dao.proposals new p }) ⟨_, rfl⟩ hafter
      rw [hnew] at hv
      exact (Bool.false_ne_true hv).elim
  | vote _ hv =>
      obtain ⟨_, _, _, _, _, hw⟩ := hv.book
      obtain ⟨rfl, hv⟩ := hwrote hw hafter
      exact (hsame rfl hv).elim
  | queue hq =>
      obtain ⟨rfl, hv⟩ := hwrote hq.book hafter
      exact (hsame rfl hv).elim
  | execute hstart ha =>
      rw [ha.proposals] at hafter
      obtain ⟨rfl, hv⟩ := hwrote ⟨_, hstart.book⟩ hafter
      exact (hsame rfl hv).elim
  | next ha =>
      rw [ha.proposals] at hafter
      exact (hsame rfl hafter).elim
  | @stop w fs l s e j hstops hstopped =>
      obtain ⟨rfl, hv⟩ := hwrote hstopped.wrote hafter
      cases l with
      | resume | tick => cases hstops
      | enter tx =>
          obtain ⟨sender, call⟩ := tx
          cases call with
          | veto k =>
              obtain rfl := Option.some.inj hstops
              cases hs with
              | enter _ he _ =>
                  simp only [governanceMachine, Governance.enter, Governance.onBoth, NounsDAO.veto,
                    bind_ok, require_ok] at he
                  obtain ⟨_, ⟨_, hburned, _, hsender, _⟩, _⟩ := he
                  exact ⟨sender, rfl, hsender, hsender ▸ hburned⟩
          | cancel k => exact (hsame rfl hv).elim
          | _ => cases hstops

/-- The vetoer gives its role away itself. -/
theorem step_vetoer {l : GovLabel} (hset : x.world.dao.timelock ≠ 0)
    (hs : (governanceMachine env).Step x l y) (hne : y.world.dao.vetoer ≠ x.world.dao.vetoer) :
    ∃ tx, l = .enter tx ∧ tx.sender = x.world.dao.vetoer
      ∧ (tx.call = .burnVetoPower_ ∨ ∃ a, tx.call = .setVetoer_ a) := by
  rcases step_settings hset hs with heq | ⟨tx, rfl, hamend⟩
  · exact absurd (congrArg Settings.vetoer heq) hne
  · refine ⟨tx, rfl, ?_⟩
    generalize ht : y.world.dao.settings = t at hamend
    have hne : t.vetoer ≠ x.world.dao.settings.vetoer := by rw [← ht]; exact hne
    generalize tx.call = c at hamend
    cases hamend with
    | vetoer hsender => exact ⟨hsender, .inr ⟨_, rfl⟩⟩
    | burn hsender => exact ⟨hsender, .inl rfl⟩
    | _ => exact absurd rfl hne

/-- What is vetoed stays so. -/
theorem step_stays_vetoed {l : GovLabel} (h : DAOInv x.world)
    (hs : (governanceMachine env).Step x l y) (hv : (x.world.dao.proposals id).vetoed = true) :
    (y.world.dao.proposals id).vetoed = true := by
  have hid : id ≤ x.world.dao.proposalCount := by
    by_contra hgt
    rw [h.unborn id (Nat.lt_of_not_le hgt)] at hv
    cases hv
  have hleads := (((step_effect hs).onward h).advances id hid).leads
  have hvetoed : (x.world.dao.proposals id).stateOf x.world.block = .vetoed := by
    rw [Proposal.stateOf, if_pos hv]
  rw [hvetoed] at hleads
  by_contra hne
  exact stateOf_ne_vetoed (Bool.eq_false_of_not_eq_true hne) hleads.vetoed

/-- Nobody can veto any more, and what was vetoed when that came about is what is vetoed. -/
theorem burned_runs (h : DAOInv x.world) (hset : SetUp x.world.dao) (hburned : x.world.dao.vetoer = 0)
    (hr : (governanceMachine env).Runs Free x y) : y.world.dao.vetoer = 0
      ∧ ∀ id, (y.world.dao.proposals id).vetoed = (x.world.dao.proposals id).vetoed := by
  suffices DAOInv y.world ∧ SetUp y.world.dao ∧ y.world.dao.vetoer = 0
      ∧ ∀ id, (y.world.dao.proposals id).vetoed = (x.world.dao.proposals id).vetoed from this.2.2
  induction hr with
  | refl => exact ⟨h, hset, hburned, fun _ => rfl⟩
  | @tail y z _ hs ih =>
      obtain ⟨hy, hset, hburned, hsame⟩ := ih
      obtain ⟨l, -, hs⟩ := hs
      refine ⟨((step_effect hs).onward hy).inv, hset.step hs, ?_, ?_⟩
      · by_contra hne
        obtain ⟨tx, rfl, hsender, -⟩ := step_vetoer hset.1 hs (hburned ▸ hne)
        exact hs.allowed.1 (hsender.trans hburned)
      · intro id
        rw [← hsame id]
        cases hv : (y.world.dao.proposals id).vetoed with
        | true => exact step_stays_vetoed hy hs hv
        | false =>
            by_contra hne
            obtain ⟨_, -, hsender, hnz⟩ := step_vetoed hs hv (Bool.eq_true_of_not_eq_false hne)
            exact hnz (hsender.trans hburned)

/--
**The veto.** In every history a proposal is vetoed by a `veto` call of the vetoer of the moment,
who alone can give the role away; once it is burned, nobody ever vetoes a proposal again.
-/
theorem veto_power (env : Env H) (d : Deployment env) (x : GovConfig H) (hx : GovRuns d x) :
    (∀ l y id, (governanceMachine env).Step x l y → (x.world.dao.proposals id).vetoed = false →
      (y.world.dao.proposals id).vetoed = true →
      ∃ sender, l = .enter ⟨sender, .veto id⟩ ∧ sender = x.world.dao.vetoer ∧ sender ≠ 0)
    ∧ (∀ l y, (governanceMachine env).Step x l y → y.world.dao.vetoer ≠ x.world.dao.vetoer →
      ∃ tx, l = .enter tx ∧ tx.sender = x.world.dao.vetoer
        ∧ (tx.call = .burnVetoPower_ ∨ ∃ a, tx.call = .setVetoer_ a))
    ∧ (x.world.dao.vetoer = 0 → ∀ y, (governanceMachine env).Runs Free x y →
      y.world.dao.vetoer = 0
        ∧ ∀ id, (y.world.dao.proposals id).vetoed = (x.world.dao.proposals id).vetoed) :=
  ⟨fun _ _ _ hs => step_vetoed hs, fun _ _ hs => step_vetoer (setUp_runs hx).1 hs,
    fun hburned _ hr => burned_runs (daoInv_runs hx) (setUp_runs hx) hburned hr⟩

/-- Account 13 vetoes proposal 1 and burns its power; proposal 2 can no longer be vetoed. -/
theorem veto_power_burned : ∃ x, GovRuns smallDeployment x
    ∧ (x.world.dao.proposals 1).vetoed = true
    ∧ x.world.dao.proposalCount = 2
    ∧ ∀ y, (governanceMachine smallEnv).Runs Free x y →
      (y.world.dao.proposals 2).vetoed = false := by
  obtain ⟨x, hx, hp⟩ := Machine.script_exists (M := governanceMachine smallEnv)
    Machine.anything_free (x := ⟨smallDeployment.world, []⟩)
    (m := [.enter mintTwo, .tick ⟨2, 20⟩, .enter (daoTx 2 proposePayment),
      .enter (daoTx 4 proposePayment), .enter (daoTx 13 (.veto 1)),
      .enter (daoTx 13 .burnVetoPower_)])
    (p := fun x => (x.world.dao.proposals 1).vetoed = true ∧ x.world.dao.proposalCount = 2
      ∧ x.world.dao.vetoer = 0 ∧ (x.world.dao.proposals 2).vetoed = false) (by decide +kernel)
  obtain ⟨hvetoed, hcount, hburned, hfree⟩ := of_decide_eq_true hp
  obtain ⟨-, -, hafter⟩ := veto_power smallEnv smallDeployment x hx
  exact ⟨x, hx, hvetoed, hcount, fun y hy => ((hafter hburned y hy).2 2).trans hfree⟩

end Nouns.Proof
