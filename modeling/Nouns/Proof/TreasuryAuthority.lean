import Nouns.Proof.Lifecycle

/-!
# Who spends the treasury

While the DAO is the executor's admin, every call of the executor to a target is an
action of a proposal that was voted for, queued and waited for, and none is made twice.
The argument never looks at the executor's bits: a proposal is executed once because
`executed` is set before its first action, each action is called once because the loop
only moves forward, and what `execute` checked before the first action still holds at
the last, since a proposal being executed can be neither canceled nor vetoed.
-/

namespace Nouns.Proof

open Evm CallMachine

variable {H : Type} {env : Env H}

/-- The condition on histories that the DAO is and stays the executor's admin. -/
def AdminIsDAO (env : Env H) : GovConfig H → GovLabel → Prop :=
  fun x _ => x.world.executor.admin = env.self

/--
What a call to a target has behind it, `before` being the history up to it: it is
action `i` of a proposal that at that moment was carried, in its window, neither
canceled nor vetoed, and had been queued long enough ago.
-/
structure Authorized (env : Env H) (before : List Milestone) (c : TargetCall) (id i : Nat) :
    Prop where
  origin : c.origin = some (id, i)
  proposed : id ≤ c.dao.proposalCount
  action : ∃ t, (c.dao.proposals id).action i (c.dao.proposals id).eta = .ok t
    ∧ c.target = t.target ∧ c.value = t.value
    ∧ c.callData = NounsDAOExecutor.callData env.hashing t
  not_canceled : (c.dao.proposals id).canceled = false
  not_vetoed : (c.dao.proposals id).vetoed = false
  ended : (c.dao.proposals id).endBlock < c.block.number
  carried : (c.dao.proposals id).againstVotes < (c.dao.proposals id).forVotes
  quorum : (c.dao.proposals id).quorumVotes ≤ (c.dao.proposals id).forVotes
  queued : ∃ now delay, .queued id now delay ∈ before ∧ MINIMUM_DELAY ≤ delay
    ∧ now + delay ≤ (c.dao.proposals id).eta
  due : (c.dao.proposals id).eta ≤ c.block.timestamp
  fresh : c.block.timestamp < (c.dao.proposals id).eta + GRACE_PERIOD

/-- Two calls that are not the same action of the same proposal. -/
def Apart : Milestone → Milestone → Prop
  | .called c, .called c' => c.origin ≠ c'.origin
  | _, _ => True

/-- The proposal whose execution waits in a frame. -/
def running : GovernanceFrame → Option Nat
  | .execute id _ _ => some id
  | _ => none

/-- What holds of a proposal whose actions are being executed. -/
structure Executing (w : Governance H) (id : Nat) : Prop where
  id_le : id ≤ w.dao.proposalCount
  executed : (w.dao.proposals id).executed = true
  fresh : w.block.timestamp < (w.dao.proposals id).eta + GRACE_PERIOD
  fits : (w.dao.proposals id).eta + GRACE_PERIOD < 2 ^ 256

/-- What holds of a pending `execute`. -/
structure FrameOk (w : Governance H) (id : Nat) : Prop extends Executing w id where
  due : (w.dao.proposals id).eta ≤ w.block.timestamp

/-- Calls made and calls pending, as long as the DAO is the admin. -/
structure AuthorityInv (env : Env H) (x : GovConfig H) : Prop where
  dao : DAOInv x.world
  frames : ∀ id i t, .execute id i t ∈ x.frames → FrameOk x.world id
  apart_frames : x.frames.Pairwise (fun f g => ∀ id, running f = some id → running g ≠ some id)
  /-- The calls of a proposal being executed are those up to the pending one. -/
  progress : ∀ c id i, .called c ∈ x.world.history → c.origin = some (id, i) →
    (x.world.dao.proposals id).executed = true ∧ id ≤ x.world.dao.proposalCount
      ∧ ∀ k t, .execute id k t ∈ x.frames → i ≤ k
  apart : x.world.history.Pairwise Apart
  authorized : ∀ (j : ℕ) c, x.world.history[j]? = some (.called c) →
    ∃ id i, Authorized env (x.world.history.take j) c id i

/-- Entries of a longer history. -/
theorem authorized_append {history more : List Milestone} (hmore : ∀ c, .called c ∉ more)
    (h : ∀ (j : ℕ) c, history[j]? = some (.called c) →
      ∃ id i, Authorized env (history.take j) c id i) :
    ∀ (j : ℕ) c, (history ++ more)[j]? = some (.called c) →
      ∃ id i, Authorized env ((history ++ more).take j) c id i := by
  intro j c hj
  rcases Nat.lt_or_ge j history.length with hlt | hge
  · rw [List.getElem?_append_left hlt] at hj
    rw [List.take_append_of_le_length (Nat.le_of_lt hlt)]
    exact h j c hj
  · rw [List.getElem?_append_right hge] at hj
    exact absurd (List.mem_of_getElem? hj) (hmore c)

/-- Steps that make no call: frames may come and go, but no `execute` starts or moves on. -/
theorem AuthorityInv.keep {x y : GovConfig H} (h : AuthorityInv env x)
    (ho : Onward x.world y.world) {more : List Milestone}
    (hh : y.world.history = x.world.history ++ more) (hmore : ∀ c, .called c ∉ more)
    (hf : ∀ f ∈ y.frames, running f ≠ none → f ∈ x.frames)
    (hp : y.frames.Pairwise (fun f g => ∀ id, running f = some id → running g ≠ some id))
    (hb : y.world.block = x.world.block ∨ y.frames = []) : AuthorityInv env y := by
  have hsub : ∀ id i t, .execute id i t ∈ y.frames → .execute id i t ∈ x.frames :=
    fun id i t hm => hf _ hm (by simp [running])
  refine ⟨ho.inv, ?_, hp, ?_, ?_, ?_⟩
  · intro id i t hm
    obtain ⟨⟨hid, hex, hfresh, hfits⟩, hdue⟩ := h.frames id i t (hsub id i t hm)
    obtain ⟨_, _, _, hx, he⟩ := ho.advances id hid
    have heta : (y.world.dao.proposals id).eta = (x.world.dao.proposals id).eta :=
      he ((h.dao.proposals id).executed hex).1
    -- the clock moves only while no call is pending
    rcases hb with hb | hb
    · refine ⟨⟨hid.trans ho.count, hx hex, ?_, ?_⟩, ?_⟩
      · rw [hb, heta]; exact hfresh
      · rw [heta]; exact hfits
      · rw [hb, heta]; exact hdue
    · rw [hb] at hm
      exact absurd hm (List.not_mem_nil)
  · intro c id i hc horigin
    rw [hh, List.mem_append] at hc
    rcases hc with hc | hc
    · obtain ⟨hex, hid, hle⟩ := h.progress c id i hc horigin
      exact ⟨(ho.advances id hid).executed hex, hid.trans ho.count,
        fun k t hm => hle k t (hsub id k t hm)⟩
    · exact absurd hc (hmore c)
  · rw [hh, List.pairwise_append]
    refine ⟨h.apart, ?_, ?_⟩
    · refine List.pairwise_iff_forall_sublist.mpr fun {a b} hab => ?_
      cases a with
      | called c => exact absurd (hab.subset (by simp)) (hmore c)
      | _ => trivial
    · intro a _ b hb
      cases b with
      | called c => exact absurd hb (hmore c)
      | _ => cases a <;> trivial
  · rw [hh]
    exact authorized_append hmore h.authorized

theorem authorityInv_deployment (d : Deployment env) : AuthorityInv env ⟨d.world, []⟩ where
  dao := daoInv_deployment d
  frames _ _ _ hm := absurd hm (List.not_mem_nil)
  apart_frames := List.Pairwise.nil
  progress _ _ _ hm := absurd hm (List.not_mem_nil)
  apart := List.Pairwise.nil
  authorized _ _ hj := absurd hj (by simp [Deployment.world])

variable [DecidableEq H]

/-- The loop of `execute` calls an action that has not been called, with everything behind it. -/
theorem Act.authority {w : Governance H} {fs : List GovernanceFrame} {id i : Nat}
    {y : GovConfig H} (h : AuthorityInv env ⟨w, fs⟩) (hok : Executing w id)
    (hnone : ∀ f ∈ fs, running f ≠ some id)
    (hbefore : ∀ c k, .called c ∈ w.history → c.origin = some (id, k) → k < i)
    (ha : Act env id i w fs y) : AuthorityInv env y := by
  have hw : DAOInv w := h.dao
  have hp : ProposalOk w.block (w.dao.proposals id) := hw.proposals id
  obtain ⟨hne, hc, hv⟩ := hp.executed hok.executed
  obtain ⟨hend, hfor, hquorum⟩ := hp.carried hne
  have hon := ha.onward hw
  cases ha with
  | finishes _ =>
      exact h.keep (y := ⟨_, fs⟩) hon (List.append_nil _).symm
        (fun _ hm => absurd hm (List.not_mem_nil)) (fun _ hm _ => hm) h.apart_frames (.inl rfl)
  | @calls w' t hi ht hct =>
      have hdue := hct.due
      obtain rfl := hct.book
      obtain ⟨-, -, -, -, heta⟩ := action_ok.mp ht
      refine ⟨hon.inv, ?_, ?_, ?_, ?_, ?_⟩
      · intro j k t' hm
        rcases List.mem_cons.mp hm with hm | hm
        · cases hm
          exact ⟨⟨hok.id_le, hok.executed, hok.fresh, hok.fits⟩, heta ▸ hdue⟩
        · obtain ⟨⟨h1, h2, h3, h4⟩, h5⟩ := h.frames j k t' hm
          exact ⟨⟨h1, h2, h3, h4⟩, h5⟩
      · refine List.pairwise_cons.mpr ⟨?_, h.apart_frames⟩
        intro g hg j hj
        obtain rfl : id = j := Option.some.inj hj
        exact hnone g hg
      · intro c j k hmem horigin
        simp only [List.mem_append, List.mem_singleton] at hmem
        rcases hmem with hmem | hmem
        · obtain ⟨hex, hle, hk⟩ := h.progress c j k hmem horigin
          refine ⟨hex, hle, ?_⟩
          intro k' t' hm
          rcases List.mem_cons.mp hm with hm | hm
          · cases hm
            exact Nat.le_of_lt (hbefore c k hmem horigin)
          · exact hk k' t' hm
        · cases hmem
          cases horigin
          refine ⟨hok.executed, hok.id_le, ?_⟩
          intro k' t' hm
          rcases List.mem_cons.mp hm with hm | hm
          · cases hm
            exact Nat.le_refl _
          · exact absurd rfl (hnone _ hm)
      · refine List.pairwise_append.mpr ⟨h.apart, List.pairwise_singleton _ _, ?_⟩
        intro a ha b hb
        rw [List.mem_singleton] at hb
        subst hb
        cases a with
        | called c =>
            intro heq
            exact Nat.lt_irrefl _ (hbefore c i ha heq)
        | _ => trivial
      · intro j c hj
        simp only at hj
        rcases Nat.lt_or_ge j w.history.length with hlt | hge
        · rw [List.getElem?_append_left hlt] at hj
          simp only
          rw [List.take_append_of_le_length (Nat.le_of_lt hlt)]
          exact h.authorized j c hj
        · -- the call just made
          obtain ⟨hlen, hval⟩ := List.getElem?_eq_some_iff.mp hj
          obtain rfl : j = w.history.length := by
            rw [List.length_append, List.length_singleton] at hlen
            omega
          simp only [List.getElem_concat_length] at hval
          obtain rfl := Milestone.called.inj hval
          simp only [List.take_left']
          obtain ⟨now, delay, hm, hsum, hd⟩ := hw.queued id hne
          exact ⟨id, i, rfl, hok.id_le, ⟨t, ht, rfl, rfl, rfl⟩, hc, hv, hend, hfor, hquorum,
            ⟨now, delay, hm, hd, Nat.le_of_eq hsum⟩, heta ▸ hdue, hok.fresh⟩

/-- Every step of a history in which the DAO is the admin keeps the invariant. -/
theorem GovEffect.authority {x y : GovConfig H} {l : GovLabel} (h : AuthorityInv env x)
    (hadmin : AdminIsDAO env x l) (he : GovEffect env x l y) : AuthorityInv env y := by
  have hon := he.onward h.dao
  have hnil : ∀ c, Milestone.called c ∉ ([] : List Milestone) := fun _ => List.not_mem_nil
  cases he with
  | @token w fs fs' l s names hes hfs =>
      rcases hfs with rfl | rfl
      · exact h.keep (y := ⟨_, _⟩) hon (List.append_nil _).symm hnil (fun _ hm _ => hm)
          h.apart_frames (.inl rfl)
      · refine h.keep (y := ⟨_, _⟩) hon (List.append_nil _).symm hnil ?_ ?_ (.inl rfl)
        · intro f hm hr
          rcases List.mem_cons.mp hm with rfl | hm
          · exact absurd rfl hr
          · exact hm
        · exact List.pairwise_cons.mpr ⟨by rintro _ _ _ ⟨⟩, h.apart_frames⟩
  | reconfigure | administer | vote | stop =>
      exact h.keep (y := ⟨_, _⟩) hon (List.append_nil _).symm hnil (fun _ hm _ => hm)
        h.apart_frames (.inl rfl)
  | propose | queue =>
      exact h.keep (y := ⟨_, _⟩) hon rfl (by simp)
        (fun _ hm _ => hm) h.apart_frames (.inl rfl)
  | @execute w fs l s id y hs ha =>
      -- calls for `id` come from an `execute` of it, and there has been none
      have hfresh : ∀ c k, Milestone.called c ∈ w.history → c.origin ≠ some (id, k) := by
        intro c k hc horigin
        have := (h.progress c id k hc horigin).1
        rw [hs.queued.not_executed] at this
        exact absurd this (by decide)
      have hstart : Onward w { w with dao := s } :=
        DAOInv.write h.dao (e := w.executor) ⟨w.dao.logs, hs.book⟩ hs.id_le
          h.dao.delay (ProposalOk.execute (h.dao.proposals id) hs.queued) (List.prefix_refl _)
          (fun _ => .inl rfl)
      have hp : s.proposals id = { w.dao.proposals id with executed := true } := by
        rw [hs.book]
        exact Function.update_self _ _ _
      have hbase : AuthorityInv env ⟨{ w with dao := s }, fs⟩ :=
        h.keep hstart (List.append_nil _).symm hnil (fun _ hm _ => hm) h.apart_frames (.inl rfl)
      refine ha.authority hbase ⟨hs.id_le.trans hstart.count, ?_, ?_, ?_⟩ ?_ ?_
      · simp only [hp]
      · simp only [hp]
        exact hs.queued.fresh
      · simp only [hp]
        exact hs.fits
      · -- for the same reason none is pending
        intro f hf hr
        cases f with
        | execute j k t =>
            obtain rfl : j = id := Option.some.inj hr
            have := (h.frames j k t hf).executed
            rw [hs.queued.not_executed] at this
            exact absurd this (by decide)
        | _ => cases hr
      · exact fun c k hc horigin => absurd horigin (hfresh c k hc)
  | @next w fs id i t logs y ha =>
      obtain ⟨⟨hid, hex, hfr, hfits⟩, -⟩ := h.frames id i t (List.mem_cons_self)
      obtain ⟨hhead, htail⟩ := List.pairwise_cons.mp h.apart_frames
      have hlog : Onward w { w with executor := { w.executor with logs := logs } } :=
        DAOInv.unchanged h.dao rfl rfl rfl h.dao.delay (List.prefix_refl _)
      have hbase : AuthorityInv env
          ⟨{ w with executor := { w.executor with logs := logs } }, fs⟩ :=
        h.keep hlog (List.append_nil _).symm hnil (fun _ hm _ => List.mem_cons_of_mem _ hm) htail
          (.inl rfl)
      refine ha.authority hbase ⟨hid, hex, hfr, hfits⟩ (fun g hg => hhead g hg id rfl) ?_
      intro c k hc horigin
      exact Nat.lt_succ_of_le ((h.progress c id k hc horigin).2.2 i t (List.mem_cons_self))
  | direct hne => exact absurd hadmin hne
  | returned hf =>
      exact h.keep (y := ⟨_, _⟩) hon (List.append_nil _).symm hnil
        (fun _ hm _ => List.mem_cons_of_mem _ hm) (List.pairwise_cons.mp h.apart_frames).2 (.inl rfl)
  | tick hn ht =>
      exact h.keep (y := ⟨_, _⟩) hon (List.append_nil _).symm hnil (fun _ hm _ => hm)
        h.apart_frames (.inr rfl)

theorem authorityInv_runs {d : Deployment env} {x : GovConfig H}
    (hx : (governanceMachine env).Runs (AdminIsDAO env) ⟨d.world, []⟩ x) : AuthorityInv env x :=
  governance_runs (fun hI hP he => he.authority hI hP) hx (authorityInv_deployment d)

/--
**Treasury authority.** In every history in which the executor's admin is the DAO, every
call of the executor to a target is authorized by what happened before it, and no two
calls are the same action of the same proposal.
-/
theorem targetCalls_authorized (env : Env H) (d : Deployment env) (x : GovConfig H)
    (hx : (governanceMachine env).Runs (AdminIsDAO env) ⟨d.world, []⟩ x) :
    (∀ (j : ℕ) c, x.world.history[j]? = some (.called c) →
      ∃ id i, Authorized env (x.world.history.take j) c id i)
    ∧ ∀ (j k : ℕ) c c', j < k → x.world.history[j]? = some (.called c) →
      x.world.history[k]? = some (.called c') → c.origin ≠ c'.origin := by
  have hI := authorityInv_runs hx
  refine ⟨hI.authorized, ?_⟩
  intro j k c c' hjk hj hk
  obtain ⟨hj', hj⟩ := List.getElem?_eq_some_iff.mp hj
  obtain ⟨hk', hk⟩ := List.getElem?_eq_some_iff.mp hk
  have := List.pairwise_iff_getElem.mp hI.apart j k hj' hk' hjk
  rw [hj, hk] at this
  exact this

/-- Account 2 proposes a payment, votes for it and has it queued in block 6000. -/
def votedPayment : List (Machine.Move GovernanceTx Block) :=
  [.enter mintTwo, .tick ⟨2, 20⟩, .enter (daoTx 2 proposePayment), .tick ⟨4, 40⟩,
    .enter (daoTx 2 (.castVote 1 1)), .tick ⟨6000, 60000⟩, .enter (daoTx 5 (.queue 1))]

/-- Whether the small DAO is the executor's admin. -/
def adminIsSmallDAO : GovConfig Transaction → GovLabel → Bool :=
  fun x _ => x.world.executor.admin = .ofNat 10

theorem adminIsSmallDAO_adminIsDAO (x : GovConfig Transaction) (l : GovLabel)
    (h : adminIsSmallDAO x l = true) : AdminIsDAO smallEnv x l :=
  of_decide_eq_true (p := x.world.executor.admin = _) h

/-- Whether an entry of the history is a call to account 9. -/
def paid : Option Milestone → Bool
  | some (.called c) => c.target = .ofNat 9
  | _ => false

/-- The payment is executed when its two days are over. -/
theorem targetCalls_authorized_payment :
    ∃ x, (governanceMachine smallEnv).Runs (AdminIsDAO smallEnv) ⟨smallDeployment.world, []⟩ x
      ∧ ∃ c id i, x.world.history[2]? = some (.called c) ∧ c.target = .ofNat 9
        ∧ Authorized smallEnv (x.world.history.take 2) c id i := by
  obtain ⟨x, hx, hp⟩ := Machine.script_exists (M := governanceMachine smallEnv)
    adminIsSmallDAO_adminIsDAO (x := ⟨smallDeployment.world, []⟩)
    (m := votedPayment ++
      [.tick ⟨6001, 60000 + MINIMUM_DELAY⟩, .enter (daoTx 5 (.execute 1)), .resume])
    (p := fun x => paid x.world.history[2]?) (by decide +kernel)
  cases hc : x.world.history[2]? with
  | none => rw [hc] at hp; exact absurd hp (by decide)
  | some m =>
      rw [hc] at hp
      cases m with
      | called c =>
          obtain ⟨id, i, hauth⟩ :=
            (targetCalls_authorized smallEnv smallDeployment x hx).1 2 c hc
          exact ⟨x, hx, c, id, i, hc, of_decide_eq_true hp, hauth⟩
      | _ => exact absurd hp (by simp [paid])

end Nouns.Proof
