import Nouns.Proof.TreasuryAuthority

/-!
# A queued proposal stays executable

The executor's bits are keyed by target, value, signature, data and eta, so two
proposals with a common action and the same eta would share one. `queue` refuses to
share a bit; `cancel` and `veto` clear the bits of their proposal each time they are
called, also of a proposal that was canceled before and whose bits may be another's by
then. `Harmless` is the condition that this does not happen. While it is met, every
action that is due has its bit up and no other due action has the same one.
-/

namespace Nouns.Proof

open Evm CallMachine

variable {H : Type} {env : Env H}

/-- Action `j` of proposal `id`, which is `t`, still has to be called. -/
structure Due (x : GovConfig H) (id j : Nat) (t : Transaction) : Prop where
  action : (x.world.dao.proposals id).action j (x.world.dao.proposals id).eta = .ok t
  waits : x.world.dao.state x.world.block id = .ok .queued
    ∨ ∃ i t', .execute id i t' ∈ x.frames ∧ i < j

/-- What a queued proposal is promised, at a point of a history. -/
structure Executable [DecidableEq H] (env : Env H) (x : GovConfig H) : Prop where
  /-- Every action that is due is flagged. -/
  flagged : ∀ id j t, Due x id j t →
    x.world.executor.queuedTransactions (env.hashing.txHash t) = true
  /-- From its eta on, a queued proposal can be executed. -/
  executes : ∀ id sender, x.world.dao.state x.world.block id = .ok .queued →
    (x.world.dao.proposals id).eta ≤ x.world.block.timestamp →
    ∃ o, Governance.enter env ⟨sender, .execute id⟩ x.world = .ok o
  /-- Its execution goes on when a target call has succeeded. -/
  goesOn : ∀ id i t fs, x.frames = .execute id i t :: fs →
    ∃ o, Governance.resume env (.execute id i t) true x.world = .ok o

/--
The condition on steps: the DAO is the executor's admin, and who cancels or vetoes a
proposal that is canceled or vetoed already does not share an action with one that is due.
-/
structure Harmless (env : Env H) (x : GovConfig H) (l : GovLabel) : Prop where
  admin : x.world.executor.admin = env.self
  stops : ∀ q, stops l = some q →
    (x.world.dao.proposals q).canceled = true ∨ (x.world.dao.proposals q).vetoed = true →
    ∀ k t, (x.world.dao.proposals q).action k (x.world.dao.proposals q).eta = .ok t →
    ∀ id j, ¬ Due x id j t

/-- Every due action is flagged, and no two share a flag. -/
structure FlagInv (env : Env H) (x : GovConfig H) : Prop where
  authority : AuthorityInv env x
  flagged : ∀ id j t, Due x id j t →
    x.world.executor.queuedTransactions (env.hashing.txHash t) = true
  distinct : ∀ id j id' j' t, Due x id j t → Due x id' j' t → id = id' ∧ j = j'

theorem state_queued_iff {block : Block} {s : NounsDAO} {id : Nat} :
    s.state block id = .ok .queued ↔ id ≤ s.proposalCount ∧ IsQueued block (s.proposals id)
      ∧ (s.proposals id).eta + GRACE_PERIOD < 2 ^ 256 := by
  constructor
  · intro h
    obtain ⟨hid, hq⟩ := state_ok h
    exact ⟨hid, stateOf_queued.mp hq, state_queued h⟩
  · intro hin
    obtain ⟨hid, ⟨h1, h2, h3, h4, h5, h6, h7, h8, h9⟩, hfits⟩ := hin
    refine bind_ok.mpr ⟨(), require_ok.mpr hid, ?_⟩
    dsimp only
    rw [if_neg (by simp [h1]), if_neg (by simp [h2]), if_neg (by omega), if_neg (by omega),
      if_neg (by omega), if_neg h7, if_neg (by simp [h8])]
    exact bind_ok.mpr ⟨_, add_ok.mpr ⟨hfits, rfl⟩, by rw [if_neg (by omega)]; rfl⟩

/-- A due action belongs to a proposal that has an eta in its window. -/
theorem Due.window {x : GovConfig H} (hI : AuthorityInv env x) {id j : Nat} {t : Transaction}
    (h : Due x id j t) : id ≤ x.world.dao.proposalCount
      ∧ (x.world.dao.proposals id).eta ≠ 0
      ∧ (x.world.dao.proposals id).canceled = false ∧ (x.world.dao.proposals id).vetoed = false
      ∧ x.world.block.timestamp < (x.world.dao.proposals id).eta + GRACE_PERIOD
      ∧ (x.world.dao.proposals id).eta + GRACE_PERIOD < 2 ^ 256 := by
  rcases h.waits with hq | ⟨i, t', hm, _⟩
  · obtain ⟨hid, hq, hfits⟩ := state_queued_iff.mp hq
    exact ⟨hid, hq.eta_ne, hq.not_canceled, hq.not_vetoed, hq.fresh, hfits⟩
  · obtain ⟨⟨hid, hex, hfresh, hfits⟩, -⟩ := hI.frames id i t' hm
    obtain ⟨hne, hc, hv⟩ := (hI.dao.proposals id).executed hex
    exact ⟨hid, hne, hc, hv, hfresh, hfits⟩

theorem Due.eta {x : GovConfig H} {id j : Nat} {t : Transaction} (h : Due x id j t) :
    t.eta = (x.world.dao.proposals id).eta := (action_ok.mp h.action).2.2.2.2

/-- What was due stays due, and nothing else becomes so, where nothing about it changes. -/
theorem Due.congr {x y : GovConfig H} {id j : Nat} {t : Transaction} (h : Due y id j t)
    (hp : y.world.dao.proposals id = x.world.dao.proposals id)
    (hc : id ≤ y.world.dao.proposalCount → id ≤ x.world.dao.proposalCount)
    (hb : y.world.block = x.world.block)
    (hf : ∀ i t', .execute id i t' ∈ y.frames → .execute id i t' ∈ x.frames) : Due x id j t := by
  refine ⟨hp ▸ h.action, ?_⟩
  rcases h.waits with hq | ⟨i, t', hm, hij⟩
  · obtain ⟨hid, hq, hfits⟩ := state_queued_iff.mp hq
    exact .inl (state_queued_iff.mpr ⟨hc hid, hb ▸ hp ▸ hq, hp ▸ hfits⟩)
  · exact .inr ⟨i, t', hf i t' hm, hij⟩

/-- Steps that leave the bits alone and make nothing due. -/
theorem FlagInv.keep {x y : GovConfig H} (h : FlagInv env x) (ha : AuthorityInv env y)
    (hbits : y.world.executor.queuedTransactions = x.world.executor.queuedTransactions)
    (hdue : ∀ id j t, Due y id j t → Due x id j t) : FlagInv env y :=
  ⟨ha, fun id j t hd => hbits ▸ h.flagged id j t (hdue id j t hd),
    fun id j id' j' t hd hd' => h.distinct id j id' j' t (hdue id j t hd) (hdue id' j' t hd')⟩

variable {hs : Hashing H}

theorem lt_of_action {p : Proposal} {i eta : Nat} {t : Transaction} (h : p.action i eta = .ok t) :
    i < p.targets.length := (List.getElem?_eq_some_iff.mp (action_ok.mp h).1).1

theorem hashOf_action {p : Proposal} {i eta : Nat} {t : Transaction} (h : p.action i eta = .ok t) :
    HashOf hs p eta p.targets.length (hs.txHash t) := ⟨i, t, lt_of_action h, h, rfl⟩

/-- What is due of another proposal than the one written was due before. -/
theorem Wrote.due {w : Governance H} {fs : List GovernanceFrame} {id : Nat} {p : Proposal}
    {s : NounsDAO} {e : NounsDAOExecutor H} {history : List Milestone} (h : Wrote id p w.dao s)
    {j k : Nat} {t : Transaction} (hj : j ≠ id)
    (hd : Due ⟨{ w with dao := s, executor := e, history := history }, fs⟩ j k t) :
    Due ⟨w, fs⟩ j k t :=
  hd.congr (h.proposals.2.1 j hj) (fun hle => h.proposals.2.2 ▸ hle) rfl (fun _ _ hm => hm)

/-- `queue` takes bits of its own. -/
theorem FlagInv.queue {w : Governance H} {fs : List GovernanceFrame} {id : Nat} {s : NounsDAO}
    {e : NounsDAOExecutor H} {history : List Milestone} (h : FlagInv env ⟨w, fs⟩)
    (hq : Queued env.hashing w.block id w.dao w.executor s e)
    (ha : AuthorityInv env ⟨{ w with dao := s, executor := e, history := history }, fs⟩) :
    FlagInv env ⟨{ w with dao := s, executor := e, history := history }, fs⟩ := by
  obtain ⟨hself, _, _⟩ := hq.book.proposals
  have hnew : ∀ {k t}, Due ⟨{ w with dao := s, executor := e, history := history }, fs⟩ id k t →
      (w.dao.proposals id).action k (w.block.timestamp + w.executor.delay) = .ok t := by
    intro k t hd
    have hact := hd.action
    simp only [hself] at hact
    exact hact
  -- queueing is refused where a bit is up already
  have hclash : ∀ {j k k' t}, j ≠ id →
      Due ⟨{ w with dao := s, executor := e, history := history }, fs⟩ id k t →
      Due ⟨{ w with dao := s, executor := e, history := history }, fs⟩ j k' t → False := by
    intro j k k' t hj hd hd'
    have hup := h.flagged j k' t (hq.book.due hj hd')
    have hdown := hq.flagged.fresh _ (hashOf_action (hnew hd))
    exact absurd (hup.symm.trans hdown) (by decide)
  refine ⟨ha, fun j k t hd => (hq.flagged.bits _).mpr ?_, ?_⟩
  · by_cases hj : j = id
    · subst hj
      exact .inr (hashOf_action (hnew hd))
    · exact .inl (h.flagged j k t (hq.book.due hj hd))
  · intro j k j' k' t hd hd'
    by_cases hj : j = id <;> by_cases hj' : j' = id
    · subst hj hj'
      refine ⟨rfl, ?_⟩
      -- and the bits go up one by one, so two actions of `id` cannot share one
      rcases Nat.lt_trichotomy k k' with hlt | heq | hlt
      · exact absurd rfl (hq.flagged.distinct k k' t t hlt (lt_of_action (hnew hd')) (hnew hd)
          (hnew hd'))
      · exact heq
      · exact absurd rfl (hq.flagged.distinct k' k t t hlt (lt_of_action (hnew hd)) (hnew hd')
          (hnew hd))
    · subst hj
      exact (hclash hj' hd hd').elim
    · subst hj'
      exact (hclash hj hd' hd).elim
    · exact h.distinct j k j' k' t (hq.book.due hj hd) (hq.book.due hj' hd')

/-- Whom `cancel` and `veto` stop is not executed, and has nothing due afterwards. -/
theorem Stopped.not_due {w : Governance H} {fs : List GovernanceFrame} {id : Nat} {s : NounsDAO}
    {e : NounsDAOExecutor H} {veto : Bool} (hs : Stopped env.hashing w.block veto id w.dao w.executor s e)
    (ha : AuthorityInv env ⟨{ w with dao := s, executor := e }, fs⟩) {k : Nat} {t : Transaction} :
    ¬ Due ⟨{ w with dao := s, executor := e }, fs⟩ id k t := by
  intro hd
  obtain ⟨-, -, hc, hv, -, -⟩ := hd.window ha
  rcases hs.book with hw | hw
  · simp only [hw.proposals.1] at hc
    exact absurd hc (by decide)
  · simp only [hw.proposals.1] at hv
    exact absurd hv (by decide)

/-- `cancel` and `veto` clear no bit of a due action of another proposal. -/
theorem Stopped.not_shared {w : Governance H} {fs : List GovernanceFrame} {id : Nat} {l : GovLabel}
    {s : NounsDAO} {e : NounsDAOExecutor H} {veto : Bool}
    (hinj : Function.Injective env.hashing.txHash)
    (h : FlagInv env ⟨w, fs⟩) (hs : Stopped env.hashing w.block veto id w.dao w.executor s e)
    (hl : stops l = some id) (hP : Harmless env ⟨w, fs⟩ l) {j k : Nat} {t : Transaction}
    (hj : j ≠ id) (hd : Due ⟨w, fs⟩ j k t) :
    ¬ HashOf env.hashing (w.dao.proposals id) (w.dao.proposals id).eta
      (w.dao.proposals id).targets.length (env.hashing.txHash t) := by
  intro hin
  obtain ⟨i, t', _, hact, hhash⟩ := hin
  obtain rfl := hinj hhash
  obtain ⟨_, hne, _, _, hfresh, hfits⟩ := hd.window h.authority
  have heta : (w.dao.proposals id).eta = (w.dao.proposals j).eta :=
    (action_ok.mp hact).2.2.2.2.symm.trans hd.eta
  have hok := h.authority.dao.proposals id
  by_cases hstop : (w.dao.proposals id).canceled = true ∨ (w.dao.proposals id).vetoed = true
  · exact hP.stops id hl hstop i t' hact j k hd
  · -- a proposal that is still going has its bits to itself
    obtain ⟨hc, hv⟩ := not_or.mp hstop
    obtain ⟨hend, hfor, hquorum⟩ := hok.carried (heta ▸ hne)
    have hq : IsQueued w.block (w.dao.proposals id) :=
      ⟨by simpa using hv, by simpa using hc, Nat.lt_of_le_of_lt hok.span hend, hend, hfor, hquorum,
        heta ▸ hne, hok.not_executed hs.not_executed, heta ▸ hfresh⟩
    have hdue : Due ⟨w, fs⟩ id i t' :=
      ⟨hact, .inl (state_queued_iff.mpr ⟨hs.id_le, hq, heta ▸ hfits⟩)⟩
    exact hj (h.distinct j k id i t' hd hdue).1

theorem FlagInv.stop {w : Governance H} {fs : List GovernanceFrame} {id : Nat} {l : GovLabel}
    {s : NounsDAO} {e : NounsDAOExecutor H} {veto : Bool}
    (hinj : Function.Injective env.hashing.txHash)
    (h : FlagInv env ⟨w, fs⟩) (hs : Stopped env.hashing w.block veto id w.dao w.executor s e)
    (hl : stops l = some id) (hP : Harmless env ⟨w, fs⟩ l)
    (ha : AuthorityInv env ⟨{ w with dao := s, executor := e }, fs⟩) :
    FlagInv env ⟨{ w with dao := s, executor := e }, fs⟩ := by
  have hold : ∀ j k t, Due ⟨{ w with dao := s, executor := e }, fs⟩ j k t →
      j ≠ id ∧ Due ⟨w, fs⟩ j k t := by
    intro j k t hd
    have hj : j ≠ id := fun heq => hs.not_due ha (heq ▸ hd)
    rcases hs.book with hw | hw
    · exact ⟨hj, hw.due hj hd⟩
    · exact ⟨hj, hw.due hj hd⟩
  refine ⟨ha, ?_, fun j k j' k' t hd hd' => h.distinct j k j' k' t (hold j k t hd).2 (hold j' k' t
    hd').2⟩
  intro j k t hd
  obtain ⟨hj, hd⟩ := hold j k t hd
  exact (hs.cleared.bits _).mpr ⟨h.flagged j k t hd, hs.not_shared hinj h hl hP hj hd⟩

/-- What is due with proposal `id` being executed, from action `i` on. -/
def Left (w : Governance H) (fs : List GovernanceFrame) (id i j k : Nat) (t : Transaction) : Prop :=
  (j = id ∧ i ≤ k ∧ (w.dao.proposals id).action k (w.dao.proposals id).eta = .ok t)
    ∨ (j ≠ id ∧ Due ⟨w, fs⟩ j k t)

variable [DecidableEq H]

/-- The loop of `execute` takes the bit of its action and no other. -/
theorem Act.flags {w : Governance H} {fs : List GovernanceFrame} {id i : Nat} {y : GovConfig H}
    (ha : Act env id i w fs y) (hinj : Function.Injective env.hashing.txHash)
    (hy : AuthorityInv env y) (hex : (w.dao.proposals id).executed = true)
    (hnone : ∀ f ∈ fs, running f ≠ some id)
    (hup : ∀ j k t, Left w fs id i j k t →
      w.executor.queuedTransactions (env.hashing.txHash t) = true)
    (hdist : ∀ j k j' k' t, Left w fs id i j k t → Left w fs id i j' k' t → j = j' ∧ k = k') :
    FlagInv env y := by
  have hnot : ∀ {x : GovConfig H}, x.world.dao.proposals id = w.dao.proposals id →
      x.world.dao.state x.world.block id ≠ .ok .queued := by
    intro x hp hq
    have := (state_queued_iff.mp hq).2.1.not_executed
    rw [hp, hex] at this
    exact absurd this (by decide)
  cases ha with
  | finishes _ =>
      have hleft : ∀ j k t,
          Due ⟨{ w with dao := { w.dao with logs := w.dao.logs ++ [.proposalExecuted id] } }, fs⟩
            j k t → Left w fs id i j k t := by
        intro j k t hd
        -- the loop is over, so nothing of `id` is due any more
        by_cases hj : j = id
        · subst hj
          rcases hd.waits with hq | ⟨_, _, hm, _⟩
          · exact absurd hq (hnot rfl)
          · exact absurd rfl (hnone _ hm)
        · exact .inr ⟨hj, hd.congr rfl (fun hle => hle) rfl (fun _ _ hm => hm)⟩
      exact ⟨hy, fun j k t hd => hup j k t (hleft j k t hd), fun j k j' k' t hd hd' =>
        hdist j k j' k' t (hleft j k t hd) (hleft j' k' t hd')⟩
  | @calls w' t₀ hi ht₀ hct =>
      have hdao : w'.dao = w.dao := by rw [hct.book]
      have hblock : w'.block = w.block := by rw [hct.book]
      have hleft : ∀ j k t, Due ⟨w', .execute id i t₀ :: fs⟩ j k t →
          Left w fs id i j k t ∧ (j, k) ≠ (id, i) := by
        intro j k t hd
        -- action `i` is the one that is called; of `id` only later ones stay due
        by_cases hj : j = id
        · subst hj
          have hlt : i < k := by
            rcases hd.waits with hq | ⟨i', _, hm, hlt⟩
            · exact absurd hq (hnot (congrFun (congrArg NounsDAO.proposals hdao) j))
            · rcases List.mem_cons.mp hm with hm | hm
              · cases hm
                exact hlt
              · exact absurd rfl (hnone _ hm)
          have hact := hd.action
          simp only [hdao] at hact
          exact ⟨.inl ⟨rfl, Nat.le_of_lt hlt, hact⟩,
            fun heq => Nat.ne_of_gt hlt (Prod.mk.inj heq).2⟩
        · refine ⟨.inr ⟨hj, hd.congr (by simp only [hdao]) (fun hle => by simpa only [hdao] using hle)
            hblock fun _ _ hm => ?_⟩, fun heq => hj (Prod.mk.inj heq).1⟩
          rcases List.mem_cons.mp hm with hm | hm
          · cases hm
            exact absurd rfl hj
          · exact hm
      have hself : Left w fs id i id i t₀ := .inl ⟨rfl, Nat.le_refl _, ht₀⟩
      refine ⟨hy, ?_, fun j k j' k' t hd hd' => hdist j k j' k' t (hleft j k t hd).1 (hleft j' k' t
        hd').1⟩
      intro j k t hd
      obtain ⟨hl, hne⟩ := hleft j k t hd
      -- only the bit of the called action is cleared, and no other that is due has its hash
      have hhash : env.hashing.txHash t ≠ env.hashing.txHash t₀ := by
        intro heq
        obtain rfl := hinj heq
        obtain ⟨rfl, rfl⟩ := hdist _ _ _ _ _ hl hself
        exact hne rfl
      simp only [hct.book]
      exact (Function.update_of_ne hhash _ _).trans (hup j k t hl)

/-- Every step that meets the condition keeps due actions flagged, each by its own bit. -/
theorem GovEffect.flagInv {x y : GovConfig H} {l : GovLabel}
    (hinj : Function.Injective env.hashing.txHash) (h : FlagInv env x) (hP : Harmless env x l)
    (he : GovEffect env x l y) : FlagInv env y := by
  have ha := he.authority h.authority hP.admin
  cases he with
  | @token w fs fs' l s names hes hfs =>
      refine h.keep ha rfl fun j k t hd => hd.congr rfl (fun hle => hle) rfl ?_
      intro i t' hm
      rcases hfs with rfl | rfl
      · exact hm
      · exact (List.mem_cons.mp hm).resolve_left (by simp)
  | reconfigure hr =>
      obtain ⟨_, _, _, _, _, _, _, _, _, _, rfl⟩ := hr.book
      exact h.keep ha rfl fun j k t hd => hd.congr rfl (fun hle => hle) rfl fun _ _ hm => hm
  | administer hadm =>
      obtain ⟨_, _, _, _, rfl⟩ := hadm.book
      exact h.keep ha rfl fun j k t hd => hd.congr rfl (fun hle => hle) rfl fun _ _ hm => hm
  | @propose w fs l s id p hp =>
      obtain ⟨_, _, hbook⟩ := hp.book
      refine h.keep ha rfl ?_
      intro j k t hd
      -- what is due has an eta, so it is not what was just proposed
      obtain ⟨hj, hne, -⟩ := hd.window ha
      simp only [hbook] at hj hne
      by_cases heq : j = id
      · subst heq
        rw [Function.update_self] at hne
        exact absurd hp.eta hne
      · have hid := hp.id_eq
        refine hd.congr ?_ (fun _ => by simp only; omega) rfl fun _ _ hm => hm
        simp only [hbook]
        exact Function.update_of_ne heq _ _
  | @vote w fs l s voter id votes hl hv =>
      obtain ⟨_, _, _, _, _, hw⟩ := hv.book
      refine h.keep ha rfl ?_
      intro j k t hd
      by_cases heq : j = id
      · subst heq
        -- a proposal that can be voted on has no eta yet
        obtain ⟨-, hne, -⟩ := hd.window ha
        simp only [hw.proposals.1] at hne
        exact absurd ((h.authority.dao.proposals j).eta_zero (stateOf_eq_active hv.active).2.2.2) hne
      · exact hw.due heq hd
  | queue hq => exact h.queue hq ha
  | stop hl hs => exact h.stop hinj hs hl hP ha
  | @execute w fs l s id y hs hact =>
      have hw : Wrote id { w.dao.proposals id with executed := true } w.dao s :=
        ⟨w.dao.logs, hs.book⟩
      -- what the loop has before it was due already, as queued or by another pending `execute`
      have hbefore : ∀ {j k t}, Left { w with dao := s } fs id 0 j k t → Due ⟨w, fs⟩ j k t := by
        intro j k t hin
        rcases hin with ⟨rfl, _, hact⟩ | ⟨hj, hd⟩
        · simp only [hw.proposals.1] at hact
          exact ⟨hact, .inl (state_queued_iff.mpr ⟨hs.id_le, hs.queued, hs.fits⟩)⟩
        · exact hw.due hj hd
      refine hact.flags hinj ha (by simp only [hw.proposals.1]) ?_
        (fun j k t hl => h.flagged j k t (hbefore hl))
        (fun j k j' k' t hl hl' => h.distinct j k j' k' t (hbefore hl) (hbefore hl'))
      -- a pending `execute` of `id` would have it executed
      intro f hf hr
      cases f with
      | execute j k t =>
          obtain rfl : j = id := Option.some.inj hr
          have := (h.authority.frames j k t hf).executed
          rw [hs.queued.not_executed] at this
          exact absurd this (by decide)
      | _ => cases hr
  | @next w fs id i t₀ logs y hact =>
      obtain ⟨hhead, htail⟩ := List.pairwise_cons.mp h.authority.apart_frames
      have hbefore : ∀ {j k t},
          Left { w with executor := { w.executor with logs := logs } } fs id (i + 1) j k t →
          Due ⟨w, .execute id i t₀ :: fs⟩ j k t := by
        intro j k t hin
        rcases hin with ⟨rfl, hik, hact⟩ | ⟨hj, hd⟩
        · exact ⟨hact, .inr ⟨i, t₀, List.mem_cons_self, hik⟩⟩
        · exact hd.congr rfl (fun hle => hle) rfl fun _ _ hm => List.mem_cons_of_mem _ hm
      exact hact.flags hinj ha (h.authority.frames id i t₀ List.mem_cons_self).executed
        (fun g hg => hhead g hg id rfl) (fun j k t hl => h.flagged j k t (hbefore hl))
        (fun j k j' k' t hl hl' => h.distinct j k j' k' t (hbefore hl) (hbefore hl'))
  | direct hne => exact absurd hP.admin hne
  | returned =>
      exact h.keep ha rfl fun j k t hd =>
        hd.congr rfl (fun hle => hle) rfl fun _ _ hm => List.mem_cons_of_mem _ hm
  | @tick w b hn ht =>
      refine h.keep ha rfl fun j k t hd => ⟨hd.action, .inl ?_⟩
      -- the clock moves while no call is pending, so only what is queued is due
      rcases hd.waits with hq | ⟨_, _, hm, _⟩
      · obtain ⟨hid, ⟨h1, h2, h3, h4, h5, h6, h7, h8, h9⟩, hfits⟩ := state_queued_iff.mp hq
        have hok := h.authority.dao.proposals j
        have hend := (hok.carried h7).1
        exact state_queued_iff.mpr ⟨hid, ⟨h1, h2, Nat.lt_of_le_of_lt hok.span hend, hend, h5, h6, h7,
          h8, Nat.lt_of_le_of_lt ht h9⟩, hfits⟩
      · exact absurd hm List.not_mem_nil

omit [DecidableEq H] in
theorem flagInv_deployment (d : Deployment env) : FlagInv env ⟨d.world, []⟩ := by
  have ha := authorityInv_deployment d
  have hnone : ∀ j k t, ¬ Due (⟨d.world, []⟩ : GovConfig H) j k t := by
    intro j k t hd
    obtain ⟨-, hne, -⟩ := hd.window ha
    obtain ⟨_, _, hm, _⟩ := ha.dao.queued j hne
    exact absurd hm List.not_mem_nil
  exact ⟨ha, fun j k t hd => absurd hd (hnone j k t),
    fun j k j' k' t hd _ => absurd hd (hnone j k t)⟩

theorem flagInv_runs {d : Deployment env} {x : GovConfig H}
    (hinj : Function.Injective env.hashing.txHash)
    (hx : (governanceMachine env).Runs (Harmless env) ⟨d.world, []⟩ x) : FlagInv env x :=
  governance_runs (fun hI hP he => he.flagInv hinj hI hP) hx (flagInv_deployment d)

/-! ## What the flags are good for -/

/-- The loop of `execute` gets to the call of a flagged action in its window. -/
theorem executeActions_total {w : Governance H} {id i : Nat}
    (hadmin : w.executor.admin = env.self)
    (heven : Proposal.Even (w.dao.proposals id))
    (hflag : ∀ t, (w.dao.proposals id).action i (w.dao.proposals id).eta = .ok t →
      w.executor.queuedTransactions (env.hashing.txHash t) = true)
    (hdue : (w.dao.proposals id).eta ≤ w.block.timestamp)
    (hfresh : w.block.timestamp < (w.dao.proposals id).eta + GRACE_PERIOD)
    (hfits : (w.dao.proposals id).eta + GRACE_PERIOD < 2 ^ 256) :
    ∃ o, Governance.executeActions env id i w = .ok o := by
  unfold Governance.executeActions
  dsimp only
  split_ifs with hi
  · obtain ⟨t, ht⟩ := heven.action hi (w.dao.proposals id).eta
    obtain ⟨-, -, -, -, heta⟩ := action_ok.mp ht
    have hrun : ∃ e, w.executor.executeTransaction env.hashing env.self w.block t = .ok e :=
      bind_total (require_total hadmin.symm) <|
        bind_total (require_total (hflag t ht)) <|
        bind_total (require_total (heta ▸ hdue)) <|
        bind_total (add_ok.mpr ⟨heta ▸ hfits, rfl⟩) <|
        bind_total (require_total (heta ▸ Nat.le_of_lt hfresh)) ⟨_, rfl⟩
    obtain ⟨e, he⟩ := hrun
    obtain ⟨w', hw'⟩ : ∃ w', w.callTarget env env.self (some (id, i)) t = .ok w' :=
      bind_total he ⟨_, rfl⟩
    exact bind_total ht (bind_total hw' ⟨_, rfl⟩)
  · exact ⟨_, rfl⟩

theorem FlagInv.executable {x : GovConfig H} (h : FlagInv env x)
    (hadmin : x.world.executor.admin = env.self) : Executable env x where
  flagged := h.flagged
  executes id sender hq heta := by
    obtain ⟨hid, hiq, hfits⟩ := state_queued_iff.mp hq
    have hself : (x.world.dao.setProposal id
        { x.world.dao.proposals id with executed := true }).proposals id
        = { x.world.dao.proposals id with executed := true } := Function.update_self _ _ _
    obtain ⟨s, hs⟩ : ∃ s, x.world.dao.execute x.world.block id = .ok s :=
      bind_total hq (bind_total (require_total rfl) ⟨_, rfl⟩)
    obtain rfl := (execute_shape hs).book
    refine bind_total hs ?_
    -- the loop starts at action 0, so every action is still due
    refine executeActions_total hadmin ?_ ?_ ?_ ?_ ?_
    · simp only [hself]
      exact (h.authority.dao.proposals id).even
    · simp only [hself]
      exact fun t ht => h.flagged id 0 t ⟨ht, .inl hq⟩
    · simp only [hself]
      exact heta
    · simp only [hself]
      exact hiq.fresh
    · simp only [hself]
      exact hfits
  goesOn id i t fs hx := by
    obtain ⟨⟨_, _, hfresh, hfits⟩, hdue⟩ :=
      h.authority.frames id i t (hx ▸ List.mem_cons_self)
    obtain ⟨e, he⟩ : ∃ e, x.world.executor.executeTransactionEnd env.hashing t true = .ok e :=
      bind_total (require_total rfl) ⟨_, rfl⟩
    obtain ⟨_, _, hlog⟩ := bind_ok.mp he
    obtain rfl := Except.ok.inj hlog
    refine bind_total he ?_
    exact executeActions_total hadmin (h.authority.dao.proposals id).even
      (fun t' ht' => h.flagged id (i + 1) t'
        ⟨ht', .inr ⟨i, t, hx ▸ List.mem_cons_self, Nat.lt_succ_self i⟩⟩) hdue hfresh hfits

theorem stops_step {x y : GovConfig H} {l : GovLabel} {q : Nat} (hl : stops l = some q)
    (hs : (governanceMachine env).Step x l y) :
    ∃ s e, Stopped env.hashing x.world.block (vetoes l) q x.world.dao x.world.executor s e
      ∧ y = ⟨{ x.world with dao := s, executor := e }, x.frames⟩ := by
  cases hs with
  | @enter tx w fs o y ha he hlands =>
      obtain ⟨sender, call⟩ := tx
      cases call with
      | cancel id =>
          obtain rfl : id = q := Option.some.inj hl
          obtain ⟨s, e, hs, rfl⟩ := onBoth_lands he hlands
          exact ⟨s, e, cancel_shape hs, rfl⟩
      | veto id =>
          obtain rfl : id = q := Option.some.inj hl
          obtain ⟨s, e, hs, rfl⟩ := onBoth_lands he hlands
          exact ⟨s, e, veto_shape hs, rfl⟩
      | _ => cases hl
  | _ => cases hl

/-- Stopping a proposal again takes the bits it shares with due actions. -/
theorem Executable.harmless {x y : GovConfig H} {l : GovLabel} (hx : FlagInv env x)
    (hadmin : x.world.executor.admin = env.self) (hs : (governanceMachine env).Step x l y)
    (hy : Executable env y) : Harmless env x l := by
  refine ⟨hadmin, ?_⟩
  intro q hl hstopped k t hact id j hd
  obtain ⟨s, e, hst, rfl⟩ := stops_step hl hs
  have hne : id ≠ q := by
    intro heq
    subst heq
    obtain ⟨-, -, hc, hv, -, -⟩ := hd.window hx.authority
    rcases hstopped with h | h <;> simp_all
  have hother : s.proposals id = x.world.dao.proposals id ∧
      s.proposalCount = x.world.dao.proposalCount := by
    rcases hst.book with hw | hw
    · exact ⟨hw.proposals.2.1 id hne, hw.proposals.2.2⟩
    · exact ⟨hw.proposals.2.1 id hne, hw.proposals.2.2⟩
  have hdue : Due ⟨{ x.world with dao := s, executor := e }, x.frames⟩ id j t :=
    hd.congr (y := x) hother.1.symm (fun hle => hother.2 ▸ hle) rfl (fun _ _ hm => hm)
  have hflag := (hst.cleared.bits _).mp (hy.flagged id j t hdue)
  exact hflag.2 (hashOf_action hact)

/--
**A queued proposal stays executable**, as long as nobody stops a proposal that is
stopped already and shares an action with one that is due; and the first such step
breaks the promise.
-/
theorem executable_iff (env : Env H) (hinj : Function.Injective env.hashing.txHash)
    (d : Deployment env) (x : GovConfig H)
    (hx : (governanceMachine env).Runs (Harmless env) ⟨d.world, []⟩ x)
    (hadmin : x.world.executor.admin = env.self) :
    Executable env x ∧ ∀ l y, (governanceMachine env).Step x l y →
      y.world.executor.admin = env.self → (Executable env y ↔ Harmless env x l) := by
  have hI := flagInv_runs hinj hx
  refine ⟨hI.executable hadmin, fun l y hs hay => ⟨fun hy => hy.harmless hI hadmin hs, ?_⟩⟩
  intro hP
  exact ((step_effect hs).flagInv hinj hI hP).executable hay

/-- Whether the small DAO is the executor's admin and the step stops no proposal. -/
def stopsNobody : GovConfig Transaction → GovLabel → Bool :=
  fun x l => decide (x.world.executor.admin = .ofNat 10) && (stops l).isNone

theorem stopsNobody_harmless (x : GovConfig Transaction) (l : GovLabel)
    (h : stopsNobody x l = true) : Harmless smallEnv x l := by
  obtain ⟨hadmin, hnone⟩ := Bool.and_eq_true_iff.mp h
  exact ⟨of_decide_eq_true hadmin,
    fun q hl => absurd hl (by simp [Option.isNone_iff_eq_none.mp hnone])⟩

/-- The queued payment of `votedPayment` is executable. -/
theorem executable_iff_payment :
    ∃ x, (governanceMachine smallEnv).Runs (Harmless smallEnv) ⟨smallDeployment.world, []⟩ x
      ∧ x.world.dao.state x.world.block 1 = .ok .queued ∧ Executable smallEnv x := by
  obtain ⟨x, hx, hp⟩ := Machine.script_exists (M := governanceMachine smallEnv)
    stopsNobody_harmless (x := ⟨smallDeployment.world, []⟩) (m := votedPayment)
    (p := fun x => decide ((x.world.dao.state x.world.block 1).toOption = some .queued)
      && decide (x.world.executor.admin = .ofNat 10)) (by decide +kernel)
  obtain ⟨hq, hadmin⟩ := Bool.and_eq_true_iff.mp hp
  exact ⟨x, hx, toOption_some.mp (of_decide_eq_true hq),
    (executable_iff smallEnv (fun _ _ h => h) smallDeployment x hx
      (of_decide_eq_true hadmin)).1⟩

/--
Accounts 2 and 4 propose the same payment. Account 2 has its own queued and cancels it,
account 4's is queued in the same block, and account 2 cancels once more.
-/
def canceledTwice : List (Machine.Move GovernanceTx Block) :=
  [.enter mintTwo, .tick ⟨2, 20⟩, .enter (daoTx 2 proposePayment),
    .enter (daoTx 4 proposePayment), .tick ⟨4, 40⟩, .enter (daoTx 2 (.castVote 1 1)),
    .enter (daoTx 4 (.castVote 2 1)), .tick ⟨6000, 60000⟩, .enter (daoTx 5 (.queue 1)),
    .enter (daoTx 2 (.cancel 1)), .enter (daoTx 5 (.queue 2)), .enter (daoTx 2 (.cancel 1)),
    .tick ⟨6001, 60000 + MINIMUM_DELAY⟩]

/-- The second proposal is queued and due, its action is not flagged, and `execute` reverts. -/
theorem executable_canceledTwice :
    ∃ x, (governanceMachine smallEnv).Runs (AdminIsDAO smallEnv) ⟨smallDeployment.world, []⟩ x
      ∧ x.world.dao.state x.world.block 2 = .ok .queued
      ∧ (x.world.dao.proposals 2).eta ≤ x.world.block.timestamp
      ∧ (∃ t, (x.world.dao.proposals 2).action 0 (x.world.dao.proposals 2).eta = .ok t
        ∧ x.world.executor.queuedTransactions (smallEnv.hashing.txHash t) = false)
      ∧ Governance.enter smallEnv (daoTx 5 (.execute 2)) x.world
        = .error (.error "NounsDAOExecutor::executeTransaction: Transaction hasn't been queued.") := by
  obtain ⟨x, hx, hp⟩ := Machine.script_exists (M := governanceMachine smallEnv)
    adminIsSmallDAO_adminIsDAO (x := ⟨smallDeployment.world, []⟩) (m := canceledTwice)
    (p := fun x => decide ((x.world.dao.state x.world.block 2).toOption = some .queued)
      && decide ((x.world.dao.proposals 2).eta ≤ x.world.block.timestamp)
      && (((x.world.dao.proposals 2).action 0 (x.world.dao.proposals 2).eta).toOption.any
        fun t => x.world.executor.queuedTransactions t = false)
      && decide (revertOf (Governance.enter smallEnv (daoTx 5 (.execute 2)) x.world)
        = some (.error "NounsDAOExecutor::executeTransaction: Transaction hasn't been queued.")))
    (by decide +kernel)
  simp only [Bool.and_eq_true, decide_eq_true_eq] at hp
  obtain ⟨⟨⟨hq, heta⟩, haction⟩, hrevert⟩ := hp
  obtain ⟨t, ht, hflag⟩ := Option.any_eq_true _ _ |>.mp haction
  exact ⟨x, hx, toOption_some.mp hq, heta, ⟨t, toOption_some.mp ht, of_decide_eq_true hflag⟩,
    revertOf_some.mp hrevert⟩

end Nouns.Proof
