import Nouns.Governance.Executor
import Nouns.Lib.FlagTrace

/-!
# The discipline of the timelock

The executor keeps one bit for each transaction hash. `TimelockInv` ties the bits to
the history they stand for: a bit is up exactly if the last thing done to the
transaction was to queue it. The matching of executions to queueings is then
`FlagTrace.Legal.matching`; who the admin is, and what the targets do when they are
called, plays no part.
-/

namespace Nouns.Proof

open Evm CallMachine FlagTrace

variable {H : Type} [DecidableEq H] {hs : Hashing H} {self : Address}

/-- What a deed does to the bit of its transaction. -/
def Deed.mark : Deed → Mark Transaction
  | .queued t _ _ => .set t
  | .canceled t => .clear t
  | .executed t _ => .use t

/-- The checks a deed has passed. -/
def Deed.InTime : Deed → Prop
  | .queued t now delay => MINIMUM_DELAY ≤ delay ∧ now + delay ≤ t.eta
  | .canceled _ => True
  | .executed t now => t.eta ≤ now ∧ now ≤ t.eta + GRACE_PERIOD

/-- The bits are those of the history, and the history is in order. -/
structure TimelockInv (hs : Hashing H) (w : ExecutorWorld H) : Prop where
  delay : MINIMUM_DELAY ≤ w.executor.delay ∧ w.executor.delay ≤ MAXIMUM_DELAY
  bits : ∀ t, w.executor.queuedTransactions (hs.txHash t) = raised t (w.history.map Deed.mark)
  legal : Legal (w.history.map Deed.mark)
  inTime : ∀ d ∈ w.history, Deed.InTime d

/-- One more deed. -/
theorem TimelockInv.concat {w w' : ExecutorWorld H} (h : TimelockInv hs w)
    (hinj : Function.Injective hs.txHash) {d : Deed} {t : Transaction} {b : Bool}
    (hkey : (Deed.mark d).key = t) (hb : ∀ c, (Deed.mark d).apply t c = b)
    (hdelay : w'.executor.delay = w.executor.delay)
    (hbits : w'.executor.queuedTransactions
      = Function.update w.executor.queuedTransactions (hs.txHash t) b)
    (hhist : w'.history = w.history ++ [d]) (hin : Deed.InTime d)
    (huse : ∀ t', Deed.mark d = .use t' → w.executor.queuedTransactions (hs.txHash t') = true) :
    TimelockInv hs w' := by
  refine ⟨hdelay ▸ h.delay, ?_, ?_, ?_⟩
  · intro t'
    rw [hbits, hhist, List.map_append, List.map_singleton, raised_concat]
    by_cases ht : t' = t
    · subst ht
      rw [Function.update_self, hb]
    · rw [Function.update_of_ne (fun he => ht (hinj he)),
        Mark.apply_of_ne (by rw [hkey]; exact Ne.symm ht)]
      exact h.bits t'
  · rw [hhist, List.map_append, List.map_singleton]
    exact h.legal.concat fun t' ht' => by rw [← h.bits]; exact huse t' ht'
  · intro d' hd'
    rw [hhist, List.mem_append, List.mem_singleton] at hd'
    rcases hd' with hd' | rfl
    · exact h.inTime d' hd'
    · exact hin

omit [DecidableEq H] in
/-- A change of roles or of the delay is no deed. -/
theorem TimelockInv.configured {w : ExecutorWorld H} (h : TimelockInv hs w)
    {s : NounsDAOExecutor H} (hq : s.queuedTransactions = w.executor.queuedTransactions)
    (hd : MINIMUM_DELAY ≤ s.delay ∧ s.delay ≤ MAXIMUM_DELAY) :
    TimelockInv hs { w with executor := s } :=
  ⟨hd, fun t => hq ▸ h.bits t, h.legal, h.inTime⟩

theorem executorMachine_keeps (hinj : Function.Injective hs.txHash) :
    (executorMachine hs self).Keeps Free (fun w _ => TimelockInv hs w)
      (fun w _ _ => TimelockInv hs w) where
  enter := by
    intro tx w fs o hI _ _ he
    obtain ⟨sender, call⟩ := tx
    cases call with
    | setDelay delay =>
        simp only [executorMachine, NounsDAOExecutor.setDelay, bind_ok, require_ok] at he
        obtain ⟨s, ⟨_, _, _, hmin, _, hmax, hs⟩, ho⟩ := he
        obtain rfl := Except.ok.inj hs
        obtain rfl := Except.ok.inj ho
        exact hI.configured rfl ⟨hmin, hmax⟩
    | acceptAdmin =>
        simp only [executorMachine, NounsDAOExecutor.acceptAdmin, bind_ok] at he
        obtain ⟨s, ⟨_, _, hs⟩, ho⟩ := he
        obtain rfl := Except.ok.inj hs
        obtain rfl := Except.ok.inj ho
        exact hI.configured rfl hI.delay
    | setPendingAdmin a =>
        simp only [executorMachine, NounsDAOExecutor.setPendingAdmin, bind_ok] at he
        obtain ⟨s, ⟨_, _, hs⟩, ho⟩ := he
        obtain rfl := Except.ok.inj hs
        obtain rfl := Except.ok.inj ho
        exact hI.configured rfl hI.delay
    | queueTransaction t =>
        simp only [executorMachine, NounsDAOExecutor.queueTransaction, bind_ok, require_ok,
          add_ok] at he
        obtain ⟨s, ⟨_, _, _, ⟨_, rfl⟩, _, hle, hs⟩, ho⟩ := he
        obtain rfl := Except.ok.inj hs
        obtain rfl := Except.ok.inj ho
        exact hI.concat hinj (d := .queued t w.block.timestamp w.executor.delay) (b := true) rfl
          (fun _ => if_pos rfl) rfl rfl rfl ⟨hI.delay.1, hle⟩ (by rintro _ ⟨⟩)
    | cancelTransaction t =>
        simp only [executorMachine, NounsDAOExecutor.cancelTransaction, bind_ok] at he
        obtain ⟨s, ⟨_, _, hs⟩, ho⟩ := he
        obtain rfl := Except.ok.inj hs
        obtain rfl := Except.ok.inj ho
        exact hI.concat hinj (d := .canceled t) (b := false) rfl (fun _ => if_pos rfl) rfl rfl rfl
          trivial (by rintro _ ⟨⟩)
    | executeTransaction t =>
        simp only [executorMachine, NounsDAOExecutor.executeTransaction, bind_ok, require_ok,
          add_ok] at he
        obtain ⟨s, ⟨_, _, _, hq, _, hge, _, ⟨_, rfl⟩, _, hle, hs⟩, ho⟩ := he
        obtain rfl := Except.ok.inj hs
        obtain rfl := Except.ok.inj ho
        refine and_self_iff.mpr (hI.concat hinj (d := .executed t w.block.timestamp) (b := false)
          rfl (fun _ => if_pos rfl) rfl rfl rfl ⟨hge, hle⟩ ?_)
        intro t' ht'
        obtain rfl := Mark.use.inj ht'
        exact hq
  resume := by
    intro f w fs o hI _ hr
    cases f with
    | target t =>
        simp only [executorMachine, NounsDAOExecutor.executeTransactionEnd, bind_ok] at hr
        obtain ⟨s, ⟨_, _, hs⟩, ho⟩ := hr
        obtain rfl := Except.ok.inj hs
        obtain rfl := Except.ok.inj ho
        exact hI.configured rfl hI.delay
  failed := by
    intro f w fs o _ hr
    cases f with
    | target t =>
        -- a target that fails makes `executeTransaction` revert
        simp only [executorMachine, NounsDAOExecutor.executeTransactionEnd, bind_ok, require_ok] at hr
        obtain ⟨s, ⟨_, hfalse, _⟩, _⟩ := hr
        exact absurd hfalse (by decide)
  tick := by
    intro t w w' hI _ ht
    simp only [executorMachine, Option.map_eq_some_iff, tick_some] at ht
    obtain ⟨b, _, rfl⟩ := ht
    exact ⟨hI.delay, hI.bits, hI.legal, hI.inTime⟩

/--
**Timelock discipline.** Whoever the admin is or becomes and whatever the targets do:
the delay stays within its bounds, and the executions can be matched injectively to
earlier queueings of the same transaction that made them wait for the delay of their
time, with no cancelation and no other execution of it in between.
-/
theorem executeTransaction_matched (hs : Hashing H) (hinj : Function.Injective hs.txHash)
    (self admin_ : Address) (delay_ : Nat) (s : NounsDAOExecutor H)
    (hs₀ : NounsDAOExecutor.create admin_ delay_ = .ok s) (block : Block)
    (x : Config (ExecutorWorld H) ExecutorFrame)
    (hx : (executorMachine hs self).Runs Free ⟨⟨s, block, []⟩, []⟩ x) :
    (MINIMUM_DELAY ≤ x.world.executor.delay ∧ x.world.executor.delay ≤ MAXIMUM_DELAY)
    ∧ ∃ source : ℕ → ℕ,
      (∀ (j : ℕ) t now, x.world.history[j]? = some (.executed t now) → source j < j
        ∧ ∃ before delay, x.world.history[source j]? = some (.queued t before delay)
          ∧ before + delay ≤ t.eta ∧ t.eta ≤ now ∧ now ≤ t.eta + GRACE_PERIOD
          ∧ before + MINIMUM_DELAY ≤ now
          ∧ ∀ (i : ℕ) d, source j < i → i < j → x.world.history[i]? = some d →
            d ≠ .canceled t ∧ ∀ now', d ≠ .executed t now')
      ∧ Set.InjOn source {j : ℕ | ∃ t now, x.world.history[j]? = some (.executed t now)} := by
  have h0 : TimelockInv hs (⟨s, block, []⟩ : ExecutorWorld H) := by
    simp only [NounsDAOExecutor.create, bind_ok, require_ok] at hs₀
    obtain ⟨_, hmin, _, hmax, hs₀⟩ := hs₀
    obtain rfl := Except.ok.inj hs₀
    exact ⟨⟨hmin, hmax⟩, fun _ => rfl, legal_nil, fun _ hd => absurd hd (List.not_mem_nil)⟩
  have hI : TimelockInv hs x.world := (executorMachine_keeps hinj).runs hx h0
  -- the history is a legal trace of its flags, and the library matches each use with what set it
  obtain ⟨source, hsource, hinjOn⟩ := hI.legal.matching
  have hmark : ∀ {j : ℕ} {d : Deed}, x.world.history[j]? = some d →
      (x.world.history.map Deed.mark)[j]? = some (Deed.mark d) := by
    intro j d hd
    rw [List.getElem?_map, hd]
    rfl
  refine ⟨hI.delay, source, ?_, ?_⟩
  · intro j t now hj
    obtain ⟨hlt, hset, hnone⟩ := hsource j t (hmark hj)
    refine ⟨hlt, ?_⟩
    rw [List.getElem?_map, Option.map_eq_some_iff] at hset
    obtain ⟨d, hd, hdm⟩ := hset
    -- only queueing sets a bit
    cases d with
    | canceled t' => cases hdm
    | executed t' now' => cases hdm
    | queued t' before delay =>
        obtain rfl := Mark.set.inj hdm
        obtain ⟨hmin, hle⟩ := hI.inTime _ (List.mem_of_getElem? hd)
        obtain ⟨hge, hgr⟩ := hI.inTime _ (List.mem_of_getElem? hj)
        refine ⟨before, delay, hd, hle, hge, hgr, by omega, ?_⟩
        intro i d hi hij hd'
        have hne := hnone i _ hi hij (hmark hd')
        refine ⟨?_, ?_⟩
        · intro heq
          subst heq
          exact hne rfl
        · intro now' heq
          subst heq
          exact hne rfl
  · refine hinjOn.mono ?_
    intro j h
    obtain ⟨t, now, hj⟩ := h
    exact ⟨t, hmark hj⟩

/-- An injective hash: the transaction itself. -/
def plainHashing : Hashing Transaction := ⟨id, fun _ => []⟩

/-- A payment that may be made two days after second 10. -/
def payment : Transaction := ⟨.ofNat 9, 1, "", [], 10 + MINIMUM_DELAY⟩

/-- Account 4 queues a payment, and executes it when the two days are over. -/
theorem executeTransaction_matched_payment :
    ∃ x, (executorMachine plainHashing (.ofNat 3)).Runs Free
        ⟨⟨⟨.ofNat 4, 0, MINIMUM_DELAY, fun _ => false, []⟩, ⟨1, 10⟩, []⟩, []⟩ x
      ∧ x.world.history[1]? = some (.executed payment (10 + MINIMUM_DELAY))
      ∧ ∃ before delay, x.world.history[0]? = some (.queued payment before delay)
        ∧ before + delay ≤ payment.eta := by
  obtain ⟨x, hx, hp⟩ := Machine.script_exists (M := executorMachine plainHashing (.ofNat 3))
    Machine.anything_free
    (x := ⟨⟨⟨.ofNat 4, 0, MINIMUM_DELAY, fun _ => false, []⟩, ⟨1, 10⟩, []⟩, []⟩)
    (m := [.enter ⟨.ofNat 4, .queueTransaction payment⟩, .tick ⟨2, 10 + MINIMUM_DELAY⟩,
      .enter ⟨.ofNat 4, .executeTransaction payment⟩, .resume])
    (p := fun x => x.world.history[1]? = some (.executed payment (10 + MINIMUM_DELAY)))
    (by decide +kernel)
  have hex := of_decide_eq_true hp
  obtain ⟨-, source, hsource, -⟩ := executeTransaction_matched plainHashing
    Function.injective_id (.ofNat 3) (.ofNat 4) MINIMUM_DELAY _ rfl ⟨1, 10⟩ x hx
  obtain ⟨hlt, before, delay, hq, hle, -⟩ := hsource 1 payment _ hex
  obtain h0 : source 1 = 0 := Nat.lt_one_iff.mp hlt
  exact ⟨x, hx, hex, before, delay, h0 ▸ hq, hle⟩

end Nouns.Proof
