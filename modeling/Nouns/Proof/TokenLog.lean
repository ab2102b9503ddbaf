import Nouns.Proof.TokenInvariant

/-!
# What the token's log tells

`Register` is the part of the token's storage that its log is about. Every event tells one
change of it, and the events a call logs tell what the call did: the two transfers of a
mint, the second out of an account that never owned the Noun in storage, included.
-/

namespace Nouns

open Evm DelegatedVotes EventLog CallMachine

/-- Owners, balances, delegates and votes. -/
structure Register where
  owners : Nat → Address
  balances : Address → Nat
  delegates_ : Address → Address
  votes : Address → Nat

namespace Register

/-- The register of a token before its first event. -/
def blank : Register := ⟨fun _ => 0, fun _ => 0, fun _ => 0, fun _ => 0⟩

/-- `delegates` -/
def delegates (r : Register) (delegator : Address) : Address :=
  if r.delegates_ delegator = 0 then delegator else r.delegates_ delegator

/-- A Noun moves; the zero address neither gains nor loses. -/
def transfer (r : Register) (src dst : Address) (id : Nat) : Register :=
  { r with
    owners := Function.update r.owners id dst
    balances := fun a =>
      if a = 0 then r.balances a
      else r.balances a - (if a = src then 1 else 0) + (if a = dst then 1 else 0) }

/-- `o` names `d`. -/
def name (r : Register) (o d : Address) : Register :=
  { r with delegates_ := Function.update r.delegates_ o d }

@[simp] theorem transfer_owners (r : Register) (src dst : Address) (id : Nat) :
    (r.transfer src dst id).owners = Function.update r.owners id dst := rfl
@[simp] theorem transfer_delegates (r : Register) (src dst : Address) (id : Nat) :
    (r.transfer src dst id).delegates = r.delegates := rfl
@[simp] theorem transfer_votes (r : Register) (src dst : Address) (id : Nat) :
    (r.transfer src dst id).votes = r.votes := rfl
@[simp] theorem name_owners (r : Register) (o d : Address) : (r.name o d).owners = r.owners := rfl
@[simp] theorem name_balances (r : Register) (o d : Address) :
    (r.name o d).balances = r.balances := rfl
@[simp] theorem name_votes (r : Register) (o d : Address) : (r.name o d).votes = r.votes := rfl

theorem name_delegates {r : Register} {o d : Address} (hd : d ≠ 0) :
    (r.name o d).delegates = Function.update r.delegates o d := by
  funext x
  by_cases hx : x = o
  · subst hx
    simp [delegates, name, hd]
  · simp [delegates, name, hx]

/-- Balances count Nouns. -/
def Counts (r : Register) : Prop :=
  ∃ S : Finset Nat, (∀ n, n ∉ S → r.owners n = 0)
    ∧ ∀ a, a ≠ 0 → r.balances a = (S.filter (fun n => r.owners n = a)).card

theorem Counts.pos {r : Register} (h : r.Counts) {n : Nat} (hn : r.owners n ≠ 0) :
    1 ≤ r.balances (r.owners n) := by
  obtain ⟨S, hout, hcard⟩ := h
  rw [hcard _ hn]
  refine Finset.card_pos.mpr ⟨n, ?_⟩
  have hin : n ∈ S := by
    by_contra hns
    exact hn (hout n hns)
  simp [hin]

/-- An owner of two Nouns has a balance of at least two. -/
theorem Counts.two {r : Register} (h : r.Counts) {n m : Nat} (hnm : n ≠ m)
    (hsame : r.owners n = r.owners m) (hn : r.owners n ≠ 0) : 2 ≤ r.balances (r.owners n) := by
  obtain ⟨S, hout, hcard⟩ := h
  have hin : ∀ k, r.owners k = r.owners n → k ∈ S := by
    intro k hk
    by_contra hks
    exact hn (hk.symm.trans (hout k hks))
  rw [hcard _ hn]
  refine Finset.one_lt_card.mpr ⟨n, ?_, m, ?_, hnm⟩
  · simp [hin n rfl]
  · simp [hin m hsame.symm, hsame]

theorem counts_blank : Counts .blank := ⟨∅, fun _ _ => rfl, fun _ _ => rfl⟩

end Register

/-- What the log of a token is about. -/
def NounsToken.register (s : NounsToken) : Register where
  owners := s.owners_
  balances := s.balances_
  delegates_ := s.delegates_
  votes := s.getCurrentVotes

namespace Proof

/-- What an event tells. -/
inductive Told : Register → TokenEvent → Register → Prop where
  | transfer {r : Register} {src dst : Address} {id : Nat} : r.owners id = src →
      Told r (.transfer src dst id) (r.transfer src dst id)
  | delegate {r : Register} {o d : Address} : o ≠ 0 →
      Told r (.delegateChanged o (r.delegates o) d) (r.name o d)
  | votes {r : Register} {e : TokenEvent} {v : Address → Nat} : VoteStep r.votes e v →
      Told r e { r with votes := v }
  | other {r : Register} {e : TokenEvent} : moves e = false → Told r e r

theorem Told.counts {r r' : Register} {e : TokenEvent} (hs : Told r e r') (h : r.Counts) :
    r'.Counts := by
  cases hs with
  | @transfer src dst id hown =>
      have hpos : src ≠ 0 → 1 ≤ r.balances src := fun hsrc => by
        rw [← hown] at hsrc ⊢
        exact h.pos hsrc
      obtain ⟨S, hout, hcard⟩ := h
      -- the Noun that moves may be new
      refine ⟨insert id S, ?_, ?_⟩
      · intro n hn
        rw [Finset.mem_insert, not_or] at hn
        rw [Register.transfer_owners, Function.update_of_ne hn.1]
        exact hout n hn.2
      · intro a ha
        have hinsert : ((insert id S).filter (fun n => r.owners n = a)).card
            = r.balances a := by
          rw [hcard a ha]
          by_cases hid : id ∈ S
          · rw [Finset.insert_eq_of_mem hid]
          · rw [Finset.filter_insert, if_neg]
            rw [hout id hid]
            exact Ne.symm ha
        have hmoved := count_update r.owners dst a (Finset.mem_insert_self id S)
        rw [hinsert, hown] at hmoved
        have hbal : (r.transfer src dst id).balances a
            = r.balances a - (if a = src then 1 else 0) + (if a = dst then 1 else 0) := by
          simp only [Register.transfer, if_neg ha]
        rw [hbal, Register.transfer_owners]
        -- `a` may send, receive, do both, or neither
        by_cases hs : a = src
        · have := hpos (hs ▸ ha)
          subst hs
          by_cases hd : a = dst
          · subst hd
            simp only [if_true] at hmoved ⊢
            omega
          · simp only [if_true, if_neg hd, if_neg (Ne.symm hd)] at hmoved ⊢
            omega
        · by_cases hd : a = dst
          · subst hd
            simp only [if_true, if_neg hs, if_neg (Ne.symm hs)] at hmoved ⊢
            omega
          · simp only [if_neg hd, if_neg hs, if_neg (Ne.symm hd), if_neg (Ne.symm hs)]
              at hmoved ⊢
            omega
  | delegate | votes | other => exact h

/-- From `s` to `s'` the log grew by what tells how the register changed. -/
def Tells (s s' : NounsToken) : Prop :=
  ∃ es, s'.logs = s.logs ++ es ∧ Replays Told s.register es s'.register

variable {now : Nat} {names : Address → Address → Prop} {s s' s'' : NounsToken}

theorem Tells.trans (h : Tells s s') (h' : Tells s' s'') : Tells s s'' := by
  obtain ⟨es, hl, hr⟩ := h
  obtain ⟨es', hl', hr'⟩ := h'
  exact ⟨es ++ es', by simp [hl', hl], hr.append hr'⟩

/-- Changes of votes are told. -/
theorem told_votes {r : Register} {es : List TokenEvent} {v : Address → Nat}
    (h : Replays VoteStep r.votes es v) : Replays Told r es { r with votes := v } :=
  h.map (f := fun v => { r with votes := v }) fun {v _ _} hstep =>
    .votes (r := { r with votes := v }) hstep

theorem told_others {r : Register} {es : List TokenEvent} (h : ∀ e ∈ es, moves e = false) :
    Replays Told r es r := by
  induction es with
  | nil => exact .nil
  | cons e es ih =>
      exact .cons (.other (h e List.mem_cons_self)) (ih fun e he => h e (List.mem_cons_of_mem _ he))

/-! ## The effects are told -/

/-- The register after a mint, seen from the two transfers. -/
theorem Minted.told {creator dst : Address} {id : Nat} (h : Minted now creator dst id s s') :
    ∃ es, s'.logs = s.logs ++ (es ++ [.transfer 0 creator id, .transfer creator dst id])
      ∧ Replays VoteStep s.getCurrentVotes es s'.getCurrentVotes
      ∧ s'.register = (Register.transfer { s.register with votes := s'.getCurrentVotes }
          0 creator id).transfer creator dst id := by
  obtain ⟨es, hlog, hvotes⟩ := h.logged
  refine ⟨es, by simpa using hlog, hvotes, ?_⟩
  obtain ⟨_, _, _, _, _, _, _, hbook⟩ := h.book
  have howners : s'.owners_ = Function.update s.owners_ id dst := by rw [hbook]
  have hbalances : s'.balances_ = Function.update s.balances_ dst (s.balances_ dst + 1) := by
    rw [hbook]
  have hdelegates : s'.delegates_ = s.delegates_ := by rw [hbook]
  simp only [NounsToken.register, Register.transfer, Register.mk.injEq, howners, hbalances,
    hdelegates, Function.update_idem, true_and, and_true]
  funext a
  by_cases ha : a = 0
  · subst ha
    rw [Function.update_of_ne (Ne.symm h.dst_ne)]
    simp
  · by_cases hd : a = dst
    · subst hd
      by_cases hc : a = creator
      · subst hc
        simp [ha]
      · simp [ha, hc]
    · by_cases hc : a = creator
      · subst hc
        simp [ha, hd]
      · simp [ha, hc, hd]

theorem Minted.tells {creator dst : Address} {id : Nat} (h : Minted now creator dst id s s') :
    Tells s s' := by
  obtain ⟨es, hlog, hvotes, hreg⟩ := h.told
  refine ⟨_, hlog, (told_votes (r := s.register) hvotes).append ?_⟩
  rw [hreg]
  refine .cons (.transfer h.fresh) (.single (.transfer ?_))
  exact Function.update_self _ _ _

/-- The register after a burn. -/
theorem Burned.told {id : Nat} (h : Burned now id s s') :
    ∃ es, s'.logs = s.logs ++ (es ++ [.approval (s.owners_ id) 0 id, .transfer (s.owners_ id) 0 id])
      ∧ Replays VoteStep s.getCurrentVotes es s'.getCurrentVotes
      ∧ s'.register = Register.transfer { s.register with votes := s'.getCurrentVotes }
          (s.owners_ id) 0 id := by
  obtain ⟨es, hlog, hvotes⟩ := h.logged
  refine ⟨es, by simpa using hlog, hvotes, ?_⟩
  obtain ⟨_, _, _, _, _, _, _, hbook⟩ := h.book
  have howners : s'.owners_ = Function.update s.owners_ id 0 := by rw [hbook]
  have hbalances : s'.balances_ = Function.update s.balances_ (s.owners_ id)
      (s.balances_ (s.owners_ id) - 1) := by rw [hbook]
  have hdelegates : s'.delegates_ = s.delegates_ := by rw [hbook]
  simp only [NounsToken.register, Register.transfer, Register.mk.injEq, howners, hbalances,
    hdelegates, true_and, and_true]
  funext a
  by_cases ha : a = 0
  · subst ha
    rw [Function.update_of_ne (Ne.symm h.owner_ne)]
    simp
  · by_cases hd : a = s.owners_ id
    · rw [← hd]
      simp [ha]
    · simp [ha, hd]

theorem Burned.tells {id : Nat} (h : Burned now id s s') : Tells s s' := by
  obtain ⟨es, hlog, hvotes, hreg⟩ := h.told
  refine ⟨_, hlog, (told_votes (r := s.register) hvotes).append ?_⟩
  rw [hreg]
  exact .cons (.other rfl) (.single (.transfer rfl))

/-- The register after a transfer. -/
theorem Transferred.told {src dst : Address} {id : Nat} (h : Transferred now src dst id s s') :
    ∃ es, s'.logs = s.logs ++ (es ++ [.approval src 0 id, .transfer src dst id])
      ∧ Replays VoteStep s.getCurrentVotes es s'.getCurrentVotes
      ∧ s'.register = Register.transfer { s.register with votes := s'.getCurrentVotes }
          src dst id := by
  obtain ⟨es, hlog, hvotes⟩ := h.logged
  refine ⟨es, by simpa using hlog, hvotes, ?_⟩
  obtain ⟨_, _, _, _, _, _, _, hbook⟩ := h.book
  have howners : s'.owners_ = Function.update s.owners_ id dst := by rw [hbook]
  have hbalances : s'.balances_ = (s.ledger.transfer src dst).balance := by rw [hbook]
  have hdelegates : s'.delegates_ = s.delegates_ := by rw [hbook]
  simp only [NounsToken.register, Register.transfer, Register.mk.injEq, howners, hbalances,
    hdelegates, true_and, and_true]
  funext a
  simp only [Ledger.transfer, NounsToken.ledger]
  by_cases ha : a = 0
  · subst ha
    simp [Ne.symm h.dst_ne, Ne.symm h.src_ne]
  · by_cases hd : a = dst
    · subst hd
      by_cases hs : a = src
      · subst hs
        simp [ha]
      · simp [ha, hs]
    · by_cases hs : a = src
      · subst hs
        simp [ha, hd]
      · simp [ha, hs, hd]

theorem Transferred.tells {src dst : Address} {id : Nat} (h : Transferred now src dst id s s') :
    Tells s s' := by
  obtain ⟨es, hlog, hvotes, hreg⟩ := h.told
  refine ⟨_, hlog, (told_votes (r := s.register) hvotes).append ?_⟩
  rw [hreg]
  exact .cons (.other rfl) (.single (.transfer h.owner))

/-- The register after a delegation. -/
theorem Redelegated.told {o d : Address} (h : Redelegated now o d s s') :
    ∃ es, s'.logs = s.logs ++ (.delegateChanged o (s.delegates o) d :: es)
      ∧ Replays VoteStep s.getCurrentVotes es s'.getCurrentVotes
      ∧ s'.register = { s.register.name o d with votes := s'.getCurrentVotes } := by
  obtain ⟨es, hlog, hvotes⟩ := h.logged
  refine ⟨es, by simpa using hlog, hvotes, ?_⟩
  obtain ⟨_, _, _, _, _, _, _, hbook⟩ := h.book
  have howners : s'.owners_ = s.owners_ := by rw [hbook]
  have hbalances : s'.balances_ = s.balances_ := by rw [hbook]
  have hdelegates : s'.delegates_ = Function.update s.delegates_ o d := by rw [hbook]
  simp only [NounsToken.register, Register.name, howners, hbalances, hdelegates]

theorem Redelegated.tells {o d : Address} (h : Redelegated now o d s s') : Tells s s' := by
  obtain ⟨es, hlog, hvotes, hreg⟩ := h.told
  refine ⟨_, hlog, .cons (.delegate (r := s.register) h.delegator_ne) ?_⟩
  rw [hreg]
  exact told_votes (r := s.register.name o d) hvotes

theorem Configured.tells (h : Configured s s') : Tells s s' := by
  obtain ⟨_, _, _, _, _, _, _, _, _, _, es, hes, rfl⟩ := h
  exact ⟨es, rfl, told_others hes⟩

/-- **Every effect is told.** -/
theorem Effect.tells (h : Effect now names s s') : Tells s s' := by
  cases h with
  | mint hm => exact hm.tells
  | burn hb => exact hb.tells
  | transfer ht => exact ht.tells
  | redelegate _ hr => exact hr.tells
  | configure hc => exact hc.tells

theorem Effects.tells (h : Effects now names s s') : Tells s s' := by
  induction h with
  | refl => exact ⟨[], by simp, .nil⟩
  | tail _ he ih => exact ih.trans he.tells

/-! ## Along every history -/

/-- The log of `s` tells all there is to tell. -/
def FullyTold (s : NounsToken) : Prop := Replays Told .blank s.logs s.register

theorem FullyTold.tells (h : FullyTold s) (h' : Tells s s') : FullyTold s' := by
  obtain ⟨es, hl, hr⟩ := h'
  unfold FullyTold
  rw [hl]
  exact h.append hr

theorem fullyTold_deploy {owner noundersDAO minter descriptor seeder : Address} :
    FullyTold (.deploy owner noundersDAO minter descriptor seeder) :=
  .single (.other rfl)

/-- **The log tells the register.** -/
theorem fullyTold_runs {g : Genesis} {x : Config TokenWorld TokenFrame} (h : TokenRuns g x) :
    FullyTold x.world.token :=
  (tokenMachine_keeps (I := fun _ s => FullyTold s)
    (fun hI hs _ => hI.tells (call_effects hs).tells) (fun _ hI => hI)).runs h fullyTold_deploy

end Proof

end Nouns
