import Nouns.Lib.DelegatedVotes
import Nouns.Lib.EventLog
import Nouns.Lib.StampedArray
import Nouns.Token.NounsToken

/-!
# What the token's functions do

One lemma for each internal function that moves a Noun or votes: the storage it
leaves, written as an update of the storage it found, and the checks it passed.
Everything later about the token is read off these, and none of the functions is
unfolded again.

`NounsToken.ledger` forgets the storage down to units, representatives and votes.
The functions act on it as the operations of `DelegatedVotes.Ledger` do.
-/

namespace Nouns

open Evm DelegatedVotes EventLog StampedArray

namespace NounsToken

/-- The votes of `a` at the end of block `t`, as its checkpoints have them. -/
def votesAt (s : NounsToken) (a : Address) (t : Nat) : Nat :=
  valueAt Checkpoint.fromBlock Checkpoint.votes 0 (s.checkpoints a) (s.numCheckpoints a) t

/-- The token as a ledger of delegated votes. -/
def ledger (s : NounsToken) : Ledger Address where
  balance := s.balances_
  delegate := s.delegates_
  votes := s.getCurrentVotes
  supply := s.totalSupply

@[simp] theorem rep_ledger (s : NounsToken) (o : Address) : s.ledger.rep o = s.delegates o := rfl

/-- The storage of `ERC721Enumerable`. -/
structure Enumeration where
  ownedTokens_ : Address → Nat → Nat
  ownedTokensIndex_ : Nat → Nat
  allTokens_ : List Nat
  allTokensIndex_ : Nat → Nat

def enumeration (s : NounsToken) : Enumeration where
  ownedTokens_ := s.ownedTokens_
  ownedTokensIndex_ := s.ownedTokensIndex_
  allTokens_ := s.allTokens_
  allTokensIndex_ := s.allTokensIndex_

end NounsToken

namespace Proof

/-! ## Checkpoints -/

/-- Each account's checkpoints get strictly later and none is in the future. -/
structure CheckpointsOk (now : Nat) (s : NounsToken) : Prop where
  now_pos : 0 < now
  increasing : ∀ a, Increasing Checkpoint.fromBlock (s.checkpoints a) (s.numCheckpoints a)
  past : ∀ a, Past Checkpoint.fromBlock (s.checkpoints a) (s.numCheckpoints a) now
  pos : ∀ a i, i < s.numCheckpoints a → 0 < (s.checkpoints a i).fromBlock

/-- From `s` to `s'`, in block `now`, nothing was recorded for an earlier block. -/
def Records (now : Nat) (s s' : NounsToken) : Prop :=
  CheckpointsOk now s → CheckpointsOk now s' ∧ ∀ a t, t < now → s'.votesAt a t = s.votesAt a t

theorem CheckpointsOk.congr {now : Nat} {s s' : NounsToken} (h : CheckpointsOk now s)
    (hc : s'.checkpoints = s.checkpoints) (hn : s'.numCheckpoints = s.numCheckpoints) :
    CheckpointsOk now s' := by
  refine ⟨h.now_pos, ?_, ?_, ?_⟩
  · rw [hc, hn]; exact h.increasing
  · rw [hc, hn]; exact h.past
  · rw [hc, hn]; exact h.pos

theorem Records.of_eq {now : Nat} {s s' : NounsToken} (hc : s'.checkpoints = s.checkpoints)
    (hn : s'.numCheckpoints = s.numCheckpoints) : Records now s s' := by
  intro h
  refine ⟨h.congr hc hn, ?_⟩
  intro a t _
  unfold NounsToken.votesAt
  rw [hc, hn]

theorem Records.refl {now : Nat} {s : NounsToken} : Records now s s := Records.of_eq rfl rfl

theorem Records.trans {now : Nat} {s s' s'' : NounsToken} (h : Records now s s')
    (h' : Records now s' s'') : Records now s s'' := by
  intro hs
  obtain ⟨h1, h2⟩ := h hs
  obtain ⟨h3, h4⟩ := h' h1
  exact ⟨h3, fun a t ht => (h4 a t ht).trans (h2 a t ht)⟩

/-- The current votes are those at the end of the current block, so far. -/
theorem CheckpointsOk.currentVotes {now : Nat} {s : NounsToken} (h : CheckpointsOk now s)
    (a : Address) {t : Nat} (ht : now ≤ t) : s.votesAt a t = s.getCurrentVotes a := by
  unfold NounsToken.votesAt NounsToken.getCurrentVotes
  exact valueAt_of_past (h.past a) ht

/-- Only checkpoints and the log differ. -/
def VotesOnly (s s' : NounsToken) : Prop :=
  ∃ cps ncps logs, s' = { s with checkpoints := cps, numCheckpoints := ncps, logs := logs }

theorem VotesOnly.refl {s : NounsToken} : VotesOnly s s :=
  ⟨s.checkpoints, s.numCheckpoints, s.logs, rfl⟩

theorem VotesOnly.trans {s s' s'' : NounsToken} (h : VotesOnly s s') (h' : VotesOnly s' s'') :
    VotesOnly s s'' := by
  obtain ⟨c, n, l, rfl⟩ := h
  obtain ⟨c', n', l', rfl⟩ := h'
  exact ⟨c', n', l', rfl⟩

/-- To record for one account only that account has to be looked at. -/
theorem Records.of_account {now : Nat} {s s' : NounsToken} (a : Address)
    (hother : ∀ x, x ≠ a →
      s'.checkpoints x = s.checkpoints x ∧ s'.numCheckpoints x = s.numCheckpoints x)
    (ha : CheckpointsOk now s →
      Increasing Checkpoint.fromBlock (s'.checkpoints a) (s'.numCheckpoints a)
      ∧ Past Checkpoint.fromBlock (s'.checkpoints a) (s'.numCheckpoints a) now
      ∧ (∀ i, i < s'.numCheckpoints a → 0 < (s'.checkpoints a i).fromBlock)
      ∧ ∀ t, t < now → s'.votesAt a t = s.votesAt a t) :
    Records now s s' := by
  intro hok
  obtain ⟨hinc, hpast, hpos, hat⟩ := ha hok
  refine ⟨⟨hok.now_pos, ?_, ?_, ?_⟩, ?_⟩
  · intro x
    by_cases hx : x = a
    · subst hx; exact hinc
    · rw [(hother x hx).1, (hother x hx).2]; exact hok.increasing x
  · intro x
    by_cases hx : x = a
    · subst hx; exact hpast
    · rw [(hother x hx).1, (hother x hx).2]; exact hok.past x
  · intro x
    by_cases hx : x = a
    · subst hx; exact hpos
    · rw [(hother x hx).1, (hother x hx).2]; exact hok.pos x
  · intro x t ht
    by_cases hx : x = a
    · subst hx; exact hat t ht
    · unfold NounsToken.votesAt
      rw [(hother x hx).1, (hother x hx).2]

/-- Writing a checkpoint sets the current votes and leaves the past alone. -/
theorem writeCheckpoint_shape {block : Block} {a : Address} {old new : Nat} {s s' : NounsToken}
    (h : s.writeCheckpoint_ block a (s.numCheckpoints a) old new = .ok s') :
    VotesOnly s s' ∧ s'.getCurrentVotes = Function.update s.getCurrentVotes a new
      ∧ Records block.number s s' ∧ s'.logs = s.logs ++ [.delegateVotesChanged a old new] := by
  simp only [NounsToken.writeCheckpoint_, safe32, bind_ok, require_ok] at h
  obtain ⟨bn, ⟨_, _, hbn⟩, h⟩ := h
  obtain rfl : block.number = bn := Except.ok.inj hbn
  split at h
  · -- the last checkpoint is of this block, and is overwritten
    rename_i hlast
    obtain rfl := Except.ok.inj h
    refine ⟨⟨_, _, _, rfl⟩, ?_, Records.of_account a ?_ ?_, rfl⟩
    · funext x
      by_cases hx : x = a
      · subst hx
        simp [NounsToken.getCurrentVotes, NounsToken.emit, hlast.1]
      · simp [NounsToken.getCurrentVotes, NounsToken.emit, hx]
    · intro x hx
      simp [NounsToken.emit, hx]
    · intro hok
      simp only [NounsToken.emit, NounsToken.votesAt, Function.update_self]
      have hsame : Checkpoint.fromBlock ⟨block.number, new⟩
          = Checkpoint.fromBlock (s.checkpoints a (s.numCheckpoints a - 1)) := hlast.2.symm
      refine ⟨(hok.increasing a).overwrite hsame, (hok.past a).overwrite hsame, ?_, ?_⟩
      · intro i hi
        rw [@time_overwrite _ Checkpoint.fromBlock _ _ _ hsame]
        exact hok.pos a i hi
      · intro t ht
        exact valueAt_overwrite hlast.1 hsame ht
  · -- a checkpoint is appended
    rename_i hlast
    simp only [add_ok, bind_ok] at h
    obtain ⟨n, ⟨_, rfl⟩, h⟩ := h
    obtain rfl := Except.ok.inj h
    refine ⟨⟨_, _, _, rfl⟩, ?_, Records.of_account a ?_ ?_, rfl⟩
    · funext x
      by_cases hx : x = a
      · subst hx
        simp [NounsToken.getCurrentVotes, NounsToken.emit]
      · simp [NounsToken.getCurrentVotes, NounsToken.emit, hx]
    · intro x hx
      simp [NounsToken.emit, hx]
    · intro hok
      simp only [NounsToken.emit, NounsToken.votesAt, Function.update_self]
      have hne : 0 < s.numCheckpoints a →
          (s.checkpoints a (s.numCheckpoints a - 1)).fromBlock ≠ block.number :=
        fun hpos heq => hlast ⟨hpos, heq⟩
      refine ⟨(hok.increasing a).append (hok.past a) hne rfl, (hok.past a).append rfl, ?_, ?_⟩
      · intro i hi
        by_cases hin : i = s.numCheckpoints a
        · subst hin; rw [Function.update_self]; exact hok.now_pos
        · rw [Function.update_of_ne hin]; exact hok.pos a i (by omega)
      · intro t ht
        exact valueAt_append ht

/-! ## Moving votes -/

/--
A change of votes, as its event tells it: from the votes there were, and never from no
votes to no votes.
-/
inductive VoteStep : (Address → Nat) → TokenEvent → (Address → Nat) → Prop where
  | changed {v : Address → Nat} {d : Address} {new : Nat} : ¬ (v d = 0 ∧ new = 0) →
      VoteStep v (.delegateVotesChanged d (v d) new) (Function.update v d new)

/-- From `s` to `s'` the log grew by `before`, the changes of votes, and `after`. -/
def VotesLogged (before after : List TokenEvent) (s s' : NounsToken) : Prop :=
  ∃ es, s'.logs = s.logs ++ (before ++ es ++ after)
    ∧ Replays VoteStep s.getCurrentVotes es s'.getCurrentVotes

theorem VotesLogged.of_eq {s s' : NounsToken} (hl : s'.logs = s.logs)
    (hv : s'.getCurrentVotes = s.getCurrentVotes) : VotesLogged [] [] s s' := by
  refine ⟨[], by simp [hl], ?_⟩
  rw [hv]
  exact .nil

theorem VotesLogged.trans {s s' s'' : NounsToken} (h : VotesLogged [] [] s s')
    (h' : VotesLogged [] [] s' s'') : VotesLogged [] [] s s'' := by
  obtain ⟨es, hl, hv⟩ := h
  obtain ⟨es', hl', hv'⟩ := h'
  exact ⟨es ++ es', by simp [hl', hl], hv.append hv'⟩

/-- Whatever else is logged before and after. -/
theorem VotesLogged.between {s s₁ s₂ s' : NounsToken} {before after : List TokenEvent}
    (h : VotesLogged [] [] s₁ s₂) (hv : s₁.getCurrentVotes = s.getCurrentVotes)
    (hl : s₁.logs = s.logs ++ before) (hv' : s'.getCurrentVotes = s₂.getCurrentVotes)
    (hl' : s'.logs = s₂.logs ++ after) : VotesLogged before after s s' := by
  obtain ⟨es, hes, hlog⟩ := h
  refine ⟨es, by simp [hl', hes, hl], ?_⟩
  rw [hv', ← hv]
  exact hlog

/-- What `_moveDelegates(src, dst, n)` does in block `now`. -/
structure Moved (now : Nat) (src dst : Address) (n : Nat) (s s' : NounsToken) : Prop where
  frame : VotesOnly s s'
  votes : s'.getCurrentVotes = move s.getCurrentVotes src dst n
  enough : src ≠ 0 → src ≠ dst → n ≤ s.getCurrentVotes src
  records : Records now s s'
  logged : VotesLogged [] [] s s'

theorem takeVotes_shape {block : Block} {a : Address} {n : Nat} {s s' : NounsToken} (ha : a ≠ 0)
    (hn : 0 < n) (h : s.takeVotes_ block a n = .ok s') :
    VotesOnly s s' ∧ s'.getCurrentVotes = take s.getCurrentVotes a n
      ∧ n ≤ s.getCurrentVotes a ∧ Records block.number s s' ∧ VotesLogged [] [] s s' := by
  simp only [NounsToken.takeVotes_, sub96, bind_ok, require_ok, sub_ok] at h
  obtain ⟨new, ⟨_, hle, _, rfl⟩, h⟩ := h
  obtain ⟨h1, h2, h3, h4⟩ := writeCheckpoint_shape h
  refine ⟨h1, ?_, hle, h3, [.delegateVotesChanged a (s.getCurrentVotes a) _], h4, ?_⟩
  · rw [h2, take, if_neg ha]
    rfl
  · rw [h2]
    refine .single (.changed (v := s.getCurrentVotes) ?_)
    intro hzero
    have hsome : n ≤ s.getCurrentVotes a := hle
    omega

theorem giveVotes_shape {block : Block} {a : Address} {n : Nat} {s s' : NounsToken} (ha : a ≠ 0)
    (hn : 0 < n) (h : s.giveVotes_ block a n = .ok s') :
    VotesOnly s s' ∧ s'.getCurrentVotes = give s.getCurrentVotes a n
      ∧ Records block.number s s' ∧ VotesLogged [] [] s s' := by
  simp only [NounsToken.giveVotes_, add96, bind_ok, require_ok, add_ok] at h
  obtain ⟨new, ⟨_, ⟨_, rfl⟩, _, _, hnew⟩, h⟩ := h
  obtain rfl := Except.ok.inj hnew
  obtain ⟨h1, h2, h3, h4⟩ := writeCheckpoint_shape h
  refine ⟨h1, ?_, h3, [.delegateVotesChanged a (s.getCurrentVotes a) _], h4, ?_⟩
  · rw [h2, give, if_neg ha]
    rfl
  · rw [h2]
    exact .single (.changed (v := s.getCurrentVotes) fun hzero => by omega)

theorem moveDelegates_shape {block : Block} {src dst : Address} {n : Nat} {s s' : NounsToken}
    (h : s.moveDelegates_ block src dst n = .ok s') : Moved block.number src dst n s s' := by
  unfold NounsToken.moveDelegates_ at h
  split at h
  · rename_i hc
    rw [bind_ok] at h
    obtain ⟨s₁, h₁, h₂⟩ := h
    -- votes are taken first, and then given
    have htake : VotesOnly s s₁ ∧ s₁.getCurrentVotes = take s.getCurrentVotes src n
        ∧ (src ≠ 0 → n ≤ s.getCurrentVotes src) ∧ Records block.number s s₁
        ∧ VotesLogged [] [] s s₁ := by
      split at h₁
      · rename_i hs
        obtain ⟨a, b, c, d, e⟩ := takeVotes_shape hs hc.2 h₁
        exact ⟨a, b, fun _ => c, d, e⟩
      · rename_i hs
        obtain rfl := Except.ok.inj h₁
        exact ⟨.refl, by rw [take, if_pos (not_not.mp hs)], fun hs' => absurd hs' hs, .refl,
          .of_eq rfl rfl⟩
    have hgive : VotesOnly s₁ s' ∧ s'.getCurrentVotes = give s₁.getCurrentVotes dst n
        ∧ Records block.number s₁ s' ∧ VotesLogged [] [] s₁ s' := by
      split at h₂
      · rename_i hd
        exact giveVotes_shape hd hc.2 h₂
      · rename_i hd
        obtain rfl := Except.ok.inj h₂
        exact ⟨.refl, by rw [give, if_pos (not_not.mp hd)], .refl, .of_eq rfl rfl⟩
    refine ⟨htake.1.trans hgive.1, ?_, fun hs _ => htake.2.2.1 hs,
      htake.2.2.2.1.trans hgive.2.2.1, htake.2.2.2.2.trans hgive.2.2.2⟩
    rw [hgive.2.1, htake.2.1, move, if_neg hc.1]
  · rename_i hc
    obtain rfl := Except.ok.inj h
    refine ⟨.refl, ?_, ?_, .refl, .of_eq rfl rfl⟩
    · -- nothing is written if nothing moves
      by_cases hsd : src = dst
      · rw [move, if_pos hsd]
      · obtain rfl : n = 0 := by
          by_contra hn; exact hc ⟨hsd, Nat.pos_of_ne_zero hn⟩
        simp [move, give, take]
    · intro _ hsd
      have : ¬ 0 < n := fun hn => hc ⟨hsd, hn⟩
      omega

/-! ## Moving Nouns -/

/-- Only what the contract keeps beside owners and balances differs: the enumeration, the
checkpoints, the log. -/
def Booked (s s' : NounsToken) : Prop :=
  ∃ ownedTokens ownedTokensIndex allTokens allTokensIndex cps ncps logs,
    s' = { s with
      ownedTokens_ := ownedTokens
      ownedTokensIndex_ := ownedTokensIndex
      allTokens_ := allTokens
      allTokensIndex_ := allTokensIndex
      checkpoints := cps
      numCheckpoints := ncps
      logs := logs }

theorem removeFromOwner_shape {src : Address} {tokenId : Nat} {s s' : NounsToken}
    (h : s.removeTokenFromOwnerEnumeration_ src tokenId = .ok s') :
    ∃ ot oti, s' = { s with ownedTokens_ := ot, ownedTokensIndex_ := oti } := by
  simp only [NounsToken.removeTokenFromOwnerEnumeration_, bind_ok, sub_ok] at h
  obtain ⟨_, _, _, _, h⟩ := h
  split at h
  · exact ⟨_, _, (Except.ok.inj h).symm⟩
  · exact ⟨_, _, (Except.ok.inj h).symm⟩

theorem addToOwner_shape {dst : Address} {tokenId : Nat} {s s' : NounsToken}
    (h : s.addTokenToOwnerEnumeration_ dst tokenId = .ok s') :
    ∃ ot oti, s' = { s with ownedTokens_ := ot, ownedTokensIndex_ := oti } := by
  simp only [NounsToken.addTokenToOwnerEnumeration_, bind_ok] at h
  obtain ⟨_, _, h⟩ := h
  exact ⟨_, _, (Except.ok.inj h).symm⟩

theorem removeFromAll_shape {tokenId : Nat} {s s' : NounsToken}
    (h : s.removeTokenFromAllTokensEnumeration_ tokenId = .ok s') :
    ∃ at_ ai, s' = { s with allTokens_ := at_, allTokensIndex_ := ai }
      ∧ at_.length + 1 = s.allTokens_.length := by
  simp only [NounsToken.removeTokenFromAllTokensEnumeration_, bind_ok, sub_ok] at h
  obtain ⟨_, ⟨hpos, _⟩, _, _, _, _, h⟩ := h
  refine ⟨_, _, (Except.ok.inj h).symm, ?_⟩
  simp only [List.length_dropLast, List.length_set]
  omega

theorem beforeTokenTransferEnumerable_shape {src dst : Address} {tokenId : Nat} {s s' : NounsToken}
    (h : s.beforeTokenTransferEnumerable_ src dst tokenId = .ok s') :
    ∃ ot oti at_ ai,
      s' = { s with
        ownedTokens_ := ot
        ownedTokensIndex_ := oti
        allTokens_ := at_
        allTokensIndex_ := ai }
      ∧ at_.length + (if dst = 0 then 1 else 0)
          = s.allTokens_.length + (if src = 0 then 1 else 0) := by
  simp only [NounsToken.beforeTokenTransferEnumerable_, bind_ok] at h
  obtain ⟨s₁, h₁, h₂⟩ := h
  have hsrc : ∃ ot oti at_ ai,
      s₁ = { s with
        ownedTokens_ := ot
        ownedTokensIndex_ := oti
        allTokens_ := at_
        allTokensIndex_ := ai }
      ∧ at_.length = s.allTokens_.length + (if src = 0 then 1 else 0) := by
    split at h₁
    · rename_i hs
      refine ⟨_, _, _, _, (Except.ok.inj h₁).symm, ?_⟩
      simp [hs]
    · rename_i hs
      split at h₁
      · obtain ⟨ot, oti, rfl⟩ := removeFromOwner_shape h₁
        exact ⟨_, _, _, _, rfl, by simp [hs]⟩
      · exact ⟨_, _, _, _, (Except.ok.inj h₁).symm, by simp [hs]⟩
  obtain ⟨ot, oti, at_, ai, rfl, hlen⟩ := hsrc
  -- a burn takes the Noun off the list of all; else it goes on to the receiver
  split at h₂
  · rename_i hd
    obtain ⟨at', ai', rfl, hlen'⟩ := removeFromAll_shape h₂
    exact ⟨_, _, _, _, rfl, by simp only [hd, if_true]; simp only at hlen'; omega⟩
  · rename_i hd
    split at h₂
    · obtain ⟨ot', oti', rfl⟩ := addToOwner_shape h₂
      exact ⟨_, _, _, _, rfl, by simp only [hd, if_false]; omega⟩
    · exact ⟨_, _, _, _, (Except.ok.inj h₂).symm, by simp only [hd, if_false]; omega⟩

/-- The enumeration is what the hook of `ERC721Enumerable` makes of it. -/
def Renumbered (src dst : Address) (tokenId : Nat) (s s' : NounsToken) : Prop :=
  ∃ s₁, s.beforeTokenTransferEnumerable_ src dst tokenId = .ok s₁
    ∧ s'.enumeration = s₁.enumeration

/-- What `_beforeTokenTransfer` does in block `now`, the balances still to be moved. -/
structure Hooked (now : Nat) (src dst : Address) (tokenId : Nat) (s s' : NounsToken) :
    Prop where
  book : Booked s s'
  supply : s'.totalSupply + (if dst = 0 then 1 else 0) = s.totalSupply + (if src = 0 then 1 else 0)
  votes : s'.getCurrentVotes = move s.getCurrentVotes (s.delegates src) (s.delegates dst) 1
  enough : s.delegates src ≠ 0 → s.delegates src ≠ s.delegates dst →
    1 ≤ s.getCurrentVotes (s.delegates src)
  records : Records now s s'
  enumerable : Renumbered src dst tokenId s s'
  logged : VotesLogged [] [] s s'

theorem beforeTokenTransfer_shape {block : Block} {src dst : Address} {tokenId : Nat}
    {s s' : NounsToken} (h : s.beforeTokenTransfer_ block src dst tokenId = .ok s') :
    Hooked block.number src dst tokenId s s' := by
  simp only [NounsToken.beforeTokenTransfer_, bind_ok] at h
  obtain ⟨s₁, h₁, h₂⟩ := h
  obtain ⟨ot, oti, at_, ai, rfl, hlen⟩ := beforeTokenTransferEnumerable_shape h₁
  have hm := moveDelegates_shape h₂
  obtain ⟨cps, ncps, logs, rfl⟩ := hm.frame
  exact ⟨⟨_, _, _, _, _, _, _, rfl⟩, hlen, hm.votes, hm.enough,
    (Records.of_eq (by rfl) (by rfl)).trans hm.records, ⟨_, h₁, rfl⟩,
    (VotesLogged.of_eq (by rfl) (by rfl)).trans hm.logged⟩

/-- What `_mint` does in block `now`. -/
structure Minted (now : Nat) (creator dst : Address) (tokenId : Nat) (s s' : NounsToken) :
    Prop where
  dst_ne : dst ≠ 0
  fresh : s.owners_ tokenId = 0
  book : Booked { s with
    balances_ := Function.update s.balances_ dst (s.balances_ dst + 1)
    owners_ := Function.update s.owners_ tokenId dst } s'
  ledger : s.delegates_ 0 = 0 → s'.ledger = s.ledger.issue dst
  records : Records now s s'
  enumerable : Renumbered 0 dst tokenId s s'
  logged : VotesLogged [] [.transfer 0 creator tokenId, .transfer creator dst tokenId] s s'

/-- What `_burn` does in block `now`. -/
structure Burned (now : Nat) (tokenId : Nat) (s s' : NounsToken) : Prop where
  owner_ne : s.owners_ tokenId ≠ 0
  balance : 1 ≤ s.balances_ (s.owners_ tokenId)
  book : Booked { s with
    tokenApprovals_ := Function.update s.tokenApprovals_ tokenId 0
    balances_ := Function.update s.balances_ (s.owners_ tokenId)
      (s.balances_ (s.owners_ tokenId) - 1)
    owners_ := Function.update s.owners_ tokenId 0 } s'
  ledger : s.delegates_ 0 = 0 → s'.ledger = s.ledger.retire (s.owners_ tokenId)
    ∧ 1 ≤ s.getCurrentVotes (s.delegates (s.owners_ tokenId))
  records : Records now s s'
  enumerable : Renumbered (s.owners_ tokenId) 0 tokenId s s'
  logged : VotesLogged [] [.approval (s.owners_ tokenId) 0 tokenId,
    .transfer (s.owners_ tokenId) 0 tokenId] s s'

/-- What `_transfer` does in block `now`. -/
structure Transferred (now : Nat) (src dst : Address) (tokenId : Nat) (s s' : NounsToken) :
    Prop where
  owner : s.owners_ tokenId = src
  src_ne : src ≠ 0
  dst_ne : dst ≠ 0
  balance : 1 ≤ s.balances_ src
  book : Booked { s with
    tokenApprovals_ := Function.update s.tokenApprovals_ tokenId 0
    balances_ := (s.ledger.transfer src dst).balance
    owners_ := Function.update s.owners_ tokenId dst } s'
  ledger : s'.ledger = s.ledger.transfer src dst
  enough : s.delegates src ≠ s.delegates dst → 1 ≤ s.getCurrentVotes (s.delegates src)
  records : Records now s s'
  enumerable : Renumbered src dst tokenId s s'
  logged : VotesLogged [] [.approval src 0 tokenId, .transfer src dst tokenId] s s'

/-- What `_delegate` does in block `now`. -/
structure Redelegated (now : Nat) (o d : Address) (s s' : NounsToken) : Prop where
  delegator_ne : o ≠ 0
  book : Booked { s with delegates_ := Function.update s.delegates_ o d } s'
  ledger : s'.ledger = s.ledger.redelegate o d
  enough : s.delegates o ≠ d → s.balances_ o ≤ s.getCurrentVotes (s.delegates o)
  records : Records now s s'
  enumerable : s'.enumeration = s.enumeration
  logged : VotesLogged [.delegateChanged o (s.delegates o) d] [] s s'

theorem delegates_ne_zero {s : NounsToken} {o : Address} (ho : o ≠ 0) : s.delegates o ≠ 0 :=
  Ledger.rep_ne_zero (L := s.ledger) ho

theorem delegates_zero {s : NounsToken} (h : s.delegates_ 0 = 0) : s.delegates 0 = 0 := by
  simp [NounsToken.delegates, h]

theorem mint_shape {block : Block} {creator dst : Address} {tokenId : Nat} {s s' : NounsToken}
    (h : NounsToken.mint_ (NounsToken.beforeTokenTransfer_ block) creator dst tokenId s = .ok s') :
    Minted block.number creator dst tokenId s s' := by
  simp only [NounsToken.mint_, NounsToken.exists_, bind_ok, require_ok, add_ok] at h
  obtain ⟨_, hdst, _, hfresh, s₁, h₁, _, ⟨_, rfl⟩, h⟩ := h
  have hk := beforeTokenTransfer_shape h₁
  obtain ⟨ot, oti, at_, ai, cps, ncps, logs, rfl⟩ := hk.book
  obtain rfl := Except.ok.inj h
  refine ⟨hdst, by simpa using hfresh, ⟨_, _, _, _, _, _, _, rfl⟩, ?_,
    hk.records.trans (Records.of_eq rfl rfl), hk.enumerable,
    hk.logged.between rfl (by simp) rfl (by simp [NounsToken.emit])⟩
  intro h0
  have hsup := hk.supply
  have hvotes := hk.votes
  rw [delegates_zero h0, move, if_neg (Ne.symm (delegates_ne_zero hdst)), take, if_pos rfl]
    at hvotes
  simp only [if_neg hdst, if_true] at hsup
  simp only [NounsToken.ledger, Ledger.issue, Ledger.mk.injEq]
  exact ⟨rfl, rfl, hvotes, hsup⟩

theorem burn_shape {block : Block} {tokenId : Nat} {s s' : NounsToken}
    (h : NounsToken.burn_ (NounsToken.beforeTokenTransfer_ block) tokenId s = .ok s') :
    Burned block.number tokenId s s' := by
  simp only [NounsToken.burn_, NounsToken.ownerOf, NounsToken.approve_, bind_ok, require_ok,
    sub_ok] at h
  obtain ⟨o, ⟨_, hne, ho⟩, s₁, h₁, s₂, ⟨_, ⟨_, _, ho₂⟩, h₂⟩, _, ⟨hb, rfl⟩, h⟩ := h
  obtain rfl := Except.ok.inj ho
  obtain rfl := Except.ok.inj ho₂
  have hk := beforeTokenTransfer_shape h₁
  obtain ⟨ot, oti, at_, ai, cps, ncps, logs, rfl⟩ := hk.book
  obtain rfl := Except.ok.inj h₂
  obtain rfl := Except.ok.inj h
  refine ⟨hne, hb, ⟨_, _, _, _, _, _, _, rfl⟩, ?_, hk.records.trans (Records.of_eq rfl rfl),
    hk.enumerable, hk.logged.between rfl (by simp) rfl (by simp [NounsToken.emit])⟩
  intro h0
  have hsup := hk.supply
  have hvotes := hk.votes
  have hrep := delegates_ne_zero (s := s) hne
  have hen := hk.enough hrep (by rw [delegates_zero h0]; exact hrep)
  rw [delegates_zero h0, move, if_neg hrep, give, if_pos rfl] at hvotes
  simp only [if_neg hne, if_true] at hsup
  refine ⟨?_, hen⟩
  simp only [NounsToken.ledger, Ledger.retire, Ledger.mk.injEq]
  exact ⟨rfl, rfl, hvotes, Nat.eq_sub_of_add_eq hsup⟩

theorem transfer_shape {block : Block} {src dst : Address} {tokenId : Nat} {s s' : NounsToken}
    (h : NounsToken.transfer_ (NounsToken.beforeTokenTransfer_ block) src dst tokenId s = .ok s') :
    Transferred block.number src dst tokenId s s' := by
  simp only [NounsToken.transfer_, NounsToken.ownerOf, NounsToken.approve_, bind_ok, require_ok,
    sub_ok, add_ok] at h
  obtain ⟨o, ⟨_, hne, ho⟩, _, hsrc, _, hdst, s₁, h₁, s₂, ⟨_, ⟨_, _, ho₂⟩, h₂⟩, _, ⟨hb, rfl⟩, _,
    ⟨_, rfl⟩, h⟩ := h
  obtain rfl := Except.ok.inj ho
  obtain rfl := Except.ok.inj ho₂
  have hk := beforeTokenTransfer_shape h₁
  obtain ⟨ot, oti, at_, ai, cps, ncps, logs, rfl⟩ := hk.book
  obtain rfl := Except.ok.inj h₂
  obtain rfl := Except.ok.inj h
  subst hsrc
  have hsup := hk.supply
  simp only [if_neg hne, if_neg hdst] at hsup
  refine ⟨rfl, hne, hdst, hb, ⟨_, _, _, _, _, _, _, rfl⟩, ?_,
    hk.enough (delegates_ne_zero hne), hk.records.trans (Records.of_eq rfl rfl),
    hk.enumerable, hk.logged.between rfl (by simp) rfl (by simp [NounsToken.emit])⟩
  simp only [NounsToken.ledger, Ledger.transfer, Ledger.mk.injEq]
  exact ⟨rfl, rfl, hk.votes, hsup⟩

theorem delegate_shape {block : Block} {o d : Address} {s s' : NounsToken}
    (h : s.delegate_ block o d = .ok s') : Redelegated block.number o d s s' := by
  simp only [NounsToken.delegate_, NounsToken.votesToDelegate, NounsToken.balanceOf, safe96,
    bind_ok, require_ok] at h
  obtain ⟨n, ⟨_, ⟨_, ho, hn⟩, _, _, hn'⟩, h⟩ := h
  obtain rfl := Except.ok.inj hn
  obtain rfl := Except.ok.inj hn'
  have hm := moveDelegates_shape h
  obtain ⟨cps, ncps, logs, rfl⟩ := hm.frame
  refine ⟨ho, ⟨_, _, _, _, _, _, _, rfl⟩, ?_, hm.enough (delegates_ne_zero ho),
    (Records.of_eq (by rfl) (by rfl)).trans hm.records, rfl,
    hm.logged.between rfl rfl rfl (by simp)⟩
  simp only [NounsToken.ledger, Ledger.redelegate, Ledger.mk.injEq]
  exact ⟨rfl, rfl, hm.votes, rfl⟩

end Proof

end Nouns
