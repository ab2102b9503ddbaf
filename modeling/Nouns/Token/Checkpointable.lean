import Nouns.Token.ERC721

/-!
# Vote checkpointing

`base/ERC721Checkpointable.sol`. An account's votes are an array of checkpoints,
one a block at most; `getPriorVotes` searches it.
-/

namespace Nouns

open Evm

/-- `safe32` -/
def safe32 (n : Nat) (errorMessage : String) : Result Nat := do
  require (n < 2 ^ 32) errorMessage
  return n

/-- `safe96` -/
def safe96 (n : Nat) (errorMessage : String) : Result Nat := do
  require (n < 2 ^ 96) errorMessage
  return n

/-- `add96` -/
def add96 (a b : Nat) (errorMessage : String) : Result Nat := do
  let c ← add 96 a b
  require (a ≤ c) errorMessage
  return c

/-- `sub96` -/
def sub96 (a b : Nat) (errorMessage : String) : Result Nat := do
  require (b ≤ a) errorMessage
  sub a b

namespace NounsToken

/-- `votesToDelegate` -/
def votesToDelegate (s : NounsToken) (delegator : Address) : Result Nat := do
  let balance ← s.balanceOf delegator
  safe96 balance "ERC721Checkpointable::votesToDelegate: amount exceeds 96 bits"

/-- `delegates`: an account that never delegated represents itself. -/
def delegates (s : NounsToken) (delegator : Address) : Address :=
  let current := s.delegates_ delegator
  if current = 0 then delegator else current

/-- `getCurrentVotes` -/
def getCurrentVotes (s : NounsToken) (account : Address) : Nat :=
  let nCheckpoints := s.numCheckpoints account
  if 0 < nCheckpoints then (s.checkpoints account (nCheckpoints - 1)).votes else 0

/-- `_writeCheckpoint` -/
def writeCheckpoint_ (block : Block) (delegatee : Address) (nCheckpoints oldVotes newVotes : Nat)
    (s : NounsToken) : Result NounsToken := do
  let blockNumber ← safe32 block.number
    "ERC721Checkpointable::_writeCheckpoint: block number exceeds 32 bits"
  let cps := s.checkpoints delegatee
  if 0 < nCheckpoints ∧ (cps (nCheckpoints - 1)).fromBlock = blockNumber then
    let s := { s with
      checkpoints := Function.update s.checkpoints delegatee
        (Function.update cps (nCheckpoints - 1) ⟨blockNumber, newVotes⟩) }
    return s.emit (.delegateVotesChanged delegatee oldVotes newVotes)
  else
    let n ← add 32 nCheckpoints 1
    let s := { s with
      checkpoints := Function.update s.checkpoints delegatee
        (Function.update cps nCheckpoints ⟨blockNumber, newVotes⟩)
      numCheckpoints := Function.update s.numCheckpoints delegatee n }
    return s.emit (.delegateVotesChanged delegatee oldVotes newVotes)

/-- The half of `_moveDelegates` that takes votes from `srcRep`. -/
def takeVotes_ (block : Block) (srcRep : Address) (amount : Nat) (s : NounsToken) :
    Result NounsToken := do
  let srcRepNum := s.numCheckpoints srcRep
  let srcRepOld := if 0 < srcRepNum then (s.checkpoints srcRep (srcRepNum - 1)).votes else 0
  let srcRepNew ← sub96 srcRepOld amount "ERC721Checkpointable::_moveDelegates: amount underflows"
  s.writeCheckpoint_ block srcRep srcRepNum srcRepOld srcRepNew

/-- The half of `_moveDelegates` that gives votes to `dstRep`. -/
def giveVotes_ (block : Block) (dstRep : Address) (amount : Nat) (s : NounsToken) :
    Result NounsToken := do
  let dstRepNum := s.numCheckpoints dstRep
  let dstRepOld := if 0 < dstRepNum then (s.checkpoints dstRep (dstRepNum - 1)).votes else 0
  let dstRepNew ← add96 dstRepOld amount "ERC721Checkpointable::_moveDelegates: amount overflows"
  s.writeCheckpoint_ block dstRep dstRepNum dstRepOld dstRepNew

/-- `_moveDelegates` -/
def moveDelegates_ (block : Block) (srcRep dstRep : Address) (amount : Nat) (s : NounsToken) :
    Result NounsToken :=
  if srcRep ≠ dstRep ∧ 0 < amount then do
    let s ← (if srcRep ≠ 0 then s.takeVotes_ block srcRep amount else .ok s)
    if dstRep ≠ 0 then s.giveVotes_ block dstRep amount else .ok s
  else .ok s

/-- `_beforeTokenTransfer` -/
def beforeTokenTransfer_ (block : Block) (src dst : Address) (tokenId : Nat) (s : NounsToken) :
    Result NounsToken := do
  let s ← s.beforeTokenTransferEnumerable_ src dst tokenId
  s.moveDelegates_ block (s.delegates src) (s.delegates dst) 1

/-- `_delegate` -/
def delegate_ (block : Block) (delegator delegatee : Address) (s : NounsToken) :
    Result NounsToken := do
  let currentDelegate := s.delegates delegator
  let s := { s with delegates_ := Function.update s.delegates_ delegator delegatee }
  let s := s.emit (.delegateChanged delegator currentDelegate delegatee)
  let amount ← s.votesToDelegate delegator
  s.moveDelegates_ block currentDelegate delegatee amount

/-- `delegate` -/
def delegate (m : Msg) (delegatee : Address) (s : NounsToken) : Result NounsToken :=
  let delegatee := if delegatee = 0 then m.sender else delegatee
  s.delegate_ m.block m.sender delegatee

/-- `delegateBySig`. Unlike `delegate`, it passes a zero `delegatee` on. -/
def delegateBySig (m : Msg) (delegatee : Address) (nonce expiry : Nat) (sig : Signature)
    (s : NounsToken) : Result NounsToken := do
  let signatory := m.view.recover ⟨delegatee, nonce, expiry⟩ sig
  require (signatory ≠ 0) "ERC721Checkpointable::delegateBySig: invalid signature"
  let next ← add 256 (s.nonces signatory) 1
  require (nonce = s.nonces signatory) "ERC721Checkpointable::delegateBySig: invalid nonce"
  let s := { s with nonces := Function.update s.nonces signatory next }
  require (m.block.timestamp ≤ expiry) "ERC721Checkpointable::delegateBySig: signature expired"
  s.delegate_ m.block signatory delegatee

/--
The loop of `getPriorVotes`. It runs out of `fuel` only if it takes more turns
than there are checkpoints, which it never does.
-/
def searchCheckpoints (cps : Nat → Checkpoint) (blockNumber : Nat) :
    Nat → Nat → Nat → Result Nat
  | fuel, lower, upper =>
    if lower < upper then
      match fuel with
      | 0 => .error .raw
      | fuel + 1 => do
        let width ← sub upper lower
        let center ← sub upper (width / 2)
        let cp := cps center
        if cp.fromBlock = blockNumber then .ok cp.votes
        else if cp.fromBlock < blockNumber then
          searchCheckpoints cps blockNumber fuel center upper
        else do
          let upper ← sub center 1
          searchCheckpoints cps blockNumber fuel lower upper
    else .ok (cps lower).votes

/-- `getPriorVotes` -/
def getPriorVotes (block : Block) (s : NounsToken) (account : Address) (blockNumber : Nat) :
    Result Nat := do
  require (blockNumber < block.number) "ERC721Checkpointable::getPriorVotes: not yet determined"
  let nCheckpoints := s.numCheckpoints account
  let cps := s.checkpoints account
  if nCheckpoints = 0 then .ok 0
  else if (cps (nCheckpoints - 1)).fromBlock ≤ blockNumber then .ok (cps (nCheckpoints - 1)).votes
  else if blockNumber < (cps 0).fromBlock then .ok 0
  else searchCheckpoints cps blockNumber nCheckpoints 0 (nCheckpoints - 1)

end NounsToken

end Nouns
