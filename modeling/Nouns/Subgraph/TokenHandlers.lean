import Nouns.Subgraph.Store

/-!
# The handlers of the token's events

`nouns-erc-721.ts`. Logging errors is left out. `handleTransfer` has the sender and the
receiver in its hands from the start, as two copies even when they are the same account.
-/

namespace Nouns.Subgraph

open Evm

namespace Store

/-- `handleNounCreated` -/
def handleNounCreated (nounId : Nat) (seed : Seed) (st : Store) : Store :=
  let st := st.saveSeed nounId seed
  match st.nouns nounId with
  | none => st
  | some noun => st.saveNoun nounId { noun with seed := some nounId }

/-- `handleDelegateChanged` -/
def handleDelegateChanged (delegator fromDelegate toDelegate : Address) (st : Store) : Store :=
  let (tokenHolder, st) := st.getOrCreateAccount delegator
  let (previousDelegate, st) := st.getOrCreateDelegate fromDelegate
  let (newDelegate, st) := st.getOrCreateDelegate toDelegate
  let accountNouns := tokenHolder.nouns
  let st := st.saveAccount delegator { tokenHolder with delegate := some toDelegate }
  let previousDelegate := { previousDelegate with
    tokenHoldersRepresentedAmount := previousDelegate.tokenHoldersRepresentedAmount - 1
    nounsRepresented := previousDelegate.nounsRepresented.filter (fun n => n ∉ accountNouns) }
  let newDelegate := { newDelegate with
    tokenHoldersRepresentedAmount := newDelegate.tokenHoldersRepresentedAmount + 1
    nounsRepresented := newDelegate.nounsRepresented ++ accountNouns }
  (st.saveDelegate fromDelegate previousDelegate).saveDelegate toDelegate newDelegate

/-- `handleDelegateVotesChanged` -/
def handleDelegateVotesChanged (delegate_ : Address) (previousBalance newBalance : Nat)
    (st : Store) : Store :=
  let governance := st.getGovernanceEntity
  let (delegate, st) := st.getOrCreateDelegate delegate_
  let votesDifference : Int := newBalance - previousBalance
  let st := st.saveDelegate delegate_ { delegate with
    delegatedVotesRaw := newBalance
    delegatedVotes := newBalance }
  let governance := if previousBalance = 0 ∧ 0 < newBalance then
      { governance with currentDelegates := governance.currentDelegates + 1 }
    else governance
  let governance := if newBalance = 0 then
      { governance with currentDelegates := governance.currentDelegates - 1 }
    else governance
  st.saveGovernance { governance with
    delegatedVotesRaw := governance.delegatedVotesRaw + votesDifference
    delegatedVotes := governance.delegatedVotesRaw + votesDifference }

/-- `currentTokenHolders` when a balance changes. -/
def countHolder (previousBalance balance : Int) (governance : Governance) (st : Store) :
    Governance × Store :=
  if balance = 0 ∧ 0 < previousBalance then
    let governance := { governance with currentTokenHolders := governance.currentTokenHolders - 1 }
    (governance, st.saveGovernance governance)
  else if 0 < balance ∧ previousBalance = 0 then
    let governance := { governance with currentTokenHolders := governance.currentTokenHolders + 1 }
    (governance, st.saveGovernance governance)
  else (governance, st)

/-- A Noun leaves the list of the sender's delegate, if there is one. -/
def unrepresent (delegate : Option Address) (tokenId : Nat) (st : Store) : Store :=
  match delegate with
  | none => st
  | some delegate =>
      let (fromHolderDelegate, st) := st.getOrCreateDelegate delegate
      st.saveDelegate delegate { fromHolderDelegate with
        nounsRepresented := fromHolderDelegate.nounsRepresented.filter (fun n => n ≠ tokenId) }

/-- What `handleTransfer` does for a sender other than the zero address. -/
def handleSender (src : Address) (tokenId : Nat) (fromHolder : Account) (governance : Governance)
    (st : Store) : Governance × Store :=
  let previousBalance := fromHolder.tokenBalanceRaw
  let balance := fromHolder.tokenBalanceRaw - 1
  let fromHolder := { fromHolder with
    tokenBalanceRaw := balance
    tokenBalance := balance
    nouns := fromHolder.nouns.filter (fun n => n ≠ tokenId) }
  let st := st.unrepresent fromHolder.delegate tokenId
  let (governance, st) := countHolder previousBalance balance governance st
  let fromHolder := if balance = 0 ∧ 0 < previousBalance then
      { fromHolder with delegate := none }
    else fromHolder
  (governance, st.saveAccount src fromHolder)

/-- What `handleTransfer` does for the receiver. -/
def handleReceiver (dst : Address) (tokenId : Nat) (toHolder : Account) (governance : Governance)
    (st : Store) : Store :=
  let (toHolderDelegate, st) := st.getOrCreateDelegate dst
  let st := st.saveDelegate dst { toHolderDelegate with
    nounsRepresented := toHolderDelegate.nounsRepresented ++ [tokenId] }
  let previousBalance := toHolder.tokenBalanceRaw
  let balance := toHolder.tokenBalanceRaw + 1
  let toHolder := { toHolder with
    tokenBalanceRaw := balance
    tokenBalance := balance
    totalTokensHeldRaw := toHolder.totalTokensHeldRaw + 1
    totalTokensHeld := toHolder.totalTokensHeldRaw + 1
    nouns := toHolder.nouns ++ [tokenId] }
  let (_, st) := countHolder previousBalance balance governance st
  let toHolder := if 0 < balance ∧ previousBalance = 0 then
      { toHolder with delegate := some dst }
    else toHolder
  let noun := match st.nouns tokenId with
    | some noun => { noun with owner := dst }
    | none => ⟨none, dst⟩
  (st.saveNoun tokenId noun).saveAccount dst toHolder

/-- `handleTransfer` -/
def handleTransfer (src dst : Address) (tokenId : Nat) (st : Store) : Store :=
  let (fromHolder, st) := st.getOrCreateAccount src
  let (toHolder, st) := st.getOrCreateAccount dst
  let governance := st.getGovernanceEntity
  let (governance, st) := if src = 0 then
      let governance := { governance with totalTokenHolders := governance.totalTokenHolders + 1 }
      (governance, st.saveGovernance governance)
    else st.handleSender src tokenId fromHolder governance
  let (governance, st) := if dst = 0 then
      let governance := { governance with totalTokenHolders := governance.totalTokenHolders - 1 }
      (governance, st.saveGovernance governance)
    else (governance, st)
  st.handleReceiver dst tokenId toHolder governance

/-- The handler of an event, if it has one. -/
def handleTokenEvent (st : Store) : TokenEvent → Store
  | .nounCreated nounId seed => st.handleNounCreated nounId seed
  | .delegateChanged delegator fromDelegate toDelegate =>
      st.handleDelegateChanged delegator fromDelegate toDelegate
  | .delegateVotesChanged delegate previousBalance newBalance =>
      st.handleDelegateVotesChanged delegate previousBalance newBalance
  | .transfer src dst tokenId => st.handleTransfer src dst tokenId
  | _ => st

/-- The store after all events of the token's log. -/
def afterToken (logs : List TokenEvent) : Store := logs.foldl handleTokenEvent empty

end Store

end Nouns.Subgraph
