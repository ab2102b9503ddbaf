import Nouns.Lib.CallMachine
import Nouns.Evm.Basic

/-!
# The timelock

`NounsDAOExecutor.sol`. Its admin queues, cancels and executes transactions; a queued
transaction is remembered by its hash alone. `executeTransaction` is cut in two at the
call of the target: what runs before, and what runs after it came back.
-/

namespace Nouns

open Evm CallMachine

/-- `bytes` -/
abbrev Bytes := List UInt8

/-- The arguments of a timelocked transaction. -/
structure Transaction where
  target : Address
  value : Nat
  signature : String
  data : Bytes
  eta : Nat
deriving DecidableEq

/-- `keccak256(abi.encode(target, value, signature, data, eta))` and `bytes4(keccak256(signature))`. -/
structure Hashing (H : Type) where
  txHash : Transaction → H
  selector : String → Bytes

/-- The events of the executor. -/
inductive ExecutorEvent (H : Type) where
  | newAdmin (newAdmin : Address)
  | newPendingAdmin (newPendingAdmin : Address)
  | newDelay (newDelay : Nat)
  | cancelTransaction (txHash : H) (t : Transaction)
  | executeTransaction (txHash : H) (t : Transaction)
  | queueTransaction (txHash : H) (t : Transaction)

/-- The storage of `NounsDAOExecutor.sol`. -/
structure NounsDAOExecutor (H : Type) where
  admin : Address
  pendingAdmin : Address
  delay : Nat
  queuedTransactions : H → Bool
  logs : List (ExecutorEvent H)

/-- `14 days` -/
def GRACE_PERIOD : Nat := 14 * 24 * 60 * 60

/-- `2 days` -/
def MINIMUM_DELAY : Nat := 2 * 24 * 60 * 60

/-- `30 days` -/
def MAXIMUM_DELAY : Nat := 30 * 24 * 60 * 60

namespace NounsDAOExecutor

variable {H : Type} [DecidableEq H]

/-- `emit e` -/
def emit (e : ExecutorEvent H) (s : NounsDAOExecutor H) : NounsDAOExecutor H :=
  { s with logs := s.logs ++ [e] }

omit [DecidableEq H] in
/-- `constructor` -/
def create (admin_ : Address) (delay_ : Nat) : Result (NounsDAOExecutor H) := do
  require (MINIMUM_DELAY ≤ delay_)
    "NounsDAOExecutor::constructor: Delay must exceed minimum delay."
  require (delay_ ≤ MAXIMUM_DELAY)
    "NounsDAOExecutor::setDelay: Delay must not exceed maximum delay."
  return ⟨admin_, 0, delay_, fun _ => false, []⟩

/-- `setDelay`, sent by `sender` to the executor at `self`. -/
def setDelay (self sender : Address) (delay_ : Nat) (s : NounsDAOExecutor H) :
    Result (NounsDAOExecutor H) := do
  require (sender = self) "NounsDAOExecutor::setDelay: Call must come from NounsDAOExecutor."
  require (MINIMUM_DELAY ≤ delay_) "NounsDAOExecutor::setDelay: Delay must exceed minimum delay."
  require (delay_ ≤ MAXIMUM_DELAY)
    "NounsDAOExecutor::setDelay: Delay must not exceed maximum delay."
  return { s with delay := delay_ }.emit (.newDelay delay_)

/-- `acceptAdmin` -/
def acceptAdmin (sender : Address) (s : NounsDAOExecutor H) : Result (NounsDAOExecutor H) := do
  require (sender = s.pendingAdmin)
    "NounsDAOExecutor::acceptAdmin: Call must come from pendingAdmin."
  return { s with admin := sender, pendingAdmin := 0 }.emit (.newAdmin sender)

/-- `setPendingAdmin` -/
def setPendingAdmin (self sender pendingAdmin_ : Address) (s : NounsDAOExecutor H) :
    Result (NounsDAOExecutor H) := do
  require (sender = self)
    "NounsDAOExecutor::setPendingAdmin: Call must come from NounsDAOExecutor."
  return { s with pendingAdmin := pendingAdmin_ }.emit (.newPendingAdmin pendingAdmin_)

/-- `queueTransaction` -/
def queueTransaction (hs : Hashing H) (sender : Address) (block : Block) (t : Transaction)
    (s : NounsDAOExecutor H) : Result (NounsDAOExecutor H) := do
  require (sender = s.admin) "NounsDAOExecutor::queueTransaction: Call must come from admin."
  let earliest ← add 256 block.timestamp s.delay
  require (earliest ≤ t.eta)
    "NounsDAOExecutor::queueTransaction: Estimated execution block must satisfy delay."
  let txHash := hs.txHash t
  let s := { s with queuedTransactions := Function.update s.queuedTransactions txHash true }
  return s.emit (.queueTransaction txHash t)

/-- `cancelTransaction` -/
def cancelTransaction (hs : Hashing H) (sender : Address) (t : Transaction)
    (s : NounsDAOExecutor H) : Result (NounsDAOExecutor H) := do
  require (sender = s.admin) "NounsDAOExecutor::cancelTransaction: Call must come from admin."
  let txHash := hs.txHash t
  let s := { s with queuedTransactions := Function.update s.queuedTransactions txHash false }
  return s.emit (.cancelTransaction txHash t)

/-- `executeTransaction` up to the call of the target. -/
def executeTransaction (hs : Hashing H) (sender : Address) (block : Block) (t : Transaction)
    (s : NounsDAOExecutor H) : Result (NounsDAOExecutor H) := do
  require (sender = s.admin) "NounsDAOExecutor::executeTransaction: Call must come from admin."
  let txHash := hs.txHash t
  require (s.queuedTransactions txHash)
    "NounsDAOExecutor::executeTransaction: Transaction hasn't been queued."
  require (t.eta ≤ block.timestamp)
    "NounsDAOExecutor::executeTransaction: Transaction hasn't surpassed time lock."
  let latest ← add 256 t.eta GRACE_PERIOD
  require (block.timestamp ≤ latest)
    "NounsDAOExecutor::executeTransaction: Transaction is stale."
  return { s with queuedTransactions := Function.update s.queuedTransactions txHash false }

omit [DecidableEq H] in
/-- The `callData` with which `executeTransaction` calls the target. -/
def callData (hs : Hashing H) (t : Transaction) : Bytes :=
  if t.signature.utf8ByteSize = 0 then t.data else hs.selector t.signature ++ t.data

omit [DecidableEq H] in
/-- `executeTransaction` after the call of the target. -/
def executeTransactionEnd (hs : Hashing H) (t : Transaction) (success : Bool)
    (s : NounsDAOExecutor H) : Result (NounsDAOExecutor H) := do
  require success "NounsDAOExecutor::executeTransaction: Transaction execution reverted."
  return s.emit (.executeTransaction (hs.txHash t) t)

end NounsDAOExecutor

/-! ## The executor on its own -/

/-- What has been done to a transaction, with the time and the delay at that moment. -/
inductive Deed where
  | queued (t : Transaction) (now delay : Nat)
  | canceled (t : Transaction)
  | executed (t : Transaction) (now : Nat)
deriving DecidableEq

/-- The executor, the block the chain is at, and what has been done so far. -/
structure ExecutorWorld (H : Type) where
  executor : NounsDAOExecutor H
  block : Block
  history : List Deed

/-- The entry points of the executor. -/
inductive ExecutorCall where
  | setDelay (delay : Nat)
  | acceptAdmin
  | setPendingAdmin (pendingAdmin : Address)
  | queueTransaction (t : Transaction)
  | cancelTransaction (t : Transaction)
  | executeTransaction (t : Transaction)

/-- A call to the executor. -/
structure ExecutorTx where
  sender : Address
  call : ExecutorCall

/-- The outgoing call of `executeTransaction`. -/
inductive ExecutorFrame where
  | target (t : Transaction)

variable {H : Type} [DecidableEq H]

/--
The executor at the address `self`, as a machine. It sends calls itself only while
it is executing a transaction.
-/
def executorMachine (hs : Hashing H) (self : Address) :
    Machine (ExecutorWorld H) ExecutorTx ExecutorFrame Block Revert where
  enter tx w := match tx.call with
    | .setDelay delay => do
      let s ← w.executor.setDelay self tx.sender delay
      return .done { w with executor := s }
    | .acceptAdmin => do
      let s ← w.executor.acceptAdmin tx.sender
      return .done { w with executor := s }
    | .setPendingAdmin pendingAdmin => do
      let s ← w.executor.setPendingAdmin self tx.sender pendingAdmin
      return .done { w with executor := s }
    | .queueTransaction t => do
      let s ← w.executor.queueTransaction hs tx.sender w.block t
      return .done { w with
        executor := s
        history := w.history ++ [.queued t w.block.timestamp w.executor.delay] }
    | .cancelTransaction t => do
      let s ← w.executor.cancelTransaction hs tx.sender t
      return .done { w with executor := s, history := w.history ++ [.canceled t] }
    | .executeTransaction t => do
      let s ← w.executor.executeTransaction hs tx.sender w.block t
      let w' := { w with
        executor := s
        history := w.history ++ [.executed t w.block.timestamp] }
      return .call w' w' (.target t)
  resume f ok w := match f with
    | .target t => do
      let s ← w.executor.executeTransactionEnd hs t ok
      return .done { w with executor := s }
  allowed tx _ fs := tx.sender ≠ 0 ∧ (tx.sender = self → fs ≠ [])
  tick next w := (w.block.tick next).map (fun b => { w with block := b })

instance (hs : Hashing H) (self : Address) (tx : ExecutorTx) (w : ExecutorWorld H)
    (fs : List ExecutorFrame) : Decidable ((executorMachine hs self).allowed tx w fs) :=
  inferInstanceAs (Decidable (tx.sender ≠ 0 ∧ (tx.sender = self → fs ≠ [])))

end Nouns
