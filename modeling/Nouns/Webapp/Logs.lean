import Mathlib.Logic.Relation
import Nouns.Lib.JsMap
import Nouns.Webapp.LogParsing

/-!
# The web app's cache of logs

`slices/logs.ts`, `updaters/logs.ts` and `hooks/useLogs.ts`. A component that uses the logs of a
filter is one of its listeners; whenever there is a new block, the updater asks the provider
anew for the logs of every filter with listeners. Its calls of `getLogs` come back in any order,
or fail. Between a render of the updater and the effect of that render anything else can happen
but another render.
-/

namespace Nouns.Webapp

/-- `Log` -/
structure Log where
  topics : List String
  transactionHash : String
  data : String
deriving DecidableEq

/-- `results` of a filter: the logs as of a block, or that they could not be fetched. -/
structure LogResults where
  blockNumber : Nat
  logs : Option (List Log)

/-- What is kept of a filter. -/
structure FilterState where
  listeners : Int
  fetchingBlockNumber : Option Nat
  results : Option LogResults

/-- `LogsState` -/
abbrev LogsState := JsMap String FilterState

namespace LogsState

/-- `addListener` -/
def addListener (filter : EventFilter) (state : LogsState) : LogsState :=
  let key := filterToKey filter
  match state.get? key with
  | none => state.set key ⟨1, none, none⟩
  | some fetchState => state.set key { fetchState with listeners := fetchState.listeners + 1 }

/-- `fetchingLogs` -/
def fetchingLogs (filters : List EventFilter) (blockNumber : Nat) (state : LogsState) : LogsState :=
  filters.foldl (fun state filter =>
    let key := filterToKey filter
    match state.get? key with
    | none => state
    | some fetchState =>
        state.set key { fetchState with fetchingBlockNumber := some blockNumber }) state

/-- Keep results, unless there are results of a later block. -/
def keepResults (filter : EventFilter) (results : LogResults) (state : LogsState) : LogsState :=
  let key := filterToKey filter
  match state.get? key with
  | none => state
  | some fetchState =>
      if fetchState.results.any (fun r => r.blockNumber > results.blockNumber) then state
      else state.set key { fetchState with results := some results }

/-- `fetchedLogs` -/
def fetchedLogs (filter : EventFilter) (blockNumber : Nat) (logs : List Log) (state : LogsState) :
    LogsState := state.keepResults filter ⟨blockNumber, some logs⟩

/-- `fetchedLogsError` -/
def fetchedLogsError (filter : EventFilter) (blockNumber : Nat) (state : LogsState) : LogsState :=
  state.keepResults filter ⟨blockNumber, none⟩

/-- `removeListener` -/
def removeListener (filter : EventFilter) (state : LogsState) : LogsState :=
  let key := filterToKey filter
  match state.get? key with
  | none => state
  | some fetchState => state.set key { fetchState with listeners := fetchState.listeners - 1 }

end LogsState

/-- Whether the updater has to fetch logs as of a block, by what is kept of their filter. -/
def FilterState.needsFetch (blockNumber : Nat) (s : FilterState) : Bool :=
  if s.listeners = 0 then false
  else if s.fetchingBlockNumber.any (fun n => n ≥ blockNumber) then false
  else if s.results.any (fun r => r.blockNumber ≥ blockNumber) then false
  else true

/-- `filtersNeedFetch` of the updater -/
def filtersNeedFetch (blockNumber : Option Nat) (state : LogsState) : Option (List EventFilter) :=
  match blockNumber with
  | none => some []
  | some blockNumber =>
      (state.keys.filter fun key => (state.get? key).any (FilterState.needsFetch blockNumber)).mapM
        keyToFilter

/-- `LogsState` of the hook -/
inductive LogsSync where
  | invalid
  | loading
  | syncing
  | error
  | synced
deriving DecidableEq

/-- `UseLogsResult` -/
structure UseLogsResult where
  logs : Option (List Log)
  state : LogsSync
deriving DecidableEq

/-- `useLogs`, of the block number and the state it is rendered with -/
def useLogs (filter : Option EventFilter) (blockNumber : Option Nat) (logs : LogsState) :
    UseLogsResult :=
  match filter.map filterToKey, blockNumber with
  | some filterKey, some blockNumber =>
      if filterKey = "" ∨ blockNumber = 0 then ⟨none, .invalid⟩
      else match (logs.get? filterKey).bind FilterState.results with
        | none => ⟨none, .loading⟩
        | some ⟨_, none⟩ => ⟨none, .error⟩
        | some ⟨n, some logs⟩ => ⟨some logs, if n ≥ blockNumber then .synced else .syncing⟩
  | _, _ => ⟨none, .invalid⟩

/-- The cache with the updater, and the calls of `getLogs`: those still open, and all of them. -/
structure LogCache where
  logs : LogsState
  blockNumber : Option Nat
  /-- The block number and the filters of a render whose effect is still to come. -/
  effect : Option (Nat × List EventFilter)
  requests : List (EventFilter × Nat)
  asked : List (EventFilter × Nat)

namespace LogCache

/-- Before the first render. -/
def start : LogCache := ⟨.empty, none, none, [], []⟩

/-- What can happen. -/
inductive Happens where
  | mount (filter : EventFilter)
  | unmount (filter : EventFilter)
  | block (blockNumber : Option Nat)
  | render
  | effect
  | answer (filter : EventFilter) (blockNumber : Nat)
  | failure (filter : EventFilter) (blockNumber : Nat)

/-- A step, with a provider that answers with `getLogs`, of a filter up to a block. -/
inductive Step (getLogs : EventFilter → Nat → List Log) : LogCache → Happens → LogCache → Prop where
  | mount {x : LogCache} {filter : EventFilter} :
      Step getLogs x (.mount filter) { x with logs := x.logs.addListener filter }
  | unmount {x : LogCache} {filter : EventFilter} :
      Step getLogs x (.unmount filter) { x with logs := x.logs.removeListener filter }
  | block {x : LogCache} {blockNumber : Option Nat} :
      Step getLogs x (.block blockNumber) { x with blockNumber := blockNumber }
  | render {x : LogCache} {filters : List EventFilter} :
      x.effect = none → filtersNeedFetch x.blockNumber x.logs = some filters →
      Step getLogs x .render { x with effect := x.blockNumber.map fun n => (n, filters) }
  | effect {x : LogCache} {blockNumber : Nat} {filters : List EventFilter} :
      x.effect = some (blockNumber, filters) →
      Step getLogs x .effect { x with
        logs := x.logs.fetchingLogs filters blockNumber
        effect := none
        requests := x.requests ++ filters.map fun filter => (filter, blockNumber)
        asked := x.asked ++ filters.map fun filter => (filter, blockNumber) }
  | answer {x : LogCache} {filter : EventFilter} {blockNumber : Nat} :
      (filter, blockNumber) ∈ x.requests →
      Step getLogs x (.answer filter blockNumber) { x with
        logs := x.logs.fetchedLogs filter blockNumber (getLogs filter blockNumber)
        requests := x.requests.erase (filter, blockNumber) }
  | failure {x : LogCache} {filter : EventFilter} {blockNumber : Nat} :
      (filter, blockNumber) ∈ x.requests →
      Step getLogs x (.failure filter blockNumber) { x with
        logs := x.logs.fetchedLogsError filter blockNumber
        requests := x.requests.erase (filter, blockNumber) }

/-- The histories of steps that meet a condition. -/
abbrev Runs (getLogs : EventFilter → Nat → List Log) (P : Happens → Prop) :
    LogCache → LogCache → Prop :=
  Relation.ReflTransGen fun x y => ∃ h, P h ∧ Step getLogs x h y

end LogCache

end Nouns.Webapp
