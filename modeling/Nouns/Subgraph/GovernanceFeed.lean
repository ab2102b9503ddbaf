import Nouns.Governance.System
import Nouns.Subgraph.Handlers

/-!
# The events of token and DAO together

A history of the governance contracts with what the subgraph is given of it: the events of
token and DAO in the order they were logged. `past` is ghost state, the token as it was at
the end of every block that is over; neither a contract nor a handler reads it.
-/

namespace Nouns.Subgraph

open Evm CallMachine

/-- A point of a history, the events logged so far, and the token at the end of past blocks. -/
structure GovernanceFeed (H : Type) where
  config : Config (Nouns.Governance H) GovernanceFrame
  events : List (EthTransaction × SourceEvent)
  past : Nat → NounsToken

namespace GovernanceFeed

variable {H : Type}

/-- The events of `token` and then those of `dao`, all in one transaction. -/
def entries (tx : EthTransaction) (token : List TokenEvent) (dao : List DAOEvent) :
    List (EthTransaction × SourceEvent) :=
  token.map (fun e => (tx, .token e)) ++ dao.map (fun e => (tx, .dao e))

/-- Before the first step. The token may have a past, and the DAO has been deployed. -/
def start {env : Env H} (d : Deployment env) (tx : EthTransaction) : GovernanceFeed H :=
  ⟨⟨d.world, []⟩, entries tx d.token.logs d.dao.logs, fun _ => d.token⟩

/-- What is logged from one configuration to another; a step calls one contract only. -/
def logged (tx : EthTransaction) (x y : Config (Nouns.Governance H) GovernanceFrame) :
    List (EthTransaction × SourceEvent) :=
  entries tx (y.world.token.logs.drop x.world.token.logs.length)
    (y.world.dao.logs.drop x.world.dao.logs.length)

/-- After a step to `y`, made in `tx`. The blocks the clock ends with it end with this token. -/
def next (tx : EthTransaction) (y : Config (Nouns.Governance H) GovernanceFrame) (f : GovernanceFeed H) :
    GovernanceFeed H where
  config := y
  events := f.events ++ logged tx f.config y
  past c := if c < f.config.world.block.number then f.past c else f.config.world.token

/-- The entities after all events logged so far. -/
def store (f : GovernanceFeed H) : Store := (HouseStore.afterSources f.events).toStore

variable [DecidableEq H]

/-- A step of the contracts, in a transaction of the block it is made in. -/
inductive Next (env : Env H) (f : GovernanceFeed H) (l : Label GovernanceTx GovernanceFrame Block) :
    GovernanceFeed H → Prop where
  | step {tx : EthTransaction} {y : Config (Nouns.Governance H) GovernanceFrame} :
      tx.block = f.config.world.block → (governanceMachine env).Step f.config l y →
      Next env f l (f.next tx y)

/-- The histories in which every step meets the condition `P`. -/
abbrev Runs (env : Env H)
    (P : GovernanceFeed H → Label GovernanceTx GovernanceFrame Block → Prop) :
    GovernanceFeed H → GovernanceFeed H → Prop :=
  Relation.ReflTransGen fun f g => ∃ l, P f l ∧ Next env f l g

end GovernanceFeed

end Nouns.Subgraph
