import Nouns.Subgraph.AuctionHandlers
import Nouns.Subgraph.DAOHandlers

/-!
# All handlers

The three data sources of `subgraph.yaml.mustache` and what handles their events. The
subgraph is given the events of all of them in the order they were logged, each with its
transaction.
-/

namespace Nouns.Subgraph

/-- An event of a data source. -/
inductive SourceEvent where
  | token (e : TokenEvent)
  | house (e : AuctionEvent)
  | dao (e : DAOEvent)

/-- The token's, if it is one of those. -/
def SourceEvent.token? : SourceEvent → Option TokenEvent
  | .token e => some e
  | _ => none

/-- The token's events among events of all sources. -/
def tokenEvents (logs : List (EthTransaction × SourceEvent)) : List TokenEvent :=
  logs.filterMap fun e => e.2.token?

namespace HouseStore

/-- The handler of an event of a data source, if it has one. -/
def handle (st : HouseStore) (e : EthTransaction × SourceEvent) : HouseStore :=
  match e.2 with
  | .token event => { st with toStore := st.handleTokenEvent event }
  | .house event => st.handleHouseEvent e.1 event
  | .dao event => { st with toStore := st.handleDAOEvent e.1.block event }

/-- The store after the events of all data sources. -/
def afterSources (logs : List (EthTransaction × SourceEvent)) : HouseStore :=
  logs.foldl handle Store.empty.withHouse

end HouseStore

end Nouns.Subgraph
