import Nouns.Lib.JsText

/-!
# Filters of logs

`logParsing.ts` of the web app. `undefined` is `none`. Where the code throws, the result is
`none` as well, one `Option` further out.
-/

namespace Nouns.Webapp

open JsText

/-- An entry of `topics`: `null`, a topic, or alternatives. -/
inductive Topic where
  | any
  | one (topic : String)
  | oneOf (topics : List String)
deriving DecidableEq

/-- `EventFilter` -/
structure EventFilter where
  address : Option String
  topics : Option (List Topic)
deriving DecidableEq

/-- What `filterToKey` writes for a topic. An empty string is as good as `null`. -/
def Topic.toKey : Topic → String
  | .any => "\x00"
  | .one topic => if topic = "" then "\x00" else topic
  | .oneOf topics => join ';' topics

/-- `filterToKey` -/
def filterToKey (filter : EventFilter) : String :=
  filter.address.getD "" ++ ":"
    ++ (filter.topics.map fun topics => join '-' (topics.map Topic.toKey)).getD ""

/-- What `keyToFilter` reads for a topic. -/
def Topic.ofKey (topic : String) : Topic :=
  match split ';' topic with
  | [part] => .one part
  | parts => .oneOf parts

/-- `keyToFilter` -/
def keyToFilter (key : String) : Option EventFilter := do
  let pcs := split ':' key
  let address ← pcs[0]?
  let topics := (split '-' (← pcs[1]?)).map Topic.ofKey
  return { address := if address = "" then none else some address, topics := some topics }

end Nouns.Webapp
