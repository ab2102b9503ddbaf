import Nouns.Descriptor.System
import Nouns.Lib.Base64
import Nouns.Lib.Json

/-!
# The metadata server

`getTokenMetadata` of the API package and the route in front of it. The server keeps the metadata
it has once made, and any number of requests are under way at a time: whatever one of them waits
for may throw, and the chain and the other requests go on meanwhile. At the end, how the web app
and the bots read the same data URIs.
-/

namespace Nouns.Api

open Evm CallMachine JsText

/-- `TokenMetadata` -/
structure TokenMetadata where
  name : String
  description : String
  image : String
deriving DecidableEq

/-- `JSON.parse`, of the text of some `TokenMetadata` -/
def TokenMetadata.parse (text : List Char) : Option TokenMetadata := do
  let members ← Json.parse text
  return ⟨← Json.get members "name", ← Json.get members "description", ← Json.get members "image"⟩

/-- `JSON.stringify(metadata)` -/
def TokenMetadata.stringify (metadata : TokenMetadata) : String :=
  String.ofList (Json.stringify [("name", metadata.name), ("description", metadata.description),
    ("image", metadata.image)])

/-- `getMetadataKey` -/
def getMetadataKey (tokenId : String) : String := "metadata_" ++ tokenId

/-- The metadata in a data URI. -/
def parseDataURI (dataURI : String) : Option TokenMetadata :=
  TokenMetadata.parse (Base64.ascii (Base64.bufferFrom (substringFrom dataURI.toList 29)))

/-- The image in the metadata of a data URI. -/
def TokenMetadata.svg (data : TokenMetadata) : List UInt8 :=
  Base64.bufferFrom (substringFrom data.image.toList 26)

/-- The packages the server uses. -/
structure Packages where
  /-- `param('tokenId').isInt({ min: 0, max: 1000 })` of the validator -/
  isInt : String → Bool
  /-- the number ethers makes of an argument -/
  bigNumber : String → Option Nat
  /-- `sharp(svg).png().toBuffer()` -/
  png : List UInt8 → List UInt8
  /-- the content identifier that `storage.storeBlob` returns -/
  cid : List UInt8 → String

/-- What a request waits for. -/
inductive Stage where
  | get
  | dataURI
  | storeBlob (data : TokenMetadata)
  | set (metadata : TokenMetadata)
deriving DecidableEq

structure Request where
  tokenId : String
  stage : Stage
deriving DecidableEq

/-- What is sent back. -/
inductive Response where
  | invalid
  | failed
  | metadata (metadata : TokenMetadata)
deriving DecidableEq

/-- The cache, the requests under way, and what has been sent so far. -/
structure Server where
  redis : String → Option String
  requests : List Request
  sent : List (String × Response)

/-- The server before its first request. -/
def Server.start : Server := ⟨fun _ => none, [], []⟩

namespace Server

/-- The request waits for something else. -/
def wait (tokenId : String) (stage : Stage) (s : Server) : Server :=
  { s with requests := s.requests ++ [⟨tokenId, stage⟩] }

/-- `res.send`, or `res.status(..).send` -/
def send (tokenId : String) (response : Response) (s : Server) : Server :=
  { s with sent := s.sent ++ [(tokenId, response)] }

variable (packages : Packages) (base64 : String → String)

/-- The route `/metadata/:tokenId` up to the call of `getTokenMetadata`. -/
def receive (tokenId : String) (s : Server) : Server :=
  if packages.isInt tokenId then s.wait tokenId .get else s.send tokenId .invalid

/-- `nounsTokenContract.dataURI(tokenId)`, of the contract as it is in `w` -/
def callDataURI (w : ArtWorld) (tokenId : String) : Option String := do
  let tokenId ← packages.bigNumber tokenId
  (w.dataURI base64 tokenId).toOption

/--
What a request does, from what it waited for to the next. If that threw, or what comes after it
throws, the request ends without an answer; an error of the contract is caught.
-/
def proceed (w : ArtWorld) (ok : Bool) (tokenId : String) (s : Server) : Stage → Server
  | .get =>
      if ok then
        match s.redis (getMetadataKey tokenId) with
        | none | some "" => s.wait tokenId .dataURI
        | some cachedMetadata =>
            match TokenMetadata.parse cachedMetadata.toList with
            | some metadata => s.send tokenId (.metadata metadata)
            | none => s
      else s
  | .dataURI =>
      match if ok then callDataURI packages base64 w tokenId else none with
      | none => s.send tokenId .failed
      | some dataURI =>
          match parseDataURI dataURI with
          | some data => s.wait tokenId (.storeBlob data)
          | none => s
  | .storeBlob data =>
      if ok then
        let png := packages.png data.svg
        let imageCID := packages.cid png
        s.wait tokenId (.set ⟨data.name, data.description, "ipfs://" ++ imageCID⟩)
      else s
  | .set metadata =>
      if ok then
        let redis := Function.update s.redis (getMetadataKey tokenId) (some metadata.stringify)
        { s with redis := redis }.send tokenId (.metadata metadata)
      else s

/-- Request number `i` proceeds. -/
def resume (w : ArtWorld) (ok : Bool) (i : Nat) (s : Server) : Server :=
  match s.requests[i]? with
  | none => s
  | some request =>
      { s with requests := s.requests.eraseIdx i }.proceed packages base64 w ok
        request.tokenId request.stage

end Server

/-- The chain and the server. -/
structure World where
  chain : Config ArtWorld TokenFrame
  server : Server

/-- What happens next. A server that is started again knows nothing of its requests. -/
inductive Next (env : ArtEnv) (packages : Packages) (base64 : String → String)
    (P : Config ArtWorld TokenFrame → Label ArtTx TokenFrame Block → Prop) :
    World → World → Prop where
  | chain {x y : Config ArtWorld TokenFrame} {l : Label ArtTx TokenFrame Block} {s : Server} :
      P x l → (artMachine env).Step x l y → Next env packages base64 P ⟨x, s⟩ ⟨y, s⟩
  | receive {x : Config ArtWorld TokenFrame} {s : Server} (tokenId : String) :
      Next env packages base64 P ⟨x, s⟩ ⟨x, s.receive packages tokenId⟩
  | resume {x : Config ArtWorld TokenFrame} {s : Server} (ok : Bool) (i : Nat) :
      Next env packages base64 P ⟨x, s⟩ ⟨x, s.resume packages base64 x.world ok i⟩
  | restart {x : Config ArtWorld TokenFrame} {s : Server} :
      Next env packages base64 P ⟨x, s⟩ ⟨x, { s with requests := [] }⟩

/-- The histories in which every step of the chain meets the condition `P`. -/
abbrev Runs (env : ArtEnv) (packages : Packages) (base64 : String → String)
    (P : Config ArtWorld TokenFrame → Label ArtTx TokenFrame Block → Prop) :
    World → World → Prop := Relation.ReflTransGen (Next env packages base64 P)

/-! ## The other readers -/

/-- `useNounToken`, of the data URI that the contract answers -/
def useNounToken (noun : String) : Option TokenMetadata := do
  let nounImgData ← (splitText ";base64,".toList 0 [] noun.toList).getLast?
  let json ← Base64.atob nounImgData
  TokenMetadata.parse (Base64.binary json)

/-- `getNounPngBuffer`. What throws after the contract has answered is `none` as well. -/
def getNounPngBuffer (packages : Packages) (base64 : String → String) (w : ArtWorld)
    (tokenId : String) : Option (List UInt8) := do
  let dataURI ← Server.callDataURI packages base64 w tokenId
  let data ← parseDataURI dataURI
  return packages.png data.svg

end Nouns.Api
