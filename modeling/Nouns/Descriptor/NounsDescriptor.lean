import Nouns.Descriptor.MultiPartRLEToSVG
import Nouns.Token.NounsSeeder

/-!
# NounsDescriptor

`NounsDescriptor.sol` and `NFTDescriptor.sol`. The arrays of parts are lists, and so is a
palette. `Base64.encode` is a parameter, which stands for the library the contract imports.
-/

namespace Nouns

open Evm

/-- The events of `NounsDescriptor`. -/
inductive DescriptorEvent where
  | partsLocked
  | dataURIToggled (enabled : Bool)
  | baseURIUpdated (baseURI : String)
  | ownershipTransferred (previousOwner newOwner : Address)
deriving DecidableEq

/-- The storage of `NounsDescriptor.sol`. -/
structure NounsDescriptor where
  owner : Address
  arePartsLocked : Bool
  isDataURIEnabled : Bool
  baseURI : String
  palettes : UInt8 → List String
  backgrounds : List String
  bodies : List (List UInt8)
  accessories : List (List UInt8)
  heads : List (List UInt8)
  glasses : List (List UInt8)
  logs : List DescriptorEvent

/-! ## NFTDescriptor -/

namespace NFTDescriptor

structure TokenURIParams where
  name : String
  description : String
  parts : List (List UInt8)
  background : String

variable (base64 : String → String)

/-- `generateSVGImage` -/
def generateSVGImage (parts : List (List UInt8)) (background : String)
    (palettes : UInt8 → List String) : Result String := do
  return base64 (← MultiPartRLEToSVG.generateSVG parts background palettes)

/-- `constructTokenURI` -/
def constructTokenURI (params : TokenURIParams) (palettes : UInt8 → List String) :
    Result String := do
  let image ← generateSVGImage base64 params.parts params.background palettes
  return "data:application/json;base64,"
    ++ base64 ("\x7b\"name\":\"" ++ params.name ++ "\", \"description\":\"" ++ params.description
      ++ "\", \"image\": \"" ++ "data:image/svg+xml;base64," ++ image ++ "\"\x7d")

end NFTDescriptor

namespace NounsDescriptor

/-- `emit e` -/
def emit (e : DescriptorEvent) (s : NounsDescriptor) : NounsDescriptor :=
  { s with logs := s.logs ++ [e] }

/-- The storage after deployment by `owner`. -/
def deploy (owner : Address) : NounsDescriptor where
  owner := owner
  arePartsLocked := false
  isDataURIEnabled := true
  baseURI := ""
  palettes := fun _ => []
  backgrounds := []
  bodies := []
  accessories := []
  heads := []
  glasses := []
  logs := [.ownershipTransferred 0 owner]

/-- The five counts. -/
def counts (s : NounsDescriptor) : PartCounts where
  backgroundCount := s.backgrounds.length
  bodyCount := s.bodies.length
  accessoryCount := s.accessories.length
  headCount := s.heads.length
  glassesCount := s.glasses.length

/-- The `onlyOwner` modifier. -/
def onlyOwner (sender : Address) (s : NounsDescriptor) : Result Unit :=
  require (s.owner = sender) "Ownable: caller is not the owner"

/-- The `whenPartsNotLocked` modifier. -/
def whenPartsNotLocked (s : NounsDescriptor) : Result Unit :=
  require (s.arePartsLocked = false) "Parts are locked"

/-! ## Adding parts -/

/-- `_addColorToPalette` -/
def addColorToPalette_ (paletteIndex : UInt8) (color : String) (s : NounsDescriptor) :
    NounsDescriptor :=
  { s with palettes := Function.update s.palettes paletteIndex (s.palettes paletteIndex ++ [color]) }

/-- `_addBackground` -/
def addBackground_ (background : String) (s : NounsDescriptor) : NounsDescriptor :=
  { s with backgrounds := s.backgrounds ++ [background] }

/-- `_addBody` -/
def addBody_ (body : List UInt8) (s : NounsDescriptor) : NounsDescriptor :=
  { s with bodies := s.bodies ++ [body] }

/-- `_addAccessory` -/
def addAccessory_ (accessory : List UInt8) (s : NounsDescriptor) : NounsDescriptor :=
  { s with accessories := s.accessories ++ [accessory] }

/-- `_addHead` -/
def addHead_ (head : List UInt8) (s : NounsDescriptor) : NounsDescriptor :=
  { s with heads := s.heads ++ [head] }

/-- `_addGlasses` -/
def addGlasses_ (glasses : List UInt8) (s : NounsDescriptor) : NounsDescriptor :=
  { s with glasses := s.glasses ++ [glasses] }

/-- The loop of the batch functions. -/
def addAll {A : Type} (add_ : A → NounsDescriptor → NounsDescriptor) (parts : List A)
    (s : NounsDescriptor) : NounsDescriptor :=
  parts.foldl (fun s part => add_ part s) s

/-- `addManyColorsToPalette` -/
def addManyColorsToPalette (sender : Address) (paletteIndex : UInt8) (newColors : List String)
    (s : NounsDescriptor) : Result NounsDescriptor := do
  s.onlyOwner sender
  let length ← add 256 (s.palettes paletteIndex).length newColors.length
  require (length ≤ 256) "Palettes can only hold 256 colors"
  return s.addAll (addColorToPalette_ paletteIndex) newColors

/-- `addColorToPalette` -/
def addColorToPalette (sender : Address) (paletteIndex : UInt8) (color : String)
    (s : NounsDescriptor) : Result NounsDescriptor := do
  s.onlyOwner sender
  require ((s.palettes paletteIndex).length ≤ 255) "Palettes can only hold 256 colors"
  return s.addColorToPalette_ paletteIndex color

/-- What the functions that add parts have in common: `add` is the loop, or one turn of it. -/
def whenAllowed (sender : Address) (add : NounsDescriptor → NounsDescriptor) (s : NounsDescriptor) :
    Result NounsDescriptor := do
  s.onlyOwner sender
  s.whenPartsNotLocked
  return add s

/-- `addManyBackgrounds` -/
def addManyBackgrounds (sender : Address) (backgrounds : List String) :=
  whenAllowed sender (addAll addBackground_ backgrounds)

/-- `addManyBodies` -/
def addManyBodies (sender : Address) (bodies : List (List UInt8)) :=
  whenAllowed sender (addAll addBody_ bodies)

/-- `addManyAccessories` -/
def addManyAccessories (sender : Address) (accessories : List (List UInt8)) :=
  whenAllowed sender (addAll addAccessory_ accessories)

/-- `addManyHeads` -/
def addManyHeads (sender : Address) (heads : List (List UInt8)) :=
  whenAllowed sender (addAll addHead_ heads)

/-- `addManyGlasses` -/
def addManyGlasses (sender : Address) (glasses : List (List UInt8)) :=
  whenAllowed sender (addAll addGlasses_ glasses)

/-- `addBackground` -/
def addBackground (sender : Address) (background : String) :=
  whenAllowed sender (addBackground_ background)

/-- `addBody` -/
def addBody (sender : Address) (body : List UInt8) := whenAllowed sender (addBody_ body)

/-- `addAccessory` -/
def addAccessory (sender : Address) (accessory : List UInt8) :=
  whenAllowed sender (addAccessory_ accessory)

/-- `addHead` -/
def addHead (sender : Address) (head : List UInt8) := whenAllowed sender (addHead_ head)

/-- `addGlasses` -/
def addGlasses (sender : Address) (glasses : List UInt8) := whenAllowed sender (addGlasses_ glasses)

/-! ## Settings -/

/-- `lockParts` -/
def lockParts (sender : Address) (s : NounsDescriptor) : Result NounsDescriptor := do
  s.onlyOwner sender
  s.whenPartsNotLocked
  return { s with arePartsLocked := true }.emit .partsLocked

/-- `toggleDataURIEnabled` -/
def toggleDataURIEnabled (sender : Address) (s : NounsDescriptor) : Result NounsDescriptor := do
  s.onlyOwner sender
  let enabled := !s.isDataURIEnabled
  return { s with isDataURIEnabled := enabled }.emit (.dataURIToggled enabled)

/-- `setBaseURI` -/
def setBaseURI (sender : Address) (baseURI : String) (s : NounsDescriptor) :
    Result NounsDescriptor := do
  s.onlyOwner sender
  return { s with baseURI := baseURI }.emit (.baseURIUpdated baseURI)

/-- `Ownable._transferOwnership` -/
def transferOwnership_ (newOwner : Address) (s : NounsDescriptor) : NounsDescriptor :=
  { s with owner := newOwner }.emit (.ownershipTransferred s.owner newOwner)

/-- `Ownable.transferOwnership` -/
def transferOwnership (sender newOwner : Address) (s : NounsDescriptor) :
    Result NounsDescriptor := do
  s.onlyOwner sender
  require (newOwner ≠ 0) "Ownable: new owner is the zero address"
  return s.transferOwnership_ newOwner

/-- `Ownable.renounceOwnership` -/
def renounceOwnership (sender : Address) (s : NounsDescriptor) : Result NounsDescriptor := do
  s.onlyOwner sender
  return s.transferOwnership_ 0

/-! ## Looking parts up -/

/-- `_getPartsForSeed` -/
def getPartsForSeed_ (s : NounsDescriptor) (seed : Seed) : Result (List (List UInt8)) := do
  let body ← index s.bodies seed.body
  let accessory ← index s.accessories seed.accessory
  let head ← index s.heads seed.head
  let glasses ← index s.glasses seed.glasses
  return [body, accessory, head, glasses]

variable (base64 : String → String)

/-- `genericDataURI` -/
def genericDataURI (name description : String) (seed : Seed) (s : NounsDescriptor) :
    Result String := do
  let parts ← s.getPartsForSeed_ seed
  let background ← index s.backgrounds seed.background
  NFTDescriptor.constructTokenURI base64 ⟨name, description, parts, background⟩ s.palettes

/-- `dataURI` -/
def dataURI (tokenId : Nat) (seed : Seed) (s : NounsDescriptor) : Result String :=
  let nounId := toString tokenId
  s.genericDataURI base64 ("Noun " ++ nounId) ("Noun " ++ nounId ++ " is a member of the Nouns DAO")
    seed

/-- `tokenURI` -/
def tokenURI (tokenId : Nat) (seed : Seed) (s : NounsDescriptor) : Result String :=
  if s.isDataURIEnabled then s.dataURI base64 tokenId seed
  else .ok (s.baseURI ++ toString tokenId)

/-- `generateSVGImage` -/
def generateSVGImage (seed : Seed) (s : NounsDescriptor) : Result String := do
  let parts ← s.getPartsForSeed_ seed
  let background ← index s.backgrounds seed.background
  NFTDescriptor.generateSVGImage base64 parts background s.palettes

end NounsDescriptor

/-- The state-changing entry points of the descriptor, with their arguments. -/
inductive DescriptorCall where
  | addManyColorsToPalette (paletteIndex : UInt8) (newColors : List String)
  | addManyBackgrounds (backgrounds : List String)
  | addManyBodies (bodies : List (List UInt8))
  | addManyAccessories (accessories : List (List UInt8))
  | addManyHeads (heads : List (List UInt8))
  | addManyGlasses (glasses : List (List UInt8))
  | addColorToPalette (paletteIndex : UInt8) (color : String)
  | addBackground (background : String)
  | addBody (body : List UInt8)
  | addAccessory (accessory : List UInt8)
  | addHead (head : List UInt8)
  | addGlasses (glasses : List UInt8)
  | lockParts
  | toggleDataURIEnabled
  | setBaseURI (baseURI : String)
  | transferOwnership (newOwner : Address)
  | renounceOwnership

/-- What a call does to the descriptor's storage. -/
def NounsDescriptor.call (sender : Address) (s : NounsDescriptor) :
    DescriptorCall → Result NounsDescriptor
  | .addManyColorsToPalette paletteIndex newColors =>
      s.addManyColorsToPalette sender paletteIndex newColors
  | .addManyBackgrounds backgrounds => s.addManyBackgrounds sender backgrounds
  | .addManyBodies bodies => s.addManyBodies sender bodies
  | .addManyAccessories accessories => s.addManyAccessories sender accessories
  | .addManyHeads heads => s.addManyHeads sender heads
  | .addManyGlasses glasses => s.addManyGlasses sender glasses
  | .addColorToPalette paletteIndex color => s.addColorToPalette sender paletteIndex color
  | .addBackground background => s.addBackground sender background
  | .addBody body => s.addBody sender body
  | .addAccessory accessory => s.addAccessory sender accessory
  | .addHead head => s.addHead sender head
  | .addGlasses glasses => s.addGlasses sender glasses
  | .lockParts => s.lockParts sender
  | .toggleDataURIEnabled => s.toggleDataURIEnabled sender
  | .setBaseURI baseURI => s.setBaseURI sender baseURI
  | .transferOwnership newOwner => s.transferOwnership sender newOwner
  | .renounceOwnership => s.renounceOwnership sender

end Nouns
