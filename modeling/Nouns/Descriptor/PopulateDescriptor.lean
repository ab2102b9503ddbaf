import Nouns.Assets.Encode
import Nouns.Descriptor.NounsDescriptor

/-!
# Populating the descriptor

The task `populate-descriptor` of the contracts package and `chunkArray` of its `utils.ts`. How a
hexadecimal string is put into call data is left to ethers: `arrayify` is none where it throws.
-/

namespace Nouns

open Evm Sdk Assets

/-- `chunkArray` -/
def chunkArray {T : Type} (array : List T) (size : Nat) : List (List T) :=
  (List.range ((array.length + size - 1) / size)).map fun i => (array.drop (i * size)).take size

section
variable (arrayify : String → Option (List UInt8))

/-- `map(({ data }) => data)`, as it goes into call data -/
def partsOf (images : List EncodedImage) : Option (List (List UInt8)) :=
  images.mapM fun image => do arrayify (← image.data)

/-- The calls that the task makes, one after the other. -/
def populateCalls (data : AssetData) : Option (List DescriptorCall) := do
  let bodies ← data.images.get? "bodies"
  let accessories ← data.images.get? "accessories"
  let heads ← data.images.get? "heads"
  let glasses ← data.images.get? "glasses"
  let addBodies := .addManyBodies (← partsOf arrayify bodies)
  let addAccessories ← (chunkArray accessories 10).mapM fun chunk =>
    (partsOf arrayify chunk).map .addManyAccessories
  let addHeads ← (chunkArray heads 10).mapM fun chunk =>
    (partsOf arrayify chunk).map .addManyHeads
  let addGlasses := .addManyGlasses (← partsOf arrayify glasses)
  return [.addManyBackgrounds data.bgcolors, .addManyColorsToPalette 0 data.palette, addBodies]
    ++ addAccessories ++ addHeads ++ [addGlasses]

/-- `populate-descriptor`, run by `sender` -/
def populateDescriptor (sender : Address) (data : AssetData) (s : NounsDescriptor) :
    Option (Result NounsDescriptor) := do
  return (← populateCalls arrayify data).foldlM (fun s call => s.call sender call) s

end

end Nouns
