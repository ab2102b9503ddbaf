import Nouns.Sdk.PngCollectionEncoder
import Nouns.Token.NounsSeeder

/-!
# The image data

`scripts/encode.ts` of the assets package, which writes `image-data.json`, and `getNounData` of
`utils.ts`, which reads it. A folder is the list of its files, in the order in which they are read.
Where the script throws, nothing is written.
-/

namespace Nouns.Assets

open Sdk

/-- What `PNG.sync.read` returns: four bytes a pixel. -/
structure PNG where
  width : Nat
  height : Nat
  data : List UInt8
  length_eq : data.length = 4 * (width * height)

/-- `readPngImage`, of a file that is read -/
def readPngImage (png : PNG) : PngImage where
  width := png.width
  height := png.height
  rgbaAt x y :=
    let idx := (png.width * y + x) <<< 2
    let byte i := (png.data[idx + i]?.getD 0).toNat
    ⟨byte 0, byte 1, byte 2, byte 3⟩

/-- What `image-data.json` holds. -/
structure AssetData extends ImageData where
  bgcolors : List String

/-- `partfolders` -/
def partfolders : List String := ["1-bodies", "2-accessories", "3-heads", "4-glasses"]

/-- The `replace` of a folder's name: a digit and a hyphen in front are left out. -/
def dropNumber (folder : String) : String :=
  match folder.toList with
  | d :: '-' :: name => if d.isDigit then String.ofList name else folder
  | _ => folder

/-- The `replace` of a file's name: a `.png` at the end is left out. -/
def dropPng (file : String) : String :=
  if ".png".toList.isSuffixOf file.toList then String.ofList (file.toList.take (file.length - 4))
  else file

/-- Encode one file. -/
def encodeFile (folder : String) (encoder : PNGCollectionEncoder) (file : String × PNG) :
    Option PNGCollectionEncoder := do
  let (encoder, rle) :=
    encoder.encodeImage (dropPng file.1) (readPngImage file.2) (some (dropNumber folder))
  let _ ← rle
  return encoder

/-- `encode` -/
def encode (readdir : String → List (String × PNG)) : Option AssetData := do
  let encoder ← partfolders.foldlM (fun encoder folder =>
    (readdir folder).foldlM (encodeFile folder) encoder) (PNGCollectionEncoder.new none)
  return { encoder.data with bgcolors := ["d5d7e1", "e1d7d5"] }

/-- `NounData` -/
structure NounData where
  parts : List (Option EncodedImage)
  background : Option String

/-- `images[folder][index]` -/
def AssetData.part (data : AssetData) (folder : String) (index : Nat) : Option EncodedImage := do
  (← data.images.get? folder)[index]?

/-- `getNounData` -/
def getNounData (data : AssetData) (seed : Seed) : NounData where
  parts := [data.part "bodies" seed.body, data.part "accessories" seed.accessory,
    data.part "heads" seed.head, data.part "glasses" seed.glasses]
  background := data.bgcolors[seed.background]?

end Nouns.Assets
