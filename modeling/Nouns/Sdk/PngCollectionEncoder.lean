import Nouns.Sdk.Image

/-!
# The SDK's encoder of collections

`png-collection-encoder.ts`: one palette for many images. Where the code throws, no string
is returned, and what it has changed until then stays changed. On the way out the images
are sorted into their folders; what is read under a name that is gone is `undefined`.
-/

namespace Nouns.Sdk

structure PngImage where
  width : Nat
  height : Nat
  rgbaAt : Nat → Nat → RGBAColor

/-- `EncodedImage` -/
structure EncodedImage where
  filename : String
  data : Option String
deriving DecidableEq

/-- `ImageData` -/
structure ImageData where
  palette : List String
  images : JsMap String (List EncodedImage)

structure PNGCollectionEncoder where
  colors : Colors
  images : JsMap String String
  folders : JsMap String (List String)

namespace PNGCollectionEncoder

/-- `_colors` before the constructor: the transparent entry. -/
def transparent : Colors := ⟨[("", 0)], by decide⟩

/-- `new PNGCollectionEncoder(colors)` -/
def new (colors : Option (List String)) : PNGCollectionEncoder where
  colors := (colors.getD []).zipIdx.foldl (fun map (color, index) => map.set color index) transparent
  images := ⟨[], List.nodup_nil⟩
  folders := ⟨[], List.nodup_nil⟩

/-- `data.palette` -/
def palette (encoder : PNGCollectionEncoder) : List String := encoder.colors.keys

/-- What every object has. A folder of such a name is there and is no list. -/
def inherited : List String :=
  ["constructor", "__defineGetter__", "__defineSetter__", "hasOwnProperty", "__lookupGetter__",
    "__lookupSetter__", "isPrototypeOf", "propertyIsEnumerable", "toString", "valueOf", "__proto__",
    "toLocaleString"]

/-- `encodeImage` -/
def encodeImage (name : String) (png : PngImage) (folder : Option String)
    (encoder : PNGCollectionEncoder) : PNGCollectionEncoder × Option String :=
  match (Image.new png.width png.height).toRLE png.rgbaAt encoder.colors with
  -- an image without columns, of which no pixel is read
  | none => (encoder, none)
  | some (rle, _, colors) =>
      let encoder := { encoder with colors := colors, images := encoder.images.set name rle }
      match folder with
      | none => (encoder, some rle)
      | some folder =>
          if folder = "" then (encoder, some rle)
          else if folder ∈ inherited then (encoder, none)
          else
            let names := (encoder.folders.get? folder).getD []
            ({ encoder with folders := encoder.folders.set folder (names ++ [name]) }, some rle)

/-- Write a file to its folder, and delete it from the images. -/
def writeFile (folder : String) (st : JsMap String (List EncodedImage) × JsMap String String)
    (filename : String) : JsMap String (List EncodedImage) × JsMap String String :=
  (st.1.set folder ((st.1.get? folder).getD [] ++ [⟨filename, st.2.get? filename⟩]),
    st.2.delete filename)

/-- Write all files of a folder. -/
def writeFolder (st : JsMap String (List EncodedImage) × JsMap String String)
    (entry : String × List String) : JsMap String (List EncodedImage) × JsMap String String :=
  entry.2.foldl (writeFile entry.1) (st.1.set entry.1 [], st.2)

/-- `format` -/
def format (flatten : Bool) (encoder : PNGCollectionEncoder) : JsMap String (List EncodedImage) :=
  let folders := JsMap.objectEntries encoder.folders
  let (data, images) :=
    if flatten = false ∧ folders.length ≠ 0 then folders.foldl writeFolder (.empty, encoder.images)
    else (.empty, encoder.images)
  -- what is left goes to the root
  if images.size ≠ 0 then data.set "root" (images.entries.map fun e => ⟨e.1, some e.2⟩) else data

/-- `data` -/
def data (encoder : PNGCollectionEncoder) : ImageData where
  palette := encoder.palette
  images := encoder.format false

end PNGCollectionEncoder

end Nouns.Sdk
