import Mathlib.Data.List.MinMax
import Mathlib.Logic.Function.Basic
import Nouns.Lib.JsMap
import Nouns.Lib.JsText

/-!
# The SDK's encoder of images

`image.ts` and the two functions of `utils.ts`. The rows are an object whose keys are
numbers below the height; its values come in the order of the keys. Lengths, coordinates
and colour indices are natural numbers, what goes into a buffer is not: a byte is what is
left of an integer. Where the code throws, the result is `none`.
-/

namespace Nouns.Sdk

open JsText

/-- `toPaddedHex` -/
def toPaddedHex (c pad : Nat) : String := String.ofList (padStart (toHex c) pad)

/-- `rgbToHex` -/
def rgbToHex (r g b : Nat) : String := toPaddedHex r 2 ++ toPaddedHex g 2 ++ toPaddedHex b 2

structure Rect where
  length : Nat
  colorIndex : Nat
deriving DecidableEq

structure LineBounds where
  left : Nat
  right : Nat

structure ImageRow where
  rects : List Rect
  bounds : LineBounds

structure ImageBounds where
  top : Nat
  right : Nat
  bottom : Nat
  left : Nat

structure RGBAColor where
  r : Nat
  g : Nat
  b : Nat
  a : Nat

/-- `rgbToHex` of a pixel -/
def RGBAColor.hex (c : RGBAColor) : String := rgbToHex c.r c.g c.b

/-- The palette: colours and their indices. -/
abbrev Colors := JsMap String Nat

structure Image where
  width : Nat
  height : Nat
  rows : Nat → Option ImageRow
  bounds : ImageBounds
  rle : Option String

namespace Image

/-- `new Image(width, height)` -/
def new (width height : Nat) : Image where
  width := width
  height := height
  rows _ := none
  bounds := ⟨0, 0, 0, 0⟩
  rle := none

/-- `isEmptyRow` -/
def isEmptyRow (image : Image) (rect : Option Rect) : Bool :=
  match rect with
  | some rect => rect.length = image.width && rect.colorIndex = 0
  | none => false

/-- A pixel behind a row's rects: the last rect grows, or a new one begins. -/
def appendPixel (rects : List Rect) (colorIndex : Nat) : List Rect :=
  match rects.getLast? with
  | none => [⟨1, colorIndex⟩]
  | some last =>
      if last.colorIndex ≠ colorIndex then rects ++ [⟨1, colorIndex⟩]
      else rects.dropLast ++ [⟨last.length + 1, colorIndex⟩]

/-- `appendPixelToRect` -/
def appendPixelToRect (colorIndex y : Nat) (image : Image) : Image :=
  let row := (image.rows y).getD ⟨[], ⟨0, 0⟩⟩
  { image with
    rows := Function.update image.rows y
      (some { row with rects := appendPixel row.rects colorIndex }) }

/-- The top and bottom bounds after row `y`, which is empty or is not. -/
def trackBounds (y : Nat) (empty : Bool) (bounds : ImageBounds) : ImageBounds :=
  let bounds := if !empty && bounds.top = 0 then { bounds with top := y } else bounds
  if bounds.top ≠ 0 then
    if empty then if bounds.bottom = 0 then { bounds with bottom := y - 1 } else bounds
    else if y = 31 then { bounds with bottom := y }
    else { bounds with bottom := 0 }
  else bounds

/-- `updateImageBounds` -/
def updateImageBounds (y : Nat) (image : Image) : Option Image := do
  let row ← image.rows y
  let first ← row.rects.head?
  let last ← row.rects.getLast?
  return { image with
    bounds := trackBounds y (image.isEmptyRow (some first)) image.bounds
    rows := Function.update image.rows y
      (some { row with bounds := ⟨first.length, image.width - last.length⟩ }) }

/-- `deleteEmptyRows` -/
def deleteEmptyRows (image : Image) : Image :=
  { image with
    rows := fun i =>
      if i < image.bounds.top ∨ (image.bounds.bottom < i ∧ i < image.height) then none
      else image.rows i }

/-- `Object.values(this._rows)` -/
def rowList (image : Image) : List ImageRow := (List.range image.height).filterMap image.rows

/-- `getEncodedBounds` -/
def getEncodedBounds (bounds : ImageBounds) : String :=
  "0x00" ++ toPaddedHex bounds.top 2 ++ toPaddedHex bounds.right 2 ++ toPaddedHex bounds.bottom 2
    ++ toPaddedHex bounds.left 2

/-- What `getEncodedRow` makes of rect `i` of `n`. -/
def encodeRect (width : Nat) (bounds : ImageBounds) (n i : Nat) (rect : Rect) : List Int :=
  let color : Int := rect.colorIndex
  -- the only rect of the row
  if i = 0 ∧ i + 1 = n then [bounds.right - bounds.left, color]
  else if i = 0 ∧ bounds.left < rect.length then [rect.length - bounds.left, color]
  else if i = 0 ∧ rect.length = bounds.left then []
  else if i + 1 = n ∧ (width - bounds.right : Int) < rect.length then
    [rect.length - (width - bounds.right), color]
  else if i + 1 = n ∧ (rect.length : Int) = width - bounds.right then []
  else [rect.length, color]

/-- `Buffer.from(numbers).toString('hex')` -/
def bufferHex (numbers : List Int) : String :=
  String.ofList (numbers.flatMap fun n => hexByte (n % 256).toNat)

/-- `getEncodedRow` -/
def getEncodedRow (width : Nat) (row : ImageRow) (bounds : ImageBounds) : String :=
  bufferHex (row.rects.zipIdx.flatMap fun (rect, i) =>
    encodeRect width bounds row.rects.length i rect)

/-- A pixel: its colour is put into the palette, its index behind its row. -/
def encodePixel (getRgbaAt : Nat → Nat → RGBAColor) (y : Nat) (st : Image × Colors) (x : Nat) :
    Image × Colors :=
  let hexColor := (getRgbaAt x y).hex
  let colors := if st.2.has hexColor then st.2 else st.2.set hexColor st.2.size
  let colorIndex := if (getRgbaAt x y).a = 0 then 0 else (colors.get? hexColor).getD 0
  (st.1.appendPixelToRect colorIndex y, colors)

/-- The pixels of a row, and its bounds. -/
def encodeRow (getRgbaAt : Nat → Nat → RGBAColor) (st : Image × Colors) (y : Nat) :
    Option (Image × Colors) := do
  let (image, colors) := (List.range st.1.width).foldl (encodePixel getRgbaAt y) st
  return (← image.updateImageBounds y, colors)

/-- The end of `encode`, once the rows are cut. -/
def encodeRows (image : Image) : String × Image :=
  if image.rowList ≠ [] then
    let image := { image with
      bounds := { image.bounds with
        left := (image.rowList.map fun r => r.bounds.left).min?.getD 0
        right := (image.rowList.map fun r => r.bounds.right).max?.getD 0 } }
    if image.rowList.length = 1 ∧ image.isEmptyRow ((image.rows 0).bind fun r => r.rects.head?) then
      ("0x0000000000", image)
    else (image.rowList.foldl (fun result row =>
      result ++ getEncodedRow image.width row image.bounds) (getEncodedBounds image.bounds), image)
  else (getEncodedBounds image.bounds, image)

/-- `encode` -/
def encode (getRgbaAt : Nat → Nat → RGBAColor) (colors : Colors) (image : Image) :
    Option (String × Image × Colors) := do
  let (image, colors) ← (List.range image.height).foldlM (encodeRow getRgbaAt) (image, colors)
  let (rle, image) := image.deleteEmptyRows.encodeRows
  return (rle, image, colors)

/-- `toRLE`. No encoding is the empty string, so one that is there is kept. -/
def toRLE (getRgbaAt : Nat → Nat → RGBAColor) (colors : Colors) (image : Image) :
    Option (String × Image × Colors) :=
  match image.rle with
  | some rle => some (rle, image, colors)
  | none => do
      let (rle, image, colors) ← image.encode getRgbaAt colors
      return (rle, { image with rle := some rle }, colors)

end Image

end Nouns.Sdk
