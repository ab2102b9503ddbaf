import Nouns.Evm.Basic

/-!
# MultiPartRLEToSVG

The renderer on chain. The mapping of palettes is a function, a string in memory a string,
and the array of rects that `_decodeRLEImage` makes room for is the list it fills.
-/

namespace Nouns.MultiPartRLEToSVG

open Evm

structure ContentBounds where
  top : UInt8
  right : UInt8
  bottom : UInt8
  left : UInt8

structure Rect where
  length : UInt8
  colorIndex : UInt8

structure DecodedImage where
  paletteIndex : UInt8
  bounds : ContentBounds
  rects : List Rect

/-- `xs[i] = x`, for an array -/
def store {α : Type} (xs : List α) (i : Nat) (x : α) : Result (List α) :=
  if i < xs.length then .ok (xs.set i x) else .error (.panic 0x32)

/--
The loop of `_decodeRLEImage`. There is room for every pair of bytes; an odd one at the end
is read without its other half.
-/
def decodeRects : List UInt8 → Result (List Rect)
  | [] => .ok []
  | [_] => .error (.panic 0x32)
  | length :: colorIndex :: image => return ⟨length, colorIndex⟩ :: (← decodeRects image)

/-- `_decodeRLEImage` -/
def decodeRLEImage_ (image : List UInt8) : Result DecodedImage := do
  let paletteIndex ← index image 0
  let top ← index image 1
  let right ← index image 2
  let bottom ← index image 3
  let left ← index image 4
  return ⟨paletteIndex, ⟨top, right, bottom, left⟩, ← decodeRects (image.drop 5)⟩

/-- The coordinates that are looked up, tenfold. -/
def lookup : List String :=
  ["0", "10", "20", "30", "40", "50", "60", "70",
   "80", "90", "100", "110", "120", "130", "140", "150",
   "160", "170", "180", "190", "200", "210", "220", "230",
   "240", "250", "260", "270", "280", "290", "300", "310",
   "320"]

/-- `_getChunk` -/
def getChunk_ (cursor : Nat) (buffer : List String) : Result String :=
  (List.range ((cursor + 3) / 4)).foldlM (fun chunk j => do
    let i := 4 * j
    return chunk ++ ("<rect width=\"" ++ (← index buffer i) ++ "\" height=\"10\" x=\""
      ++ (← index buffer (i + 1)) ++ "\" y=\"" ++ (← index buffer (i + 2)) ++ "\" fill=\"#"
      ++ (← index buffer (i + 3)) ++ "\" />")) ""

/-- The variables of the loop over the rects of a part. -/
structure Drawing where
  currentX : Nat
  currentY : Nat
  cursor : Nat
  buffer : List String
  part : String

/-- A rect that is not transparent is put into the buffer, and a full buffer into the part. -/
def Drawing.put (palette : List String) (rect : Rect) (d : Drawing) : Result Drawing :=
  if rect.colorIndex ≠ 0 then do
    let buffer ← store d.buffer d.cursor (← index lookup rect.length.toNat)
    let buffer ← store buffer (d.cursor + 1) (← index lookup d.currentX)
    let buffer ← store buffer (d.cursor + 2) (← index lookup d.currentY)
    let buffer ← store buffer (d.cursor + 3) (← index palette rect.colorIndex.toNat)
    let cursor ← add 256 d.cursor 4
    if 16 ≤ cursor then
      return { d with buffer := buffer, part := d.part ++ (← getChunk_ cursor buffer), cursor := 0 }
    else return { d with buffer := buffer, cursor := cursor }
  else .ok d

/-- The body of the loop over the rects of a part. -/
def Drawing.draw (palette : List String) (bounds : ContentBounds) (d : Drawing) (rect : Rect) :
    Result Drawing := do
  let d ← d.put palette rect
  let currentX ← add 256 d.currentX rect.length.toNat
  if currentX = bounds.right.toNat then
    return { d with currentX := bounds.left.toNat, currentY := ← add 256 d.currentY 1 }
  else return { d with currentX := currentX }

/-- A part. -/
def drawPart (palettes : UInt8 → List String) (image : DecodedImage) : Result String := do
  let start : Drawing :=
    { currentX := image.bounds.left.toNat
      currentY := image.bounds.top.toNat
      cursor := 0
      buffer := List.replicate 16 ""
      part := "" }
  let d ← image.rects.foldlM (Drawing.draw (palettes image.paletteIndex) image.bounds) start
  if d.cursor ≠ 0 then return d.part ++ (← getChunk_ d.cursor d.buffer) else return d.part

/-- `_generateSVGRects`, from part `p` on; its counter is a `uint8` -/
def generateSVGRects_ (palettes : UInt8 → List String) :
    Nat → List (List UInt8) → String → Result String
  | _, [], rects => .ok rects
  | p, part :: parts, rects => do
      let image ← decodeRLEImage_ part
      let part ← drawPart palettes image
      let p ← add 8 p 1
      generateSVGRects_ palettes p parts (rects ++ part)

/-- `generateSVG` -/
def generateSVG (parts : List (List UInt8)) (background : String) (palettes : UInt8 → List String) :
    Result String := do
  return "<svg width=\"320\" height=\"320\" viewBox=\"0 0 320 320\" xmlns=\"http://www.w3.org/2000/svg\" shape-rendering=\"crispEdges\">"
    ++ "<rect width=\"100%\" height=\"100%\" fill=\"#" ++ background ++ "\" />"
    ++ (← generateSVGRects_ palettes 0 parts "") ++ "</svg>"

end Nouns.MultiPartRLEToSVG
