import Nouns.Lib.JsText

/-!
# The SDK's renderer

`svg-builder.ts`. Numbers come from `parseInt` and may be `NaN`, which no comparison finds
equal to anything. What the loop pushes is kept apart from how it is written out.
-/

namespace Nouns.Sdk

open JsText

/-- A number, `NaN` being `none`. -/
abbrev JsNum := Option Int

def JsNum.add (a b : JsNum) : JsNum := do return (← a) + (← b)

/-- `n * 10` as a template writes it. -/
def JsNum.tenfold : JsNum → String
  | some n => toString (n * 10)
  | none => "NaN"

/-- `a === b` -/
def JsNum.same : JsNum → JsNum → Bool
  | some a, some b => a = b
  | _, _ => false

/-- `ImageBounds` -/
structure Bounds where
  top : JsNum
  right : JsNum
  bottom : JsNum
  left : JsNum

/-- `DecodedImage` -/
structure DecodedImage where
  paletteIndex : JsNum
  bounds : Bounds
  rects : List (JsNum × JsNum)

/-- `decodeImage` -/
def decodeImage (image : String) : DecodedImage :=
  let data := without0x image.toList
  { paletteIndex := parseInt (substring data 0 2)
    bounds :=
      { top := parseInt (substring data 2 4)
        right := parseInt (substring data 4 6)
        bottom := parseInt (substring data 6 8)
        left := parseInt (substring data 8 10) }
    rects := (matchFour [] (substringFrom data 10)).map fun rect =>
      (parseInt (substring rect 0 2), parseInt (substring rect 2 4)) }

/-- A rect that is pushed. -/
structure Placed where
  length : JsNum
  colorIndex : JsNum
  x : JsNum
  y : JsNum
deriving DecidableEq

/-- The loop over the rects, from where the last one ended. -/
def placeRects (bounds : Bounds) : List (JsNum × JsNum) → JsNum → JsNum → List Placed
  | [], _, _ => []
  | (length, colorIndex) :: rects, currentX, currentY =>
      let next := currentX.add length
      let rest :=
        if next.same bounds.right then placeRects bounds rects bounds.left (currentY.add (some 1))
        else placeRects bounds rects next currentY
      -- a transparent rect is not pushed
      if colorIndex = some 0 then rest else ⟨length, colorIndex, currentX, currentY⟩ :: rest

def DecodedImage.placed (image : DecodedImage) : List Placed :=
  placeRects image.bounds image.rects image.bounds.left image.bounds.top

/-- `paletteColors[colorIndex]` as a template writes it. -/
def colorAt (paletteColors : List String) : JsNum → String
  | some (.ofNat n) => paletteColors[n]?.getD "undefined"
  | _ => "undefined"

/-- A rect as it is written out. -/
def Placed.svg (paletteColors : List String) (r : Placed) : String :=
  "<rect width=\"" ++ r.length.tenfold ++ "\" height=\"10\" x=\"" ++ r.x.tenfold ++ "\" y=\""
    ++ r.y.tenfold ++ "\" fill=\"#" ++ colorAt paletteColors r.colorIndex ++ "\" />"

/-- `buildSVG`, given the data of the parts -/
def buildSVG (parts : List String) (paletteColors : List String) (bgColor : String) : String :=
  let svgWithoutEndTag := parts.foldl
    (fun result data => result
      ++ String.join ((decodeImage data).placed.map (Placed.svg paletteColors)))
    ("<svg width=\"320\" height=\"320\" viewBox=\"0 0 320 320\" xmlns=\"http://www.w3.org/2000/svg\" shape-rendering=\"crispEdges\"><rect width=\"100%\" height=\"100%\" fill=\"#"
      ++ bgColor ++ "\" />")
  svgWithoutEndTag ++ "</svg>"

end Nouns.Sdk
