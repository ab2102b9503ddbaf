import Nouns.Sdk.SvgBuilder

/-!
# What the decoder reads

`decodeImage` reads a hexadecimal string as the bytes it was written from: five of a
header and then pairs.
-/

namespace Nouns.Sdk

open JsText

/-- The pairs of bytes that rects are written as. -/
def pairsHex (pairs : List (Nat × Nat)) : List Char :=
  pairs.flatMap fun p => hexByte p.1 ++ hexByte p.2

/-- All of them are bytes. -/
def BytePairs (pairs : List (Nat × Nat)) : Prop := ∀ p ∈ pairs, p.1 < 256 ∧ p.2 < 256

/-- A pair as the decoder has it. -/
def nums (p : Nat × Nat) : JsNum × JsNum := (some (p.1 : Int), some (p.2 : Int))

theorem matchFour_pairsHex {pairs : List (Nat × Nat)} (h : BytePairs pairs) :
    (matchFour [] (pairsHex pairs)).map (fun rect =>
      (parseInt (substring rect 0 2), parseInt (substring rect 2 4))) = pairs.map nums := by
  induction pairs with
  | nil => rfl
  | cons p pairs ih =>
      obtain ⟨h₁, h₂⟩ := h p List.mem_cons_self
      have hcons : pairsHex (p :: pairs) = hexByte p.1 ++ (hexByte p.2 ++ pairsHex pairs) := by
        rw [pairsHex, List.flatMap_cons, List.append_assoc]
        rfl
      have hfirst : substring (hexByte p.1 ++ hexByte p.2) 0 2 = hexByte p.1 := rfl
      have hsecond : substring (hexByte p.1 ++ hexByte p.2) 2 4 = hexByte p.2 := rfl
      rw [hcons, matchFour_hexBytes h₁ h₂, List.map_cons, ih fun q hq => h q
        (List.mem_cons_of_mem _ hq), hfirst, hsecond, parseInt_hexByte h₁, parseInt_hexByte h₂]
      rfl

/-- **The decoder reads what was written.** -/
theorem decodeImage_hex {index top right bottom left : Nat} {pairs : List (Nat × Nat)}
    (hi : index < 256) (ht : top < 256) (hr : right < 256) (hb : bottom < 256) (hl : left < 256)
    (hpairs : BytePairs pairs) :
    decodeImage ("0x" ++ String.ofList (hexByte index ++ hexByte top ++ hexByte right
        ++ hexByte bottom ++ hexByte left ++ pairsHex pairs))
      = { paletteIndex := some index
          bounds := ⟨some top, some right, some bottom, some left⟩
          rects := pairs.map nums } := by
  have hprefix : "0x".toList = ['0', 'x'] := by decide
  rw [decodeImage, String.toList_append, hprefix, String.toList_ofList,
    ← parseInt_hexByte hi, ← parseInt_hexByte ht, ← parseInt_hexByte hr, ← parseInt_hexByte hb,
    ← parseInt_hexByte hl, ← matchFour_pairsHex hpairs]
  rfl

end Nouns.Sdk
