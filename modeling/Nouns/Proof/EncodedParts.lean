import Nouns.Proof.ImageRoundTrip
import Nouns.Proof.PartDrawing

/-!
# What the SDK encodes the contract can draw

An encoded image is a string of bytes that the contract decodes to the rects that were written.
The rows of an image of 32 by 32 pixels keep inside the table of coordinates, so all that the
contract needs is a palette as long as the encoder's.
-/

namespace Nouns.Sdk

open JsText RunLength Evm MultiPartRLEToSVG

/-! ## Bytes -/

/-- A rect of the contract. -/
def rectOf (p : Nat × Nat) : MultiPartRLEToSVG.Rect := ⟨UInt8.ofNat p.1, UInt8.ofNat p.2⟩

/-- The bytes of rects. -/
def pairBytes (pairs : List (Nat × Nat)) : List UInt8 :=
  pairs.flatMap fun p => [UInt8.ofNat p.1, UInt8.ofNat p.2]

variable {pairs : List (Nat × Nat)} {size width left right : Nat} {rs : List (Nat × Nat)}

theorem decodeRects_pairBytes (pairs : List (Nat × Nat)) :
    decodeRects (pairBytes pairs) = .ok (pairs.map rectOf) := by
  induction pairs with
  | nil => rfl
  | cons p pairs ih =>
      show decodeRects (UInt8.ofNat p.1 :: UInt8.ofNat p.2 :: pairBytes pairs) = _
      rw [decodeRects, ih]
      rfl

theorem toNat_ofNat {n : Nat} (h : n < 256) : (UInt8.ofNat n).toNat = n :=
  UInt8.toNat_ofNat_of_lt' h

theorem hexByte_pairBytes (h : BytePairs pairs) :
    (pairBytes pairs).flatMap (fun x => hexByte x.toNat) = pairsHex pairs := by
  induction pairs with
  | nil => rfl
  | cons p pairs ih =>
      obtain ⟨h₁, h₂⟩ := h p List.mem_cons_self
      have hrest : BytePairs pairs := fun q hq => h q (List.mem_cons_of_mem _ hq)
      show hexByte (UInt8.ofNat p.1).toNat ++ (hexByte (UInt8.ofNat p.2).toNat
        ++ (pairBytes pairs).flatMap fun x => hexByte x.toNat) = _
      rw [ih hrest, toNat_ofNat h₁, toNat_ofNat h₂, ← List.append_assoc]
      rfl

/-! ## Rows that can be drawn -/

theorem drawable_row (hpos : Positive rs) (hne : rs ≠ []) {x y : Nat}
    (hsum : x + (expand rs).length = right) (hright : right ≤ 32) (hy : y ≤ 32)
    (hcolors : ∀ c ∈ expand rs, c < size) (hsize : size ≤ 256)
    {more : List MultiPartRLEToSVG.Rect} (hmore : Drawable size left right more left (y + 1)) :
    Drawable size left right (rs.map rectOf ++ more) x y := by
  induction rs generalizing x with
  | nil => exact absurd rfl hne
  | cons r rs ih =>
      rw [expand_cons, List.length_append, List.length_replicate] at hsum
      have hcolor := hcolors r.2 (hpos.mem_expand List.mem_cons_self)
      have hlength : (UInt8.ofNat r.1).toNat = r.1 := toNat_ofNat (by omega)
      have hindex : (UInt8.ofNat r.2).toNat = r.2 := toNat_ofNat (by omega)
      refine ⟨hindex.symm ▸ hcolor, ?_, hy, ?_⟩
      · show x + (UInt8.ofNat r.1).toNat ≤ 32
        omega
      · show if x + (UInt8.ofNat r.1).toNat = right then _ else Drawable _ _ _ _
          (x + (UInt8.ofNat r.1).toNat) y
        rw [hlength]
        cases rs with
        | nil =>
            have hend : x + r.1 = right := by
              have : (expand ([] : List (Nat × Nat))).length = 0 := rfl
              omega
            rw [if_pos hend]
            exact hmore
        | cons r' rs =>
            have hlater : 0 < (expand (r' :: rs)).length := by
              have := hpos r' (List.mem_cons_of_mem _ List.mem_cons_self)
              rw [expand_cons, List.length_append, List.length_replicate]
              omega
            rw [if_neg (by omega)]
            refine ih (fun q hq => hpos q (List.mem_cons_of_mem _ hq)) (List.cons_ne_nil _ _)
              (by omega) ?_
            intro c hc
            exact hcolors c (by rw [expand_cons]; exact List.mem_append_right _ hc)

theorem drawable_rows (hlt : left < right) (hright : right ≤ 32) (hsize : size ≤ 256)
    {rows : List (List (Nat × Nat))} (hrows : ∀ rs ∈ rows, Positive rs
      ∧ (expand rs).length = right - left ∧ ∀ c ∈ expand rs, c < size) {top : Nat}
    (htop : top + rows.length ≤ 33) :
    Drawable size left right (rows.flatten.map rectOf) left top := by
  induction rows generalizing top with
  | nil => trivial
  | cons rs rows ih =>
      obtain ⟨hpos, hlength, hcolors⟩ := hrows rs List.mem_cons_self
      rw [List.length_cons] at htop
      have hne : rs ≠ [] := by
        intro hnil
        rw [hnil] at hlength
        have : (expand ([] : List (Nat × Nat))).length = 0 := rfl
        omega
      rw [List.flatten_cons, List.map_append]
      exact drawable_row hpos hne (by omega) hright (by omega) hcolors hsize
        (ih (fun rs' h => hrows rs' (List.mem_cons_of_mem _ h)) (by omega))

/-! ## Images that can be drawn -/

/-- A part that the contract can draw with every palette of `size` colours. -/
def Renders (part : List UInt8) (size : Nat) : Prop :=
  ∃ image, decodeRLEImage_ part = .ok image ∧ image.paletteIndex = 0
    ∧ ∀ palettes : UInt8 → List String, size ≤ (palettes 0).length →
      ∃ text, drawPart palettes image = .ok text

/-- The data of such a part. -/
def CanDraw (data : String) (size : Nat) : Prop := ∃ part, data = hexString part ∧ Renders part size

/-- Rows that are written out between bounds. -/
theorem canDraw_rows {top bottom : Nat} (hlt : left < right) (hright : right ≤ 32)
    (hsize : size ≤ 256) {rows : List (List (Nat × Nat))} (hrows : ∀ rs ∈ rows, Positive rs
      ∧ (expand rs).length = right - left ∧ ∀ c ∈ expand rs, c < size)
    (htop : top + rows.length ≤ 33) (htop' : top < 256) (hbottom : bottom < 256)
    (hbytes : BytePairs rows.flatten) :
    CanDraw ("0x" ++ String.ofList (hexByte 0 ++ hexByte top ++ hexByte right ++ hexByte bottom
      ++ hexByte left ++ pairsHex rows.flatten)) size := by
  refine ⟨UInt8.ofNat 0 :: UInt8.ofNat top :: UInt8.ofNat right :: UInt8.ofNat bottom
    :: UInt8.ofNat left :: pairBytes rows.flatten, ?_, ⟨UInt8.ofNat 0, ⟨UInt8.ofNat top,
    UInt8.ofNat right, UInt8.ofNat bottom, UInt8.ofNat left⟩, rows.flatten.map rectOf⟩, ?_,
    rfl, ?_⟩
  · unfold hexString
    simp only [List.flatMap_cons]
    rw [hexByte_pairBytes hbytes, toNat_ofNat (by decide), toNat_ofNat htop',
      toNat_ofNat (by omega), toNat_ofNat hbottom, toNat_ofNat (by omega)]
    simp only [List.append_assoc]
  · show (do return (⟨_, _, ← decodeRects (pairBytes rows.flatten)⟩ : MultiPartRLEToSVG.DecodedImage))
      = _
    rw [decodeRects_pairBytes]
    rfl
  · intro palettes hpalette
    refine drawPart_total ?_
    have hdrawable := (drawable_rows hlt hright hsize hrows htop).mono hpalette
    show Drawable (palettes 0).length (UInt8.ofNat left).toNat (UInt8.ofNat right).toNat
      (rows.flatten.map rectOf) (UInt8.ofNat left).toNat (UInt8.ofNat top).toNat
    rw [toNat_ofNat (by omega), toNat_ofNat (by omega), toNat_ofNat htop']
    exact hdrawable

theorem canDraw_blank (size : Nat) : CanDraw "0x0000000000" size := by
  refine ⟨[0, 0, 0, 0, 0], by decide +kernel, ⟨0, ⟨0, 0, 0, 0⟩, []⟩, rfl, rfl, ?_⟩
  intro palettes _
  exact drawPart_total trivial

variable {getRgbaAt : Nat → Nat → RGBAColor} {colors : Colors} {height : Nat} {b : ImageBounds}

/-- The rows from the first that is not clear to the last are drawn. -/
theorem canDraw_image {last : Nat} (hok : PaletteOk colors) (hsize : colors.size ≤ 256)
    (hpos : 0 < width) (hwidth : width ≤ 32) (hheight : height ≤ 33)
    (hknown : ∀ y, y < height → Known getRgbaAt colors y width)
    (hleft : ∀ y, y < height → (getRgbaAt 0 y).a = 0)
    (hright : ∀ y, y < height → (getRgbaAt (width - 1) y).a = 0) (htop : 0 < b.top)
    (hle : b.top ≤ last) (hlt : last < height) (hnt : ¬ Clear getRgbaAt width b.top)
    (hbottom : b.bottom = last) :
    CanDraw ({ Image.new width height with
        rows := rowsOf getRgbaAt colors width height
        bounds := b } : Image).deleteEmptyRows.encodeRows.1 colors.size := by
  have hkept := @rowList_kept height b getRgbaAt colors width (by omega) (by omega)
  have hfirst : ({ Image.new width height with
      rows := rowsOf getRgbaAt colors width height
      bounds := b } : Image).deleteEmptyRows.rows 0 = none := if_pos (.inl htop)
  have hmem : ∀ l ∈ (List.range (b.bottom + 1 - b.top)).map fun j =>
      indices getRgbaAt colors (b.top + j) width,
      l.length = width ∧ ∀ v ∈ l, v < colors.size := by
    intro l hl
    obtain ⟨j, hj, rfl⟩ := List.mem_map.mp hl
    rw [List.mem_range] at hj
    refine ⟨length_indices, ?_⟩
    intro v hv
    obtain ⟨x, hx, rfl⟩ := List.mem_map.mp hv
    obtain ⟨v, hv⟩ := Option.isSome_iff_exists.mp
      (hknown (b.top + j) (by omega) x (List.mem_range.mp hx))
    unfold colorIndex
    split
    · exact Nat.lt_of_le_of_lt (Nat.zero_le v) (hok.lt_size _ _ hv)
    · rw [hv]
      exact hok.lt_size _ _ hv
  -- the first row that is not clear has a pixel between the bounds
  have hlr : (cutBounds b (((List.range (b.bottom + 1 - b.top)).map fun j =>
        indices getRgbaAt colors (b.top + j) width).map (rowOf width))).left
      < (cutBounds b (((List.range (b.bottom + 1 - b.top)).map fun j =>
        indices getRgbaAt colors (b.top + j) width).map (rowOf width))).right := by
    have hrow : indices getRgbaAt colors b.top width
        ∈ (List.range (b.bottom + 1 - b.top)).map fun j =>
          indices getRgbaAt colors (b.top + j) width :=
      List.mem_map.mpr ⟨0, List.mem_range.mpr (by omega), by rw [Nat.add_zero]⟩
    obtain ⟨x, hx, ha⟩ := not_clear hnt
    have hcell : colorIndex colors (getRgbaAt x b.top) ≠ 0 :=
      (not_congr (hok.colorIndex_eq_zero (hknown b.top (by omega) x hx))).mpr ha
    have hzero : ∀ x, x < width → (getRgbaAt x b.top).a = 0 →
        (indices getRgbaAt colors b.top width)[x]? = some 0 := by
      intro x hx ha
      rw [getElem?_indices hx, colorIndex, if_pos ha]
    obtain ⟨hlo, hhi⟩ := between_runs (getElem?_indices hx) hcell
      (hzero 0 hpos (hleft _ (by omega)))
      (by rw [length_indices]; exact hzero _ (by omega) (hright _ (by omega)))
    rw [length_indices] at hlo hhi
    obtain ⟨hcutl, hcutr⟩ := cutBounds_mem (b := b) (List.mem_map_of_mem (f := rowOf width) hrow)
    omega
  generalize hls : ((List.range (b.bottom + 1 - b.top)).map fun j =>
    indices getRgbaAt colors (b.top + j) width) = ls at hkept hmem hlr
  have hcount : ls.length = b.bottom + 1 - b.top := by
    rw [← hls, List.length_map, List.length_range]
  have hne : ls ≠ [] := List.ne_nil_of_length_pos (by omega)
  rw [encodeRows_kept (by rw [hkept]; exact fun h => hne (List.map_eq_nil_iff.mp h)) hfirst, hkept]
  have hcut := @cutBounds_right_le width b ls
  have hwithin : ∀ l ∈ ls, Within width (cutBounds b (ls.map (rowOf width))).left
      (cutBounds b (ls.map (rowOf width))).right (encode l) := fun l hl => cutBounds_within hl
  have htop' : (cutBounds b (ls.map (rowOf width))).top = b.top := rfl
  have hbottom' : (cutBounds b (ls.map (rowOf width))).bottom = b.bottom := rfl
  show CanDraw ((ls.map (rowOf width)).foldl (fun result row =>
    result ++ Image.getEncodedRow width row (cutBounds b (ls.map (rowOf width))))
    (Image.getEncodedBounds (cutBounds b (ls.map (rowOf width))))) colors.size
  generalize cutBounds b (ls.map (rowOf width)) = cut at *
  have hbytes : ∀ l ∈ ls, BytePairs (trimmed width cut.left cut.right (encode l)) := fun l hl =>
    trimmed_bytes (hmem l hl).1 hlr hcut (by omega) (hwithin l hl) fun v hv =>
      Nat.lt_of_lt_of_le ((hmem l hl).2 v hv) hsize
  rw [getEncodedRows_eq (Nat.le_of_lt hlr) hcut fun l hl => ⟨hwithin l hl, hbytes l hl⟩,
    getEncodedBounds_eq (by omega) (by omega) (by omega) (by omega), String.append_assoc,
    ← String.ofList_append]
  refine canDraw_rows hlr (by omega) hsize ?_ ?_ (by omega) (by omega) ?_
  · intro rs hrs
    obtain ⟨l, hl, rfl⟩ := List.mem_map.mp hrs
    have hexpand : expand (trimmed width cut.left cut.right (encode l))
        = (l.drop cut.left).take (cut.right - cut.left) := by
      rw [expand_trimmed (by rw [expand_encode, (hmem l hl).1]) (Nat.le_of_lt hlr) hcut
        (hwithin l hl), expand_encode]
    refine ⟨trimmed_positive hlr (encode_positive l), ?_, ?_⟩
    · rw [hexpand, List.length_take, List.length_drop, (hmem l hl).1]
      omega
    · intro c hc
      rw [hexpand] at hc
      exact (hmem l hl).2 c (List.mem_of_mem_drop (List.mem_of_mem_take hc))
  · rw [List.length_map]
    omega
  · intro p hp
    obtain ⟨rs, hrs, hp⟩ := List.mem_flatten.mp hp
    obtain ⟨l, hl, rfl⟩ := List.mem_map.mp hrs
    exact hbytes l hl p hp

/-! ## A drawing of 32 by 32 pixels -/

/-- A drawing with a transparent row on top and a transparent column on either side. -/
structure HasMargin (getRgbaAt : Nat → Nat → RGBAColor) : Prop where
  top : ∀ x, x < 32 → (getRgbaAt x 0).a = 0
  left : ∀ y, y < 32 → (getRgbaAt 0 y).a = 0
  right : ∀ y, y < 32 → (getRgbaAt 31 y).a = 0

/-- The data of a drawing: it can be drawn on chain, and paints what the drawing shows. -/
structure EncodesDrawing (getRgbaAt : Nat → Nat → RGBAColor) (colors : Colors) (data : String) :
    Prop where
  draws : CanDraw data colors.size
  known : ∀ y, y < 32 → Known getRgbaAt colors y 32
  paints : ∀ x y c, Paints (decodeImage data).placed x y c
    ↔ x < 32 ∧ y < 32 ∧ (getRgbaAt x y).a ≠ 0 ∧ colors.get? (getRgbaAt x y).hex = some c

/-- **Encoding a drawing.** -/
theorem toRLE_encodes {rle : String} {image : Image} {colors' : Colors} (hok : PaletteOk colors)
    (hmargin : HasMargin getRgbaAt)
    (h : (Image.new 32 32).toRLE getRgbaAt colors = some (rle, image, colors'))
    (hsize : colors'.size ≤ 256) : EncodesDrawing getRgbaAt colors' rle := by
  obtain ⟨b, heq, htracked, -⟩ := encodeLoop getRgbaAt colors 32 (show 0 < 32 by decide) 32
  have hok' : PaletteOk (learnAll colors (hexesOf getRgbaAt 32 32)) := hok.learnAll
  have hknown : ∀ y, y < 32 → Known getRgbaAt (learnAll colors (hexesOf getRgbaAt 32 32)) y 32 :=
    fun y hy => known_image hy
  have hreturned := (toRLE_eq heq).symm.trans h
  obtain ⟨hrle, hrest⟩ := Prod.mk.inj (Option.some.inj hreturned)
  obtain ⟨-, hcolors⟩ := Prod.mk.inj hrest
  replace htracked := htracked.clear hok' hknown hmargin.top
  rw [hcolors] at hok' hknown hrle
  rcases htracked with ⟨hall, htop, hbottom⟩ | ⟨last, hpos, hle, hlt, hnt, -, hbefore, hafter, hb⟩
  · -- nothing was drawn
    rw [encodeRows_clear (by decide) (by decide) htop hbottom
      ((blank_indices hok' (hknown 0 (by decide))).mpr hmargin.top)] at hrle
    obtain rfl := hrle
    refine ⟨canDraw_blank _, hknown, ?_⟩
    intro x y c
    have hnone : (decodeImage "0x0000000000").placed = [] := by decide +kernel
    rw [hnone]
    constructor
    · intro hp
      obtain ⟨r, hr, _⟩ := hp
      exact absurd hr List.not_mem_nil
    · intro hp
      obtain ⟨hx, hy, ha, _⟩ := hp
      exact absurd (hall y hy x hx) ha
  · have hbottom : b.bottom = last := by
      rw [hb, if_neg]
      omega
    obtain rfl := hrle
    exact ⟨canDraw_image hok' hsize (by decide) (by decide) (by decide) hknown hmargin.left
      hmargin.right hpos hle hlt hnt hbottom, hknown, fun x y c => paints_image hok' hsize (by decide)
      (by decide) (by decide) hknown hmargin.left hmargin.right hpos hle hlt hnt hbefore hafter
      hbottom⟩

end Nouns.Sdk
