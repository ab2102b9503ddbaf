import Nouns.Lib.Interning
import Nouns.Proof.PrintedPixels
import Nouns.Sdk.PngCollectionEncoder

/-!
# One palette for all images

A colour's index is its place in the palette: both are how many colours were met before
it. The constructor numbers the colours of its list by their places in the list, so this
is so only if the list begins with the transparent entry, which is there already. The
strings have a byte for an index, so it must be below 256 where it is written: fewer than
256 entries may come before the colour of a pixel that is in a string.
-/

namespace Nouns.Sdk

open RunLength JsMap

/-! ## The numbers -/

variable {colors : Colors} {seen : List String}

theorem learnAll_numbers (h : Numbers colors seen) (hexes : List String) :
    Numbers (learnAll colors hexes) (seen ++ hexes) := h.foldl hexes

/-- A palette that met the transparent entry first. -/
theorem numbers_paletteOk (h : Numbers colors ("" :: seen)) : PaletteOk colors where
  transparent := h.get?_place "" List.mem_cons_self
  injective := fun _ _ _ => h.injective
  lt_size := by
    intro k v hv
    have hlt := (List.getElem?_eq_some_iff.mp (h.get?_iff.mp hv)).1
    rwa [keys, List.length_map] at hlt

namespace PNGCollectionEncoder

theorem transparent_numbers : Numbers transparent [""] := by
  refine ⟨rfl, fun k => Iff.rfl, ?_⟩
  intro k hk
  obtain rfl := List.mem_singleton.mp hk
  decide +kernel

/-- Colours set to the places from the size on are colours met one after the other. -/
theorem set_places (colors : Colors) {list : List String} (hnodup : list.Nodup)
    (hnew : ∀ k ∈ list, k ∉ colors.keys) :
    (list.zipIdx colors.size).foldl (fun map (color, index) => map.set color index) colors
      = learnAll colors list := by
  induction list generalizing colors with
  | nil => rfl
  | cons k list ih =>
      obtain ⟨hk, hnodup⟩ := List.nodup_cons.mp hnodup
      have hhas : colors.has k = false := by
        rw [← Bool.not_eq_true, has_iff]
        exact hnew k List.mem_cons_self
      have hlearn : learn colors k = colors.set k colors.size := by
        rw [learn, if_neg (by rw [hhas]; exact Bool.false_ne_true)]
      have hnext := ih (colors.set k colors.size) hnodup fun k' hk' hmem => by
        rw [keys, entries_set hhas, List.map_append, List.mem_append] at hmem
        rcases hmem with hmem | hmem
        · exact hnew k' (List.mem_cons_of_mem _ hk') hmem
        · obtain rfl : k' = k := by simpa using hmem
          exact hk hk'
      rw [size_set hhas] at hnext
      rw [List.zipIdx_cons, List.foldl_cons, hnext, ← hlearn]
      rfl

/-- A list that has the transparent entry in front, or is empty. -/
def Exported (list : List String) : Prop := ∀ k, list.head? = some k → k = ""

/-- **What the constructor leaves.** -/
theorem new_numbers {list : Option (List String)} (hnodup : (list.getD []).Nodup)
    (hfront : Exported (list.getD [])) :
    Numbers (new list).colors ("" :: list.getD []) := by
  show Numbers ((list.getD []).zipIdx.foldl _ _) _
  rcases hlist : list.getD [] with - | ⟨k, rest⟩
  · exact transparent_numbers
  · rw [hlist] at hnodup hfront
    obtain rfl : k = "" := hfront k rfl
    obtain ⟨hk, hrest⟩ := List.nodup_cons.mp hnodup
    have hset : transparent.set "" 0 = transparent := rfl
    have hplaces := set_places transparent hrest fun k' hk' hmem => by
      obtain rfl : k' = "" := by simpa [keys, transparent] using hmem
      exact hk hk'
    -- the transparent entry is set to what it is, and met again
    have hset : (("" :: rest).zipIdx).foldl (fun map (color, index) => map.set color index)
          transparent
        = learnAll transparent ("" :: rest) := by
      rw [List.zipIdx_cons, List.foldl_cons]
      exact hplaces
    rw [hset]
    exact learnAll_numbers transparent_numbers ("" :: rest)

/-- Setting other entries leaves one as it is. -/
theorem foldl_set_other {k : String} {v : Nat} (list : List (String × Nat))
    (hother : ∀ e ∈ list, e.1 ≠ k) (h : colors.get? k = some v) :
    (list.foldl (fun map (color, index) => map.set color index) colors).get? k = some v := by
  induction list generalizing colors with
  | nil => exact h
  | cons e list ih =>
      refine ih (fun e' he' => hother e' (List.mem_cons_of_mem _ he')) ?_
      exact (get?_set_of_ne (hother e List.mem_cons_self).symm).trans h

/-- A list without the transparent entry in front gives its first colour that entry's index. -/
theorem new_shares {list : List String} {k : String} (hnodup : (k :: list).Nodup) (hne : k ≠ "") :
    (new (some (k :: list))).colors.get? k = some 0 := by
  have hhas : transparent.has k = false := by
    rw [← Bool.not_eq_true, has_iff]
    exact fun hmem => hne (List.mem_singleton.mp hmem)
  show (((k :: list).zipIdx).foldl _ transparent).get? k = some 0
  rw [List.zipIdx_cons, List.foldl_cons]
  refine foldl_set_other _ (fun e he heq => ?_) ((get?_set hhas).mpr (.inr ⟨rfl, rfl⟩))
  obtain rfl := heq
  exact (List.nodup_cons.mp hnodup).1 (List.fst_mem_of_mem_zipIdx he)

end PNGCollectionEncoder

/-! ## What an image adds -/

variable {getRgbaAt : Nat → Nat → RGBAColor} {width height : Nat}

/-- An image without columns has no colours, and if it has rows it cannot be encoded. -/
theorem hexesOf_zero : hexesOf getRgbaAt 0 height = [] :=
  List.flatMap_eq_nil_iff.mpr fun _ _ => rfl

theorem toRLE_no_columns (n : Nat) : (Image.new 0 (n + 1)).toRLE getRgbaAt colors = none := by
  have hfirst : Image.encodeRow getRgbaAt (Image.new 0 (n + 1), colors) 0 = none := rfl
  have hloop : (List.range (n + 1)).foldlM (Image.encodeRow getRgbaAt)
      (Image.new 0 (n + 1), colors) = none := by
    rw [List.range_succ_eq_map, List.foldlM_cons, hfirst]
    rfl
  rw [toRLE_new, hloop]
  rfl

/-- An image adds its colours, and what is written are the printed pixels, with the indices of the
palette it leaves. -/
theorem toRLE_colors {rle : String} {image : Image} {colors' : Colors}
    (h : (Image.new width height).toRLE getRgbaAt colors = some (rle, image, colors')) :
    colors' = learnAll colors (hexesOf getRgbaAt width height)
      ∧ (PaletteOk colors' → ∀ x y c, Inscribed image x y c
        ↔ Printed getRgbaAt width height x y ∧ c = colorIndex colors' (getRgbaAt x y)) := by
  rcases Nat.eq_zero_or_pos width with rfl | hwidth
  · -- without columns an image has no rows, or cannot be encoded
    cases height with
    | zero =>
        have hloop : (List.range 0).foldlM (Image.encodeRow getRgbaAt) (.new 0 0, colors)
            = some (.new 0 0, colors) := rfl
        obtain ⟨rfl, rfl, rfl⟩ := by simpa only [Option.some.injEq, Prod.mk.injEq] using
          (toRLE_eq hloop).symm.trans h
        refine ⟨rfl, fun _ x y c => iff_of_false ?_ fun hin => Nat.not_lt_zero _ hin.1.column⟩
        rintro ⟨row, before, rect, after, k, hrow, -⟩
        rw [encodeRows_rows] at hrow
        have hnone : (Image.new 0 0).deleteEmptyRows.rows y = none := ite_self none
        exact absurd (hnone.symm.trans hrow) (by simp)
    | succ n => exact absurd ((toRLE_no_columns n).symm.trans h) (by simp)
  · obtain ⟨b, hloop, htracked, -⟩ := encodeLoop getRgbaAt colors height hwidth height
    obtain ⟨rfl, rfl, rfl⟩ := by simpa only [Option.some.injEq, Prod.mk.injEq] using
      (toRLE_eq hloop).symm.trans h
    refine ⟨rfl, fun hok x y c => ?_⟩
    have hknown : ∀ y, y < height → Known getRgbaAt
        (learnAll colors (hexesOf getRgbaAt width height)) y width := fun y hy => known_image hy
    exact inscribed_iff hok hknown
      (htracked.congr fun y hy => or_congr_right (blank_indices hok (hknown y hy)))

/-- An image with columns is encoded. -/
theorem toRLE_some (getRgbaAt : Nat → Nat → RGBAColor) (colors : Colors) (height : Nat)
    (hwidth : 0 < width) :
    ∃ rle image colors',
      (Image.new width height).toRLE getRgbaAt colors = some (rle, image, colors') := by
  obtain ⟨b, hloop, -⟩ := encodeLoop getRgbaAt colors height hwidth height
  exact ⟨_, _, _, toRLE_eq hloop⟩

theorem toRLE_none (h : (Image.new width height).toRLE getRgbaAt colors = none) :
    hexesOf getRgbaAt width height = [] := by
  rcases Nat.eq_zero_or_pos width with rfl | hwidth
  · exact hexesOf_zero
  · obtain ⟨rle, image, colors', hsome⟩ := toRLE_some getRgbaAt colors height hwidth
    exact absurd (hsome.symm.trans h) (by simp)

namespace PNGCollectionEncoder

/-- **What a call leaves of the palette**, whatever becomes of the string. -/
theorem encodeImage_colors (name : String) (png : PngImage) (folder : Option String)
    (encoder : PNGCollectionEncoder) : (encoder.encodeImage name png folder).1.colors
      = learnAll encoder.colors (hexesOf png.rgbaAt png.width png.height) := by
  unfold encodeImage
  cases h : (Image.new png.width png.height).toRLE png.rgbaAt encoder.colors with
  | none =>
      rw [toRLE_none h]
      rfl
  | some st =>
      obtain ⟨rle, image, colors'⟩ := st
      rw [← (toRLE_colors h).1]
      cases folder with
      | none => rfl
      | some folder =>
          dsimp only
          split_ifs <;> rfl

/-! ## Runs -/

/-- A call of `encodeImage`. -/
structure Call where
  name : String
  png : PngImage
  folder : Option String

def Call.hexes (call : Call) : List String :=
  hexesOf call.png.rgbaAt call.png.width call.png.height

theorem mem_hexes {call : Call} {x y : Nat} (hx : x < call.png.width) (hy : y < call.png.height) :
    (call.png.rgbaAt x y).hex ∈ call.hexes :=
  List.mem_flatMap.mpr ⟨y, List.mem_range.mpr hy, List.mem_map.mpr ⟨x, List.mem_range.mpr hx, rfl⟩⟩

/-- The encoder after some calls. -/
def run (encoder : PNGCollectionEncoder) (calls : List Call) : PNGCollectionEncoder :=
  calls.foldl (fun encoder call =>
    (encoder.encodeImage call.name call.png call.folder).1) encoder

variable {encoder : PNGCollectionEncoder} {calls before after : List Call}

theorem run_append : encoder.run (before ++ after) = (encoder.run before).run after :=
  List.foldl_append

theorem run_numbers (h : Numbers encoder.colors seen) (calls : List Call) :
    Numbers (encoder.run calls).colors (seen ++ calls.flatMap Call.hexes) := by
  induction calls generalizing encoder seen with
  | nil => rwa [List.flatMap_nil, List.append_nil]
  | cons call calls ih =>
      rw [List.flatMap_cons, ← List.append_assoc]
      refine ih ?_
      rw [encodeImage_colors]
      exact learnAll_numbers h _

theorem run_grows : Grows encoder.colors (encoder.run calls).colors := by
  induction calls generalizing encoder with
  | nil => exact .refl
  | cons call calls ih =>
      refine Grows.trans ?_ ih
      rw [encodeImage_colors]
      exact learnAll_grows

/-- The folder's name is none that every object has, so the call does not throw for it. -/
def Call.Returns (call : Call) : Prop := ∀ folder, call.folder = some folder → folder ∉ inherited

/-- What is returned is what the image is encoded to. -/
theorem encodeImage_returns {call : Call} {rle : String} :
    (encoder.encodeImage call.name call.png call.folder).2 = some rle
      ↔ call.Returns ∧ ∃ image colors, (Image.new call.png.width call.png.height).toRLE
        call.png.rgbaAt encoder.colors = some (rle, image, colors) := by
  unfold encodeImage Call.Returns
  cases (Image.new call.png.width call.png.height).toRLE call.png.rgbaAt encoder.colors with
  | none => simp
  | some st =>
      obtain ⟨rle', image, colors'⟩ := st
      cases call.folder with
      | none => simp
      | some folder =>
          have hempty : "" ∉ inherited := by decide +kernel
          dsimp only
          split_ifs with hnone hin
          · subst hnone
            simp [hempty]
          · simp [hin]
          · simp [hin]

/-- A string is that of no image or is written from the image's rows, and what stands in it is
what the palette says: the byte of an index is the place of the pixel's colour, and is 0 for
transparent pixels only. -/
structure Tells (palette : List String) (png : PngImage) (rle : String) (image : Image) : Prop where
  text : rle = "0x0000000000" ∨ rle = Image.getEncodedBounds image.bounds ++ String.join
    (image.rowList.map fun row => Image.getEncodedRow image.width row image.bounds)
  transparent : ∀ x y c, Inscribed image x y c → c % 256 = 0 → (png.rgbaAt x y).a = 0
  stands : ∀ x y c, Inscribed image x y c → palette[c % 256]? = some (shade (png.rgbaAt x y))

/-- **One palette.** No two entries share an index, an index that was given stays, and every
string that was returned tells what the palette says. -/
structure Consistent (encoder : PNGCollectionEncoder) (calls : List Call) : Prop where
  apart : ∀ k k' i, (encoder.run calls).colors.get? k = some i →
    (encoder.run calls).colors.get? k' = some i → k = k'
  lasts : ∀ n k i, (encoder.run (calls.take n)).colors.get? k = some i →
    (encoder.run calls).colors.get? k = some i
  strings : ∀ before call after rle, calls = before ++ call :: after →
    ((encoder.run before).encodeImage call.name call.png call.folder).2 = some rle →
    ∃ image colors, (Image.new call.png.width call.png.height).toRLE call.png.rgbaAt
        (encoder.run before).colors = some (rle, image, colors)
      ∧ Tells (encoder.run calls).palette call.png rle image

/-- A written string is that of no image, or the bounds and the rows. -/
theorem toRLE_text {rle : String} {image : Image} {colors' : Colors}
    (h : (Image.new width height).toRLE getRgbaAt colors = some (rle, image, colors')) :
    rle = "0x0000000000" ∨ rle = Image.getEncodedBounds image.bounds ++ String.join
      (image.rowList.map fun row => Image.getEncodedRow image.width row image.bounds) := by
  rw [toRLE_new] at h
  obtain ⟨st, -, heq⟩ := Option.map_eq_some_iff.mp h
  obtain ⟨rfl, rfl, -⟩ := by simpa only [Prod.mk.injEq] using heq
  obtain ⟨b, himage, htext⟩ := encodeRows_spec st.1.deleteEmptyRows
  rw [himage]
  exact htext

/-- What is written of a call's image are the printed pixels, with their indices in the palette at
the end, and these are the places of what the pixels look like. -/
theorem run_inscribed (h : Numbers encoder.colors ("" :: seen)) {call : Call} {rle : String}
    {image : Image} {colors' : Colors} (hcalls : calls = before ++ call :: after)
    (hrle : (Image.new call.png.width call.png.height).toRLE call.png.rgbaAt
      (encoder.run before).colors = some (rle, image, colors')) {x y c : Nat} :
    Inscribed image x y c ↔ Printed call.png.rgbaAt call.png.width call.png.height x y
      ∧ (encoder.run calls).colors.get? (shade (call.png.rgbaAt x y)) = some c := by
  obtain ⟨hlearned, hwritten⟩ := toRLE_colors hrle
  have hthen := learnAll_numbers (run_numbers h before)
    (hexesOf call.png.rgbaAt call.png.width call.png.height)
  rw [← hlearned] at hthen
  have hok := numbers_paletteOk hthen
  have hgrows : Grows colors' (encoder.run calls).colors := by
    have hstep : ((encoder.run before).encodeImage call.name call.png call.folder).1.colors
        = colors' := (encodeImage_colors ..).trans hlearned.symm
    rw [hcalls, run_append, ← hstep]
    exact run_grows
  rw [hwritten hok]
  refine and_congr_right fun hin => ?_
  have hknown : Known call.png.rgbaAt colors' y call.png.width := by
    rw [hlearned]
    exact known_image hin.row.1
  rw [hgrows _ _ (hok.get?_shade (hknown x hin.column)), Option.some.injEq]
  exact eq_comm

/-- A list without the transparent entry in front does not do. -/
theorem Consistent.exported {list : List String} {k : String} {calls : List Call}
    (hnodup : (k :: list).Nodup) (hlist : "" ∉ list)
    (h : Consistent (new (some (k :: list))) calls) : k = "" := by
  by_contra hne
  have hshared : (new (some (k :: list))).colors.get? k = some 0 := new_shares hnodup hne
  have hzero : (new (some (k :: list))).colors.get? "" = some 0 := by
    refine foldl_set_other _ ?_ rfl
    intro e he heq
    rcases List.mem_cons.mp (List.fst_mem_of_mem_zipIdx he) with hk | hmem
    · exact hne (hk.symm.trans heq)
    · exact hlist (heq ▸ hmem)
  exact hne (h.apart k "" 0 (run_grows _ _ hshared) (run_grows _ _ hzero))

/-- An index that is written tells the pixel if and only if it is a byte. -/
theorem stands_iff (h : Numbers colors ("" :: seen)) {c : RGBAColor} {i : Nat}
    (hi : colors.get? (shade c) = some i) : colors.keys[i % 256]? = some (shade c) ↔ i < 256 := by
  rw [← h.get?_iff, hi, Option.some.injEq]
  omega

/-- The two dots, to be encoded. -/
def dots : Call := ⟨"dots", ⟨32, 32, twoDots⟩, none⟩

end PNGCollectionEncoder

end Nouns.Sdk
