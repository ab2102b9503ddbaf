import Nouns.Lib.RunLength
import Nouns.Sdk.Image

/-!
# What the encoder's first pass leaves

Every row is left as the runs of its colour indices. The indices are those of the palette
at the end, since a colour keeps the index it gets. The top bound is the first row that is
not empty, and the bottom bound the last, but for the row just read: that is noted only
if it is the thirty-second.
-/

namespace Nouns.Sdk

open RunLength

/-! ## The palette -/

/-- Colours are told apart by their indices, and the next index is free. -/
structure PaletteOk (colors : Colors) : Prop where
  transparent : colors.get? "" = some 0
  injective : ∀ k k' v, colors.get? k = some v → colors.get? k' = some v → k = k'
  lt_size : ∀ k v, colors.get? k = some v → v < colors.size

/-- Colours are added. -/
def Grows (colors colors' : Colors) : Prop := ∀ k v, colors.get? k = some v → colors'.get? k = some v

variable {colors colors' colors'' : Colors} {hex : String}

theorem Grows.refl : Grows colors colors := fun _ _ => id

theorem Grows.trans (h : Grows colors colors') (h' : Grows colors' colors'') :
    Grows colors colors'' := fun k v hk => h' k v (h k v hk)

/-- The palette with a colour put into it. -/
def learn (colors : Colors) (hex : String) : Colors :=
  if colors.has hex then colors else colors.set hex colors.size

theorem learn_grows : Grows colors (learn colors hex) := by
  intro k v hk
  unfold learn
  split
  · exact hk
  · next h => exact (JsMap.get?_set (by simpa using h)).mpr (.inl hk)

theorem learn_known : ((learn colors hex).get? hex).isSome = true := by
  unfold learn
  split
  · next h => exact h
  · next h =>
      rw [Option.isSome_iff_exists]
      exact ⟨_, (JsMap.get?_set (by simpa using h)).mpr (.inr ⟨rfl, rfl⟩)⟩

theorem PaletteOk.learn (h : PaletteOk colors) : PaletteOk (learn colors hex) := by
  unfold Sdk.learn
  split
  · exact h
  · next hhas =>
      have hnew : colors.has hex = false := by simpa using hhas
      refine ⟨(JsMap.get?_set hnew).mpr (.inl h.transparent), fun k k' v hk hk' => ?_,
        fun k v hk => ?_⟩
      · -- an old index is below the size, which is the new one
        rcases (JsMap.get?_set hnew).mp hk with hk | ⟨rfl, rfl⟩
        · rcases (JsMap.get?_set hnew).mp hk' with hk' | ⟨-, rfl⟩
          · exact h.injective k k' v hk hk'
          · exact absurd (h.lt_size k _ hk) (Nat.lt_irrefl _)
        · rcases (JsMap.get?_set hnew).mp hk' with hk' | ⟨rfl, -⟩
          · exact absurd (h.lt_size k' _ hk') (Nat.lt_irrefl _)
          · rfl
      · rw [JsMap.size_set hnew]
        rcases (JsMap.get?_set hnew).mp hk with hk | ⟨-, rfl⟩
        · exact Nat.lt_succ_of_lt (h.lt_size k v hk)
        · exact Nat.lt_succ_self _

/-- The palette with colours put into it, one after the other. -/
def learnAll (colors : Colors) (hexes : List String) : Colors := hexes.foldl learn colors

variable {hexes : List String}

theorem learnAll_append {more : List String} :
    learnAll colors (hexes ++ more) = learnAll (learnAll colors hexes) more := List.foldl_append

/-- What learning a colour keeps, learning many keeps. -/
theorem learnAll_keeps {P : Colors → Prop} (hstep : ∀ colors hex, P colors → P (learn colors hex))
    (h : P colors) : P (learnAll colors hexes) := by
  induction hexes generalizing colors with
  | nil => exact h
  | cons hex hexes ih => exact ih (hstep colors hex h)

theorem learnAll_grows : Grows colors (learnAll colors hexes) :=
  learnAll_keeps (fun _ _ h => h.trans learn_grows) .refl

theorem PaletteOk.learnAll (h : PaletteOk colors) : PaletteOk (learnAll colors hexes) :=
  learnAll_keeps (fun _ _ h => h.learn) h

theorem learnAll_known (h : hex ∈ hexes) : ((learnAll colors hexes).get? hex).isSome = true := by
  obtain ⟨before, after, rfl⟩ := List.append_of_mem h
  have hlearned : learnAll colors (before ++ hex :: after)
      = learnAll (learn (learnAll colors before) hex) after := learnAll_append
  obtain ⟨v, hv⟩ := Option.isSome_iff_exists.mp (@learn_known (learnAll colors before) hex)
  rw [hlearned, learnAll_grows hex v hv]
  rfl

/-! ## A row -/

/-- The colour index of a pixel. -/
def colorIndex (colors : Colors) (c : RGBAColor) : Nat :=
  if c.a = 0 then 0 else (colors.get? c.hex).getD 0

theorem Grows.colorIndex_eq (h : Grows colors colors') {c : RGBAColor}
    (hc : (colors.get? c.hex).isSome = true) : colorIndex colors' c = colorIndex colors c := by
  obtain ⟨v, hv⟩ := Option.isSome_iff_exists.mp hc
  rw [colorIndex, colorIndex, hv, h _ v hv]

/-- The colour indices of the first `n` pixels of a row. -/
def indices (getRgbaAt : Nat → Nat → RGBAColor) (colors : Colors) (y n : Nat) : List Nat :=
  (List.range n).map fun x => colorIndex colors (getRgbaAt x y)

variable {getRgbaAt : Nat → Nat → RGBAColor} {y n : Nat}

theorem length_indices : (indices getRgbaAt colors y n).length = n := by
  rw [indices, List.length_map, List.length_range]

theorem getElem?_indices {x : Nat} (hx : x < n) :
    (indices getRgbaAt colors y n)[x]? = some (colorIndex colors (getRgbaAt x y)) := by
  rw [indices, List.getElem?_map, List.getElem?_range hx]
  rfl

/-- The colours of the first `n` pixels of a row. -/
def rowHexes (getRgbaAt : Nat → Nat → RGBAColor) (y n : Nat) : List String :=
  (List.range n).map fun x => (getRgbaAt x y).hex

theorem rowHexes_succ : rowHexes getRgbaAt y (n + 1) = rowHexes getRgbaAt y n ++ [(getRgbaAt n y).hex] := by
  rw [rowHexes, List.range_succ, List.map_append]
  rfl

/-- All colours of the first `n` pixels of a row are in the palette. -/
def Known (getRgbaAt : Nat → Nat → RGBAColor) (colors : Colors) (y n : Nat) : Prop :=
  ∀ x, x < n → (colors.get? (getRgbaAt x y).hex).isSome = true

theorem Known.grows (h : Known getRgbaAt colors y n) (hg : Grows colors colors') :
    Known getRgbaAt colors' y n := by
  intro x hx
  obtain ⟨v, hv⟩ := Option.isSome_iff_exists.mp (h x hx)
  rw [hg _ v hv]
  rfl

theorem Known.indices_eq (h : Known getRgbaAt colors y n) (hg : Grows colors colors') :
    indices getRgbaAt colors' y n = indices getRgbaAt colors y n :=
  List.map_congr_left fun x hx => hg.colorIndex_eq (h x (List.mem_range.mp hx))

theorem known_learnAll : Known getRgbaAt (learnAll colors (rowHexes getRgbaAt y n)) y n :=
  fun x hx => learnAll_known (List.mem_map.mpr ⟨x, List.mem_range.mpr hx, rfl⟩)

/-- Runs as the encoder has them. -/
def toRects (rs : List (Nat × Nat)) : List Rect := rs.map fun r => ⟨r.1, r.2⟩

theorem appendPixel_toRects (rs : List (Nat × Nat)) (c : Nat) :
    Image.appendPixel (toRects rs) c = toRects (push rs c) := by
  unfold Image.appendPixel push toRects
  rw [List.getLast?_map]
  cases rs.getLast? with
  | none => rfl
  | some last =>
      simp only [Option.map_some]
      split
      · rw [List.map_append]
        rfl
      · rw [List.map_append, List.map_dropLast]
        rfl

/-- The pixels of a row that had none: only the row and the palette change. -/
theorem encodePixels (getRgbaAt : Nat → Nat → RGBAColor) {image : Image} (hrow : image.rows y = none)
    (colors : Colors) (n : Nat) :
    ∃ rows, (List.range n).foldl (Image.encodePixel getRgbaAt y) (image, colors)
        = ({ image with rows := rows }, learnAll colors (rowHexes getRgbaAt y n))
      ∧ (∀ j, j ≠ y → rows j = image.rows j)
      ∧ (rows y).getD ⟨[], ⟨0, 0⟩⟩ = ⟨toRects (encode (indices getRgbaAt
          (learnAll colors (rowHexes getRgbaAt y n)) y n)), ⟨0, 0⟩⟩
      ∧ (0 < n → (rows y).isSome = true) := by
  induction n with
  | zero =>
      refine ⟨image.rows, rfl, fun _ _ => rfl, ?_, fun h => absurd h (Nat.lt_irrefl 0)⟩
      rw [hrow]
      rfl
  | succ n ih =>
      obtain ⟨rows, heq, hother, hself, -⟩ := ih
      have hknown := @known_learnAll colors getRgbaAt y n
      have hlearn : learnAll colors (rowHexes getRgbaAt y (n + 1))
          = learn (learnAll colors (rowHexes getRgbaAt y n)) (getRgbaAt n y).hex := by
        rw [rowHexes_succ, learnAll_append]
        rfl
      rw [hlearn, List.range_succ, List.foldl_append, heq]
      generalize learnAll colors (rowHexes getRgbaAt y n) = colors₁ at *
      -- a colour that was learned keeps its number, so the rectangles so far stay right
      have hstep : Grows colors₁ (learn colors₁ (getRgbaAt n y).hex) := learn_grows
      refine ⟨_, rfl, ?_, ?_, ?_⟩
      · intro j hj
        exact (Function.update_of_ne hj _ _).trans (hother j hj)
      · have hrects : Image.appendPixel (toRects (encode (indices getRgbaAt colors₁ y n)))
              (colorIndex (learn colors₁ (getRgbaAt n y).hex) (getRgbaAt n y))
            = toRects (encode (indices getRgbaAt (learn colors₁ (getRgbaAt n y).hex) y (n + 1))) := by
          have hsnoc : indices getRgbaAt (learn colors₁ (getRgbaAt n y).hex) y (n + 1)
              = indices getRgbaAt colors₁ y n
                ++ [colorIndex (learn colors₁ (getRgbaAt n y).hex) (getRgbaAt n y)] := by
            rw [← hknown.indices_eq hstep, indices, List.range_succ, List.map_append]
            rfl
          rw [appendPixel_toRects, hsnoc, encode_concat]
        simp only [Function.update_self, Option.getD_some, hself]
        exact congrArg (fun rects => ImageRow.mk rects ⟨0, 0⟩) hrects
      · intro _
        rw [Function.update_self]
        rfl

/-- A row of colour indices, as the encoder keeps it. -/
def rowOf (width : Nat) (l : List Nat) : ImageRow where
  rects := toRects (encode l)
  bounds :=
    { left := (((encode l).head?).map Prod.fst).getD 0
      right := width - (((encode l).getLast?).map Prod.fst).getD 0 }

/-- Nothing but transparent pixels. -/
def Blank (l : List Nat) : Prop := ∀ c ∈ l, c = 0

instance (l : List Nat) : Decidable (Blank l) := inferInstanceAs (Decidable (∀ c ∈ l, c = 0))

/-- The first run of a row tells whether it is blank. -/
theorem isEmptyRow_iff {image : Image} {l : List Nat} (hl : l.length = image.width) (hne : l ≠ []) :
    image.isEmptyRow (toRects (encode l)).head? = true ↔ Blank l := by
  obtain ⟨r, rs, hencode⟩ := List.exists_cons_of_ne_nil (encode_ne_nil hne)
  have hexpand : List.replicate r.1 r.2 ++ expand rs = l := by
    rw [← expand_cons, ← hencode, expand_encode]
  have hhead : (toRects (encode l)).head? = some ⟨r.1, r.2⟩ := by
    rw [hencode]
    rfl
  rw [hhead, Image.isEmptyRow, Bool.and_eq_true, decide_eq_true_eq, decide_eq_true_eq]
  constructor
  · rintro ⟨hlen, hzero⟩ c hc
    -- the first run is as long as the row, so nothing comes after it
    have hlen : r.1 = image.width := hlen
    have hnil : expand rs = [] := by
      have hlength := congrArg List.length hexpand
      rw [List.length_append, List.length_replicate] at hlength
      exact List.length_eq_zero_iff.mp (by omega)
    rw [← hexpand, hnil, List.append_nil] at hc
    exact (List.eq_of_mem_replicate hc).trans hzero
  · intro hblank
    have hreplicate : l = List.replicate l.length 0 := List.eq_replicate_of_mem hblank
    obtain ⟨k, hk⟩ : ∃ k, l.length = k + 1 :=
      Nat.exists_eq_succ_of_ne_zero fun h0 => hne (List.length_eq_zero_iff.mp h0)
    rw [hreplicate, hk, encode_replicate] at hencode
    obtain ⟨rfl, -⟩ := List.cons_eq_cons.mp hencode
    exact ⟨hk.symm.trans hl, rfl⟩

/-- A whole row is read. -/
theorem encodeRow_some (getRgbaAt : Nat → Nat → RGBAColor) (image : Image) (y : Nat)
    (hwidth : 0 < image.width) (hrow : image.rows y = none)
    (hlearned : colors' = learnAll colors (rowHexes getRgbaAt y image.width)) :
    Image.encodeRow getRgbaAt (image, colors) y
      = some ({ image with
          rows := Function.update image.rows y
            (some (rowOf image.width (indices getRgbaAt colors' y image.width)))
          bounds := Image.trackBounds y
            (decide (Blank (indices getRgbaAt colors' y image.width))) image.bounds }, colors') := by
  obtain ⟨rows, heq, hother, hself, hsome⟩ := encodePixels getRgbaAt hrow colors image.width
  rw [← hlearned] at heq hself
  have hne : indices getRgbaAt colors' y image.width ≠ [] :=
    List.ne_nil_of_length_pos (by rw [length_indices]; exact hwidth)
  have hempty := @isEmptyRow_iff image _ length_indices hne
  obtain ⟨row, hget⟩ := Option.isSome_iff_exists.mp (hsome hwidth)
  rw [hget, Option.getD_some] at hself
  subst hself
  unfold Image.encodeRow
  -- the row is not empty, so it has a first rectangle and a last
  generalize indices getRgbaAt colors' y image.width = l at *
  obtain ⟨first, hfirst⟩ := Option.isSome_iff_exists.mp (List.isSome_head?.mpr (encode_ne_nil hne))
  obtain ⟨last, hlast⟩ := Option.isSome_iff_exists.mp (List.getLast?_isSome.mpr (encode_ne_nil hne))
  have hhead : (toRects (encode l)).head? = some ⟨first.1, first.2⟩ := by
    rw [toRects, List.head?_map, hfirst]
    rfl
  have hend : (toRects (encode l)).getLast? = some ⟨last.1, last.2⟩ := by
    rw [toRects, List.getLast?_map, hlast]
    rfl
  have hblank : image.isEmptyRow (some ⟨first.1, first.2⟩) = decide (Blank l) := by
    rw [← hhead, Bool.eq_iff_iff, hempty, decide_eq_true_eq]
  have hrows : Function.update rows y (some (rowOf image.width l))
      = Function.update image.rows y (some (rowOf image.width l)) := by
    funext j
    by_cases hj : j = y
    · subst hj
      rw [Function.update_self, Function.update_self]
    · rw [Function.update_of_ne hj, Function.update_of_ne hj, hother j hj]
  have hbounds : rowOf image.width l
      = ⟨toRects (encode l), ⟨first.1, image.width - last.1⟩⟩ := by
    rw [rowOf, hfirst, hlast]
    rfl
  rw [heq]
  simp only [Image.updateImageBounds, hget, Option.bind_eq_bind, Option.bind_some, hhead, hend]
  rw [← hrows, hbounds]
  exact congrArg (fun b => some ((⟨image.width, image.height, _, Image.trackBounds y b image.bounds,
    image.rle⟩ : Image), colors')) hblank

/-! ## The bounds -/

/-- What the top and bottom bounds are after `n` rows. -/
def Tracked (blank : Nat → Prop) (n : Nat) (b : ImageBounds) : Prop :=
  ((∀ y, y < n → blank y) ∧ b.top = 0 ∧ b.bottom = 0)
    ∨ ∃ last, 0 < b.top ∧ b.top ≤ last ∧ last < n ∧ ¬ blank b.top ∧ ¬ blank last
      ∧ (∀ y, y < b.top → blank y) ∧ (∀ y, last < y → y < n → blank y)
      ∧ b.bottom = if last + 1 = n ∧ last ≠ 31 then 0 else last

theorem Tracked.congr {blank blank' : Nat → Prop} {b : ImageBounds} (h : Tracked blank n b)
    (heq : ∀ y, y < n → (blank y ↔ blank' y)) : Tracked blank' n b := by
  rcases h with ⟨hall, htop, hbottom⟩ | ⟨last, hpos, hle, hlt, hnt, hnl, hbefore, hafter, hbottom⟩
  · exact .inl ⟨fun y hy => (heq y hy).mp (hall y hy), htop, hbottom⟩
  · refine .inr ⟨last, hpos, hle, hlt, ?_, ?_, ?_, ?_, hbottom⟩
    · exact fun h => hnt ((heq _ (by omega)).mpr h)
    · exact fun h => hnl ((heq _ hlt).mpr h)
    · intro y hy
      exact (heq y (by omega)).mp (hbefore y hy)
    · intro y hy hy'
      exact (heq y hy').mp (hafter y hy hy')

theorem Tracked.next {blank : Nat → Prop} {b : ImageBounds} {e : Bool} (h : Tracked blank n b)
    (h0 : blank 0) (he : e = true ↔ blank n) : Tracked blank (n + 1) (Image.trackBounds n e b) := by
  rcases h with ⟨hall, htop, hbottom⟩ | ⟨last, hpos, hle, hlt, hnt, hnl, hbefore, hafter, hbottom⟩
  · cases e with
    | true =>
        have hn : blank n := he.mp rfl
        have hb : Image.trackBounds n true b = b := by simp [Image.trackBounds, htop]
        rw [hb]
        refine .inl ⟨?_, htop, hbottom⟩
        intro y hy
        rcases Nat.lt_succ_iff_lt_or_eq.mp hy with hy | rfl
        · exact hall y hy
        · exact hn
    | false =>
        -- the first row that is not blank; it is not row 0
        have hn : ¬ blank n := fun hb => absurd (he.mpr hb) (by decide)
        have hpos : 0 < n := Nat.pos_of_ne_zero fun hz => hn (hz ▸ h0)
        have htop' : (Image.trackBounds n false b).top = n := by
          simp only [Image.trackBounds, htop]
          split_ifs <;> simp_all
        have hbottom' : (Image.trackBounds n false b).bottom = if n = 31 then n else 0 := by
          simp only [Image.trackBounds, htop]
          split_ifs <;> simp_all
        refine .inr ⟨n, ?_, ?_, Nat.lt_succ_self n, ?_, hn, ?_, ?_, ?_⟩
        · omega
        · omega
        · rw [htop']
          exact hn
        · intro y hy
          rw [htop'] at hy
          exact hall y hy
        · intro y hy hy'
          omega
        · rw [hbottom']
          split_ifs <;> omega
  · have hne : b.top ≠ 0 := Nat.ne_of_gt hpos
    cases e with
    | true =>
        have hn : blank n := he.mp rfl
        have htop' : (Image.trackBounds n true b).top = b.top := by
          simp only [Image.trackBounds, hne]
          split_ifs <;> simp_all
        have hbottom' : (Image.trackBounds n true b).bottom
            = if b.bottom = 0 then n - 1 else b.bottom := by
          simp only [Image.trackBounds, hne]
          split_ifs <;> simp_all
        refine .inr ⟨last, by omega, by omega, by omega, by rwa [htop'], hnl, fun y hy => ?_,
          fun y hy hy' => ?_, ?_⟩
        · rw [htop'] at hy
          exact hbefore y hy
        · rcases Nat.lt_succ_iff_lt_or_eq.mp hy' with hy' | rfl
          · exact hafter y hy hy'
          · exact hn
        · rw [hbottom', hbottom]
          split_ifs <;> omega
    | false =>
        have hn : ¬ blank n := fun hb => absurd (he.mpr hb) (by decide)
        have htop' : (Image.trackBounds n false b).top = b.top := by
          simp only [Image.trackBounds, hne]
          split_ifs <;> simp_all
        have hbottom' : (Image.trackBounds n false b).bottom = if n = 31 then n else 0 := by
          simp only [Image.trackBounds, hne]
          split_ifs <;> simp_all
        refine .inr ⟨n, by omega, by omega, Nat.lt_succ_self n, by rwa [htop'], hn, fun y hy => ?_,
          fun y hy hy' => by omega, ?_⟩
        · rw [htop'] at hy
          exact hbefore y hy
        · rw [hbottom']
          split_ifs <;> omega

/-! ## All rows -/

theorem hex_ne_empty (c : RGBAColor) : c.hex ≠ "" := by
  intro h
  have hlist := congrArg String.toList h
  simp only [RGBAColor.hex, rgbToHex, toPaddedHex, String.toList_append, String.toList_ofList] at hlist
  have hnil := (List.append_eq_nil_iff.mp (List.append_eq_nil_iff.mp hlist).1).1
  exact Nat.toDigits_ne_nil (List.append_eq_nil_iff.mp hnil).2

/-- Only what is transparent has index 0. -/
theorem PaletteOk.colorIndex_eq_zero (h : PaletteOk colors) {c : RGBAColor}
    (hc : (colors.get? c.hex).isSome = true) : colorIndex colors c = 0 ↔ c.a = 0 := by
  obtain ⟨v, hv⟩ := Option.isSome_iff_exists.mp hc
  rw [colorIndex, hv]
  split
  · next ha => simp [ha]
  · next ha =>
      constructor
      · intro hz
        obtain rfl : v = 0 := hz
        exact absurd (h.injective _ _ _ hv h.transparent) (hex_ne_empty c)
      · exact fun h => absurd h ha

/-- A row of transparent pixels. -/
def Clear (getRgbaAt : Nat → Nat → RGBAColor) (width y : Nat) : Prop :=
  ∀ x, x < width → (getRgbaAt x y).a = 0

theorem blank_indices (h : PaletteOk colors) (hk : Known getRgbaAt colors y n) :
    Blank (indices getRgbaAt colors y n) ↔ Clear getRgbaAt n y := by
  constructor
  · intro hb x hx
    exact (h.colorIndex_eq_zero (hk x hx)).mp
      (hb _ (List.mem_of_getElem? (getElem?_indices hx)))
  · intro hc v hv
    obtain ⟨x, hx, rfl⟩ := List.mem_map.mp hv
    have hx := List.mem_range.mp hx
    exact (h.colorIndex_eq_zero (hk x hx)).mpr (hc x hx)

/-- The rows of an image, by the palette at the end. -/
def rowsOf (getRgbaAt : Nat → Nat → RGBAColor) (colors : Colors) (width n : Nat) :
    Nat → Option ImageRow :=
  fun y => if y < n then some (rowOf width (indices getRgbaAt colors y width)) else none

/-- The colours of the first `n` rows. -/
def hexesOf (getRgbaAt : Nat → Nat → RGBAColor) (width n : Nat) : List String :=
  (List.range n).flatMap fun y => rowHexes getRgbaAt y width

variable {width : Nat}

theorem hexesOf_succ :
    hexesOf getRgbaAt width (n + 1) = hexesOf getRgbaAt width n ++ rowHexes getRgbaAt n width := by
  rw [hexesOf, List.range_succ, List.flatMap_append, List.flatMap_singleton]
  rfl

theorem known_image (hy : y < n) :
    Known getRgbaAt (learnAll colors (hexesOf getRgbaAt width n)) y width := fun x hx =>
  learnAll_known (List.mem_flatMap.mpr ⟨y, List.mem_range.mpr hy,
    List.mem_map.mpr ⟨x, List.mem_range.mpr hx, rfl⟩⟩)

/-- Reading row 0 leaves the bounds as they are: a top bound of 0 is one that is not set. -/
theorem trackBounds_zero {b : ImageBounds} (h : b.top = 0) (e e' : Bool) :
    Image.trackBounds 0 e b = Image.trackBounds 0 e' b := by
  obtain ⟨top, right, bottom, left⟩ := b
  obtain rfl : top = 0 := h
  cases e <;> cases e' <;> rfl

theorem trackBounds_sides {b : ImageBounds} {e : Bool} :
    (Image.trackBounds y e b).left = b.left ∧ (Image.trackBounds y e b).right = b.right := by
  unfold Image.trackBounds
  dsimp only
  split_ifs <;> exact ⟨rfl, rfl⟩

/-- **The first pass.** Row 0 counts as blank whatever is in it. -/
theorem encodeLoop (getRgbaAt : Nat → Nat → RGBAColor) (colors : Colors) (height : Nat)
    (hwidth : 0 < width) (n : Nat) :
    ∃ b, (List.range n).foldlM (Image.encodeRow getRgbaAt) (.new width height, colors)
        = some ({ Image.new width height with
            rows := rowsOf getRgbaAt (learnAll colors (hexesOf getRgbaAt width n)) width n
            bounds := b }, learnAll colors (hexesOf getRgbaAt width n))
      ∧ Tracked (fun y => y = 0 ∨ Blank (indices getRgbaAt
          (learnAll colors (hexesOf getRgbaAt width n)) y width)) n b
      ∧ b.left = 0 ∧ b.right = 0 := by
  induction n with
  | zero =>
      refine ⟨⟨0, 0, 0, 0⟩, ?_, .inl ⟨fun _ h => absurd h (Nat.not_lt_zero _), rfl, rfl⟩, rfl, rfl⟩
      rw [List.range_zero, List.foldlM_nil]
      rfl
  | succ n ih =>
      obtain ⟨b, heq, htracked, hleft, hright⟩ := ih
      have hknown : ∀ y, y < n →
          Known getRgbaAt (learnAll colors (hexesOf getRgbaAt width n)) y width := fun y hy =>
        known_image hy
      have hlearned : learnAll colors (hexesOf getRgbaAt width (n + 1))
          = learnAll (learnAll colors (hexesOf getRgbaAt width n)) (rowHexes getRgbaAt n width) := by
        rw [hexesOf_succ, learnAll_append]
      have hgrows : Grows (learnAll colors (hexesOf getRgbaAt width n))
          (learnAll colors (hexesOf getRgbaAt width (n + 1))) := by
        rw [hlearned]
        exact learnAll_grows
      have hrow := encodeRow_some getRgbaAt { Image.new width height with
        rows := rowsOf getRgbaAt (learnAll colors (hexesOf getRgbaAt width n)) width n
        bounds := b } n hwidth (if_neg (Nat.lt_irrefl n)) hlearned
      generalize learnAll colors (hexesOf getRgbaAt width (n + 1)) = colors₂ at *
      generalize learnAll colors (hexesOf getRgbaAt width n) = colors₁ at *
      -- the rows read so far are blank by the new palette if they were by the old one
      have htracked' : Tracked (fun y => y = 0 ∨ Blank (indices getRgbaAt colors₂ y width)) n b :=
        htracked.congr fun y hy => by rw [(hknown y hy).indices_eq hgrows]
      refine ⟨Image.trackBounds n (decide (Blank (indices getRgbaAt colors₂ n width))) b, ?_, ?_,
        trackBounds_sides.1.trans hleft, trackBounds_sides.2.trans hright⟩
      · rw [List.range_succ, List.foldlM_append, heq, Option.bind_eq_bind, Option.bind_some,
          List.foldlM_cons, hrow]
        simp only [Option.bind_eq_bind, Option.bind_some, List.foldlM_nil]
        have hrows : Function.update (rowsOf getRgbaAt colors₁ width n) n
            (some (rowOf width (indices getRgbaAt colors₂ n width)))
            = rowsOf getRgbaAt colors₂ width (n + 1) := by
          funext y
          unfold rowsOf
          rcases Nat.lt_trichotomy y n with hy | rfl | hy
          · rw [Function.update_of_ne (Nat.ne_of_lt hy), if_pos hy, if_pos (by omega),
              (hknown y hy).indices_eq hgrows]
          · rw [Function.update_self, if_pos (Nat.lt_succ_self y)]
          · rw [Function.update_of_ne (Nat.ne_of_gt hy), if_neg (by omega), if_neg (by omega)]
        exact congrArg (fun rows => some ((⟨width, height, rows, _, none⟩ : Image), colors₂)) hrows
      · cases n with
        | zero =>
            -- whatever row 0 is, the bounds are those after a blank row
            have hb : b.top = 0 := by
              rcases htracked with ⟨-, htop, -⟩ | ⟨last, -, -, hlt, -⟩
              · exact htop
              · exact absurd hlt (Nat.not_lt_zero _)
            have hzero := trackBounds_zero hb
              (decide (Blank (indices getRgbaAt colors₂ 0 width))) true
            rw [hzero]
            exact htracked'.next (.inl rfl) (by simp)
        | succ n =>
            refine htracked'.next (.inl rfl) ?_
            rw [decide_eq_true_iff]
            simp

/-- Where row 0 is clear it counts like the others. -/
theorem Tracked.clear {b : ImageBounds} (hok : PaletteOk colors)
    (hknown : ∀ y, y < n → Known getRgbaAt colors y width) (h0 : Clear getRgbaAt width 0)
    (h : Tracked (fun y => y = 0 ∨ Blank (indices getRgbaAt colors y width)) n b) :
    Tracked (Clear getRgbaAt width) n b := by
  refine h.congr ?_
  intro y hy
  rw [blank_indices hok (hknown y hy)]
  constructor
  · intro hin
    rcases hin with rfl | hclear
    · exact h0
    · exact hclear
  · exact .inr

end Nouns.Sdk
