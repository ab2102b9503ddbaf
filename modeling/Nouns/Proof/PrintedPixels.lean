import Nouns.Proof.BoundingBox

/-!
# The pixels that are in a string

The rows outside the top and the bottom bound are not written, and of a row neither is the run at
an edge that ends at a bound. Which pixels that leaves can be told from the image, if the
palette tells its colours apart.
-/

namespace Nouns.Sdk

open RunLength

/-! ## The runs of a row -/

variable {width height : Nat} {b : ImageBounds} {l : List Nat} {before after : List (Nat × Nat)}
  {r : Nat × Nat}

theorem rowOf_left_run (h : encode l = before ++ r :: after) :
    (before = [] ∧ (rowOf width l).bounds.left = r.1)
      ∨ before ≠ [] ∧ (rowOf width l).bounds.left ≤ (expand before).length := by
  rcases before with - | ⟨first, before⟩
  · refine .inl ⟨rfl, ?_⟩
    rw [rowOf, h]
    rfl
  · refine .inr ⟨List.cons_ne_nil _ _, ?_⟩
    rw [rowOf, h]
    have hle : first.1 ≤ (expand (first :: before)).length := length_le_expand List.mem_cons_self
    exact hle

theorem rowOf_right_run (hlen : l.length = width) (h : encode l = before ++ r :: after) :
    (after = [] ∧ (rowOf width l).bounds.right = (expand before).length)
      ∨ after ≠ [] ∧ (expand before).length + r.1 ≤ (rowOf width l).bounds.right := by
  have hlength := length_split h
  rcases List.eq_nil_or_concat after with rfl | ⟨after, last, rfl⟩
  · refine .inl ⟨rfl, ?_⟩
    have hlast : (encode l).getLast? = some r := by rw [h, List.getLast?_concat]
    have hnil : (expand ([] : List (Nat × Nat))).length = 0 := rfl
    rw [rowOf, hlast]
    show width - r.1 = _
    omega
  · rw [List.concat_eq_append] at *
    refine .inr ⟨by simp, ?_⟩
    have hlast : (encode l).getLast? = some last := by
      rw [h, ← List.cons_append, ← List.append_assoc, List.getLast?_concat]
    have hle : last.1 ≤ (expand (after ++ [last])).length :=
      length_le_expand (List.mem_append_right _ List.mem_cons_self)
    rw [rowOf, hlast]
    show _ ≤ width - last.1
    omega

/-- What is written for a run are its length and its index, or nothing. -/
theorem encodeRect_pair {n i : Nat} {rect : Rect} : Image.encodeRect width b n i rect = []
    ∨ ∃ k, Image.encodeRect width b n i rect = [k, (rect.colorIndex : Int)] := by
  unfold Image.encodeRect
  split_ifs
  all_goals first | exact .inl rfl | exact .inr ⟨_, rfl⟩

/-- **A run is written** if it is the whole row or reaches between the bounds. -/
theorem encodeRect_iff (hlen : l.length = width) (h : encode l = before ++ r :: after)
    (hleft : b.left ≤ (rowOf width l).bounds.left) (hright : (rowOf width l).bounds.right ≤ b.right)
    (hedge : b.right ≤ width) :
    Image.encodeRect width b (encode l).length before.length ⟨r.1, r.2⟩ ≠ []
      ↔ (before = [] ∧ after = []) ∨ ∃ c, b.left ≤ c ∧ c < b.right ∧ (expand before).length ≤ c
        ∧ c < (expand before).length + r.1 := by
  have hlength := length_split h
  have hpos : 0 < r.1 := encode_positive l r (by
    rw [h]
    exact List.mem_append_right _ List.mem_cons_self)
  have hcount : (encode l).length = before.length + (after.length + 1) := by
    rw [h, List.length_append, List.length_cons]
  rw [hcount]
  unfold Image.encodeRect
  rcases @rowOf_left_run width l before after r h with ⟨rfl, hl⟩ | ⟨hbefore, hl⟩
  · have hnil : (expand ([] : List (Nat × Nat))).length = 0 := rfl
    rcases rowOf_right_run hlen h with ⟨rfl, hr⟩ | ⟨hafter, hr⟩
    · rw [if_pos ⟨rfl, rfl⟩]
      exact iff_of_true (List.cons_ne_nil _ _) (.inl ⟨rfl, rfl⟩)
    · -- the first run of several
      have hmore : 0 < after.length := List.length_pos_iff.mpr hafter
      rw [if_neg (by simp; omega)]
      by_cases hcut : b.left < r.1
      · rw [if_pos ⟨rfl, hcut⟩]
        exact iff_of_true (List.cons_ne_nil _ _)
          (.inr ⟨b.left, Nat.le_refl _, by omega, by omega, by omega⟩)
      · rw [if_neg (fun hin => hcut hin.2), if_pos ⟨rfl, by show r.1 = b.left; omega⟩]
        refine iff_of_false (not_not.mpr rfl) ?_
        rintro (⟨-, hnone⟩ | ⟨c, hlo, -, -, hlt⟩)
        · exact hafter hnone
        · omega
  · have hfirst : 0 < before.length := List.length_pos_iff.mpr hbefore
    rw [if_neg (by omega), if_neg (by omega), if_neg (by omega)]
    rcases rowOf_right_run hlen h with ⟨rfl, hr⟩ | ⟨hafter, hr⟩
    · -- the last run
      have hnil : (expand ([] : List (Nat × Nat))).length = 0 := rfl
      have hend : before.length + 1 = before.length + (([] : List (Nat × Nat)).length + 1) := rfl
      by_cases hcut : (width - b.right : Int) < r.1
      · rw [if_pos ⟨hend, hcut⟩]
        exact iff_of_true (List.cons_ne_nil _ _)
          (.inr ⟨b.right - 1, by omega, by omega, by omega, by omega⟩)
      · rw [if_neg (fun hin => hcut hin.2), if_pos ⟨hend, by show (r.1 : Int) = _; omega⟩]
        refine iff_of_false (not_not.mpr rfl) ?_
        rintro (⟨hnone, -⟩ | ⟨c, -, hlt, hlo, -⟩)
        · exact hbefore hnone
        · omega
    · -- a run between two others
      have hmore : 0 < after.length := List.length_pos_iff.mpr hafter
      rw [if_neg (by omega), if_neg (by omega)]
      exact iff_of_true (List.cons_ne_nil _ _)
        (.inr ⟨(expand before).length, by omega, by omega, Nat.le_refl _, by omega⟩)

/-- Two bytes are written for the run that pixel `x` of row `y` is in, and the second is `c`. -/
def Inscribed (image : Image) (x y c : Nat) : Prop :=
  ∃ row before rect after k, image.rows y = some row ∧ row.rects = before ++ rect :: after
    ∧ Image.encodeRect image.width image.bounds row.rects.length before.length rect = [k, (c : Int)]
    ∧ (before.map Rect.length).sum ≤ x ∧ x < (before.map Rect.length).sum + rect.length

theorem sum_toRects (rs : List (Nat × Nat)) :
    ((toRects rs).map Rect.length).sum = (expand rs).length := by
  rw [toRects, expand, List.length_flatMap, List.map_map]
  simp [Function.comp_def]

theorem toRects_split {rects rects' : List Rect} {rect : Rect} {rs : List (Nat × Nat)} :
    toRects rs = rects ++ rect :: rects' ↔ ∃ before r after, rs = before ++ r :: after
      ∧ rects = toRects before ∧ rect = ⟨r.1, r.2⟩ ∧ rects' = toRects after := by
  constructor
  · intro h
    obtain ⟨before, rest, rfl, rfl, hrest⟩ := List.map_eq_append_iff.mp h
    obtain ⟨r, after, rfl, rfl, rfl⟩ := List.map_eq_cons_iff.mp hrest
    exact ⟨before, r, after, rfl, rfl, rfl, rfl⟩
  · rintro ⟨before, r, after, rfl, rfl, rfl, rfl⟩
    exact List.map_append

/-- **What is written of a row**: the runs that are all of it or reach between the bounds. -/
theorem inscribed_row {image : Image} (hwidth : image.width = width) {x y c : Nat}
    (hlen : l.length = width) (hrow : image.rows y = some (rowOf width l))
    (hleft : image.bounds.left ≤ (rowOf width l).bounds.left)
    (hright : (rowOf width l).bounds.right ≤ image.bounds.right)
    (hedge : image.bounds.right ≤ width) :
    Inscribed image x y c ↔ l[x]? = some c ∧ ((∀ k, k < width → l[k]? = l[x]?)
      ∨ ∃ k, image.bounds.left ≤ k ∧ k < image.bounds.right
        ∧ ∀ j, min x k ≤ j → j ≤ max x k → l[j]? = l[x]?) := by
  subst hwidth
  have hwritten : ∀ {before r after}, encode l = before ++ r :: after →
      (expand before).length ≤ x → x < (expand before).length + r.1 →
      (Image.encodeRect image.width image.bounds (encode l).length before.length ⟨r.1, r.2⟩ ≠ []
        ↔ (∀ k, k < image.width → l[k]? = l[x]?)
          ∨ ∃ k, image.bounds.left ≤ k ∧ k < image.bounds.right
            ∧ ∀ j, min x k ≤ j → j ≤ max x k → l[j]? = l[x]?) := by
    intro before r after h hlo hlt
    have hlength := length_split h
    have hall := encode_positive l
    rw [h] at hall
    rw [encodeRect_iff hlen h hleft hright hedge]
    refine or_congr ?_ (exists_congr fun k => and_congr_right fun _ => and_congr_right fun hk => ?_)
    · constructor
      · rintro ⟨rfl, rfl⟩ k hk
        have hnil : (expand ([] : List (Nat × Nat))).length = 0 := rfl
        rw [getElem?_run h (by omega) (by omega), getElem?_run h hlo hlt]
      · intro hsame
        have hfrom := (reaches_iff h hlo hlt (c := 0) (by omega)).mp
          fun k _ hk => hsame k (by omega)
        have hto := (reaches_iff h hlo hlt (c := l.length - 1) (by omega)).mp
          fun k _ hk => hsame k (by omega)
        exact ⟨Positive.eq_nil (fun r hr => hall r (List.mem_append_left _ hr)) (by omega),
          Positive.eq_nil (fun r hr => hall r (List.mem_append_right _ (List.mem_cons_of_mem _ hr)))
            (by omega)⟩
    · exact (reaches_iff h hlo hlt (by omega)).symm
  have hlength : ∀ rs : List (Nat × Nat), (toRects rs).length = rs.length := fun rs =>
    List.length_map _
  have hrects : (rowOf image.width l).rects.length = (encode l).length := hlength _
  constructor
  · rintro ⟨row, rects, rect, rects', k, hrow', hsplit, hpair, hlo, hlt⟩
    obtain rfl := Option.some.inj (hrow.symm.trans hrow')
    obtain ⟨before, r, after, h, rfl, rfl, rfl⟩ := toRects_split.mp hsplit
    rw [sum_toRects] at hlo hlt
    rw [hrects, hlength] at hpair
    have hne := hpair ▸ List.cons_ne_nil (k : Int) [(c : Int)]
    rcases @encodeRect_pair image.width image.bounds (encode l).length before.length ⟨r.1, r.2⟩
      with hnil | ⟨k', hpair'⟩
    · exact absurd hnil hne
    · have hc : r.2 = c := Int.ofNat.inj (List.cons.inj (List.cons.inj (hpair'.symm.trans hpair)).2).1
      rw [← hc]
      exact ⟨getElem?_run h hlo hlt, (hwritten h hlo hlt).mp hne⟩
  · rintro ⟨hx, hrun⟩
    have hxlen : x < (expand (encode l)).length := by
      rw [expand_encode]
      exact (List.getElem?_eq_some_iff.mp hx).1
    obtain ⟨before, r, after, h, hlo, hlt⟩ := run_at hxlen
    obtain rfl : r.2 = c := Option.some.inj ((getElem?_run h hlo hlt).symm.trans hx)
    rcases @encodeRect_pair image.width image.bounds (encode l).length before.length ⟨r.1, r.2⟩
      with hnil | ⟨k, hpair⟩
    · exact absurd hnil ((hwritten h hlo hlt).mpr hrun)
    · refine ⟨_, toRects before, ⟨r.1, r.2⟩, toRects after, k, hrow,
        toRects_split.mpr ⟨before, r, after, h, rfl, rfl, rfl⟩, ?_, ?_⟩
      · rw [hrects, hlength]
        exact hpair
      · rw [sum_toRects]
        exact ⟨hlo, hlt⟩

/-! ## The rows that are kept -/

/-- Rows that count as clear and are not row 0 are kept between others that do not; the rows to the
last, if that is clear or is the thirty-second. If all others are clear, row 0 is kept. -/
def Spans (clear : Nat → Prop) (height y : Nat) : Prop :=
  (y = 0 ∧ ∀ y', 0 < y' → y' < height → clear y')
    ∨ (clear (height - 1) ∨ height = 32) ∧ ∃ top bottom, 0 < top ∧ top ≤ y ∧ y ≤ bottom
      ∧ bottom < height ∧ ¬ clear top ∧ ¬ clear bottom

theorem Tracked.kept_iff {clear : Nat → Prop} (h : Tracked (fun y => y = 0 ∨ clear y) height b)
    {y : Nat} (hy : y < height) : (b.top ≤ y ∧ y ≤ b.bottom) ↔ Spans clear height y := by
  unfold Spans
  rcases h with ⟨hall, htop, hbottom⟩ | ⟨last, hpos, hle, hlt, hnt, hnl, hbefore, hafter, hbottom⟩
  · have hclear : ∀ y', 0 < y' → y' < height → clear y' := fun y' hpos hlt =>
      (hall y' hlt).resolve_left (Nat.ne_of_gt hpos)
    constructor
    · intro hin
      exact .inl ⟨by omega, hclear⟩
    · rintro (⟨rfl, -⟩ | ⟨-, top, bottom, hpos, hle, hle', hlt, hn, -⟩)
      · omega
      · exact absurd (hclear top hpos (by omega)) hn
  · have hnt : ¬ clear b.top := fun hc => hnt (.inr hc)
    have hnl : ¬ clear last := fun hc => hnl (.inr hc)
    constructor
    · intro hin
      refine .inr ⟨?_, b.top, last, hpos, hin.1, ?_, hlt, hnt, hnl⟩
      · by_cases hend : last + 1 = height
        · -- the last row is not clear, so it is the thirty-second
          refine .inr (by_contra fun h32 => ?_)
          rw [if_pos ⟨hend, by omega⟩] at hbottom
          omega
        · exact .inl ((hafter (height - 1) (by omega) (by omega)).resolve_left (by omega))
      · split_ifs at hbottom <;> omega
    · rintro (⟨rfl, hclear⟩ | ⟨hend, top, bottom, htop, hle', hle'', hlt', hn, hn'⟩)
      · exact absurd (hclear b.top hpos (by omega)) hnt
      · have hlast : b.bottom = last := by
          rw [hbottom, if_neg]
          rintro ⟨hheight, h31⟩
          rcases hend with hc | rfl
          · exact hnl (by rwa [show last = height - 1 by omega])
          · omega
        have hlo : b.top ≤ top := Nat.le_of_not_lt fun hbt =>
          (hbefore top hbt).elim (Nat.ne_of_gt htop) hn
        have hhi : bottom ≤ last := Nat.le_of_not_lt fun hal =>
          (hafter bottom hal hlt').elim (fun hz => by omega) hn'
        omega

/-! ## The columns between the bounds -/

variable {rows : List ImageRow}

theorem cutBounds_left_le (hne : rows ≠ []) {k : Nat} :
    (cutBounds b rows).left ≤ k ↔ ∃ row ∈ rows, row.bounds.left ≤ k := by
  constructor
  · intro hle
    obtain ⟨row, hrow, hleft⟩ := cutBounds_left (b := b) hne
    exact ⟨row, hrow, hleft ▸ hle⟩
  · rintro ⟨row, hrow, hle⟩
    exact Nat.le_trans (cutBounds_mem hrow).1 hle

theorem lt_cutBounds_right (hne : rows ≠ []) {k : Nat} :
    k < (cutBounds b rows).right ↔ ∃ row ∈ rows, k < row.bounds.right := by
  constructor
  · intro hlt
    obtain ⟨row, hrow, hright⟩ := cutBounds_right (b := b) hne
    exact ⟨row, hrow, hright ▸ hlt⟩
  · rintro ⟨row, hrow, hlt⟩
    exact Nat.lt_of_lt_of_le hlt (cutBounds_mem hrow).2

/-- The left bound of a row is behind its first value. -/
theorem rowOf_left_le (hlen : l.length = width) {k : Nat} (hk : k < width) :
    (rowOf width l).bounds.left ≤ k ↔ ∃ k', k' ≤ k ∧ l[k']? ≠ l[0]? := by
  obtain ⟨first, -, hfirst, -, hpos, -, hleft, -⟩ := @rowOf_runs width l
    (List.ne_nil_of_length_pos (by omega))
  rw [hleft]
  constructor
  · intro hle
    obtain ⟨a, ha, hne⟩ := getElem?_behind_head hfirst (by omega)
    refine ⟨first.1, hle, fun heq => hne ?_⟩
    exact Option.some.inj (ha.symm.trans (heq.trans (getElem?_head hfirst hpos)))
  · rintro ⟨k', hle, hne⟩
    refine Nat.le_of_not_lt fun hlt => hne ?_
    rw [getElem?_head hfirst (by omega), getElem?_head hfirst hpos]

/-- The right bound of a row is before its last value. -/
theorem lt_rowOf_right (hlen : l.length = width) {k : Nat} (hk : k < width) :
    k < (rowOf width l).bounds.right ↔ ∃ k', k ≤ k' ∧ k' < width ∧ l[k']? ≠ l[width - 1]? := by
  obtain ⟨-, last, -, hlast, -, hpos, -, hright⟩ := @rowOf_runs width l
    (List.ne_nil_of_length_pos (by omega))
  subst hlen
  rw [hright]
  constructor
  · intro hlt
    obtain ⟨a, ha, hne⟩ := getElem?_before_getLast hlast (by omega)
    refine ⟨l.length - last.1 - 1, by omega, by omega, fun heq => hne ?_⟩
    exact Option.some.inj (ha.symm.trans (heq.trans
      (getElem?_getLast hlast (by omega) (by omega))))
  · rintro ⟨k', hle, hlt, hne⟩
    refine Nat.lt_of_not_le fun hin => hne ?_
    rw [getElem?_getLast hlast (by omega) hlt, getElem?_getLast hlast (by omega) (by omega)]

/-! ## The pixels -/

/-- What a pixel looks like: its colour, or the transparent entry. -/
def shade (c : RGBAColor) : String := if c.a = 0 then "" else c.hex

section
variable (getRgbaAt : Nat → Nat → RGBAColor) (width height : Nat)

/-- Row `y` is in the string. -/
def RowKept (y : Nat) : Prop := y < height ∧ Spans (Clear getRgbaAt width) height y

/-- Column `k` is between the bounds: a row of the string has changed its colour by then, and one
will change it yet. -/
def Spanned (k : Nat) : Prop :=
  (∃ y k', RowKept getRgbaAt width height y ∧ k' ≤ k
      ∧ shade (getRgbaAt k' y) ≠ shade (getRgbaAt 0 y))
    ∧ ∃ y k', RowKept getRgbaAt width height y ∧ k ≤ k' ∧ k' < width
      ∧ shade (getRgbaAt k' y) ≠ shade (getRgbaAt (width - 1) y)

/-- Pixel `x` of row `y` is in the string: so is its row, and this is all alike or is like the pixel
up to a column between the bounds. -/
structure Printed (x y : Nat) : Prop where
  column : x < width
  row : RowKept getRgbaAt width height y
  run : (∀ k, k < width → shade (getRgbaAt k y) = shade (getRgbaAt x y))
    ∨ ∃ k, k < width ∧ Spanned getRgbaAt width height k
      ∧ ∀ j, min x k ≤ j → j ≤ max x k → shade (getRgbaAt j y) = shade (getRgbaAt x y)

end

variable {colors : Colors} {getRgbaAt : Nat → Nat → RGBAColor}

/-- A pixel's index is that of what it looks like. -/
theorem PaletteOk.get?_shade (hok : PaletteOk colors) {c : RGBAColor}
    (hc : (colors.get? c.hex).isSome = true) :
    colors.get? (shade c) = some (colorIndex colors c) := by
  obtain ⟨v, hv⟩ := Option.isSome_iff_exists.mp hc
  unfold shade colorIndex
  split_ifs
  · exact hok.transparent
  · rw [hv]
    rfl

/-- Two pixels have one index if they look alike. -/
theorem PaletteOk.colorIndex_iff (hok : PaletteOk colors) {c c' : RGBAColor}
    (hc : (colors.get? c.hex).isSome = true) (hc' : (colors.get? c'.hex).isSome = true) :
    colorIndex colors c = colorIndex colors c' ↔ shade c = shade c' := by
  constructor
  · intro heq
    exact hok.injective _ _ _ (hok.get?_shade hc) (heq ▸ hok.get?_shade hc')
  · intro heq
    have hsame := hok.get?_shade hc
    rw [heq, hok.get?_shade hc'] at hsame
    exact (Option.some.inj hsame).symm

theorem PaletteOk.getElem?_iff (hok : PaletteOk colors) {y : Nat}
    (hknown : Known getRgbaAt colors y width) {x k : Nat} (hx : x < width) (hk : k < width) :
    (indices getRgbaAt colors y width)[k]? = (indices getRgbaAt colors y width)[x]?
      ↔ shade (getRgbaAt k y) = shade (getRgbaAt x y) := by
  rw [getElem?_indices hk, getElem?_indices hx, Option.some.injEq]
  exact hok.colorIndex_iff (hknown k hk) (hknown x hx)

theorem rows_kept (htracked : Tracked (fun y => y = 0 ∨ Clear getRgbaAt width y) height b) {y : Nat}
    {row : ImageRow} : (readImage getRgbaAt colors width height b).deleteEmptyRows.rows y = some row
      ↔ RowKept getRgbaAt width height y ∧ row = rowOf width (indices getRgbaAt colors y width) := by
  show (if y < b.top ∨ b.bottom < y ∧ y < height then none
    else rowsOf getRgbaAt colors width height y) = some row ↔ _
  unfold rowsOf RowKept
  by_cases hy : y < height
  · rw [if_pos hy, and_iff_right hy, ← htracked.kept_iff hy]
    by_cases hcut : y < b.top ∨ b.bottom < y ∧ y < height
    · rw [if_pos hcut]
      exact iff_of_false nofun fun hin => by omega
    · rw [if_neg hcut, Option.some.injEq, and_iff_right (by omega)]
      exact eq_comm
  · rw [if_neg hy, ite_self]
    exact iff_of_false nofun fun hin => hy hin.1.1

theorem encodeRows_cut {image : Image} (hne : image.rowList ≠ []) :
    image.encodeRows.2 = { image with bounds := cutBounds image.bounds image.rowList } := by
  unfold Image.encodeRows
  rw [if_pos hne]
  by_cases hearly : ExitsEarly image
  · exact congrArg Prod.snd (if_pos hearly)
  · exact congrArg Prod.snd (if_neg hearly)

/-- The columns between the bounds. -/
theorem spanned_iff (hok : PaletteOk colors)
    (hknown : ∀ y, y < height → Known getRgbaAt colors y width)
    (htracked : Tracked (fun y => y = 0 ∨ Clear getRgbaAt width y) height b)
    (hne : (readImage getRgbaAt colors width height b).deleteEmptyRows.rowList ≠ []) {k : Nat}
    (hk : k < width) : Spanned getRgbaAt width height k
      ↔ (cutBounds b (readImage getRgbaAt colors width height b).deleteEmptyRows.rowList).left ≤ k
        ∧ k < (cutBounds b
          (readImage getRgbaAt colors width height b).deleteEmptyRows.rowList).right := by
  have hrows : ∀ P : ImageRow → Prop,
      (∃ row ∈ (readImage getRgbaAt colors width height b).deleteEmptyRows.rowList, P row)
        ↔ ∃ y, RowKept getRgbaAt width height y
          ∧ P (rowOf width (indices getRgbaAt colors y width)) := by
    intro P
    constructor
    · rintro ⟨row, hrow, hP⟩
      obtain ⟨y, -, hy⟩ := List.mem_filterMap.mp hrow
      obtain ⟨hkept, rfl⟩ := (rows_kept htracked).mp hy
      exact ⟨y, hkept, hP⟩
    · rintro ⟨y, hkept, hP⟩
      exact ⟨_, List.mem_filterMap.mpr ⟨y, List.mem_range.mpr hkept.1,
        (rows_kept htracked).mpr ⟨hkept, rfl⟩⟩, hP⟩
  rw [cutBounds_left_le hne, lt_cutBounds_right hne, hrows, hrows, Spanned]
  refine and_congr (exists_congr fun y => ?_) (exists_congr fun y => ?_)
  · rw [exists_and_left]
    refine and_congr_right fun hkept => ?_
    rw [rowOf_left_le length_indices hk]
    refine exists_congr fun k' => and_congr_right fun hk' => not_congr ?_
    exact (hok.getElem?_iff (hknown y hkept.1) (by omega) (by omega)).symm
  · rw [exists_and_left]
    refine and_congr_right fun hkept => ?_
    rw [lt_rowOf_right length_indices hk]
    refine exists_congr fun k' => and_congr_right fun _ => and_congr_right fun hk' => not_congr ?_
    exact (hok.getElem?_iff (hknown y hkept.1) (by omega) hk').symm

/-- **What is written are the printed pixels**, with the indices of their colours. -/
theorem inscribed_iff (hok : PaletteOk colors)
    (hknown : ∀ y, y < height → Known getRgbaAt colors y width)
    (htracked : Tracked (fun y => y = 0 ∨ Clear getRgbaAt width y) height b) {x y c : Nat} :
    Inscribed (readImage getRgbaAt colors width height b).deleteEmptyRows.encodeRows.2 x y c
      ↔ Printed getRgbaAt width height x y ∧ c = colorIndex colors (getRgbaAt x y) := by
  by_cases hkept : RowKept getRgbaAt width height y
  · have hrow : (readImage getRgbaAt colors width height b).deleteEmptyRows.rows y
        = some (rowOf width (indices getRgbaAt colors y width)) :=
      (rows_kept htracked).mpr ⟨hkept, rfl⟩
    have hmem : rowOf width (indices getRgbaAt colors y width)
        ∈ (readImage getRgbaAt colors width height b).deleteEmptyRows.rowList :=
      List.mem_filterMap.mpr ⟨y, List.mem_range.mpr hkept.1, hrow⟩
    have hne := List.ne_nil_of_mem hmem
    obtain ⟨hleft, hright⟩ := cutBounds_mem (b := b) hmem
    have hedge : (cutBounds b
        (readImage getRgbaAt colors width height b).deleteEmptyRows.rowList).right ≤ width := by
      refine Nat.le_of_not_lt fun hlt => ?_
      obtain ⟨row, hin, hlt⟩ := (lt_cutBounds_right hne).mp hlt
      obtain ⟨y', -, rfl⟩ := mem_rowList hin
      exact absurd (Nat.lt_of_lt_of_le hlt (Nat.sub_le _ _)) (Nat.lt_irrefl _)
    have hcell := fun {j} (hj : j < width) (hx : x < width) =>
      hok.getElem?_iff (hknown y hkept.1) hx hj
    have hspanned := fun {k} (hk : k < width) => spanned_iff hok hknown htracked hne hk
    have hcut : (readImage getRgbaAt colors width height b).deleteEmptyRows.encodeRows.2.bounds
        = cutBounds b (readImage getRgbaAt colors width height b).deleteEmptyRows.rowList := by
      rw [encodeRows_cut hne]
      rfl
    have hwidth : (readImage getRgbaAt colors width height b).deleteEmptyRows.encodeRows.2.width
        = width := by
      rw [encodeRows_cut hne]
      rfl
    rw [← hcut] at hleft hright hedge hspanned
    rw [inscribed_row hwidth length_indices (by rw [encodeRows_rows, hrow]) hleft hright hedge]
    constructor
    · rintro ⟨hc, hrun⟩
      have hx : x < width := by
        have hlen := (List.getElem?_eq_some_iff.mp hc).1
        rwa [length_indices] at hlen
      rw [getElem?_indices hx] at hc
      refine ⟨⟨hx, hkept, ?_⟩, (Option.some.inj hc).symm⟩
      rcases hrun with hall | ⟨k, hlo, hlt, hrun⟩
      · exact .inl fun k hk => (hcell hk hx).mp (hall k hk)
      · have hk : k < width := Nat.lt_of_lt_of_le hlt hedge
        exact .inr ⟨k, hk, (hspanned hk).mpr ⟨hlo, hlt⟩,
          fun j hj hj' => (hcell (by omega) hx).mp (hrun j hj hj')⟩
    · rintro ⟨⟨hx, -, hrun⟩, rfl⟩
      refine ⟨getElem?_indices hx, ?_⟩
      rcases hrun with hall | ⟨k, hk, hin, hrun⟩
      · exact .inl fun k hk => (hcell hk hx).mpr (hall k hk)
      · obtain ⟨hlo, hlt⟩ := (hspanned hk).mp hin
        exact .inr ⟨k, hlo, hlt, fun j hj hj' => (hcell (by omega) hx).mpr (hrun j hj hj')⟩
  · refine iff_of_false ?_ fun hin => hkept hin.1.row
    rintro ⟨row, before, rect, after, k, hrow, -⟩
    rw [encodeRows_rows] at hrow
    exact hkept ((rows_kept htracked).mp hrow).1

end Nouns.Sdk
