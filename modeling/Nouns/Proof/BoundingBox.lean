import Mathlib.Order.ConditionallyCompleteLattice.Basic
import Mathlib.Order.Lattice.Nat
import Nouns.Proof.ImageRoundTrip

/-!
# The bounds of an encoded image

The header is the bounding box of the pixels that are not transparent only where the image
leaves a margin. A top bound of 0 is taken for one that is not set, so content in row 0
must be the only content. The last row is known by the number 31, so content in the last
row of an image of another height is lost. And the left and the right bound are where the
outermost runs end, whatever their colour, so both outer columns must be transparent.

What the encoder sees are colour indices. A pixel whose colour has index 0 is to it a
transparent one, so each side of the box must have a pixel of another colour.
-/

namespace Nouns.Sdk

open JsText RunLength

/-! ## The header -/

/-- The bounding box of some pixels. -/
structure Boxes (P : Nat → Nat → Prop) (b : ImageBounds) : Prop where
  top : IsLeast {y | ∃ x, P x y} b.top
  bottom : IsGreatest {y | ∃ x, P x y} b.bottom
  left : IsLeast {x | ∃ y, P x y} b.left
  right : IsGreatest {r | ∃ x y, P x y ∧ r = x + 1} b.right

variable {P Q : Nat → Nat → Prop} {b b' : ImageBounds}

theorem Boxes.unique (h : Boxes P b) (h' : Boxes P b') : b = b' := by
  have htop := h.top.unique h'.top
  have hbottom := h.bottom.unique h'.bottom
  have hleft := h.left.unique h'.left
  have hright := h.right.unique h'.right
  obtain ⟨top, right, bottom, left⟩ := b
  obtain ⟨top', right', bottom', left'⟩ := b'
  rw [ImageBounds.mk.injEq]
  exact ⟨htop, hright, hbottom, hleft⟩

theorem Boxes.congr (h : Boxes P b) (heq : ∀ x y, P x y ↔ Q x y) : Boxes Q b := by
  obtain rfl : P = Q := funext fun x => funext fun y => propext (heq x y)
  exact h

/-- An encoding begins with these bounds. -/
def Heads (b : ImageBounds) (rle : String) : Prop :=
  ∃ rest, rle = Image.getEncodedBounds b ++ rest

/-- The bounds fit into a byte each. -/
structure Fits (b : ImageBounds) : Prop where
  top : b.top < 256
  right : b.right < 256
  bottom : b.bottom < 256
  left : b.left < 256

theorem hexByte_injective {n m : Nat} (hn : n < 256) (hm : m < 256) (h : hexByte n = hexByte m) :
    n = m := by
  rw [← ofHex_hexByte hn, ← ofHex_hexByte hm, h]

/-- An encoding has one header. -/
theorem Heads.unique {rle : String} (h : Heads b rle) (h' : Heads b' rle) (hb : Fits b)
    (hb' : Fits b') : b = b' := by
  obtain ⟨rest, rfl⟩ := h
  obtain ⟨rest', heq⟩ := h'
  rw [getEncodedBounds_eq hb.top hb.right hb.bottom hb.left,
    getEncodedBounds_eq hb'.top hb'.right hb'.bottom hb'.left] at heq
  have hlist := congrArg String.toList heq
  simp only [String.toList_append, String.toList_ofList, List.append_assoc,
    List.append_cancel_left_eq] at hlist
  obtain ⟨htop, hlist⟩ := List.append_inj hlist rfl
  obtain ⟨hright, hlist⟩ := List.append_inj hlist rfl
  obtain ⟨hbottom, hlist⟩ := List.append_inj hlist rfl
  obtain ⟨hleft, -⟩ := List.append_inj hlist rfl
  have htop := hexByte_injective hb.top hb'.top htop
  have hright := hexByte_injective hb.right hb'.right hright
  have hbottom := hexByte_injective hb.bottom hb'.bottom hbottom
  have hleft := hexByte_injective hb.left hb'.left hleft
  obtain ⟨top, right, bottom, left⟩ := b
  obtain ⟨top', right', bottom', left'⟩ := b'
  rw [ImageBounds.mk.injEq]
  exact ⟨htop, hright, hbottom, hleft⟩

/-! ## The top and the bottom -/

/-- Where row 0 counts as blank, the bounds are those of the rows that are not if row 0 is blank
and the last row is too or is the thirty-second, or if there is nothing but row 0. -/
theorem Tracked.spans {blank : Nat → Prop} {height : Nat}
    (h : Tracked (fun y => y = 0 ∨ blank y) height b) (hsome : ∃ y, y < height ∧ ¬ blank y)
    (hrows : (blank 0 ∧ (blank (height - 1) ∨ height = 32))
      ∨ ∀ y, 0 < y → y < height → blank y) :
    IsLeast {y | y < height ∧ ¬ blank y} b.top ∧ IsGreatest {y | y < height ∧ ¬ blank y} b.bottom := by
  obtain ⟨y₀, hy₀, hfull⟩ := hsome
  rcases h with ⟨hall, htop, hbottom⟩ | ⟨last, hpos, hle, hlt, hnt, hnl, hbefore, hafter, hbottom⟩
  · -- only row 0 is not blank
    have honly : ∀ y, y < height → ¬ blank y → y = 0 := fun y hy hn =>
      (hall y hy).resolve_right hn
    obtain rfl := honly y₀ hy₀ hfull
    rw [htop, hbottom]
    exact ⟨⟨⟨hy₀, hfull⟩, fun y _ => Nat.zero_le y⟩,
      ⟨⟨hy₀, hfull⟩, fun y hy => Nat.le_of_eq (honly y hy.1 hy.2)⟩⟩
  · rcases hrows with ⟨hzero, hend⟩ | honly
    · have hlast : b.bottom = last := by
        rw [hbottom, if_neg]
        intro hin
        obtain ⟨hheight, hne⟩ := hin
        rcases hend with hend | hend
        · refine hnl (.inr ?_)
          rwa [show last = height - 1 by omega]
        · omega
      have hinside : ∀ y, y < height → ¬ blank y → b.top ≤ y ∧ y ≤ last := by
        intro y hy hn
        constructor
        · refine Nat.le_of_not_lt ?_
          intro hbt
          rcases hbefore y hbt with rfl | hb
          · exact hn hzero
          · exact hn hb
        · refine Nat.le_of_not_lt ?_
          intro hal
          rcases hafter y hal hy with rfl | hb
          · exact hn hzero
          · exact hn hb
      rw [hlast]
      exact ⟨⟨⟨by omega, fun hb => hnt (.inr hb)⟩, fun y hy => (hinside y hy.1 hy.2).1⟩,
        ⟨⟨hlt, fun hb => hnl (.inr hb)⟩, fun y hy => (hinside y hy.1 hy.2).2⟩⟩
    · exact absurd (.inr (honly last (by omega) hlt)) hnl

/-- If the bounds are those of the rows that are not clear, the image leaves a margin. -/
theorem Tracked.margin {blank clear : Nat → Prop} {height : Nat} (hheight : 0 < height)
    (h : Tracked blank height b) (htop : IsLeast {y | y < height ∧ ¬ clear y} b.top)
    (hbottom : IsGreatest {y | y < height ∧ ¬ clear y} b.bottom) :
    (clear 0 ∧ (clear (height - 1) ∨ height = 32)) ∨ ∀ y, 0 < y → y < height → clear y := by
  have hle : b.top ≤ b.bottom := htop.2 hbottom.1
  rcases h with ⟨-, -, hzero⟩ | ⟨last, hpos, -, hlt, -, -, -, -, hlast⟩
  · refine .inr fun y hpos hy => by_contra fun hn => ?_
    have hyb : y ≤ b.bottom := hbottom.2 ⟨hy, hn⟩
    omega
  · refine .inl ⟨by_contra ?_, ?_⟩
    · intro hn
      have htz : b.top ≤ 0 := htop.2 ⟨hheight, hn⟩
      omega
    · by_cases h32 : height = 32
      · exact .inr h32
      · refine .inl (by_contra ?_)
        intro hn
        have hhb : height - 1 ≤ b.bottom := hbottom.2 ⟨by omega, hn⟩
        split_ifs at hlast <;> omega

/-! ## The left and the right -/

variable {width height : Nat} {l : List Nat} {ls : List (List Nat)}

/-- A row's bounds are its outer runs. -/
theorem rowOf_runs (hne : l ≠ []) : ∃ first last, (encode l).head? = some first
    ∧ (encode l).getLast? = some last ∧ 0 < first.1 ∧ 0 < last.1
    ∧ (rowOf width l).bounds.left = first.1 ∧ (rowOf width l).bounds.right = width - last.1 := by
  obtain ⟨first, hfirst⟩ := Option.isSome_iff_exists.mp (List.isSome_head?.mpr (encode_ne_nil hne))
  obtain ⟨last, hlast⟩ := Option.isSome_iff_exists.mp (List.getLast?_isSome.mpr (encode_ne_nil hne))
  refine ⟨first, last, hfirst, hlast, encode_positive l first (List.mem_of_mem_head? hfirst),
    encode_positive l last (List.mem_of_mem_getLast? hlast), ?_, ?_⟩
  · rw [rowOf, hfirst]
    rfl
  · rw [rowOf, hlast]
    rfl

/-- Behind a first run of transparent pixels stands one that is not. -/
theorem rowOf_left (hlen : l.length = width) (h0 : l[0]? = some 0)
    (hlt : (rowOf width l).bounds.left < width) :
    ∃ c, l[(rowOf width l).bounds.left]? = some c ∧ c ≠ 0 := by
  have hne : l ≠ [] := by
    intro heq
    subst heq
    exact absurd h0 (by simp)
  obtain ⟨first, -, hfirst, -, hpos, -, hleft, -⟩ := @rowOf_runs width l hne
  rw [hleft] at hlt ⊢
  have hzero : first.2 = 0 := Option.some.inj ((getElem?_head hfirst hpos).symm.trans h0)
  rw [← hzero]
  exact getElem?_behind_head hfirst (by omega)

theorem rowOf_right (hlen : l.length = width) (hend : l[width - 1]? = some 0)
    (hpos : 0 < (rowOf width l).bounds.right) :
    ∃ c, l[(rowOf width l).bounds.right - 1]? = some c ∧ c ≠ 0 := by
  have hne : l ≠ [] := by
    intro heq
    subst heq
    exact absurd hend (by simp)
  obtain ⟨-, last, -, hlast, -, hlpos, -, hright⟩ := @rowOf_runs width l hne
  rw [hright] at hpos ⊢
  have hzero : last.2 = 0 := by
    have hget := getElem?_getLast hlast (x := l.length - 1) (by omega) (by omega)
    rw [hlen] at hget
    exact Option.some.inj (hget.symm.trans hend)
  rw [← hzero, ← hlen]
  exact getElem?_before_getLast hlast (by omega)

theorem cutBounds_left {rows : List ImageRow} (hne : rows ≠ []) :
    ∃ row ∈ rows, (cutBounds b rows).left = row.bounds.left := by
  obtain ⟨m, hm⟩ := Option.isSome_iff_exists.mp (List.isSome_min?_of_ne_nil
    (l := rows.map fun r => r.bounds.left) fun h => hne (List.map_eq_nil_iff.mp h))
  obtain ⟨row, hrow, hleft⟩ := List.mem_map.mp (List.min?_mem hm)
  refine ⟨row, hrow, ?_⟩
  rw [hleft]
  show (rows.map fun r => r.bounds.left).min?.getD 0 = m
  rw [hm]
  rfl

theorem cutBounds_right {rows : List ImageRow} (hne : rows ≠ []) :
    ∃ row ∈ rows, (cutBounds b rows).right = row.bounds.right := by
  obtain ⟨m, hm⟩ := Option.isSome_iff_exists.mp (List.isSome_max?_of_ne_nil
    (l := rows.map fun r => r.bounds.right) fun h => hne (List.map_eq_nil_iff.mp h))
  obtain ⟨row, hrow, hright⟩ := List.mem_map.mp (List.max?_mem hm)
  refine ⟨row, hrow, ?_⟩
  rw [hright]
  show (rows.map fun r => r.bounds.right).max?.getD 0 = m
  rw [hm]
  rfl

/-- A cell of one of the rows that is not transparent. -/
def Cell (ls : List (List Nat)) (x : Nat) : Prop := ∃ l ∈ ls, ∃ c, l[x]? = some c ∧ c ≠ 0

/-- **Between transparent columns** the bounds are those of the cells. -/
theorem cutBounds_cells (hls : ∀ l ∈ ls, l.length = width) (h0 : ∀ l ∈ ls, l[0]? = some 0)
    (hend : ∀ l ∈ ls, l[width - 1]? = some 0) (hsome : ∃ x, Cell ls x) :
    IsLeast {x | Cell ls x} (cutBounds b (ls.map (rowOf width))).left
      ∧ IsGreatest {r | ∃ x, Cell ls x ∧ r = x + 1} (cutBounds b (ls.map (rowOf width))).right := by
  -- no cell is outside
  have hinside : ∀ x, Cell ls x → (cutBounds b (ls.map (rowOf width))).left ≤ x
      ∧ x < (cutBounds b (ls.map (rowOf width))).right := by
    intro x h
    obtain ⟨l, hl, c, hx, hc⟩ := h
    obtain rfl := hls l hl
    obtain ⟨hlo, hhi⟩ := between_runs hx hc (h0 l hl) (hend l hl)
    obtain ⟨hleft, hright⟩ := cutBounds_mem (b := b) (List.mem_map_of_mem (f := rowOf l.length) hl)
    exact ⟨Nat.le_trans hleft hlo, Nat.lt_of_lt_of_le hhi hright⟩
  obtain ⟨x₀, hx₀⟩ := hsome
  obtain ⟨hlo, hhi⟩ := hinside x₀ hx₀
  have hright := @cutBounds_right_le width b ls
  have hne : ls.map (rowOf width) ≠ [] := by
    obtain ⟨l, hl, -⟩ := hx₀
    exact List.ne_nil_of_mem (List.mem_map_of_mem hl)
  refine ⟨⟨?_, fun x hx => (hinside x hx).1⟩, ⟨?_, ?_⟩⟩
  · obtain ⟨row, hrow, heq⟩ := @cutBounds_left b _ hne
    obtain ⟨l, hl, rfl⟩ := List.mem_map.mp hrow
    rw [heq] at hlo ⊢
    exact ⟨l, hl, rowOf_left (hls l hl) (h0 l hl) (by omega)⟩
  · obtain ⟨row, hrow, heq⟩ := @cutBounds_right b _ hne
    obtain ⟨l, hl, rfl⟩ := List.mem_map.mp hrow
    rw [heq] at hhi ⊢
    exact ⟨_, ⟨l, hl, rowOf_right (hls l hl) (hend l hl) (by omega)⟩, by omega⟩
  · intro r hin
    obtain ⟨x, hx, rfl⟩ := hin
    exact (hinside x hx).2

/-- The outer bounds never reach the edges. -/
theorem cutBounds_inside {rows : List ImageRow} (hwidth : 0 < width)
    (hrows : ∀ row ∈ rows, ∃ l, l.length = width ∧ row = rowOf width l) (hne : rows ≠ []) :
    0 < (cutBounds b rows).left ∧ (cutBounds b rows).left ≤ width
      ∧ (cutBounds b rows).right < width := by
  have hfull : ∀ l : List Nat, l.length = width → l ≠ [] := fun l hl =>
    List.ne_nil_of_length_pos (by omega)
  refine ⟨?_, ?_, ?_⟩
  · obtain ⟨row, hrow, heq⟩ := @cutBounds_left b _ hne
    obtain ⟨l, hl, rfl⟩ := hrows row hrow
    obtain ⟨first, -, -, -, hpos, -, hleft, -⟩ := @rowOf_runs width l (hfull l hl)
    omega
  · obtain ⟨row, hrow, heq⟩ := @cutBounds_left b _ hne
    obtain ⟨l, hl, rfl⟩ := hrows row hrow
    obtain ⟨first, -, hfirst, -, -, -, hleft, -⟩ := @rowOf_runs width l (hfull l hl)
    have hle := length_le_expand (List.mem_of_mem_head? hfirst)
    rw [expand_encode] at hle
    omega
  · obtain ⟨row, hrow, heq⟩ := @cutBounds_right b _ hne
    obtain ⟨l, hl, rfl⟩ := hrows row hrow
    obtain ⟨-, last, -, -, -, hpos, -, hright⟩ := @rowOf_runs width l (hfull l hl)
    omega

/-! ## The encoder -/

variable {getRgbaAt : Nat → Nat → RGBAColor} {colors : Colors}

/-- A pixel that is not transparent. -/
def Solid (getRgbaAt : Nat → Nat → RGBAColor) (width height x y : Nat) : Prop :=
  x < width ∧ y < height ∧ (getRgbaAt x y).a ≠ 0

/-- A pixel that the encoder does not take for a transparent one. -/
def Inked (getRgbaAt : Nat → Nat → RGBAColor) (colors : Colors) (width height x y : Nat) : Prop :=
  x < width ∧ y < height ∧ colorIndex colors (getRgbaAt x y) ≠ 0

theorem not_blank_iff {y : Nat} (hy : y < height) : ¬ Blank (indices getRgbaAt colors y width)
    ↔ ∃ x, Inked getRgbaAt colors width height x y := by
  constructor
  · intro hn
    by_contra hnone
    refine hn ?_
    intro c hc
    obtain ⟨x, hx, rfl⟩ := List.mem_map.mp hc
    exact by_contra fun hne => hnone ⟨x, List.mem_range.mp hx, hy, hne⟩
  · rintro ⟨x, hx, -, hne⟩ hb
    exact hne (hb _ (List.mem_of_getElem? (getElem?_indices hx)))

/-- The image once its rows are read. -/
def readImage (getRgbaAt : Nat → Nat → RGBAColor) (colors : Colors) (width height : Nat)
    (b : ImageBounds) : Image :=
  { Image.new width height with
    rows := rowsOf getRgbaAt colors width height
    bounds := b }

theorem mem_rowList {row : ImageRow}
    (h : row ∈ (readImage getRgbaAt colors width height b).deleteEmptyRows.rowList) :
    ∃ y, y < height ∧ row = rowOf width (indices getRgbaAt colors y width) := by
  obtain ⟨y, hlt, hy⟩ := List.mem_filterMap.mp h
  have hy : (if y < b.top ∨ b.bottom < y ∧ y < height then none
      else rowsOf getRgbaAt colors width height y) = some row := hy
  unfold rowsOf at hy
  split_ifs at hy
  exact ⟨y, List.mem_range.mp hlt, (Option.some.inj hy).symm⟩

theorem encodeRows_rows (image : Image) : image.encodeRows.2.rows = image.rows := by
  obtain ⟨b, heq, -⟩ := encodeRows_spec image
  rw [heq]

/-- The rows that are left. -/
theorem rows_left {y : Nat} (hlt : b.bottom < height) :
    ((readImage getRgbaAt colors width height b).deleteEmptyRows.encodeRows.2.rows y).isSome = true
      ↔ b.top ≤ y ∧ y ≤ b.bottom := by
  rw [encodeRows_rows]
  show (if y < b.top ∨ b.bottom < y ∧ y < height then none
    else rowsOf getRgbaAt colors width height y).isSome = true ↔ _
  unfold rowsOf
  split_ifs with hcut hy
  · simp
    omega
  · simp
    omega
  · simp
    omega

/-- The header of what is written is the cut bounds, or it is that of no image. -/
theorem heads_cases (image : Image) :
    (image.rowList ≠ [] ∧ ¬ ExitsEarly image
        ∧ Heads (cutBounds image.bounds image.rowList) image.encodeRows.1)
      ∨ Heads image.bounds image.encodeRows.1 ∧ image.rowList = []
      ∨ Heads ⟨0, 0, 0, 0⟩ image.encodeRows.1 := by
  by_cases hnil : image.rowList = []
  · refine .inr (.inl ⟨⟨"", ?_⟩, hnil⟩)
    unfold Image.encodeRows
    rw [if_neg (not_not.mpr hnil), String.append_empty]
  · by_cases hearly : ExitsEarly image
    · refine .inr (.inr ⟨"", ?_⟩)
      rw [encodeRows_early hearly]
      decide +kernel
    · refine .inl ⟨hnil, hearly, ?_⟩
      rw [encodeRows_written hnil hearly, foldl_append]
      exact ⟨_, rfl⟩

/-- A header with a right bound is that of the cut bounds, and these are inside. -/
theorem heads_inside (hwidth : 0 < width) {box : ImageBounds} (hbox : Fits box)
    (hb : Fits b) (hcut : width < 256) (hright : b.right = 0) (hpos : 0 < box.right)
    (h : Heads box (readImage getRgbaAt colors width height b).deleteEmptyRows.encodeRows.1) :
    box = cutBounds b (readImage getRgbaAt colors width height b).deleteEmptyRows.rowList
      ∧ 0 < box.left ∧ box.right < width := by
  rcases heads_cases (readImage getRgbaAt colors width height b).deleteEmptyRows
    with ⟨hne, -, hheads⟩ | ⟨hheads, -⟩ | hheads
  · obtain ⟨hleft, hle, hlt⟩ := @cutBounds_inside b width _ hwidth (fun row hrow => by
      obtain ⟨y, -, rfl⟩ := mem_rowList hrow
      exact ⟨_, length_indices, rfl⟩) hne
    have heq := h.unique hheads hbox
      ⟨hb.top, Nat.lt_trans hlt hcut, hb.bottom, Nat.lt_of_le_of_lt hle hcut⟩
    exact ⟨heq, heq ▸ hleft, heq ▸ hlt⟩
  · have heq := h.unique hheads hbox hb
    rw [heq] at hpos
    exact absurd hpos (by show ¬ 0 < b.right; omega)
  · have heq := h.unique hheads hbox ⟨by decide, by decide, by decide, by decide⟩
    rw [heq] at hpos
    exact absurd hpos (Nat.lt_irrefl 0)

/-- **The encoder's box.** With a margin the header is the bounding box of what the encoder
does not take for transparent. -/
theorem boxes_inked (hwidth : 0 < width)
    (htracked : Tracked (fun y => y = 0 ∨ Blank (indices getRgbaAt colors y width)) height b)
    (hsome : ∃ x y, Inked getRgbaAt colors width height x y)
    (hleft : ∀ y, y < height → (getRgbaAt 0 y).a = 0)
    (hright : ∀ y, y < height → (getRgbaAt (width - 1) y).a = 0)
    (hrows : (Clear getRgbaAt width 0 ∧ (Clear getRgbaAt width (height - 1) ∨ height = 32))
      ∨ ∀ y, 0 < y → y < height → Clear getRgbaAt width y) :
    Boxes (Inked getRgbaAt colors width height)
        (cutBounds b (readImage getRgbaAt colors width height b).deleteEmptyRows.rowList)
      ∧ Heads (cutBounds b (readImage getRgbaAt colors width height b).deleteEmptyRows.rowList)
        (readImage getRgbaAt colors width height b).deleteEmptyRows.encodeRows.1
      ∧ b.bottom < height := by
  have hclear : ∀ y, Clear getRgbaAt width y → Blank (indices getRgbaAt colors y width) := by
    intro y h c hc
    obtain ⟨x, hx, rfl⟩ := List.mem_map.mp hc
    exact if_pos (h x (List.mem_range.mp hx))
  have hset : {y | y < height ∧ ¬ Blank (indices getRgbaAt colors y width)}
      = {y | ∃ x, Inked getRgbaAt colors width height x y} := by
    ext y
    constructor
    · intro hin
      obtain ⟨hy, hn⟩ := hin
      exact (not_blank_iff hy).mp hn
    · intro hin
      obtain ⟨x, hx⟩ := hin
      exact ⟨hx.2.1, (not_blank_iff hx.2.1).mpr ⟨x, hx⟩⟩
  obtain ⟨x₀, y₀, h₀⟩ := hsome
  obtain ⟨htop, hbottom⟩ := htracked.spans ⟨y₀, h₀.2.1, (not_blank_iff h₀.2.1).mpr ⟨x₀, h₀⟩⟩ (by
    rcases hrows with ⟨hzero, hend⟩ | honly
    · exact .inl ⟨hclear 0 hzero, hend.imp_left (hclear _)⟩
    · exact .inr fun y hpos hy => hclear y (honly y hpos hy))
  have hle : b.top ≤ b.bottom := htop.2 hbottom.1
  have hlt : b.bottom < height := hbottom.1.1
  have hfull : ¬ Blank (indices getRgbaAt colors b.top width) := htop.1.2
  rw [hset] at htop hbottom
  have hkept : (readImage getRgbaAt colors width height b).deleteEmptyRows.rowList
      = ((List.range (b.bottom + 1 - b.top)).map fun j =>
        indices getRgbaAt colors (b.top + j) width).map (rowOf width) :=
    rowList_kept getRgbaAt colors width hle hlt
  generalize hls : ((List.range (b.bottom + 1 - b.top)).map fun j =>
    indices getRgbaAt colors (b.top + j) width) = ls at hkept
  have hmem : ∀ l, l ∈ ls ↔ ∃ y, b.top ≤ y ∧ y ≤ b.bottom ∧ l = indices getRgbaAt colors y width := by
    intro l
    rw [← hls, List.mem_map]
    constructor
    · intro hin
      obtain ⟨j, hj, rfl⟩ := hin
      have hj := List.mem_range.mp hj
      exact ⟨b.top + j, by omega, by omega, rfl⟩
    · intro hin
      obtain ⟨y, hlo, hhi, rfl⟩ := hin
      obtain ⟨j, rfl⟩ := Nat.exists_eq_add_of_le hlo
      exact ⟨j, List.mem_range.mpr (by omega), rfl⟩
  -- the cells of the kept rows are the inked pixels
  have hcell : ∀ x, Cell ls x ↔ ∃ y, Inked getRgbaAt colors width height x y := by
    intro x
    constructor
    · intro hin
      obtain ⟨l, hl, c, hx, hc⟩ := hin
      obtain ⟨y, hlo, hhi, rfl⟩ := (hmem l).mp hl
      have hxw : x < width := by
        have hlen := (List.getElem?_eq_some_iff.mp hx).1
        rwa [length_indices] at hlen
      rw [getElem?_indices hxw] at hx
      exact ⟨y, hxw, by omega, by rwa [Option.some.inj hx]⟩
    · intro hin
      obtain ⟨y, hxy⟩ := hin
      exact ⟨_, (hmem _).mpr ⟨y, htop.2 ⟨x, hxy⟩, hbottom.2 ⟨x, hxy⟩, rfl⟩, _,
        getElem?_indices hxy.1, hxy.2.2⟩
  have hmargin : ∀ x, x < width → (∀ y, y < height → (getRgbaAt x y).a = 0) →
      ∀ l ∈ ls, l[x]? = some 0 := by
    intro x hx hzero l hl
    obtain ⟨y, hlo, hhi, rfl⟩ := (hmem l).mp hl
    rw [getElem?_indices hx, colorIndex, if_pos (hzero y (by omega))]
  obtain ⟨hcl, hcr⟩ := @cutBounds_cells b width ls
    (fun l hl => by
      obtain ⟨y, -, -, rfl⟩ := (hmem l).mp hl
      exact length_indices)
    (hmargin 0 hwidth hleft) (hmargin (width - 1) (by omega) hright)
    ⟨x₀, (hcell x₀).mpr ⟨y₀, h₀⟩⟩
  simp only [hcell] at hcl hcr
  have hlate : ¬ ExitsEarly (readImage getRgbaAt colors width height b).deleteEmptyRows := by
    intro hin
    obtain ⟨-, hempty⟩ := hin
    have hrow : (readImage getRgbaAt colors width height b).deleteEmptyRows.rows 0
        = if b.top = 0 then some (rowOf width (indices getRgbaAt colors 0 width)) else none := by
      show (if 0 < b.top ∨ b.bottom < 0 ∧ 0 < height then none
        else rowsOf getRgbaAt colors width height 0) = _
      by_cases htz : b.top = 0
      · rw [if_neg (by omega), if_pos htz, rowsOf, if_pos (by omega)]
      · rw [if_pos (by omega), if_neg htz]
    rw [hrow] at hempty
    split at hempty
    · next htz =>
        rw [htz] at hfull
        exact hfull ((isEmptyRow_iff length_indices
          (List.ne_nil_of_length_pos (by rw [length_indices]; exact hwidth))).mp hempty)
    · exact absurd hempty Bool.false_ne_true
  have hne : (readImage getRgbaAt colors width height b).deleteEmptyRows.rowList ≠ [] := by
    rw [hkept]
    exact List.ne_nil_of_mem (List.mem_map_of_mem
      ((hmem _).mpr ⟨b.top, Nat.le_refl _, hle, rfl⟩))
  refine ⟨?_, ?_, hlt⟩
  · rw [hkept]
    refine ⟨htop, hbottom, hcl, ?_⟩
    have hset' : {r | ∃ x, (∃ y, Inked getRgbaAt colors width height x y) ∧ r = x + 1}
        = {r | ∃ x y, Inked getRgbaAt colors width height x y ∧ r = x + 1} := by
      ext r
      exact exists_congr fun x => exists_and_right.symm
    rw [hset'] at hcr
    exact hcr
  · have hwritten := encodeRows_written hne hlate
    rw [foldl_append] at hwritten
    exact ⟨_, hwritten⟩

/-! ## Colours of index 0 -/

/-- A colour that the palette gives index 0. In an empty palette the first pixel's gets it. -/
def Faint (getRgbaAt : Nat → Nat → RGBAColor) (colors : Colors) (c : RGBAColor) : Prop :=
  colors.get? c.hex = some 0 ∨ (colors.size = 0 ∧ c.hex = (getRgbaAt 0 0).hex)

/-- A palette that is not empty gives index 0 to no new colour. -/
theorem learnAll_zero {hexes : List String} {k : String} (h : 0 < colors.size) :
    (learnAll colors hexes).get? k = some 0 ↔ colors.get? k = some 0 := by
  induction hexes generalizing colors with
  | nil => exact Iff.rfl
  | cons hex hexes ih =>
      have hstep : 0 < (learn colors hex).size
          ∧ ((learn colors hex).get? k = some 0 ↔ colors.get? k = some 0) := by
        unfold learn
        split
        · exact ⟨h, Iff.rfl⟩
        · next hhas =>
            have hnew : colors.has hex = false := by simpa using hhas
            rw [JsMap.size_set hnew, JsMap.get?_set hnew]
            refine ⟨Nat.succ_pos _, or_iff_left ?_⟩
            intro hin
            obtain ⟨-, hzero⟩ := hin
            omega
      exact (ih hstep.1).trans hstep.2

theorem hexesOf_eq_cons (hwidth : 0 < width) (hheight : 0 < height) :
    ∃ rest, hexesOf getRgbaAt width height = (getRgbaAt 0 0).hex :: rest := by
  obtain ⟨w, rfl⟩ := Nat.exists_eq_succ_of_ne_zero (Nat.ne_of_gt hwidth)
  obtain ⟨n, rfl⟩ := Nat.exists_eq_succ_of_ne_zero (Nat.ne_of_gt hheight)
  rw [hexesOf, List.range_succ_eq_map, List.flatMap_cons, rowHexes, List.range_succ_eq_map,
    List.map_cons, List.cons_append]
  exact ⟨_, rfl⟩

theorem learnAll_faint (hwidth : 0 < width) (hheight : 0 < height) (c : RGBAColor) :
    (learnAll colors (hexesOf getRgbaAt width height)).get? c.hex = some 0
      ↔ Faint getRgbaAt colors c := by
  rcases Nat.eq_zero_or_pos colors.size with hempty | hpos
  · obtain ⟨rest, hrest⟩ := @hexesOf_eq_cons width height getRgbaAt hwidth hheight
    have hnone : ∀ k v, colors.get? k ≠ some v := by
      intro k v h
      have hmem := JsMap.get?_eq_some.mp h
      rw [List.length_eq_zero_iff.mp hempty] at hmem
      exact absurd hmem List.not_mem_nil
    have hnew : colors.has (getRgbaAt 0 0).hex = false := by
      rw [JsMap.has, Option.isSome_eq_false_iff, Option.isNone_iff_eq_none]
      exact Option.eq_none_iff_forall_ne_some.mpr (hnone _)
    -- an empty palette gives number 0 to the first pixel, whatever its colour
    have hfirst : learnAll colors (hexesOf getRgbaAt width height)
        = learnAll (colors.set (getRgbaAt 0 0).hex 0) rest := by
      have hlearn : learn colors (getRgbaAt 0 0).hex = colors.set (getRgbaAt 0 0).hex 0 := by
        rw [learn, if_neg (by rw [hnew]; exact Bool.false_ne_true), hempty]
      rw [hrest, ← hlearn]
      rfl
    rw [hfirst, learnAll_zero (by rw [JsMap.size_set hnew]; exact Nat.succ_pos _),
      JsMap.get?_set hnew, or_iff_right (hnone _ _)]
    constructor
    · intro hin
      obtain ⟨heq, -⟩ := hin
      exact .inr ⟨hempty, heq⟩
    · intro hin
      rcases hin with h | ⟨-, heq⟩
      · exact absurd h (hnone _ _)
      · exact ⟨heq, rfl⟩
  · rw [learnAll_zero hpos]
    exact (or_iff_left fun h => by omega).symm

/-- A pixel that is not transparent and whose colour does not have index 0. -/
def Shown (getRgbaAt : Nat → Nat → RGBAColor) (colors : Colors) (width height x y : Nat) : Prop :=
  Solid getRgbaAt width height x y ∧ ¬ Faint getRgbaAt colors (getRgbaAt x y)

theorem shown_iff {x y : Nat} : Shown getRgbaAt colors width height x y
    ↔ Inked getRgbaAt (learnAll colors (hexesOf getRgbaAt width height)) width height x y := by
  unfold Shown Solid Inked
  constructor
  · intro h
    obtain ⟨⟨hx, hy, ha⟩, hn⟩ := h
    refine ⟨hx, hy, fun hzero => hn ?_⟩
    obtain ⟨v, hv⟩ := Option.isSome_iff_exists.mp (known_image hy x hx)
    rw [colorIndex, if_neg ha, hv] at hzero
    obtain rfl : v = 0 := hzero
    exact (learnAll_faint (by omega) (by omega) _).mp hv
  · intro h
    obtain ⟨hx, hy, hne⟩ := h
    refine ⟨⟨hx, hy, fun ha => hne (if_pos ha)⟩, fun hf => hne ?_⟩
    rw [colorIndex, (learnAll_faint (by omega) (by omega) _).mpr hf]
    split
    · rfl
    · rfl

/-! ## When the header is the box -/

/-- An image with a margin that the encoder leaves alone: the outer columns are transparent, and
so are the first row and the last, which may be the thirty-second instead, or all rows but the
first; and what has index 0 does not make the box larger. -/
structure Framed (getRgbaAt : Nat → Nat → RGBAColor) (colors : Colors) (width height : Nat) :
    Prop where
  left : ∀ y, y < height → (getRgbaAt 0 y).a = 0
  right : ∀ y, y < height → (getRgbaAt (width - 1) y).a = 0
  rows : (Clear getRgbaAt width 0 ∧ (Clear getRgbaAt width (height - 1) ∨ height = 32))
    ∨ ∀ y, 0 < y → y < height → Clear getRgbaAt width y
  sides : ∃ b, Boxes (Solid getRgbaAt width height) b
    ∧ Boxes (Shown getRgbaAt colors width height) b

theorem Boxes.fits {box : ImageBounds} (h : Boxes (Solid getRgbaAt width height) box)
    (hwidth : width < 256) (hheight : height < 256) : Fits box ∧ 0 < box.right := by
  obtain ⟨x, hx⟩ := h.top.1
  obtain ⟨x', hx'⟩ := h.bottom.1
  obtain ⟨y, hy⟩ := h.left.1
  obtain ⟨x'', y'', hr, heq⟩ := h.right.1
  have h₁ := hx.2.1
  have h₂ := hx'.2.1
  have h₃ := hy.1
  have h₄ := hr.1
  exact ⟨⟨by omega, by omega, by omega, by omega⟩, by omega⟩

theorem Tracked.lt {blank : Nat → Prop} (hheight : 0 < height) (h : Tracked blank height b) :
    b.top < height ∧ b.bottom < height := by
  rcases h with ⟨-, htop, hbottom⟩ | ⟨last, -, hle, hlt, -, -, -, -, hbottom⟩
  · omega
  · refine ⟨by omega, ?_⟩
    split_ifs at hbottom <;> omega

/-- If the header has a right bound and the last column is transparent, there is something. -/
theorem exists_inked (hend : ∀ y, y < height → (getRgbaAt (width - 1) y).a = 0) (hwidth : 0 < width)
    (hpos : 0 < (cutBounds b
      (readImage getRgbaAt colors width height b).deleteEmptyRows.rowList).right) :
    ∃ x y, Inked getRgbaAt colors width height x y := by
  have hne : (readImage getRgbaAt colors width height b).deleteEmptyRows.rowList ≠ [] := by
    intro hnil
    rw [hnil] at hpos
    exact absurd hpos (Nat.lt_irrefl 0)
  obtain ⟨row, hrow, hright⟩ := @cutBounds_right b _ hne
  obtain ⟨y, hy, rfl⟩ := mem_rowList hrow
  rw [hright] at hpos
  obtain ⟨c, hc, hne⟩ := rowOf_right (l := indices getRgbaAt colors y width) length_indices (by
    rw [getElem?_indices (by omega), colorIndex, if_pos (hend y hy)]) hpos
  have hx := (List.getElem?_eq_some_iff.mp hc).1
  rw [length_indices] at hx
  rw [getElem?_indices hx] at hc
  exact ⟨_, y, hx, hy, by rwa [Option.some.inj hc]⟩

/-- **The header is the bounding box exactly of framed images.** -/
theorem header_boxes_iff (getRgbaAt : Nat → Nat → RGBAColor) (colors : Colors) {width height : Nat}
    (hwidth : 0 < width) (hwidth' : width < 256) (hheight : 0 < height) (hheight' : height < 256) :
    ∃ rle image colors', (Image.new width height).toRLE getRgbaAt colors = some (rle, image, colors')
      ∧ ((∃ box, Boxes (Solid getRgbaAt width height) box ∧ Heads box rle
          ∧ ∀ y, (image.rows y).isSome = true ↔ box.top ≤ y ∧ y ≤ box.bottom)
        ↔ Framed getRgbaAt colors width height) := by
  obtain ⟨b, heq, htracked, hbl, hbr⟩ := encodeLoop getRgbaAt colors height hwidth height
  refine ⟨_, _, _, toRLE_eq heq, ?_⟩
  have hshown := @shown_iff width height getRgbaAt colors
  generalize learnAll colors (hexesOf getRgbaAt width height) = colors' at *
  obtain ⟨hbt, hbb⟩ := htracked.lt hheight
  constructor
  · intro h
    obtain ⟨box, hbox, hheads, -⟩ := h
    obtain ⟨hfits, hpos⟩ := hbox.fits hwidth' hheight'
    obtain ⟨hcut, hl, hr⟩ := heads_inside hwidth hfits ⟨by omega, by omega, by omega, by omega⟩
      hwidth' hbr hpos hheads
    -- the header's box leaves out the first column and the last
    have hleft : ∀ y, y < height → (getRgbaAt 0 y).a = 0 := fun y hy => by_contra fun ha => by
      have hle : box.left ≤ 0 := hbox.left.2 ⟨y, hwidth, hy, ha⟩
      omega
    have hright : ∀ y, y < height → (getRgbaAt (width - 1) y).a = 0 :=
      fun y hy => by_contra fun ha => by
        have hle : width - 1 + 1 ≤ box.right :=
          hbox.right.2 ⟨width - 1, y, ⟨by omega, hy, ha⟩, rfl⟩
        omega
    -- a row that is not clear has a solid pixel, so tops and bottoms are those of the rows
    have hset : {y | ∃ x, Solid getRgbaAt width height x y}
        = {y | y < height ∧ ¬ Clear getRgbaAt width y} := by
      ext y
      constructor
      · intro h
        obtain ⟨x, hx, hy, ha⟩ := h
        exact ⟨hy, fun hc => ha (hc x hx)⟩
      · intro h
        obtain ⟨hy, hn⟩ := h
        obtain ⟨x, hx, ha⟩ := not_clear hn
        exact ⟨x, hx, hy, ha⟩
    have htop := hbox.top
    have hbottom := hbox.bottom
    rw [hset, hcut] at htop hbottom
    have hrows := htracked.margin hheight htop hbottom
    obtain ⟨hinked, -⟩ := boxes_inked hwidth htracked
      (exists_inked hright hwidth (hcut ▸ hpos)) hleft hright hrows
    exact ⟨hleft, hright, hrows, box, hbox, hcut ▸ hinked.congr fun x y => hshown.symm⟩
  · intro h
    obtain ⟨hleft, hright, hrows, box, hsolid, hbox⟩ := h
    have hbox := hbox.congr fun x y => hshown
    obtain ⟨hinked, hheads, hlt⟩ := boxes_inked hwidth htracked
      (hbox.top.1.imp fun x hx => ⟨_, hx⟩) hleft hright hrows
    obtain rfl := hinked.unique hbox
    exact ⟨_, hsolid, hheads, fun y => rows_left hlt⟩

/-- Pixels of an image have a bounding box, if there are any. -/
theorem exists_boxes (hsome : ∃ x y, Solid getRgbaAt width height x y) :
    ∃ box, Boxes (Solid getRgbaAt width height) box := by
  obtain ⟨x, y, h⟩ := hsome
  have hleast : ∀ {S : Set Nat} {n : Nat}, n ∈ S → IsLeast S (sInf S) := fun hn =>
    ⟨Nat.sInf_mem ⟨_, hn⟩, fun _ hm => Nat.sInf_le hm⟩
  have hgreatest : ∀ {S : Set Nat} {n : Nat} (bound : Nat), n ∈ S → (∀ m ∈ S, m ≤ bound) →
      IsGreatest S (sSup S) := fun bound hn hbound =>
    ⟨Nat.sSup_mem ⟨_, hn⟩ ⟨_, hbound⟩, fun _ hm => le_csSup ⟨_, hbound⟩ hm⟩
  refine ⟨⟨_, _, _, _⟩, ⟨hleast ⟨x, h⟩, hgreatest height ⟨x, h⟩ ?_, hleast ⟨y, h⟩,
    hgreatest width ⟨x, y, h, rfl⟩ ?_⟩⟩
  · intro m hin
    obtain ⟨x', hx'⟩ := hin
    exact Nat.le_of_lt hx'.2.1
  · intro m hin
    obtain ⟨x', y', h', rfl⟩ := hin
    exact h'.1

/-- With a palette of the encoder's own only the margin matters. -/
theorem PaletteOk.framed (hok : PaletteOk colors)
    (hsome : ∃ x y, Solid getRgbaAt width height x y)
    (hleft : ∀ y, y < height → (getRgbaAt 0 y).a = 0)
    (hright : ∀ y, y < height → (getRgbaAt (width - 1) y).a = 0)
    (hrows : (Clear getRgbaAt width 0 ∧ (Clear getRgbaAt width (height - 1) ∨ height = 32))
      ∨ ∀ y, 0 < y → y < height → Clear getRgbaAt width y) :
    Framed getRgbaAt colors width height := by
  obtain ⟨box, hbox⟩ := exists_boxes hsome
  refine ⟨hleft, hright, hrows, box, hbox, hbox.congr ?_⟩
  intro x y
  refine (and_iff_left ?_).symm
  intro h
  rcases h with hzero | ⟨hempty, -⟩
  · exact hex_ne_empty _ (hok.injective _ _ _ hzero hok.transparent)
  · have hlt := hok.lt_size _ _ hok.transparent
    omega

theorem header_boxes_twoDots :
    ∃ rle image colors', (Image.new 32 32).toRLE twoDots newPalette = some (rle, image, colors')
      ∧ ∃ box, Boxes (Solid twoDots 32 32) box ∧ Heads box rle
        ∧ ∀ y, (image.rows y).isSome = true ↔ box.top ≤ y ∧ y ≤ box.bottom := by
  obtain ⟨rle, image, colors', heq, hiff⟩ := header_boxes_iff twoDots newPalette
    (show 0 < 32 by decide) (by decide) (show 0 < 32 by decide) (by decide)
  have hclear : ∀ y, y = 0 ∨ y = 31 → Clear twoDots 32 y := fun y hy x _ =>
    congrArg RGBAColor.a (if_neg (by omega))
  exact ⟨rle, image, colors', heq, hiff.mpr (newPalette_ok.framed
    ⟨3, 2, by decide, by decide, by decide⟩ (by decide) (by decide)
    (.inl ⟨hclear 0 (.inl rfl), .inl (hclear 31 (.inr rfl))⟩))⟩

/-- A dot in the last row. -/
def lowDot (x y : Nat) : RGBAColor := if x = 1 ∧ y = 2 then ⟨255, 10, 0, 255⟩ else ⟨0, 0, 0, 0⟩

/-- The bottom bound is 0 though the dot is in row 2, and no row is written. -/
theorem header_lowDot : (∃ x y, Solid lowDot 3 3 x y)
    ∧ ∃ rle image colors', (Image.new 3 3).toRLE lowDot newPalette = some (rle, image, colors')
      ∧ ¬ ∃ box, Boxes (Solid lowDot 3 3) box ∧ Heads box rle
        ∧ ∀ y, (image.rows y).isSome = true ↔ box.top ≤ y ∧ y ≤ box.bottom := by
  have hdot : Solid lowDot 3 3 1 2 := ⟨by decide, by decide, by decide⟩
  have hrle : ((Image.new 3 3).toRLE lowDot newPalette).map (fun st => st.1)
      = some "0x0002000000" := by decide +kernel
  obtain ⟨⟨rle, image, colors'⟩, heq, rfl⟩ := Option.map_eq_some_iff.mp hrle
  refine ⟨⟨1, 2, hdot⟩, _, image, colors', heq, ?_⟩
  intro h
  obtain ⟨box, hbox, hheads, -⟩ := h
  have hwritten : Heads ⟨2, 0, 0, 0⟩ "0x0002000000" := ⟨"", by decide +kernel⟩
  have hbottom : 2 ≤ box.bottom := hbox.bottom.2 ⟨1, hdot⟩
  obtain ⟨hfits, -⟩ := hbox.fits (by decide) (by decide)
  rw [hheads.unique hwritten hfits ⟨by decide, by decide, by decide, by decide⟩] at hbottom
  exact absurd hbottom (by decide)

end Nouns.Sdk
