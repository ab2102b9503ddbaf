import Nouns.Proof.DecodeImage
import Nouns.Proof.ImageRows

/-!
# Decoding an encoded image

The encoder writes the part of every kept row between the bounds as its runs. The bounds
are at or beyond the first and last run of no row, so cutting the outer runs is cutting
the row. The decoder starts a new row where it meets the right bound, and since no run is
empty it meets it at the end of a row and nowhere before.
-/

namespace Nouns.Sdk

open JsText RunLength

/-! ## Writing a row -/

theorem pairsHex_append (ps qs : List (Nat × Nat)) :
    pairsHex (ps ++ qs) = pairsHex ps ++ pairsHex qs := List.flatMap_append

theorem bufferHex_pairs {pairs : List (Nat × Nat)} (h : BytePairs pairs) :
    Image.bufferHex (pairs.flatMap fun p => [(p.1 : Int), (p.2 : Int)])
      = String.ofList (pairsHex pairs) := by
  have hbyte : ∀ n : Nat, n < 256 → ((n : Int) % 256).toNat = n := fun n hn => by omega
  unfold Image.bufferHex
  congr 1
  induction pairs with
  | nil => rfl
  | cons p pairs ih =>
      obtain ⟨h₁, h₂⟩ := h p List.mem_cons_self
      rw [List.flatMap_cons, List.flatMap_append, ih fun q hq => h q (List.mem_cons_of_mem _ hq),
        pairsHex, List.flatMap_cons]
      simp only [List.flatMap_cons, List.flatMap_nil, List.append_nil, hbyte _ h₁, hbyte _ h₂]
      rfl

/-- The runs of a row between the bounds. -/
def trimmed (width left right : Nat) : List (Nat × Nat) → List (Nat × Nat)
  | [] => []
  | [r] => [(right - left, r.2)]
  | first :: rest =>
      (if left < first.1 then [(first.1 - left, first.2)] else []) ++ rest.dropLast
        ++ match rest.getLast? with
          | some last => if width - right < last.1 then [(last.1 - (width - right), last.2)] else []
          | none => []

theorem trimmed_cons (width left right : Nat) (first last : Nat × Nat) (mid : List (Nat × Nat)) :
    trimmed width left right (first :: (mid ++ [last]))
      = (if left < first.1 then [(first.1 - left, first.2)] else []) ++ mid
        ++ if width - right < last.1 then [(last.1 - (width - right), last.2)] else [] := by
  have hcons : ∃ r rest, mid ++ [last] = r :: rest := by
    cases mid with
    | nil => exact ⟨last, [], rfl⟩
    | cons m mid => exact ⟨m, mid ++ [last], rfl⟩
  obtain ⟨r, rest, hrest⟩ := hcons
  rw [hrest, trimmed, ← hrest, List.dropLast_concat, List.getLast?_concat]
  exact fun h => absurd h (List.cons_ne_nil _ _)

/-- The bounds lie within the first and the last run of a row. -/
structure Within (width left right : Nat) (rs : List (Nat × Nat)) : Prop where
  left_le : left ≤ ((rs.head?).map Prod.fst).getD 0
  right_le : width - right ≤ ((rs.getLast?).map Prod.fst).getD 0

/-- What `getEncodedRow` puts into its buffer. -/
theorem encodeRects_eq {width : Nat} {b : ImageBounds} {rs : List (Nat × Nat)}
    (hle : b.left ≤ b.right) (hright : b.right ≤ width) (hw : Within width b.left b.right rs) :
    ((toRects rs).zipIdx.flatMap fun (rect, i) =>
        Image.encodeRect width b (toRects rs).length i rect)
      = (trimmed width b.left b.right rs).flatMap fun p => [(p.1 : Int), (p.2 : Int)] := by
  obtain ⟨hfirst, hlast⟩ := hw
  rcases rs with - | ⟨first, rest⟩
  · rfl
  rcases List.eq_nil_or_concat rest with rfl | ⟨mid, last, rfl⟩
  · -- a row of one run
    have hsub : ((b.right - b.left : Nat) : Int) = b.right - b.left := Int.ofNat_sub hle
    simp [toRects, Image.encodeRect, trimmed, hsub]
  · rw [List.concat_eq_append] at *
    simp only [List.head?_cons, Option.map_some, Option.getD_some] at hfirst
    rw [← List.cons_append, List.getLast?_concat] at hlast
    simp only [Option.map_some, Option.getD_some] at hlast
    rw [trimmed_cons]
    have hlen : (toRects (first :: (mid ++ [last]))).length = mid.length + 2 := by
      simp [toRects]
    have hmid : ((toRects mid).zipIdx 1).flatMap (fun (rect, i) =>
        Image.encodeRect width b (mid.length + 2) i rect)
        = mid.flatMap fun p => [(p.1 : Int), (p.2 : Int)] := by
      have hone : ∀ p ∈ (toRects mid).zipIdx 1, Image.encodeRect width b (mid.length + 2) p.2 p.1
          = [(p.1.length : Int), (p.1.colorIndex : Int)] := by
        rintro ⟨rect, i⟩ hp
        have hlo := List.le_snd_of_mem_zipIdx hp
        have hhi := List.snd_lt_add_of_mem_zipIdx hp
        rw [toRects, List.length_map] at hhi
        simp only at hlo hhi
        rw [Image.encodeRect, if_neg (by omega), if_neg (by omega), if_neg (by omega),
          if_neg (by omega), if_neg (by omega)]
      rw [List.flatMap_congr hone, ← List.flatMap_map Prod.fst
        (fun rect : Rect => [(rect.length : Int), (rect.colorIndex : Int)]), List.zipIdx_map_fst,
        toRects, List.flatMap_map]
    have hhead : Image.encodeRect width b (mid.length + 2) 0 ⟨first.1, first.2⟩
        = (if b.left < first.1 then [(first.1 - b.left, first.2)] else []).flatMap
          fun p : Nat × Nat => [(p.1 : Int), (p.2 : Int)] := by
      rw [Image.encodeRect, if_neg (by omega)]
      split_ifs
      all_goals simp_all
      all_goals omega
    have hend : Image.encodeRect width b (mid.length + 2) (mid.length + 1) ⟨last.1, last.2⟩
        = (if width - b.right < last.1 then [(last.1 - (width - b.right), last.2)] else []).flatMap
          fun p : Nat × Nat => [(p.1 : Int), (p.2 : Int)] := by
      rw [Image.encodeRect, if_neg (by omega), if_neg (by omega), if_neg (by omega)]
      split_ifs <;> simp_all <;> omega
    rw [hlen, List.flatMap_append, List.flatMap_append, ← hmid, ← hhead, ← hend]
    simp [toRects, List.zipIdx_append, List.zipIdx_cons, List.flatMap_append, Nat.add_comm]

variable {width left right : Nat} {rs : List (Nat × Nat)}

theorem take_between {u v : Nat} {mid : List Nat} {a b k : Nat} (hk : k ≤ b) :
    (List.replicate a u ++ (mid ++ List.replicate b v)).take (a + (mid.length + k))
      = List.replicate a u ++ (mid ++ List.replicate k v) := by
  have hfirst := @List.take_length_add_append Nat (List.replicate a u)
    (mid ++ List.replicate b v) (mid.length + k)
  rw [List.length_replicate] at hfirst
  rw [hfirst, List.take_length_add_append, List.take_replicate, Nat.min_eq_left hk]

/-- **Cutting the outer runs is cutting the row.** -/
theorem expand_trimmed (hlen : (expand rs).length = width) (hle : left ≤ right)
    (hright : right ≤ width) (hw : Within width left right rs) :
    expand (trimmed width left right rs) = ((expand rs).drop left).take (right - left) := by
  obtain ⟨hfirst, hlast⟩ := hw
  rcases rs with - | ⟨first, rest⟩
  · simp [trimmed, expand]
  -- a row of one run is cut at both ends; otherwise the first run and the last are cut once each
  rcases List.eq_nil_or_concat rest with rfl | ⟨mid, last, rfl⟩
  · rw [show [first] = [(first.1, first.2)] from rfl, expand_singleton, List.length_replicate]
      at hlen
    rw [trimmed, show [first] = [(first.1, first.2)] from rfl, expand_singleton, expand_singleton,
      List.drop_replicate, List.take_replicate]
    congr 1
    omega
  · rw [List.concat_eq_append] at *
    simp only [List.head?_cons, Option.map_some, Option.getD_some] at hfirst
    rw [← List.cons_append, List.getLast?_concat] at hlast
    simp only [Option.map_some, Option.getD_some] at hlast
    have hrow : expand (first :: (mid ++ [last]))
        = List.replicate first.1 first.2 ++ (expand mid ++ List.replicate last.1 last.2) := by
      rw [expand_cons, expand_append, show [last] = [(last.1, last.2)] from rfl, expand_singleton]
    have hhead : expand (if left < first.1 then [(first.1 - left, first.2)] else [])
        = List.replicate (first.1 - left) first.2 := by
      split
      · exact expand_singleton
      · rw [show first.1 - left = 0 by omega]
        rfl
    have hend : expand (if width - right < last.1 then [(last.1 - (width - right), last.2)] else [])
        = List.replicate (last.1 - (width - right)) last.2 := by
      split
      · exact expand_singleton
      · rw [show last.1 - (width - right) = 0 by omega]
        rfl
    rw [hrow, List.length_append, List.length_append, List.length_replicate, List.length_replicate]
      at hlen
    have hcut : right - left
        = (first.1 - left) + ((expand mid).length + (last.1 - (width - right))) := by omega
    rw [trimmed_cons, expand_append, expand_append, hhead, hend, hrow,
      List.drop_append_of_le_length (by rw [List.length_replicate]; omega), List.drop_replicate,
      List.append_assoc, hcut, take_between (by omega)]

theorem trimmed_positive (hlt : left < right) (h : Positive rs) :
    Positive (trimmed width left right rs) := by
  rcases rs with - | ⟨first, rest⟩
  · exact h
  rcases List.eq_nil_or_concat rest with rfl | ⟨mid, last, rfl⟩
  · intro r hr
    obtain rfl := List.mem_singleton.mp hr
    exact Nat.sub_pos_of_lt hlt
  · rw [List.concat_eq_append] at h ⊢
    rw [trimmed_cons]
    intro r hr
    rcases List.mem_append.mp hr with hr | hr
    · rcases List.mem_append.mp hr with hr | hr
      · split at hr
        · next hc =>
            obtain rfl := List.mem_singleton.mp hr
            exact Nat.sub_pos_of_lt hc
        · exact absurd hr List.not_mem_nil
      · exact h r (List.mem_cons_of_mem _ (List.mem_append_left _ hr))
    · split at hr
      · next hc =>
          obtain rfl := List.mem_singleton.mp hr
          exact Nat.sub_pos_of_lt hc
      · exact absurd hr List.not_mem_nil

/-! ## Reading rows -/

/-- A rect that is pushed, in numbers that are none of them `NaN`. -/
def placedAt (y : Nat) (p : Nat × Nat × Nat) : Placed :=
  ⟨some (p.2.1 : Int), some (p.2.2 : Int), some (p.1 : Int), some (y : Int)⟩

/-- The decoder reads a row up to the right bound, and goes on with the next. -/
theorem placeRects_row {b : Bounds} (hb : b.left = some (left : Int) ∧ b.right = some (right : Int))
    (hpos : Positive rs) (hne : rs ≠ []) {x y : Nat} (hsum : x + (expand rs).length = right)
    (more : List (JsNum × JsNum)) :
    placeRects b (rs.map nums ++ more) (some (x : Int)) (some (y : Int))
      = (painted 0 rs x).map (placedAt y)
        ++ placeRects b more (some (left : Int)) (some ((y + 1 : Nat) : Int)) := by
  induction rs generalizing x with
  | nil => exact absurd rfl hne
  | cons r rs ih =>
      have hnext : JsNum.add (some (x : Int)) (some (r.1 : Int)) = some ((x + r.1 : Nat) : Int) := rfl
      have hwrap : JsNum.same (some ((x + r.1 : Nat) : Int)) b.right = true ↔ x + r.1 = right := by
        rw [hb.2, JsNum.same, decide_eq_true_eq]
        exact Int.natCast_inj
      have hzero : (some (r.2 : Int) : JsNum) = some 0 ↔ r.2 = 0 := by
        rw [Option.some.injEq]
        exact Int.natCast_eq_zero
      rw [expand_cons, List.length_append, List.length_replicate] at hsum
      -- what follows the rect
      have hrest : (if JsNum.same (some ((x + r.1 : Nat) : Int)) b.right
            then placeRects b (rs.map nums ++ more) b.left (JsNum.add (some (y : Int)) (some 1))
            else placeRects b (rs.map nums ++ more) (some ((x + r.1 : Nat) : Int)) (some (y : Int)))
          = (painted 0 rs (x + r.1)).map (placedAt y)
            ++ placeRects b more (some (left : Int)) (some ((y + 1 : Nat) : Int)) := by
        cases rs with
        | nil =>
            have hend : x + r.1 = right := by
              have : (expand ([] : List (Nat × Nat))).length = 0 := rfl
              omega
            rw [if_pos (hwrap.mpr hend), hb.1]
            rfl
        | cons r' rs =>
            have hmore : 0 < (expand (r' :: rs)).length := by
              have := hpos r' (List.mem_cons_of_mem _ List.mem_cons_self)
              rw [expand_cons, List.length_append, List.length_replicate]
              omega
            rw [if_neg fun h => by have := hwrap.mp h; omega]
            exact ih (fun r hr => hpos r (List.mem_cons_of_mem _ hr)) (List.cons_ne_nil _ _)
              (by omega)
      rw [List.map_cons, List.cons_append, nums, placeRects]
      simp only [hnext, hzero]
      rw [hrest, painted]
      split
      · rfl
      · rfl

/-- A pixel is painted in a colour. -/
def Paints (rects : List Placed) (x y c : Nat) : Prop :=
  ∃ r ∈ rects, r.y = some (y : Int) ∧ r.colorIndex = some (c : Int)
    ∧ ∃ start length : Int, r.x = some start ∧ r.length = some length
      ∧ start ≤ x ∧ x < start + length

theorem paints_append {ps qs : List Placed} {x y c : Nat} :
    Paints (ps ++ qs) x y c ↔ Paints ps x y c ∨ Paints qs x y c := by
  unfold Paints
  constructor
  · intro hin
    obtain ⟨r, hr, h⟩ := hin
    rcases List.mem_append.mp hr with hr | hr
    · exact .inl ⟨r, hr, h⟩
    · exact .inr ⟨r, hr, h⟩
  · intro hin
    rcases hin with ⟨r, hr, h⟩ | ⟨r, hr, h⟩
    · exact ⟨r, List.mem_append_left _ hr, h⟩
    · exact ⟨r, List.mem_append_right _ hr, h⟩

theorem paints_placedAt {rs : List (Nat × Nat)} {x₀ y₀ x y c : Nat} :
    Paints ((painted 0 rs x₀).map (placedAt y₀)) x y c
      ↔ y = y₀ ∧ x₀ ≤ x ∧ (expand rs)[x - x₀]? = some c ∧ c ≠ 0 := by
  rw [← mem_painted]
  constructor
  · intro h
    obtain ⟨r, hr, hy, hc, start, length, hx, hlen, hle, hlt⟩ := h
    obtain ⟨⟨s, n, a⟩, hmem, rfl⟩ := List.mem_map.mp hr
    simp only [placedAt, Option.some.injEq] at hy hc hx hlen
    obtain rfl : a = c := by omega
    exact ⟨by omega, s, n, hmem, by omega, by omega⟩
  · intro h
    obtain ⟨rfl, start, n, hmem, hle, hlt⟩ := h
    exact ⟨_, List.mem_map.mpr ⟨_, hmem, rfl⟩, rfl, rfl, start, n, rfl, rfl, by omega, by omega⟩

/-- **The decoder paints the rows it is given**, each from the left bound on. -/
theorem paints_rows {b : Bounds} (hb : b.left = some (left : Int) ∧ b.right = some (right : Int))
    (hlt : left < right) {rows : List (List (Nat × Nat))}
    (hrows : ∀ rs ∈ rows, Positive rs ∧ (expand rs).length = right - left) {top x y c : Nat} :
    Paints (placeRects b (rows.flatten.map nums) (some (left : Int)) (some (top : Int))) x y c
      ↔ ∃ j rs, rows[j]? = some rs ∧ y = top + j ∧ left ≤ x ∧ (expand rs)[x - left]? = some c
        ∧ c ≠ 0 := by
  induction rows generalizing top with
  | nil => simp [placeRects, Paints]
  | cons rs rows ih =>
      obtain ⟨hpos, hlen⟩ := hrows rs List.mem_cons_self
      have hne : rs ≠ [] := by
        intro heq
        subst heq
        have : (expand ([] : List (Nat × Nat))).length = 0 := rfl
        omega
      rw [List.flatten_cons, List.map_append, placeRects_row hb hpos hne (by omega), paints_append,
        paints_placedAt, ih fun rs' h => hrows rs' (List.mem_cons_of_mem _ h)]
      constructor
      · intro hin
        rcases hin with ⟨rfl, hx, hget, hc⟩ | ⟨j, rs', hj, rfl, hx, hget, hc⟩
        · exact ⟨0, rs, rfl, rfl, hx, hget, hc⟩
        · exact ⟨j + 1, rs', hj, by omega, hx, hget, hc⟩
      · intro hin
        obtain ⟨j, rs', hj, rfl, hx, hget, hc⟩ := hin
        cases j with
        | zero =>
            obtain rfl := Option.some.inj hj
            exact .inl ⟨rfl, hx, hget, hc⟩
        | succ j => exact .inr ⟨j, rs', hj, by omega, hx, hget, hc⟩

/-! ## The kept rows -/

theorem toPaddedHex_two {b : Nat} (h : b < 256) : toPaddedHex b 2 = String.ofList (hexByte b) := by
  rw [toPaddedHex, padStart_two h]

theorem getEncodedBounds_eq {b : ImageBounds} (ht : b.top < 256) (hr : b.right < 256)
    (hb : b.bottom < 256) (hl : b.left < 256) :
    Image.getEncodedBounds b = "0x" ++ String.ofList (hexByte 0 ++ hexByte b.top
      ++ hexByte b.right ++ hexByte b.bottom ++ hexByte b.left) := by
  have hprefix : "0x00" = "0x" ++ String.ofList (hexByte 0) := by decide +kernel
  rw [Image.getEncodedBounds, toPaddedHex_two ht, toPaddedHex_two hr, toPaddedHex_two hb,
    toPaddedHex_two hl, hprefix]
  simp only [String.ofList_append, String.append_assoc]

/-- The rows of an encoding, from the bounds on. -/
theorem getEncodedRows_eq {b : ImageBounds} (hle : b.left ≤ b.right) (hright : b.right ≤ width)
    {ls : List (List Nat)} (hls : ∀ l ∈ ls, Within width b.left b.right (encode l)
      ∧ BytePairs (trimmed width b.left b.right (encode l))) (start : String) :
    (ls.map (rowOf width)).foldl (fun result row => result ++ Image.getEncodedRow width row b) start
      = start ++ String.ofList
        (pairsHex (ls.map fun l => trimmed width b.left b.right (encode l)).flatten) := by
  induction ls generalizing start with
  | nil => exact String.append_empty.symm
  | cons l ls ih =>
      obtain ⟨hw, hbytes⟩ := hls l List.mem_cons_self
      have hrow : Image.getEncodedRow width (rowOf width l) b
          = String.ofList (pairsHex (trimmed width b.left b.right (encode l))) := by
        rw [Image.getEncodedRow, ← bufferHex_pairs hbytes, ← encodeRects_eq hle hright hw]
        rfl
      rw [List.map_cons, List.foldl_cons, ih fun l' h => hls l' (List.mem_cons_of_mem _ h), hrow,
        List.map_cons, List.flatten_cons, pairsHex_append, String.ofList_append,
        String.append_assoc]

variable {getRgbaAt : Nat → Nat → RGBAColor} {colors : Colors} {height : Nat} {b : ImageBounds}

/-- The rows that are not deleted. -/
theorem rowList_kept (getRgbaAt : Nat → Nat → RGBAColor) (colors : Colors) (width : Nat)
    (hle : b.top ≤ b.bottom) (hlt : b.bottom < height) :
    ({ Image.new width height with
        rows := rowsOf getRgbaAt colors width height
        bounds := b } : Image).deleteEmptyRows.rowList
      = ((List.range (b.bottom + 1 - b.top)).map fun j =>
          indices getRgbaAt colors (b.top + j) width).map (rowOf width) := by
  -- the rows above the bounds, within them and below
  have hsplit : List.range height = List.range b.top
      ++ (List.range (b.bottom + 1 - b.top)).map (b.top + ·)
      ++ (List.range (height - (b.bottom + 1))).map (b.bottom + 1 + ·) := by
    have hheight : height = b.top + (b.bottom + 1 - b.top) + (height - (b.bottom + 1)) := by omega
    have hbelow : b.top + (b.bottom + 1 - b.top) = b.bottom + 1 := by omega
    conv_lhs => rw [hheight, List.range_add, List.range_add, hbelow]
  rw [Image.rowList]
  show (List.range height).filterMap _ = _
  rw [hsplit, List.filterMap_append, List.filterMap_append, List.map_map]
  have habove : (List.range b.top).filterMap ({ Image.new width height with
      rows := rowsOf getRgbaAt colors width height
      bounds := b } : Image).deleteEmptyRows.rows = [] := by
    refine List.filterMap_eq_nil_iff.mpr ?_
    intro i hi
    exact if_pos (.inl (List.mem_range.mp hi))
  have hbelow : ((List.range (height - (b.bottom + 1))).map (b.bottom + 1 + ·)).filterMap
      ({ Image.new width height with
        rows := rowsOf getRgbaAt colors width height
        bounds := b } : Image).deleteEmptyRows.rows = [] := by
    refine List.filterMap_eq_nil_iff.mpr ?_
    intro i hi
    obtain ⟨j, hj, rfl⟩ := List.mem_map.mp hi
    have hj := List.mem_range.mp hj
    refine if_pos (.inr ⟨?_, ?_⟩)
    · show b.bottom < b.bottom + 1 + j
      omega
    · show b.bottom + 1 + j < height
      omega
  rw [habove, hbelow, List.nil_append, List.append_nil, List.filterMap_map, ← List.filterMap_eq_map]
  refine List.filterMap_congr ?_
  intro j hj
  have hj := List.mem_range.mp hj
  simp only [Function.comp_apply, Image.deleteEmptyRows, rowsOf]
  rw [if_neg, if_pos (by omega)]
  show ¬ (b.top + j < b.top ∨ (b.bottom < b.top + j ∧ b.top + j < height))
  omega

/-- Where a pixel of a row is not transparent, the first run has ended and the last not begun. -/
theorem between_runs {l : List Nat} {x c : Nat} (hx : l[x]? = some c) (hc : c ≠ 0)
    (hfirst : l[0]? = some 0) (hend : l[l.length - 1]? = some 0) :
    (rowOf l.length l).bounds.left ≤ x ∧ x < (rowOf l.length l).bounds.right := by
  have hlt : x < l.length := (List.getElem?_eq_some_iff.mp hx).1
  have hne : encode l ≠ [] := encode_ne_nil (List.ne_nil_of_length_pos (by omega))
  obtain ⟨r, hr⟩ := Option.isSome_iff_exists.mp (List.isSome_head?.mpr hne)
  obtain ⟨q, hq⟩ := Option.isSome_iff_exists.mp (List.getLast?_isSome.mpr hne)
  have hrpos : 0 < r.1 := encode_positive l r (List.mem_of_mem_head? hr)
  have hqpos : 0 < q.1 := encode_positive l q (List.mem_of_mem_getLast? hq)
  simp only [rowOf, hr, hq, Option.map_some, Option.getD_some]
  constructor
  · refine Nat.le_of_not_lt fun hin => hc ?_
    have hzero := (getElem?_head hr hrpos).symm.trans hfirst
    rw [getElem?_head hr hin, hzero] at hx
    exact (Option.some.inj hx).symm
  · refine Nat.lt_of_not_le fun hin => hc ?_
    have hzero := (getElem?_getLast hq (by omega) (by omega)).symm.trans hend
    rw [getElem?_getLast hq hin hlt, hzero] at hx
    exact (Option.some.inj hx).symm

/-- The bounds with the left and the right one set. -/
def cutBounds (b : ImageBounds) (rows : List ImageRow) : ImageBounds :=
  { b with
    left := (rows.map fun r => r.bounds.left).min?.getD 0
    right := (rows.map fun r => r.bounds.right).max?.getD 0 }

theorem cutBounds_mem {row : ImageRow} {rows : List ImageRow} (h : row ∈ rows) :
    (cutBounds b rows).left ≤ row.bounds.left ∧ row.bounds.right ≤ (cutBounds b rows).right :=
  ⟨List.min?_getD_le_of_mem (List.mem_map_of_mem h), List.le_max?_getD_of_mem (List.mem_map_of_mem h)⟩

theorem cutBounds_within {l : List Nat} {ls : List (List Nat)} (h : l ∈ ls) :
    Within width (cutBounds b (ls.map (rowOf width))).left
      (cutBounds b (ls.map (rowOf width))).right (encode l) := by
  obtain ⟨hleft, hright⟩ := cutBounds_mem (b := b) (List.mem_map_of_mem (f := rowOf width) h)
  refine ⟨hleft, ?_⟩
  have hright : width - (((encode l).getLast?).map Prod.fst).getD 0 ≤ _ := hright
  omega

theorem cutBounds_right_le {ls : List (List Nat)} :
    (cutBounds b (ls.map (rowOf width))).right ≤ width := by
  show ((ls.map (rowOf width)).map fun r => r.bounds.right).max?.getD 0 ≤ width
  cases hmax : ((ls.map (rowOf width)).map fun r => r.bounds.right).max? with
  | none => exact Nat.zero_le _
  | some m =>
      obtain ⟨row, hrow, rfl⟩ := List.mem_map.mp (List.max?_mem hmax)
      obtain ⟨l, -, rfl⟩ := List.mem_map.mp hrow
      exact Nat.sub_le _ _

/-- What is left of a row are bytes. -/
theorem trimmed_bytes {l : List Nat} (hlen : l.length = width) (hle : left < right)
    (hright : right ≤ width) (hwidth : width < 256) (hw : Within width left right (encode l))
    (hl : ∀ c ∈ l, c < 256) : BytePairs (trimmed width left right (encode l)) := by
  have hcut := expand_trimmed (by rw [expand_encode, hlen]) (Nat.le_of_lt hle) hright hw
  rw [expand_encode] at hcut
  intro r hr
  constructor
  · have hlength := length_le_expand hr
    rw [hcut, List.length_take, List.length_drop] at hlength
    omega
  · have hmem := (trimmed_positive hle (encode_positive l)).mem_expand hr
    rw [hcut] at hmem
    exact hl _ (List.mem_of_mem_drop (List.mem_of_mem_take hmem))

/-- The image is taken for blank. -/
def ExitsEarly (image : Image) : Prop :=
  image.rowList.length = 1
    ∧ image.isEmptyRow ((image.rows 0).bind fun r => r.rects.head?) = true

theorem encodeRows_written {image : Image} (hne : image.rowList ≠ []) (hlate : ¬ ExitsEarly image) :
    image.encodeRows.1 = image.rowList.foldl (fun result row =>
        result ++ Image.getEncodedRow image.width row (cutBounds image.bounds image.rowList))
      (Image.getEncodedBounds (cutBounds image.bounds image.rowList)) := by
  unfold Image.encodeRows
  rw [if_pos hne]
  exact congrArg Prod.fst (if_neg hlate)

theorem encodeRows_early {image : Image} (hearly : ExitsEarly image) :
    image.encodeRows.1 = "0x0000000000" := by
  have hne : image.rowList ≠ [] := List.ne_nil_of_length_pos (by rw [hearly.1]; exact Nat.one_pos)
  unfold Image.encodeRows
  rw [if_pos hne]
  exact congrArg Prod.fst (if_pos hearly)

/-- The end of `encode` sets the bounds, and writes them and the rows or that there is nothing. -/
theorem encodeRows_spec (image : Image) :
    ∃ b, image.encodeRows.2 = { image with bounds := b }
      ∧ (image.encodeRows.1 = "0x0000000000"
        ∨ image.encodeRows.1 = Image.getEncodedBounds b
          ++ String.join (image.rowList.map fun row => Image.getEncodedRow image.width row b)) := by
  by_cases hnil : image.rowList = []
  · refine ⟨image.bounds, ?_, .inr ?_⟩
    · unfold Image.encodeRows
      rw [if_neg (not_not.mpr hnil)]
    · unfold Image.encodeRows
      rw [if_neg (not_not.mpr hnil), hnil]
      exact String.append_empty.symm
  · refine ⟨cutBounds image.bounds image.rowList, ?_, ?_⟩
    · unfold Image.encodeRows
      rw [if_pos hnil]
      by_cases hearly : ExitsEarly image
      · exact congrArg Prod.snd (if_pos hearly)
      · exact congrArg Prod.snd (if_neg hearly)
    · by_cases hearly : ExitsEarly image
      · exact .inl (encodeRows_early hearly)
      · rw [encodeRows_written hnil hearly, foldl_append]
        exact .inr rfl

theorem encodeRows_kept {image : Image} (hne : image.rowList ≠ []) (h0 : image.rows 0 = none) :
    image.encodeRows.1 = image.rowList.foldl (fun result row =>
        result ++ Image.getEncodedRow image.width row (cutBounds image.bounds image.rowList))
      (Image.getEncodedBounds (cutBounds image.bounds image.rowList)) := by
  refine encodeRows_written hne ?_
  intro hearly
  have hempty := hearly.2
  rw [h0] at hempty
  exact absurd hempty Bool.false_ne_true

theorem encodeRows_blank {image : Image} {row : ImageRow} (hlist : image.rowList = [row])
    (h0 : image.rows 0 = some row) (hempty : image.isEmptyRow row.rects.head? = true) :
    image.encodeRows.1 = "0x0000000000" := by
  refine encodeRows_early ⟨by rw [hlist]; rfl, ?_⟩
  rw [h0]
  exact hempty

/-! ## The round trip -/

/-- What is written for the kept rows, read again, paints these rows. -/
theorem paints_kept {ls : List (List Nat)} (hlt : (cutBounds b (ls.map (rowOf width))).left
      < (cutBounds b (ls.map (rowOf width))).right) (hwidth : width < 256) (htop : b.top < 256)
    (hbottom : b.bottom < 256) (hls : ∀ l ∈ ls, l.length = width ∧ ∀ c ∈ l, c < 256) {x y c : Nat} :
    Paints (decodeImage ((ls.map (rowOf width)).foldl (fun result row =>
        result ++ Image.getEncodedRow width row (cutBounds b (ls.map (rowOf width))))
      (Image.getEncodedBounds (cutBounds b (ls.map (rowOf width)))))).placed x y c
      ↔ ∃ j l, ls[j]? = some l ∧ y = b.top + j ∧ (cutBounds b (ls.map (rowOf width))).left ≤ x
        ∧ x < (cutBounds b (ls.map (rowOf width))).right ∧ l[x]? = some c ∧ c ≠ 0 := by
  have hright := @cutBounds_right_le width b ls
  have hwithin : ∀ l ∈ ls, Within width (cutBounds b (ls.map (rowOf width))).left
      (cutBounds b (ls.map (rowOf width))).right (encode l) := fun l hl => cutBounds_within hl
  have htop' : (cutBounds b (ls.map (rowOf width))).top = b.top := rfl
  have hbottom' : (cutBounds b (ls.map (rowOf width))).bottom = b.bottom := rfl
  -- from here on only what is known of the bounds matters, not how they were cut
  generalize cutBounds b (ls.map (rowOf width)) = cut at *
  have hbytes : ∀ l ∈ ls, BytePairs (trimmed width cut.left cut.right (encode l)) := fun l hl =>
    trimmed_bytes (hls l hl).1 hlt hright hwidth (hwithin l hl) (hls l hl).2
  have hflat : BytePairs (ls.map fun l => trimmed width cut.left cut.right (encode l)).flatten := by
    intro p hp
    obtain ⟨rs, hrs, hp⟩ := List.mem_flatten.mp hp
    obtain ⟨l, hl, rfl⟩ := List.mem_map.mp hrs
    exact hbytes l hl p hp
  rw [getEncodedRows_eq (Nat.le_of_lt hlt) hright fun l hl => ⟨hwithin l hl, hbytes l hl⟩,
    getEncodedBounds_eq (by omega) (by omega) (by omega) (by omega), String.append_assoc,
    ← String.ofList_append, decodeImage_hex (by omega) (by omega) (by omega) (by omega) (by omega) hflat]
  -- a row is written from the left bound to the right
  have hcut : ∀ l ∈ ls, expand (trimmed width cut.left cut.right (encode l))
      = (l.drop cut.left).take (cut.right - cut.left) := by
    intro l hl
    rw [expand_trimmed (by rw [expand_encode, (hls l hl).1]) (Nat.le_of_lt hlt) hright (hwithin l hl),
      expand_encode]
  show Paints (placeRects _ _ (some (cut.left : Int)) (some (cut.top : Int))) x y c ↔ _
  rw [paints_rows ⟨rfl, rfl⟩ hlt, htop']
  · constructor
    · intro h
      obtain ⟨j, rs, hj, hy, hx, hget, hc⟩ := h
      rw [List.getElem?_map] at hj
      obtain ⟨l, hl, rfl⟩ := Option.map_eq_some_iff.mp hj
      rw [hcut l (List.mem_of_getElem? hl)] at hget
      have hin : x - cut.left < cut.right - cut.left := by
        have := (List.getElem?_eq_some_iff.mp hget).1
        rw [List.length_take] at this
        omega
      rw [List.getElem?_take_of_lt hin, List.getElem?_drop, Nat.add_sub_cancel' hx] at hget
      exact ⟨j, l, hl, hy, hx, by omega, hget, hc⟩
    · intro h
      obtain ⟨j, l, hl, hy, hx, hlt', hget, hc⟩ := h
      refine ⟨j, _, by rw [List.getElem?_map, hl]; rfl, hy, hx, ?_, hc⟩
      rw [hcut l (List.mem_of_getElem? hl), List.getElem?_take_of_lt (by omega), List.getElem?_drop,
        Nat.add_sub_cancel' hx]
      exact hget
  · intro rs hrs
    obtain ⟨l, hl, rfl⟩ := List.mem_map.mp hrs
    refine ⟨trimmed_positive hlt (encode_positive l), ?_⟩
    rw [hcut l hl, List.length_take, List.length_drop, (hls l hl).1]
    omega

/-- An image all of whose rows are blank keeps its first row only, and that is not written. -/
theorem encodeRows_clear (hpos : 0 < width) (hheight : 0 < height) (htop : b.top = 0)
    (hbottom : b.bottom = 0) (hblank : Blank (indices getRgbaAt colors 0 width)) :
    ({ Image.new width height with
        rows := rowsOf getRgbaAt colors width height
        bounds := b } : Image).deleteEmptyRows.encodeRows.1 = "0x0000000000" := by
  have hkept := @rowList_kept height b getRgbaAt colors width (by omega) (by omega)
  rw [htop, hbottom] at hkept
  have hne : indices getRgbaAt colors 0 width ≠ [] :=
    List.ne_nil_of_length_pos (by rw [length_indices]; exact hpos)
  refine encodeRows_blank hkept ?_ ((isEmptyRow_iff length_indices hne).mpr hblank)
  show (if 0 < b.top ∨ b.bottom < 0 ∧ 0 < height then none else rowsOf getRgbaAt colors width height 0)
    = _
  rw [if_neg (by omega), rowsOf, if_pos hheight]

/-- A row that is not clear has a pixel that is not transparent. -/
theorem not_clear {y : Nat} (h : ¬ Clear getRgbaAt width y) :
    ∃ x, x < width ∧ (getRgbaAt x y).a ≠ 0 := by
  by_contra hnone
  exact h fun x hx => by_contra fun ha => hnone ⟨x, hx, ha⟩

/-- An image with a row that is not blank is written from its first such row to its last. -/
theorem paints_image {last : Nat} (hok : PaletteOk colors) (hsize : colors.size ≤ 256)
    (hpos : 0 < width) (hwidth : width < 256) (hheight : height ≤ 256)
    (hknown : ∀ y, y < height → Known getRgbaAt colors y width)
    (hleft : ∀ y, y < height → (getRgbaAt 0 y).a = 0)
    (hright : ∀ y, y < height → (getRgbaAt (width - 1) y).a = 0) (htop : 0 < b.top)
    (hle : b.top ≤ last) (hlt : last < height) (hnt : ¬ Clear getRgbaAt width b.top)
    (hbefore : ∀ y, y < b.top → Clear getRgbaAt width y)
    (hafter : ∀ y, last < y → y < height → Clear getRgbaAt width y) (hbottom : b.bottom = last)
    {x y c : Nat} :
    Paints (decodeImage ({ Image.new width height with
        rows := rowsOf getRgbaAt colors width height
        bounds := b } : Image).deleteEmptyRows.encodeRows.1).placed x y c
      ↔ x < width ∧ y < height ∧ (getRgbaAt x y).a ≠ 0
        ∧ colors.get? (getRgbaAt x y).hex = some c := by
  have hkept := @rowList_kept height b getRgbaAt colors width (by omega) (by omega)
  have hfirst : ({ Image.new width height with
      rows := rowsOf getRgbaAt colors width height
      bounds := b } : Image).deleteEmptyRows.rows 0 = none := if_pos (.inl htop)
  generalize hls : ((List.range (b.bottom + 1 - b.top)).map fun j =>
    indices getRgbaAt colors (b.top + j) width) = ls at hkept
  -- the kept rows are the rows from the first to the last
  have hrow : ∀ j l, ls[j]? = some l
      ↔ b.top + j ≤ last ∧ l = indices getRgbaAt colors (b.top + j) width := by
    intro j l
    rw [← hls, List.getElem?_map]
    constructor
    · intro h
      obtain ⟨i, hi, rfl⟩ := Option.map_eq_some_iff.mp h
      obtain ⟨hj, rfl⟩ := List.getElem?_eq_some_iff.mp hi
      rw [List.length_range] at hj
      rw [List.getElem_range]
      exact ⟨by omega, rfl⟩
    · intro hp
      obtain ⟨hj, rfl⟩ := hp
      rw [List.getElem?_range (by omega)]
      rfl
  have hmem : ∀ l ∈ ls, l.length = width ∧ ∀ v ∈ l, v < 256 := by
    intro l hl
    obtain ⟨j, hj⟩ := List.getElem?_of_mem hl
    obtain ⟨hj, rfl⟩ := (hrow j l).mp hj
    refine ⟨length_indices, ?_⟩
    intro v hv
    obtain ⟨x, hx, rfl⟩ := List.mem_map.mp hv
    have hy : b.top + j < height := by omega
    obtain ⟨v, hv⟩ := Option.isSome_iff_exists.mp (hknown _ hy x (List.mem_range.mp hx))
    rw [colorIndex, hv]
    split
    · exact Nat.zero_lt_succ _
    · exact Nat.lt_of_lt_of_le (hok.lt_size _ _ hv) hsize
  -- a pixel that is not transparent lies between the bounds
  have hin : ∀ (j : Nat) (l : List Nat) (x v : Nat), ls[j]? = some l → l[x]? = some v → v ≠ 0 →
      (cutBounds b (ls.map (rowOf width))).left ≤ x
        ∧ x < (cutBounds b (ls.map (rowOf width))).right := by
    intro j l x v hj hx hv
    obtain ⟨hy, hl⟩ := (hrow j l).mp hj
    have hzero : ∀ x, x < width → (getRgbaAt x (b.top + j)).a = 0 → l[x]? = some 0 := by
      intro x hx ha
      rw [hl, getElem?_indices hx, colorIndex, if_pos ha]
    have hlen := (hmem l (List.mem_of_getElem? hj)).1
    obtain ⟨hlo, hhi⟩ := between_runs hx hv (hzero 0 hpos (hleft _ (by omega)))
      (by rw [hlen]; exact hzero _ (by omega) (hright _ (by omega)))
    rw [hlen] at hlo hhi
    obtain ⟨hcutl, hcutr⟩ := cutBounds_mem (b := b)
      (List.mem_map_of_mem (f := rowOf width) (List.mem_of_getElem? hj))
    exact ⟨Nat.le_trans hcutl hlo, Nat.lt_of_lt_of_le hhi hcutr⟩
  have hcolor : ∀ x y, x < width → y < height → ((getRgbaAt x y).a ≠ 0
      ↔ colorIndex colors (getRgbaAt x y) ≠ 0) := fun x y hx hy =>
    not_congr (hok.colorIndex_eq_zero (hknown y hy x hx)).symm
  have hlr : (cutBounds b (ls.map (rowOf width))).left
      < (cutBounds b (ls.map (rowOf width))).right := by
    obtain ⟨x, hx, ha⟩ := not_clear hnt
    obtain ⟨hlo, hhi⟩ := hin 0 _ x _ ((hrow 0 _).mpr ⟨hle, rfl⟩) (getElem?_indices hx)
      ((hcolor x _ hx (by omega)).mp ha)
    omega
  have hne : ls ≠ [] := by
    intro hnil
    have h0 := (hrow 0 _).mpr ⟨hle, rfl⟩
    rw [hnil, List.getElem?_nil] at h0
    exact Option.some_ne_none _ h0.symm
  rw [encodeRows_kept (by rw [hkept]; exact fun h => hne (List.map_eq_nil_iff.mp h)) hfirst, hkept]
  refine (paints_kept hlr hwidth (by omega) (by omega) hmem).trans ?_
  constructor
  · intro h
    obtain ⟨j, l, hj, hy, -, -, hget, hc⟩ := h
    obtain ⟨hj, rfl⟩ := (hrow j l).mp hj
    obtain rfl := hy
    have hx : x < width := by
      have := (List.getElem?_eq_some_iff.mp hget).1
      rwa [length_indices] at this
    rw [getElem?_indices hx] at hget
    obtain rfl := Option.some.inj hget
    have ha := (hcolor x _ hx (by omega)).mpr hc
    obtain ⟨v, hv⟩ := Option.isSome_iff_exists.mp (hknown (b.top + j) (by omega) x hx)
    refine ⟨hx, by omega, ha, ?_⟩
    rw [colorIndex, if_neg ha, hv]
    rfl
  · intro h
    obtain ⟨hx, hy, ha, hget⟩ := h
    have hlo : b.top ≤ y := Nat.le_of_not_lt fun h => ha (hbefore y h x hx)
    have hhi : y ≤ last := Nat.le_of_not_lt fun h => ha (hafter y h hy x hx)
    obtain ⟨j, rfl⟩ := Nat.exists_eq_add_of_le hlo
    have hj := (hrow j _).mpr ⟨hhi, rfl⟩
    have hv : colorIndex colors (getRgbaAt x (b.top + j)) = c := by
      rw [colorIndex, if_neg ha, hget]
      rfl
    have hc : c ≠ 0 := hv ▸ (hcolor x _ hx hy).mp ha
    have hcell : (indices getRgbaAt colors (b.top + j) width)[x]? = some c := by
      rw [getElem?_indices hx, hv]
    obtain ⟨hl, hr⟩ := hin j _ x c hj hcell hc
    exact ⟨j, _, hj, rfl, hl, hr, hcell, hc⟩

/-- What `toRLE` returns for a new image, once the rows are read. -/
theorem toRLE_new : (Image.new width height).toRLE getRgbaAt colors
    = ((List.range height).foldlM (Image.encodeRow getRgbaAt) (.new width height, colors)).map
      fun st => (st.1.deleteEmptyRows.encodeRows.1, { st.1.deleteEmptyRows.encodeRows.2 with
        rle := some st.1.deleteEmptyRows.encodeRows.1 }, st.2) := by
  have hencode : (Image.new width height).encode getRgbaAt colors
      = ((List.range height).foldlM (Image.encodeRow getRgbaAt) (.new width height, colors)).bind
          fun st => some (st.1.deleteEmptyRows.encodeRows.1, st.1.deleteEmptyRows.encodeRows.2,
            st.2) := rfl
  show ((Image.new width height).encode getRgbaAt colors).bind _ = _
  rw [hencode]
  cases (List.range height).foldlM (Image.encodeRow getRgbaAt) (.new width height, colors) with
  | none => rfl
  | some st => rfl

theorem toRLE_eq {image : Image} {colors' : Colors} (h : (List.range height).foldlM
      (Image.encodeRow getRgbaAt) (.new width height, colors) = some (image, colors')) :
    (Image.new width height).toRLE getRgbaAt colors
      = some (image.deleteEmptyRows.encodeRows.1, { image.deleteEmptyRows.encodeRows.2 with
          rle := some image.deleteEmptyRows.encodeRows.1 }, colors') := by
  rw [toRLE_new, h]
  rfl

/-- A palette with nothing but the transparent colour. -/
def newPalette : Colors := ⟨[("", 0)], List.nodup_singleton _⟩

theorem newPalette_ok : PaletteOk newPalette := by
  have hone : ∀ k v, newPalette.get? k = some v ↔ k = "" ∧ v = 0 := by
    intro k v
    rw [JsMap.get?_eq_some, newPalette, List.mem_singleton, Prod.mk.injEq]
  refine ⟨(hone _ _).mpr ⟨rfl, rfl⟩, ?_, ?_⟩
  · intro k k' v hk hk'
    rw [((hone _ _).mp hk).1, ((hone _ _).mp hk').1]
  · intro k v hk
    rw [((hone _ _).mp hk).2]
    exact Nat.one_pos

/-- Two dots, with an empty row between theirs. -/
def twoDots (x y : Nat) : RGBAColor :=
  if (x = 3 ∧ y = 2) ∨ (x = 5 ∧ y = 4) then ⟨255, 10, 0, 255⟩ else ⟨0, 0, 0, 0⟩

end Nouns.Sdk
