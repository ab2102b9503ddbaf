import Nouns.Proof.RendererAgreement
import Nouns.Proof.SeedRange

/-!
# Drawing without failing

The contract draws a part when every rect stays inside the table of coordinates and names a
colour of its palette. What the SDK writes does: its rows run from the left bound to the right,
which are at most the width of the image.
-/

namespace Nouns.MultiPartRLEToSVG

open Evm Proof Sdk

/-! ## One rect -/

theorem lookup_total {n : Nat} (h : n ≤ 32) : ∃ s, index lookup n = .ok s :=
  ⟨_, index_of_lt (show n < lookup.length from Nat.lt_succ_of_le h)⟩

theorem store_total {α : Type} {xs : List α} {i : Nat} {x : α} (h : i < xs.length) :
    store xs i x = .ok (xs.set i x) := if_pos h

theorem getChunk_total {buffer : List String} {n : Nat} (hn : 4 * n ≤ buffer.length) :
    ∃ text, getChunk_ (4 * n) buffer = .ok text := by
  have hturns : (4 * n + 3) / 4 = n := by omega
  rw [getChunk_, hturns]
  refine Exists.imp (fun _ h => h.1) (foldlM_range_total (I := fun _ _ => True) trivial ?_)
  intro j chunk hj _
  have hget : ∀ k, k < 4 → index buffer (4 * j + k) = .ok buffer[4 * j + k]! := by
    intro k hk
    rw [index_ok, getElem!_pos buffer (4 * j + k) (by omega)]
    exact List.getElem?_eq_getElem (by omega)
  have h0 : index buffer (4 * j) = .ok buffer[4 * j]! := hget 0 (by decide)
  refine Exists.imp (fun _ h => ⟨h, trivial⟩) ?_
  exact bind_total h0 (bind_total (hget 1 (by decide)) (bind_total (hget 2 (by decide))
    (bind_total (hget 3 (by decide)) ⟨_, rfl⟩)))

/-- The buffer has room for another rect. -/
structure Drawing.Ready (d : Drawing) : Prop where
  cursor : 4 ∣ d.cursor
  room : d.cursor < 16
  length : d.buffer.length = 16

theorem Drawing.put_total {palette : List String} {rect : Rect} {d : Drawing} (hd : d.Ready)
    (hlength : rect.length.toNat ≤ 32) (hx : d.currentX ≤ 32) (hy : d.currentY ≤ 32)
    (hcolor : rect.colorIndex.toNat < palette.length) :
    ∃ d', d.put palette rect = .ok d' ∧ d'.Ready ∧ d'.currentX = d.currentX
      ∧ d'.currentY = d.currentY := by
  obtain ⟨⟨n, hn⟩, hroom, hbuffer⟩ := hd
  unfold Drawing.put
  split
  · obtain ⟨width, hwidth⟩ := lookup_total hlength
    obtain ⟨x, hx⟩ := lookup_total hx
    obtain ⟨y, hy⟩ := lookup_total hy
    have hfour : d.cursor + 4 ≤ 16 := by omega
    have hadd : add 256 d.cursor 4 = .ok (d.cursor + 4) := add_ok.mpr ⟨by omega, rfl⟩
    generalize hfull : (((d.buffer.set d.cursor width).set (d.cursor + 1) x).set (d.cursor + 2)
      y).set (d.cursor + 3) palette[rect.colorIndex.toNat] = buffer
    have hlength : buffer.length = 16 := by
      rw [← hfull]
      simp only [List.length_set, hbuffer]
    rw [bind_of_ok hwidth, bind_of_ok (store_total (by omega)), bind_of_ok hx,
      bind_of_ok (store_total (by rw [List.length_set]; omega)), bind_of_ok hy,
      bind_of_ok (store_total (by simp only [List.length_set]; omega)),
      bind_of_ok (index_of_lt hcolor),
      bind_of_ok (store_total (by simp only [List.length_set]; omega)), bind_of_ok hadd, hfull]
    split
    · obtain ⟨chunk, hchunk⟩ := @getChunk_total buffer (n + 1) (by omega)
      have hcursor : d.cursor + 4 = 4 * (n + 1) := by omega
      refine ⟨{ d with buffer := buffer, part := d.part ++ chunk, cursor := 0 }, ?_,
        ⟨Nat.dvd_zero 4, Nat.zero_lt_succ 15, hlength⟩, rfl, rfl⟩
      rw [hcursor, bind_of_ok hchunk]
      rfl
    · next hsmall =>
        refine ⟨{ d with buffer := buffer, cursor := d.cursor + 4 }, rfl, ⟨⟨n + 1, ?_⟩, ?_, hlength⟩,
          rfl, rfl⟩
        · show d.cursor + 4 = 4 * (n + 1)
          omega
        · show d.cursor + 4 < 16
          omega
  · exact ⟨d, rfl, ⟨⟨n, hn⟩, hroom, hbuffer⟩, rfl, rfl⟩

/-! ## A part -/

/-- From a place on, the rects stay in the table of coordinates, and in a palette of `size`. -/
def Drawable (size left right : Nat) : List Rect → Nat → Nat → Prop
  | [], _, _ => True
  | rect :: rects, x, y => rect.colorIndex.toNat < size ∧ x + rect.length.toNat ≤ 32 ∧ y ≤ 32
      ∧ if x + rect.length.toNat = right then Drawable size left right rects left (y + 1)
        else Drawable size left right rects (x + rect.length.toNat) y

theorem Drawable.mono {size size' left right : Nat} (hle : size ≤ size') {rects : List Rect}
    {x y : Nat} (h : Drawable size left right rects x y) :
    Drawable size' left right rects x y := by
  induction rects generalizing x y with
  | nil => trivial
  | cons rect rects ih =>
      obtain ⟨hcolor, hx, hy, hrest⟩ := h
      refine ⟨Nat.lt_of_lt_of_le hcolor hle, hx, hy, ?_⟩
      split at hrest
      · next hend => rw [if_pos hend]; exact ih hrest
      · next hmore => rw [if_neg hmore]; exact ih hrest

theorem drawLoop_total {palette : List String} {bounds : ContentBounds} {rects : List Rect}
    {d : Drawing} (hd : d.Ready) (h : Drawable palette.length bounds.left.toNat bounds.right.toNat
      rects d.currentX d.currentY) :
    ∃ d', rects.foldlM (Drawing.draw palette bounds) d = .ok d' ∧ d'.Ready := by
  induction rects generalizing d with
  | nil => exact ⟨d, rfl, hd⟩
  | cons rect rects ih =>
      obtain ⟨hcolor, hx, hy, hrest⟩ := h
      obtain ⟨d₁, hput, hready, hx₁, hy₁⟩ :=
        Drawing.put_total hd (by omega) (by omega) hy hcolor
      have haddx : add 256 d₁.currentX rect.length.toNat
          = .ok (d.currentX + rect.length.toNat) := by
        rw [hx₁]
        exact add_ok.mpr ⟨by omega, rfl⟩
      have haddy : add 256 d₁.currentY 1 = .ok (d.currentY + 1) := by
        rw [hy₁]
        exact add_ok.mpr ⟨by omega, rfl⟩
      -- where the next one goes
      have hdraw : ∃ d₂, Drawing.draw palette bounds d rect = .ok d₂ ∧ d₂.Ready
          ∧ Drawable palette.length bounds.left.toNat bounds.right.toNat rects d₂.currentX
            d₂.currentY := by
        unfold Drawing.draw
        rw [bind_of_ok hput, bind_of_ok haddx]
        split at hrest
        · next hend =>
            rw [if_pos hend, bind_of_ok haddy]
            exact ⟨_, rfl, ⟨hready.cursor, hready.room, hready.length⟩, hrest⟩
        · next hmore =>
            rw [if_neg hmore]
            refine ⟨_, rfl, ⟨hready.cursor, hready.room, hready.length⟩, ?_⟩
            show Drawable _ _ _ rects _ d₁.currentY
            rw [hy₁]
            exact hrest
      obtain ⟨d₂, hdraw, hready₂, hrest₂⟩ := hdraw
      obtain ⟨d', hd', hready'⟩ := ih hready₂ hrest₂
      refine ⟨d', ?_, hready'⟩
      rw [List.foldlM_cons, bind_of_ok hdraw]
      exact hd'

/-- **A part that can be drawn is drawn.** -/
theorem drawPart_total {palettes : UInt8 → List String} {image : DecodedImage}
    (h : Drawable (palettes image.paletteIndex).length image.bounds.left.toNat
      image.bounds.right.toNat image.rects image.bounds.left.toNat image.bounds.top.toNat) :
    ∃ text, drawPart palettes image = .ok text := by
  obtain ⟨d, hd, hready⟩ := @drawLoop_total (palettes image.paletteIndex) image.bounds image.rects
    ⟨image.bounds.left.toNat, image.bounds.top.toNat, 0, List.replicate 16 "", ""⟩
    ⟨Nat.dvd_zero 4, Nat.zero_lt_succ 15, List.length_replicate⟩ h
  unfold drawPart
  refine bind_total hd ?_
  split
  · obtain ⟨n, hn⟩ := hready.cursor
    obtain ⟨chunk, hchunk⟩ := @getChunk_total d.buffer n
      (by have := hready.length; have := hready.room; omega)
    rw [hn, bind_of_ok hchunk]
    exact ⟨_, rfl⟩
  · exact ⟨_, rfl⟩

end Nouns.MultiPartRLEToSVG
