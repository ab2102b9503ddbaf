import Nouns.Descriptor.MultiPartRLEToSVG
import Nouns.Proof.DecodeImage

/-!
# The two renderers

The contract buffers four rects at a time and looks its coordinates up, the SDK writes
every rect out at once. What the contract has drawn so far is its part together with what
waits in the buffer: each rect adds to that what the SDK pushes for it.
-/

namespace Nouns.MultiPartRLEToSVG

open JsText Evm Sdk

/-- `0x` and the digits of the bytes. -/
def hexString (bytes : List UInt8) : String :=
  "0x" ++ String.ofList (bytes.flatMap fun x => hexByte x.toNat)

/-! ## Decoding -/

/-- A byte as the SDK reads it. -/
def num (b : UInt8) : JsNum := some (b.toNat : Int)

theorem decodeRects_ok {image : List UInt8} {rects : List Rect}
    (h : decodeRects image = .ok rects) :
    image = rects.flatMap fun r => [r.length, r.colorIndex] := by
  induction image using decodeRects.induct generalizing rects with
  | case1 =>
      obtain rfl := Except.ok.inj h
      rfl
  | case2 => exact absurd h (by simp [decodeRects])
  | case3 length colorIndex image ih =>
      simp only [decodeRects, bind_ok] at h
      obtain ⟨rest, hrest, h⟩ := h
      obtain rfl := Except.ok.inj h
      rw [List.flatMap_cons, ← ih hrest]
      rfl

/-- The bytes of an image that is decoded. -/
theorem decodeRLEImage_ok {bytes : List UInt8} {image : DecodedImage}
    (h : decodeRLEImage_ bytes = .ok image) :
    bytes = image.paletteIndex :: image.bounds.top :: image.bounds.right :: image.bounds.bottom
      :: image.bounds.left :: image.rects.flatMap fun r => [r.length, r.colorIndex] := by
  simp only [decodeRLEImage_, bind_ok, index_ok] at h
  obtain ⟨a, ha, b, hb, c, hc, d, hd, e, he, rects, hrects, h⟩ := h
  obtain rfl := Except.ok.inj h
  have hrest := decodeRects_ok hrects
  rcases bytes with - | ⟨b₀, - | ⟨b₁, - | ⟨b₂, - | ⟨b₃, - | ⟨b₄, rest⟩⟩⟩⟩⟩
  · cases ha
  · cases hb
  · cases hc
  · cases hd
  · cases he
  · simp only [List.getElem?_cons_zero, List.getElem?_cons_succ, Option.some.injEq] at ha hb hc hd he
    subst ha hb hc hd he
    rw [← hrest]
    rfl

/-- A rect as two numbers. -/
def pair (r : Rect) : Nat × Nat := (r.length.toNat, r.colorIndex.toNat)

theorem bytePairs_pair (rects : List Rect) : BytePairs (rects.map pair) := by
  intro p hp
  obtain ⟨r, -, rfl⟩ := List.mem_map.mp hp
  exact ⟨r.length.toNat_lt, r.colorIndex.toNat_lt⟩

theorem pairsHex_rects (rects : List Rect) :
    (rects.flatMap fun r => [r.length, r.colorIndex]).flatMap (fun x => hexByte x.toNat)
      = pairsHex (rects.map pair) := by
  induction rects with
  | nil => rfl
  | cons r rects ih =>
      rw [List.flatMap_cons, List.flatMap_append, ih]
      rfl

/-- **The decoders agree.** -/
theorem decodeImage_eq {bytes : List UInt8} {image : DecodedImage}
    (h : decodeRLEImage_ bytes = .ok image) :
    decodeImage (hexString bytes)
      = { paletteIndex := num image.paletteIndex
          bounds := ⟨num image.bounds.top, num image.bounds.right, num image.bounds.bottom,
            num image.bounds.left⟩
          rects := (image.rects.map pair).map nums } := by
  obtain ⟨index, ⟨top, right, bottom, left⟩, rects⟩ := image
  have hbytes := decodeRLEImage_ok h
  have hdigits : hexString bytes = "0x" ++ String.ofList (hexByte index.toNat ++ hexByte top.toNat
      ++ hexByte right.toNat ++ hexByte bottom.toNat ++ hexByte left.toNat
      ++ pairsHex (rects.map pair)) := by
    rw [hexString, hbytes, ← pairsHex_rects]
    rfl
  rw [hdigits]
  exact decodeImage_hex index.toNat_lt top.toNat_lt right.toNat_lt bottom.toNat_lt left.toNat_lt
    (bytePairs_pair rects)

/-! ## Looking up -/

theorem lookup_eq {n : Nat} {s : String} (h : index lookup n = .ok s) :
    s = JsNum.tenfold (some (n : Int)) := by
  have hall : ∀ n : Fin 33, lookup[(n : Nat)]? = some (JsNum.tenfold (some ((n : Nat) : Int))) := by
    decide +kernel
  have hget := index_ok.mp h
  obtain ⟨hlt, -⟩ := List.getElem?_eq_some_iff.mp hget
  have hn := hall ⟨n, hlt⟩
  exact Option.some.inj (hget.symm.trans hn)

theorem color_eq {palette : List String} {b : UInt8} {s : String}
    (h : index palette b.toNat = .ok s) : s = colorAt palette (num b) := by
  have hget := index_ok.mp h
  show s = palette[b.toNat]?.getD "undefined"
  rw [hget]
  rfl

/-! ## The buffer -/

theorem store_ok {α : Type} {xs ys : List α} {i : Nat} {x : α} :
    store xs i x = .ok ys ↔ i < xs.length ∧ ys = xs.set i x := by
  unfold store
  split <;> simp [*, eq_comm]

/-- A rect from its four strings. -/
def rectText (width x y color : String) : String :=
  "<rect width=\"" ++ width ++ "\" height=\"10\" x=\"" ++ x ++ "\" y=\"" ++ y ++ "\" fill=\"#"
    ++ color ++ "\" />"

/-- The rects in the first `n` groups of the buffer. -/
def drawn (buffer : List String) : Nat → String
  | 0 => ""
  | n + 1 => drawn buffer n ++ rectText (buffer[4 * n]?.getD "") (buffer[4 * n + 1]?.getD "")
      (buffer[4 * n + 2]?.getD "") (buffer[4 * n + 3]?.getD "")

theorem drawn_congr {buffer buffer' : List String} {n : Nat}
    (h : ∀ i, i < 4 * n → buffer'[i]? = buffer[i]?) : drawn buffer' n = drawn buffer n := by
  induction n with
  | zero => rfl
  | succ n ih =>
      unfold drawn
      rw [ih fun i hi => h i (by omega), h _ (by omega), h _ (by omega), h _ (by omega),
        h _ (by omega)]

theorem getChunk_ok {buffer : List String} {n : Nat} {text : String}
    (h : getChunk_ (4 * n) buffer = .ok text) : text = drawn buffer n := by
  have hturns : (4 * n + 3) / 4 = n := by omega
  rw [getChunk_, hturns] at h
  refine foldlM_range_ok (I := fun j chunk => chunk = drawn buffer j) h rfl ?_
  rintro j chunk chunk' - rfl hturn
  simp only [bind_ok, index_ok] at hturn
  obtain ⟨a, ha, b, hb, c, hc, d, hd, hturn⟩ := hturn
  obtain rfl := Except.ok.inj hturn
  simp only [drawn, ha, hb, hc, hd, Option.getD_some]
  rfl

/-- What has been drawn, whether it waits in the buffer or not. -/
def Drawing.text (d : Drawing) : String := d.part ++ drawn d.buffer (d.cursor / 4)

/-- A rect goes behind what has been drawn, whether the buffer is full after it or not. -/
theorem Drawing.put_ok {palette : List String} {rect : Rect} {d d' : Drawing}
    (h : d.put palette rect = .ok d') (hcursor : 4 ∣ d.cursor) :
    4 ∣ d'.cursor ∧ d'.currentX = d.currentX ∧ d'.currentY = d.currentY
      ∧ d'.text = d.text ++ if rect.colorIndex = 0 then "" else Placed.svg palette
        ⟨num rect.length, num rect.colorIndex, some d.currentX, some d.currentY⟩ := by
  unfold Drawing.put at h
  by_cases hzero : rect.colorIndex = 0
  · rw [if_neg (not_not.mpr hzero)] at h
    obtain rfl := Except.ok.inj h
    rw [if_pos hzero, String.append_empty]
    exact ⟨hcursor, rfl, rfl, rfl⟩
  rw [if_pos hzero] at h
  rw [if_neg hzero]
  simp only [bind_ok, store_ok, add_ok] at h
  obtain ⟨width, hwidth, b₁, ⟨h₁, rfl⟩, x, hx, b₂, ⟨h₂, rfl⟩, y, hy, b₃, ⟨h₃, rfl⟩, color, hcolor,
    b₄, ⟨h₄, rfl⟩, cursor, ⟨-, rfl⟩, h⟩ := h
  obtain ⟨n, hn⟩ := hcursor
  simp only [List.length_set] at h₁ h₂ h₃ h₄
  -- the buffer with the four strings in it
  generalize hbuffer : (((d.buffer.set d.cursor width).set (d.cursor + 1) x).set (d.cursor + 2)
    y).set (d.cursor + 3) color = buffer at h
  have hbefore : drawn buffer n = drawn d.buffer n := by
    refine drawn_congr ?_
    intro i hi
    rw [← hbuffer, List.getElem?_set_ne (by omega), List.getElem?_set_ne (by omega),
      List.getElem?_set_ne (by omega), List.getElem?_set_ne (by omega)]
  have hgroup : drawn buffer (n + 1) = drawn d.buffer n ++ rectText width x y color := by
    rw [drawn, hbefore, ← hbuffer, ← hn]
    simp [h₁, h₂, h₃, h₄]
  have hsvg : rectText width x y color = Placed.svg palette
      ⟨num rect.length, num rect.colorIndex, some d.currentX, some d.currentY⟩ := by
    rw [lookup_eq hwidth, lookup_eq hx, lookup_eq hy, color_eq hcolor]
    rfl
  have hold : d.text = d.part ++ drawn d.buffer n := by
    rw [Drawing.text, hn, Nat.mul_div_cancel_left n (by decide)]
  rw [hold, ← hsvg]
  split at h
  · simp only [bind_ok] at h
    obtain ⟨chunk, hchunk, h⟩ := h
    obtain rfl := Except.ok.inj h
    rw [hn, show 4 * n + 4 = 4 * (n + 1) by omega] at hchunk
    refine ⟨Nat.dvd_zero 4, rfl, rfl, ?_⟩
    rw [Drawing.text, Nat.zero_div, drawn, String.append_empty]
    show d.part ++ chunk = _
    rw [getChunk_ok hchunk, hgroup, String.append_assoc]
  · obtain rfl := Except.ok.inj h
    refine ⟨⟨n + 1, by simp only [hn]; omega⟩, rfl, rfl, ?_⟩
    show d.part ++ drawn buffer ((d.cursor + 4) / 4) = _
    rw [hn, show (4 * n + 4) / 4 = n + 1 by omega, hgroup, String.append_assoc]

/-! ## The loops -/

/-- The same bounds, as the SDK has them. -/
def ContentBounds.nums (b : ContentBounds) : Bounds := ⟨num b.top, num b.right, num b.bottom, num b.left⟩

/-- The rest of a part is drawn as the SDK draws it. -/
theorem drawLoop_ok {palette : List String} {bounds : ContentBounds} {rects : List Rect}
    {d d' : Drawing} (h : rects.foldlM (Drawing.draw palette bounds) d = .ok d')
    (hcursor : 4 ∣ d.cursor) :
    4 ∣ d'.cursor ∧ d'.text = d.text ++ String.join
      ((placeRects bounds.nums ((rects.map pair).map nums) (some d.currentX) (some d.currentY)).map
        (Placed.svg palette)) := by
  induction rects generalizing d with
  | nil =>
      obtain rfl := Except.ok.inj h
      exact ⟨hcursor, String.append_empty.symm⟩
  | cons rect rects ih =>
      rw [List.foldlM_cons, bind_ok] at h
      obtain ⟨d₂, hdraw, hrest⟩ := h
      simp only [Drawing.draw, bind_ok, add_ok] at hdraw
      obtain ⟨d₁, hput, x, ⟨-, rfl⟩, hmove⟩ := hdraw
      obtain ⟨hcursor₁, hx, hy, htext⟩ := Drawing.put_ok hput hcursor
      have hnext : JsNum.add (some (d.currentX : Int)) (num rect.length)
          = some ((d₁.currentX + rect.length.toNat : Nat) : Int) := by
        rw [hx]
        rfl
      have hzero : num rect.colorIndex = some 0 ↔ rect.colorIndex = 0 := by
        rw [num, Option.some.injEq, Int.natCast_eq_zero]
        exact UInt8.toNat_inj (b := 0)
      have hwrap : JsNum.same (some ((d₁.currentX + rect.length.toNat : Nat) : Int))
          bounds.nums.right = true ↔ d₁.currentX + rect.length.toNat = bounds.right.toNat := by
        simp only [JsNum.same, ContentBounds.nums, num, decide_eq_true_eq]
        exact Int.natCast_inj
      -- where the next one goes
      have hlater : 4 ∣ d₂.cursor ∧ d₂.text = d₁.text
          ∧ placeRects bounds.nums ((rects.map pair).map nums) (some d₂.currentX)
              (some d₂.currentY)
            = if (JsNum.same (some ((d₁.currentX + rect.length.toNat : Nat) : Int)) bounds.nums.right)
              then placeRects bounds.nums ((rects.map pair).map nums) bounds.nums.left
                (JsNum.add (some (d.currentY : Int)) (some 1))
              else placeRects bounds.nums ((rects.map pair).map nums)
                (some ((d₁.currentX + rect.length.toNat : Nat) : Int)) (some d.currentY) := by
        split at hmove
        · next heq =>
            simp only [bind_ok, add_ok] at hmove
            obtain ⟨y, ⟨-, rfl⟩, hmove⟩ := hmove
            obtain rfl := Except.ok.inj hmove
            refine ⟨hcursor₁, rfl, ?_⟩
            rw [if_pos (hwrap.mpr heq), hy]
            rfl
        · next hne =>
            obtain rfl := Except.ok.inj hmove
            refine ⟨hcursor₁, rfl, ?_⟩
            rw [if_neg (fun hc => hne (hwrap.mp hc)), ← hy]
      obtain ⟨hcursor₂, htext₂, hplace⟩ := hlater
      obtain ⟨hcursor', htext'⟩ := ih hrest hcursor₂
      refine ⟨hcursor', ?_⟩
      have hpair : nums (pair rect) = (num rect.length, num rect.colorIndex) := rfl
      rw [htext', htext₂, htext, hplace, List.map_cons, List.map_cons, hpair, placeRects]
      simp only [hnext, hzero]
      by_cases hcolor : rect.colorIndex = 0
      · rw [if_pos hcolor, if_pos hcolor, String.append_empty]
      · rw [if_neg hcolor, if_neg hcolor, List.map_cons, String.join_cons, String.append_assoc]

/-- **A part is drawn as the SDK draws it.** -/
theorem drawPart_ok {palettes : UInt8 → List String} {bytes : List UInt8} {image : DecodedImage}
    {part : String} (himage : decodeRLEImage_ bytes = .ok image)
    (h : drawPart palettes image = .ok part) :
    part = String.join ((decodeImage (hexString bytes)).placed.map
      (Placed.svg (palettes image.paletteIndex))) := by
  have hdecoded := decodeImage_eq himage
  simp only [drawPart, bind_ok] at h
  obtain ⟨d, hloop, h⟩ := h
  obtain ⟨hcursor, htext⟩ := drawLoop_ok hloop (Nat.dvd_zero 4)
  have hplaced : (decodeImage (hexString bytes)).placed
      = placeRects image.bounds.nums ((image.rects.map pair).map nums) (num image.bounds.left)
        (num image.bounds.top) := by
    rw [hdecoded]
    rfl
  have hpart : part = d.text := by
    obtain ⟨n, hn⟩ := hcursor
    rw [Drawing.text, hn, Nat.mul_div_cancel_left n (by decide)]
    split at h
    · simp only [bind_ok] at h
      obtain ⟨chunk, hchunk, h⟩ := h
      rw [hn] at hchunk
      rw [← getChunk_ok hchunk]
      exact (Except.ok.inj h).symm
    · next hzero =>
        obtain rfl : n = 0 := by omega
        rw [← Except.ok.inj h]
        exact String.append_empty.symm
  rw [hpart, htext, hplaced, Drawing.text, Nat.zero_div, drawn, String.append_empty,
    String.empty_append]
  rfl

/-! ## All parts -/

/-- What the SDK draws for a part. -/
def sdkPart (palette : List String) (bytes : List UInt8) : String :=
  String.join ((decodeImage (hexString bytes)).placed.map (Placed.svg palette))

theorem generateSVGRects_ok {palettes : UInt8 → List String} {k : UInt8} {p : Nat}
    {parts : List (List UInt8)} {rects text : String} (hk : ∀ part ∈ parts, part.head? = some k)
    (h : generateSVGRects_ palettes p parts rects = .ok text) :
    text = rects ++ String.join (parts.map (sdkPart (palettes k))) := by
  induction parts generalizing p rects with
  | nil =>
      obtain rfl := Except.ok.inj h
      exact String.append_empty.symm
  | cons bytes parts ih =>
      simp only [generateSVGRects_, bind_ok, add_ok] at h
      obtain ⟨image, himage, part, hpart, p', -, h⟩ := h
      have hindex : image.paletteIndex = k := by
        have hhead := hk bytes List.mem_cons_self
        rw [decodeRLEImage_ok himage] at hhead
        exact Option.some.inj hhead
      have hdrawn := drawPart_ok himage hpart
      rw [hindex] at hdrawn
      rw [ih (fun q hq => hk q (List.mem_cons_of_mem _ hq)) h, hdrawn, List.map_cons,
        String.join_cons, String.append_assoc]
      rfl

/--
**The renderers agree.** Whatever the parts, the palettes and the background: where the
contract renders parts that all name palette `k`, the SDK renders their hexadecimal
strings, with palette `k`, to the same string.
-/
theorem buildSVG_eq_generateSVG (parts : List (List UInt8)) (palettes : UInt8 → List String)
    (background svg : String) (k : UInt8) (hk : ∀ part ∈ parts, part.head? = some k)
    (h : generateSVG parts background palettes = .ok svg) :
    buildSVG (parts.map hexString) (palettes k) background = svg := by
  simp only [generateSVG, bind_ok] at h
  obtain ⟨rects, hrects, h⟩ := h
  have htext := generateSVGRects_ok hk hrects
  rw [String.empty_append] at htext
  rw [← Except.ok.inj h, htext, buildSVG]
  have hparts : (parts.map hexString).map (fun data =>
      String.join ((decodeImage data).placed.map (Placed.svg (palettes k))))
      = parts.map (sdkPart (palettes k)) := by
    rw [List.map_map]
    rfl
  have hhead : "<svg width=\"320\" height=\"320\" viewBox=\"0 0 320 320\" xmlns=\"http://www.w3.org/2000/svg\" shape-rendering=\"crispEdges\"><rect width=\"100%\" height=\"100%\" fill=\"#"
      = "<svg width=\"320\" height=\"320\" viewBox=\"0 0 320 320\" xmlns=\"http://www.w3.org/2000/svg\" shape-rendering=\"crispEdges\">"
        ++ "<rect width=\"100%\" height=\"100%\" fill=\"#" := by decide +kernel
  rw [foldl_append, hparts, hhead]

/-- Two parts: five rects in two rows, one of them transparent, and a single rect. -/
def smallParts : List (List UInt8) :=
  [[0, 1, 5, 2, 2, 2, 1, 1, 2, 1, 1, 1, 0, 1, 2], [0, 3, 4, 3, 2, 2, 2]]

/-- Both renderers draw them. -/
theorem buildSVG_eq_generateSVG_smallParts :
    ∃ svg, generateSVG smallParts "d5d7e1" (fun _ => ["", "ff0000", "00ff00"]) = .ok svg
      ∧ buildSVG (smallParts.map hexString) ["", "ff0000", "00ff00"] "d5d7e1" = svg := by
  have hok : (generateSVG smallParts "d5d7e1" fun _ => ["", "ff0000", "00ff00"]).toOption.isSome
      = true := by decide +kernel
  cases h : generateSVG smallParts "d5d7e1" fun _ => ["", "ff0000", "00ff00"] with
  | error e =>
      rw [h] at hok
      exact absurd hok Bool.false_ne_true
  | ok svg =>
      exact ⟨svg, rfl, buildSVG_eq_generateSVG smallParts (fun _ => ["", "ff0000", "00ff00"])
        "d5d7e1" svg 0 (by decide) h⟩

end Nouns.MultiPartRLEToSVG
