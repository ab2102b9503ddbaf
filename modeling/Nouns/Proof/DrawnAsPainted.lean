import Nouns.Lib.Painting
import Nouns.Proof.EncodedFolders
import Nouns.Proof.Populating

/-!
# Drawn as painted

From the files of the artist to the chain. The SDK and the contract write one and the same
document for a Noun, and the document shows its four drawings one over the other: at every point
the colour of the topmost drawing that is not transparent there. It shows that on a descriptor
that the task has just populated and on every descriptor that comes of it.
-/

namespace Nouns.Sdk

open JsText Evm MultiPartRLEToSVG Painting JsMap

/-! ## What a document shows -/

/-- What a drawing shows at a point: the colour of the pixel, unless it is transparent. -/
def shown (getRgbaAt : Nat → Nat → RGBAColor) (p : Nat × Nat) : Option String :=
  if p.1 < 32 ∧ p.2 < 32 ∧ (getRgbaAt p.1 p.2).a ≠ 0 then some (getRgbaAt p.1 p.2).hex else none

/-- A rect as a stroke. Everything is written out tenfold, so a point is a square of ten by ten. -/
def Placed.stroke (palette : List String) (r : Placed) : Stroke (Nat × Nat) String where
  covers p :=
    match r.x, r.length, r.y with
    | some x, some length, some y => x ≤ p.1 ∧ p.1 < x + length ∧ y = p.2
    | _, _, _ => false
  colour := colorAt palette r.colorIndex

/-- The document that has the rects on its background. -/
def svgDocument (palette : List String) (background : String) (rects : List Placed) : String :=
  "<svg width=\"320\" height=\"320\" viewBox=\"0 0 320 320\" xmlns=\"http://www.w3.org/2000/svg\" shape-rendering=\"crispEdges\"><rect width=\"100%\" height=\"100%\" fill=\"#"
    ++ background ++ "\" />" ++ String.join (rects.map (Placed.svg palette)) ++ "</svg>"

variable {palette : List String} {r : Placed} {x y size : Nat} {data background : String}
  {getRgbaAt : Nat → Nat → RGBAColor} {colors : Colors} {part : List UInt8}
  {parts : List (List UInt8)} {palettes : UInt8 → List String}

theorem Placed.covers_iff : (r.stroke palette).covers (x, y) = true
    ↔ r.y = some (y : Int) ∧ ∃ start length : Int, r.x = some start ∧ r.length = some length
      ∧ start ≤ x ∧ x < start + length := by
  obtain ⟨length, colorIndex, start, y'⟩ := r
  rcases start with - | start <;> rcases length with - | length <;> rcases y' with - | y' <;>
    simp [Placed.stroke, and_comm, and_assoc]

theorem placeRects_mem {bounds : Bounds} {rects : List (JsNum × JsNum)} {x y : JsNum}
    (h : r ∈ placeRects bounds rects x y) : ∃ length, (length, r.colorIndex) ∈ rects := by
  induction rects generalizing x y with
  | nil => exact absurd h List.not_mem_nil
  | cons rect rects ih =>
      obtain ⟨length, colorIndex⟩ := rect
      have hrest : ∀ {x y}, r ∈ placeRects bounds rects x y →
          ∃ length', (length', r.colorIndex) ∈ (length, colorIndex) :: rects := by
        intro x y h
        obtain ⟨length', h⟩ := ih h
        exact ⟨length', List.mem_cons_of_mem _ h⟩
      rw [placeRects] at h
      split at h
      · split at h
        · exact hrest h
        · exact hrest h
      · rcases List.mem_cons.mp h with rfl | h
        · exact ⟨length, List.mem_cons_self⟩
        · split at h
          · exact hrest h
          · exact hrest h

/-- The colours of what the contract can draw are numbers. -/
theorem CanDraw.colorIndex (h : CanDraw data size) (hr : r ∈ (decodeImage data).placed) :
    ∃ c : Nat, r.colorIndex = some (c : Int) := by
  obtain ⟨part, rfl, image, himage, -⟩ := h
  rw [decodeImage_eq himage] at hr
  obtain ⟨length, hmem⟩ := placeRects_mem hr
  obtain ⟨p, -, hp⟩ := List.mem_map.mp hmem
  exact ⟨p.2, (congrArg Prod.snd hp).symm⟩

/-- **A part shows its drawing.** -/
theorem EncodesDrawing.seen (h : EncodesDrawing getRgbaAt colors data) {hexes : List String}
    (hnumbers : Numbers colors hexes) (p : Nat × Nat) :
    seen ((decodeImage data).placed.map (Placed.stroke colors.keys)) p = shown getRgbaAt p := by
  obtain ⟨x, y⟩ := p
  have hpaints : ∀ r ∈ (decodeImage data).placed, (r.stroke colors.keys).covers (x, y) = true →
      ∃ c : Nat, r.colorIndex = some (c : Int) ∧ Paints (decodeImage data).placed x y c := by
    intro r hr hcovers
    obtain ⟨c, hc⟩ := h.draws.colorIndex hr
    obtain ⟨hy, hx⟩ := Placed.covers_iff.mp hcovers
    exact ⟨c, hc, r, hr, hy, hc, hx⟩
  unfold shown
  split
  · next hpixel =>
      obtain ⟨hx, hy, ha⟩ := hpixel
      refine seen_of_all ?_ ?_
      · intro s hs hcovers
        obtain ⟨r, hr, rfl⟩ := List.mem_map.mp hs
        obtain ⟨c, hc, hpaint⟩ := hpaints r hr hcovers
        have hget := hnumbers.get?_iff.mp ((h.paints x y c).mp hpaint).2.2.2
        show colorAt colors.keys r.colorIndex = _
        rw [hc]
        show (colors.keys[c]?).getD "undefined" = _
        rw [hget]
        rfl
      · obtain ⟨c, hc⟩ := Option.isSome_iff_exists.mp (h.known y hy x hx)
        obtain ⟨r, hr, hy', -, hx'⟩ := (h.paints x y c).mpr ⟨hx, hy, ha, hc⟩
        exact ⟨_, List.mem_map_of_mem hr, Placed.covers_iff.mpr ⟨hy', hx'⟩⟩
  · next hpixel =>
      rw [seen_eq_none]
      intro s hs
      obtain ⟨r, hr, rfl⟩ := List.mem_map.mp hs
      refine Bool.eq_false_of_not_eq_true ?_
      intro hcovers
      obtain ⟨c, -, hpaint⟩ := hpaints r hr hcovers
      obtain ⟨hx, hy, ha, -⟩ := (h.paints x y c).mp hpaint
      exact hpixel ⟨hx, hy, ha⟩

/-! ## One document -/

theorem join_flatMap {α : Type} (f : α → List Placed) (l : List α) :
    String.join (l.map fun a => String.join ((f a).map (Placed.svg palette)))
      = String.join ((l.flatMap f).map (Placed.svg palette)) := by
  induction l with
  | nil => rfl
  | cons a l ih =>
      rw [List.map_cons, String.join_cons, ih, List.flatMap_cons, List.map_append,
        String.join_append]

/-- The SDK writes the document of the parts. -/
theorem buildSVG_document (texts : List String) : buildSVG texts palette background
    = svgDocument palette background (texts.flatMap fun data => (decodeImage data).placed) := by
  rw [buildSVG, foldl_append, join_flatMap]
  rfl

theorem generateSVGRects_total {p : Nat} {rects : String}
    (hparts : ∀ part ∈ parts, Renders part (palettes 0).length) (hp : p + parts.length < 256) :
    ∃ text, generateSVGRects_ palettes p parts rects = .ok text := by
  induction parts generalizing p rects with
  | nil => exact ⟨rects, rfl⟩
  | cons part parts ih =>
      obtain ⟨image, himage, -, hdraw⟩ := hparts part List.mem_cons_self
      obtain ⟨text, htext⟩ := hdraw palettes (Nat.le_refl _)
      rw [List.length_cons] at hp
      have hcounter : add 8 p 1 = .ok (p + 1) := add_ok.mpr ⟨by omega, rfl⟩
      unfold generateSVGRects_
      rw [bind_of_ok himage, bind_of_ok htext, bind_of_ok hcounter]
      exact ih (fun q hq => hparts q (List.mem_cons_of_mem _ hq)) (by omega)

/-- The contract writes it too. -/
theorem generateSVG_document (hparts : ∀ part ∈ parts, Renders part (palettes 0).length)
    (hlength : parts.length < 256) : generateSVG parts background palettes
    = .ok (svgDocument (palettes 0) background
      (parts.flatMap fun part => (decodeImage (hexString part)).placed)) := by
  obtain ⟨rects, hrects⟩ : ∃ rects, generateSVGRects_ palettes 0 parts "" = .ok rects :=
    generateSVGRects_total hparts (by omega)
  have hk : ∀ part ∈ parts, part.head? = some 0 := by
    intro part hpart
    obtain ⟨image, himage, hindex, -⟩ := hparts part hpart
    rw [decodeRLEImage_ok himage, hindex]
    rfl
  have htext := generateSVGRects_ok hk hrects
  have hsdk : parts.map (sdkPart (palettes 0)) = parts.map fun part =>
      String.join ((decodeImage (hexString part)).placed.map (Placed.svg (palettes 0))) := rfl
  rw [String.empty_append, hsdk, join_flatMap] at htext
  have hhead : "<svg width=\"320\" height=\"320\" viewBox=\"0 0 320 320\" xmlns=\"http://www.w3.org/2000/svg\" shape-rendering=\"crispEdges\"><rect width=\"100%\" height=\"100%\" fill=\"#"
      = "<svg width=\"320\" height=\"320\" viewBox=\"0 0 320 320\" xmlns=\"http://www.w3.org/2000/svg\" shape-rendering=\"crispEdges\">"
        ++ "<rect width=\"100%\" height=\"100%\" fill=\"#" := by decide +kernel
  unfold generateSVG svgDocument
  rw [bind_of_ok hrects, htext, hhead]
  rfl

end Nouns.Sdk

namespace Nouns.Proof

open Evm JsText Sdk Sdk.PNGCollectionEncoder Assets MultiPartRLEToSVG Painting JsMap PartialMap

/-! ## From a file to a part -/

variable {arrayify : String → Option (List UInt8)} {readdir : String → List (String × PNG)}
  {colors : Colors} {files : List (String × PNG)} {images : List EncodedImage}
  {parts : List (List UInt8)} {data : AssetData} {name : String}

/-- The part that a file becomes. -/
structure PartOf (colors : Colors) (file : String × PNG) (part : List UInt8) : Prop where
  renders : Renders part colors.size
  encodes : EncodesDrawing (readPngImage file.2).rgbaAt colors (hexString part)

theorem parts_of_listed (harrayify : ∀ part, arrayify (hexString part) = some part)
    (h : List.Forall₂ (Transcribed colors) files images) :
    ∃ parts, partsOf arrayify images = some parts
      ∧ images.map EncodedImage.data = parts.map (fun part => some (hexString part))
      ∧ List.Forall₂ (PartOf colors) files parts := by
  induction h with
  | nil => exact ⟨[], rfl, rfl, .nil⟩
  | @cons file image files images hfile _ ih =>
      obtain ⟨rle, himage, hencodes⟩ := hfile
      obtain ⟨parts, hparts, hdata, hrest⟩ := ih
      obtain ⟨part, hrle, hrenders⟩ := hencodes.draws
      subst himage hrle
      refine ⟨part :: parts, ?_, ?_, .cons ⟨hrenders, hencodes⟩ hrest⟩
      · unfold partsOf at hparts ⊢
        rw [List.mapM_cons, hparts]
        show (arrayify (hexString part)).bind _ = _
        rw [harrayify]
        rfl
      · rw [List.map_cons, List.map_cons, hdata]

/-- The image data of a folder, and the parts it becomes. -/
structure Carried (arrayify : String → Option (List UInt8)) (data : AssetData) (colors : Colors)
    (name : String) (files : List (String × PNG)) (parts : List (List UInt8)) : Prop where
  listed : ∃ images, data.images.get? name = some images ∧ partsOf arrayify images = some parts
  data : ∀ i, (data.part name i).bind EncodedImage.data = (parts[i]?).map hexString
  parts : List.Forall₂ (PartOf colors) files parts

theorem Carried.get (h : Carried arrayify data colors name files parts) {i : Nat}
    {file : String × PNG} (hfile : files[i]? = some file) :
    ∃ part, parts[i]? = some part ∧ PartOf colors file part
      ∧ (data.part name i).bind EncodedImage.data = some (hexString part) := by
  obtain ⟨hi, rfl⟩ := List.getElem?_eq_some_iff.mp hfile
  have hi' : i < parts.length := h.parts.length_eq ▸ hi
  have hpart := List.getElem?_eq_getElem hi'
  refine ⟨parts[i], hpart, h.parts.get hi hi', ?_⟩
  rw [h.data, hpart]
  rfl

/-- What the script writes down of a folder. -/
theorem carried (harrayify : ∀ part, arrayify (hexString part) = some part)
    (h : Encodable readdir) {folder : String} (hfolder : folder ∈ partfolders)
    (hdata : encode readdir = some data) :
    ∃ parts, Carried arrayify data ((new none).run (scriptCalls readdir partfolders)).colors
      (dropNumber folder) (readdir folder) parts := by
  obtain ⟨images, hget, hlisted⟩ := h.listed hfolder
  obtain ⟨parts, hparts, himages, hforall⟩ := parts_of_listed harrayify hlisted
  obtain rfl := Option.some.inj (h.encode.symm.trans hdata)
  refine ⟨parts, ⟨images, hget, hparts⟩, ?_, hforall⟩
  intro i
  have hi := congrArg (fun l => (l[i]?).join) himages
  simp only [List.getElem?_map] at hi
  unfold AssetData.part
  show (Option.bind (((new none).run (scriptCalls readdir partfolders)).data.images.get?
    (dropNumber folder)) fun images => images[i]?).bind EncodedImage.data = _
  rw [hget]
  cases himage : images[i]? <;> cases hpart : parts[i]? <;> simp_all

/-- Parts show their drawings one over the other. -/
theorem seen_parts {hexes : List String} (hnumbers : Numbers colors hexes)
    (h : List.Forall₂ (PartOf colors) files parts) (p : Nat × Nat) :
    seen ((parts.flatMap fun part => (decodeImage (hexString part)).placed).map
        (Placed.stroke colors.keys)) p
      = layered (files.map fun file => shown (readPngImage file.2).rgbaAt p) := by
  rw [List.map_flatMap, List.flatMap_def, seen_flatten, List.map_map]
  refine congrArg layered ?_
  induction h with
  | nil => rfl
  | cons hpart _ ih =>
      rw [List.map_cons, List.map_cons, ih]
      exact congrArg (· :: _) (hpart.encodes.seen hnumbers p)

/-! ## From the files to the chain -/

/--
The Noun of a seed is drawn from `files`, one over the other: by the SDK and by the contract in
one document, that of `rects`.
-/
structure DrawnFrom (data : AssetData) (d : NounsDescriptor) (seed : Seed) (background : String)
    (files : List (String × PNG)) (rects : List Placed) : Prop where
  sdk : ∃ texts, (getNounData data seed).parts.map (fun part => part.bind EncodedImage.data)
      = texts.map some
    ∧ buildSVG texts data.palette background = svgDocument data.palette background rects
  backdrop : (getNounData data seed).background = some background
  chain : ∀ base64, d.generateSVGImage base64 seed
    = .ok (base64 (svgDocument data.palette background rects))
  shows : ∀ p, seen (rects.map (Placed.stroke data.palette)) p
    = layered (files.map fun file => shown (readPngImage file.2).rgbaAt p)

/-- The descriptor has been called, by whomever. -/
def Called (d d' : NounsDescriptor) : Prop :=
  Relation.ReflTransGen (fun s s' => ∃ sender call, NounsDescriptor.call sender s call = .ok s') d d'

theorem Called.keeps {d d' : NounsDescriptor} (h : Called d d') : Extends d d' ∧ Colours d d' := by
  induction h with
  | refl => exact ⟨.refl, .refl⟩
  | tail _ hcall ih =>
      obtain ⟨_, _, hcall⟩ := hcall
      exact ⟨ih.1.trans (descriptor_extends hcall), ih.2.trans (descriptor_colours hcall)⟩

/--
**Drawn as painted.** Four folders of drawings with a margin, of 32 by 32 pixels, no two of one
name, and no more than 256 colours among them, transparent included: the script encodes them and
the task populates a new descriptor with what it wrote. Whatever is done to the descriptor then, a
seed that names four of the files and a background draws these four one over the other, on chain
as in the SDK.
-/
theorem drawn_as_painted (arrayify : String → Option (List UInt8))
    (harrayify : ∀ part, arrayify (hexString part) = some part)
    (readdir : String → List (String × PNG)) (h : Encodable readdir) (sender : Address) :
    ∃ data d, encode readdir = some data
      ∧ populateDescriptor arrayify sender data (.deploy sender) = some (.ok d)
      ∧ ∀ d', Called d d' → ∀ (seed : Seed) (background : String)
        (body accessory head glasses : String × PNG),
        data.bgcolors[seed.background]? = some background →
        (readdir "1-bodies")[seed.body]? = some body →
        (readdir "2-accessories")[seed.accessory]? = some accessory →
        (readdir "3-heads")[seed.head]? = some head →
        (readdir "4-glasses")[seed.glasses]? = some glasses →
        ∃ rects, DrawnFrom data d' seed background [body, accessory, head, glasses] rects := by
  obtain ⟨data, hdata⟩ : ∃ data, encode readdir = some data := ⟨_, h.encode⟩
  have hencoded := Option.some.inj (hdata.symm.trans h.encode)
  have hpalette : data.palette
      = ((new none).run (scriptCalls readdir partfolders)).colors.keys := by
    rw [hencoded]
    rfl
  have hlength : data.palette.length
      = ((new none).run (scriptCalls readdir partfolders)).colors.size := by
    rw [hpalette, JsMap.keys, List.length_map]
    rfl
  -- the four folders
  obtain ⟨bodies, hbodies⟩ := carried harrayify h (show "1-bodies" ∈ partfolders by decide) hdata
  obtain ⟨accessories, haccessories⟩ :=
    carried harrayify h (show "2-accessories" ∈ partfolders by decide) hdata
  obtain ⟨heads, hheads⟩ := carried harrayify h (show "3-heads" ∈ partfolders by decide) hdata
  obtain ⟨glassesParts, hglasses⟩ := carried harrayify h (show "4-glasses" ∈ partfolders by decide) hdata
  have hnames := dropNumber_partfolders
  simp only [partfolders, List.map_cons, List.map_nil, List.cons.injEq, and_true] at hnames
  obtain ⟨hname₁, hname₂, hname₃, hname₄⟩ := hnames
  rw [hname₁] at hbodies
  rw [hname₂] at haccessories
  rw [hname₃] at hheads
  rw [hname₄] at hglasses
  obtain ⟨d, hd, hfilled⟩ := populateDescriptor_ok sender (by rw [hlength]; exact h.size)
    ⟨hbodies.listed, haccessories.listed, hheads.listed, hglasses.listed⟩
  refine ⟨data, d, hdata, hd, ?_⟩
  intro d' hcalled seed background body accessory head glasses hbackground hbody haccessory hhead
    hglass
  obtain ⟨hext, hcolours⟩ := hcalled.keeps
  obtain ⟨part₁, hget₁, hpart₁, htext₁⟩ := hbodies.get hbody
  obtain ⟨part₂, hget₂, hpart₂, htext₂⟩ := haccessories.get haccessory
  obtain ⟨part₃, hget₃, hpart₃, htext₃⟩ := hheads.get hhead
  obtain ⟨part₄, hget₄, hpart₄, htext₄⟩ := hglasses.get hglass
  have hparts : List.Forall₂ (PartOf ((new none).run (scriptCalls readdir partfolders)).colors)
      [body, accessory, head, glasses] [part₁, part₂, part₃, part₄] :=
    .cons hpart₁ (.cons hpart₂ (.cons hpart₃ (.cons hpart₄ .nil)))
  refine ⟨[part₁, part₂, part₃, part₄].flatMap fun part => (decodeImage (hexString part)).placed,
    ⟨[part₁, part₂, part₃, part₄].map hexString, ?_, ?_⟩, hbackground, ?_, ?_⟩
  · simp only [getNounData, List.map_cons, List.map_nil, htext₁, htext₂, htext₃, htext₄]
  · rw [buildSVG_document, List.flatMap_map]
  · intro base64
    have hlooks : LooksUp d seed [part₁, part₂, part₃, part₄] background := by
      constructor
      · unfold NounsDescriptor.getPartsForSeed_
        rw [hfilled.bodies, hfilled.accessories, hfilled.heads, hfilled.glasses,
          bind_of_ok (index_ok.mpr hget₁), bind_of_ok (index_ok.mpr hget₂),
          bind_of_ok (index_ok.mpr hget₃), bind_of_ok (index_ok.mpr hget₄)]
        rfl
      · rw [hfilled.backgrounds]
        exact index_ok.mpr hbackground
    have hrenders : ∀ part ∈ [part₁, part₂, part₃, part₄],
        Renders part (d.palettes 0).length := by
      intro part hpart
      rw [hfilled.palette, hlength]
      simp only [List.mem_cons, List.not_mem_nil, or_false] at hpart
      rcases hpart with rfl | rfl | rfl | rfl
      · exact hpart₁.renders
      · exact hpart₂.renders
      · exact hpart₃.renders
      · exact hpart₄.renders
    have hsvg := generateSVG_more hcolours
      (@generateSVG_document background _ _ hrenders (show 4 < 256 by decide))
    rw [((hlooks.extends hext).generate base64).2, NFTDescriptor.generateSVGImage,
      bind_of_ok hsvg, hfilled.palette]
    rfl
  · intro p
    rw [hpalette]
    exact seen_parts (Encodable.numbers readdir) hparts p

/-! ## Four dots -/

/-- A drawing of one pixel. -/
def dot (x y : Nat) (red green : UInt8) : PNG where
  width := 32
  height := 32
  data := (List.range 4096).map fun i =>
    if i / 4 = 32 * y + x then [red, green, 0, 255].getD (i % 4) 0 else 0
  length_eq := by simp

theorem dot_rgbaAt {x y : Nat} (hx : x < 32) (hy : y < 32) (red green : UInt8) (x' y' : Nat) :
    (readPngImage (dot x y red green)).rgbaAt x' y'
      = if 32 * y' + x' = 32 * y + x then ⟨red.toNat, green.toNat, 0, 255⟩ else ⟨0, 0, 0, 0⟩ := by
  have hbyte : ∀ i, i < 4 → ((dot x y red green).data[(32 * y' + x') <<< 2 + i]?).getD 0
      = if 32 * y' + x' = 32 * y + x then [red, green, 0, 255].getD i 0 else 0 := by
    intro i hi
    have hidx : (32 * y' + x') <<< 2 + i = 4 * (32 * y' + x') + i := by
      rw [Nat.shiftLeft_eq, Nat.mul_comm]
    have hdiv : (4 * (32 * y' + x') + i) / 4 = 32 * y' + x' := by omega
    have hmod : (4 * (32 * y' + x') + i) % 4 = i := by omega
    rw [hidx, dot, List.getElem?_map]
    by_cases hin : 4 * (32 * y' + x') + i < 4096
    · rw [List.getElem?_range hin, Option.map_some, Option.getD_some, hdiv, hmod]
    · rw [List.getElem?_eq_none (by rw [List.length_range]; omega), if_neg (by omega)]
      rfl
  show RGBAColor.mk (((dot x y red green).data[(32 * y' + x') <<< 2 + 0]?).getD 0).toNat
    (((dot x y red green).data[(32 * y' + x') <<< 2 + 1]?).getD 0).toNat
    (((dot x y red green).data[(32 * y' + x') <<< 2 + 2]?).getD 0).toNat
    (((dot x y red green).data[(32 * y' + x') <<< 2 + 3]?).getD 0).toNat = _
  rw [hbyte 0 (by decide), hbyte 1 (by decide), hbyte 2 (by decide), hbyte 3 (by decide)]
  split
  · rfl
  · rfl

theorem dot_drawn {x y : Nat} (hx : 0 < x ∧ x < 31) (hy : 0 < y ∧ y < 32) (red green : UInt8) :
    Drawn (readPngImage (dot x y red green)) := by
  have hclear : ∀ x' y', 32 * y' + x' ≠ 32 * y + x →
      ((readPngImage (dot x y red green)).rgbaAt x' y').a = 0 := by
    intro x' y' hne
    rw [dot_rgbaAt (by omega) hy.2, if_neg hne]
  refine ⟨rfl, rfl, ⟨?_, ?_, ?_⟩⟩
  · exact fun x' hx' => hclear x' 0 (by omega)
  · exact fun y' hy' => hclear 0 y' (by omega)
  · exact fun y' hy' => hclear 31 y' (by omega)

/-- A red dot under a green one, and one more of each. -/
def dots (folder : String) : List (String × PNG) :=
  if folder = "1-bodies" then [("body-dot.png", dot 5 5 255 0)]
  else if folder = "2-accessories" then [("accessory-dot.png", dot 7 7 255 0)]
  else if folder = "3-heads" then [("head-dot.png", dot 5 5 0 255)]
  else [("glasses-dot.png", dot 6 6 0 255)]

theorem dots_spec {folder : String} (h : folder ∈ partfolders) : ∃ name x y red green,
    dots folder = [(name, dot x y red green)] ∧ (0 < x ∧ x < 31) ∧ (0 < y ∧ y < 32)
      ∧ ((red = 255 ∧ green = 0) ∨ (red = 0 ∧ green = 255)) := by
  simp only [partfolders, List.mem_cons, List.not_mem_nil, or_false] at h
  rcases h with rfl | rfl | rfl | rfl
  · exact ⟨_, 5, 5, 255, 0, rfl, by decide, by decide, .inl ⟨rfl, rfl⟩⟩
  · exact ⟨_, 7, 7, 255, 0, rfl, by decide, by decide, .inl ⟨rfl, rfl⟩⟩
  · exact ⟨_, 5, 5, 0, 255, rfl, by decide, by decide, .inr ⟨rfl, rfl⟩⟩
  · exact ⟨_, 6, 6, 0, 255, rfl, by decide, by decide, .inr ⟨rfl, rfl⟩⟩

theorem dots_encodable : Encodable dots where
  drawn := by
    intro folder hfolder file hfile
    obtain ⟨name, x, y, red, green, hdots, hx, hy, -⟩ := dots_spec hfolder
    rw [hdots] at hfile
    obtain rfl := List.mem_singleton.mp hfile
    exact dot_drawn hx hy red green
  inhabited := by
    intro folder hfolder
    obtain ⟨name, x, y, red, green, hdots, -⟩ := dots_spec hfolder
    rw [hdots]
    exact List.cons_ne_nil _ _
  names := by decide +kernel
  colors := by
    have hthree : ∀ hex ∈ "" :: (scriptCalls dots partfolders).flatMap Call.hexes,
        hex ∈ ["", rgbToHex 0 0 0, rgbToHex 255 0 0, rgbToHex 0 255 0] := by
      intro hex hhex
      rcases List.mem_cons.mp hhex with rfl | hhex
      · exact List.mem_cons_self
      obtain ⟨call, hcall, hhex⟩ := List.mem_flatMap.mp hhex
      obtain ⟨folder, hfolder, hcall⟩ := List.mem_flatMap.mp hcall
      obtain ⟨file, hfile, rfl⟩ := List.mem_map.mp hcall
      obtain ⟨name, x, y, red, green, hdots, hx, hy, hcolour⟩ := dots_spec hfolder
      rw [hdots] at hfile
      obtain rfl := List.mem_singleton.mp hfile
      obtain ⟨y', -, hhex⟩ := List.mem_flatMap.mp hhex
      obtain ⟨x', -, rfl⟩ := List.mem_map.mp hhex
      show ((readPngImage (dot x y red green)).rgbaAt x' y').hex ∈ _
      rw [dot_rgbaAt (by omega) hy.2]
      split
      · rcases hcolour with ⟨rfl, rfl⟩ | ⟨rfl, rfl⟩
        · exact List.mem_cons_of_mem _ (List.mem_cons_of_mem _ List.mem_cons_self)
        · exact List.mem_cons_of_mem _ (List.mem_cons_of_mem _ (List.mem_cons_of_mem _
            List.mem_cons_self))
      · exact List.mem_cons_of_mem _ List.mem_cons_self
    have hsub : ("" :: (scriptCalls dots partfolders).flatMap Call.hexes).toFinset
        ⊆ ["", rgbToHex 0 0 0, rgbToHex 255 0 0, rgbToHex 0 255 0].toFinset :=
      fun hex h => List.mem_toFinset.mpr (hthree hex (List.mem_toFinset.mp h))
    exact (Finset.card_le_card hsub).trans ((List.toFinset_card_le _).trans (by decide))

/-- The bytes that pairs of digits stand for. -/
def hexBytes : List Char → Option (List UInt8)
  | [] => some []
  | [_] => none
  | a :: b :: digits => do return UInt8.ofNat (← parseInt [a, b]).toNat :: (← hexBytes digits)

theorem hexBytes_hexString (part : List UInt8) :
    hexBytes (without0x (hexString part).toList) = some part := by
  have hdigits : without0x (hexString part).toList = part.flatMap fun x => hexByte x.toNat := by
    have hprefix : "0x".toList = ['0', 'x'] := by decide
    rw [hexString, String.toList_append, hprefix, String.toList_ofList]
    rfl
  rw [hdigits]
  clear hdigits
  induction part with
  | nil => rfl
  | cons byte part ih =>
      show (parseInt (hexByte byte.toNat)).bind (fun n => (hexBytes (part.flatMap fun x =>
        hexByte x.toNat)).bind fun bytes => some (UInt8.ofNat n.toNat :: bytes)) = _
      rw [parseInt_hexByte byte.toNat_lt]
      show (hexBytes (part.flatMap fun x => hexByte x.toNat)).bind _ = _
      rw [ih]
      show some (UInt8.ofNat byte.toNat :: part) = _
      rw [UInt8.ofNat_toNat]

/-- The four dots: the green one is above the red one, and nothing is where no dot is. -/
theorem drawn_as_painted_dots : ∃ (data : AssetData) (d : NounsDescriptor) (rects : List Placed),
    encode dots = some data
      ∧ d.generateSVGImage id ⟨0, 0, 0, 0, 0⟩ = .ok (svgDocument data.palette "d5d7e1" rects)
      ∧ seen (rects.map (Placed.stroke data.palette)) (5, 5) = some (rgbToHex 0 255 0)
      ∧ seen (rects.map (Placed.stroke data.palette)) (7, 7) = some (rgbToHex 255 0 0)
      ∧ seen (rects.map (Placed.stroke data.palette)) (0, 0) = none := by
  obtain ⟨data, d, hdata, -, hdrawn⟩ := drawn_as_painted
    (fun text => hexBytes (without0x text.toList)) hexBytes_hexString dots dots_encodable (.ofNat 1)
  have hbackground : data.bgcolors = ["d5d7e1", "e1d7d5"] :=
    congrArg AssetData.bgcolors (Option.some.inj (hdata.symm.trans dots_encodable.encode))
  obtain ⟨rects, hrects⟩ := hdrawn d .refl ⟨0, 0, 0, 0, 0⟩ "d5d7e1" _ _ _ _
    (by rw [hbackground]; rfl) rfl rfl rfl rfl
  refine ⟨data, d, rects, hdata, hrects.chain id, ?_, ?_, ?_⟩
  all_goals
    rw [hrects.shows]
    simp only [List.map_cons, List.map_nil, shown, dot_rgbaAt (show 5 < 32 by decide)
      (show 5 < 32 by decide), dot_rgbaAt (show 7 < 32 by decide) (show 7 < 32 by decide),
      dot_rgbaAt (show 6 < 32 by decide) (show 6 < 32 by decide)]
    rfl

end Nouns.Proof
