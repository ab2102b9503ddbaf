import Nouns.Assets.Encode
import Nouns.Proof.EncodedParts
import Nouns.Proof.FolderedExport

/-!
# The folders as they are encoded

The script encodes the drawings of four folders one after the other with one encoder. Where no
two of them have one name, every folder comes out with its drawings in their order, and each of
them as it is drawn, in the palette that is there at the end.
-/

namespace Nouns.Sdk

open MultiPartRLEToSVG

/-! ## The palette that is there at the end -/

variable {colors colors' : Colors} {getRgbaAt : Nat → Nat → RGBAColor} {data : String}

theorem learn_size (colors : Colors) (hex : String) : colors.size ≤ (learn colors hex).size := by
  unfold learn
  split
  · exact Nat.le_refl _
  · next h =>
      rw [JsMap.size_set (Bool.eq_false_of_not_eq_true h)]
      exact Nat.le_succ _

theorem learnAll_size (colors : Colors) (hexes : List String) :
    colors.size ≤ (learnAll colors hexes).size :=
  learnAll_keeps (P := fun c => colors.size ≤ c.size) (fun c hex h => h.trans (learn_size c hex))
    (Nat.le_refl _)

theorem CanDraw.mono {size size' : Nat} (h : CanDraw data size) (hle : size ≤ size') :
    CanDraw data size' := by
  obtain ⟨part, hdata, image, himage, hindex, hdraw⟩ := h
  exact ⟨part, hdata, image, himage, hindex, fun palettes hp => hdraw palettes (hle.trans hp)⟩

/-- A drawing is encoded in a palette that has grown as in the palette it was written with. -/
theorem EncodesDrawing.grows (h : EncodesDrawing getRgbaAt colors data) (hg : Grows colors colors')
    (hsize : colors.size ≤ colors'.size) : EncodesDrawing getRgbaAt colors' data := by
  refine ⟨h.draws.mono hsize, fun y hy => (h.known y hy).grows hg, ?_⟩
  intro x y c
  rw [h.paints]
  refine and_congr_right fun hx => and_congr_right fun hy => and_congr_right fun _ => ?_
  constructor
  · exact hg _ _
  · intro hc
    obtain ⟨c', hc'⟩ := Option.isSome_iff_exists.mp (h.known y hy x hx)
    rw [hc', ← hc, hg _ _ hc']

namespace PNGCollectionEncoder

variable {encoder : PNGCollectionEncoder} {calls : List Call}

theorem run_size : encoder.colors.size ≤ (encoder.run calls).colors.size := by
  induction calls generalizing encoder with
  | nil => exact Nat.le_refl _
  | cons call calls ih =>
      refine Nat.le_trans ?_ ih
      rw [encodeImage_colors]
      exact learnAll_size _ _

/-- What is returned was written with the palette that the call leaves. -/
theorem encodeImage_toRLE {call : Call} {rle : String}
    (h : (encoder.encodeImage call.name call.png call.folder).2 = some rle) :
    ∃ image, (Image.new call.png.width call.png.height).toRLE call.png.rgbaAt encoder.colors
      = some (rle, image, (encoder.encodeImage call.name call.png call.folder).1.colors) := by
  have hcolors := encodeImage_colors call.name call.png call.folder encoder
  unfold encodeImage at h hcolors ⊢
  cases hrle : (Image.new call.png.width call.png.height).toRLE call.png.rgbaAt encoder.colors with
  | none =>
      rw [hrle] at h
      cases h
  | some st =>
      obtain ⟨rle', image, colors'⟩ := st
      rw [hrle] at h hcolors
      have hrle' : rle' = rle := by
        cases hf : call.folder with
        | none =>
            rw [hf] at h
            exact Option.some.inj h
        | some folder =>
            rw [hf] at h
            dsimp only at h
            split_ifs at h
            · exact Option.some.inj h
            · exact Option.some.inj h
      obtain rfl := hrle'
      refine ⟨image, ?_⟩
      rw [hcolors, (toRLE_colors hrle).1]

/-- A drawing of 32 by 32 pixels with a margin. -/
structure Drawn (png : PngImage) : Prop where
  width : png.width = 32
  height : png.height = 32
  margin : HasMargin png.rgbaAt

/-- **Encoding a collection of drawings.** -/
theorem outputs_encode (hok : PaletteOk encoder.colors) (hdrawn : ∀ call ∈ calls, Drawn call.png)
    (hsize : (encoder.run calls).colors.size ≤ 256) :
    ∀ o ∈ encoder.outputs calls, ∀ rle, o.2 = some rle →
      EncodesDrawing o.1.png.rgbaAt (encoder.run calls).colors rle := by
  induction calls generalizing encoder with
  | nil => exact fun _ ho => absurd ho List.not_mem_nil
  | cons call calls ih =>
      intro o ho rle hrle
      have hnext := encodeImage_colors call.name call.png call.folder encoder
      have hok' : PaletteOk (encoder.encodeImage call.name call.png call.folder).1.colors := by
        rw [hnext]
        exact hok.learnAll
      rcases List.mem_cons.mp ho with rfl | ho
      · obtain ⟨hwidth, hheight, hmargin⟩ := hdrawn call List.mem_cons_self
        obtain ⟨image, htoRLE⟩ := encodeImage_toRLE hrle
        rw [hwidth, hheight] at htoRLE
        have hlater : (encoder.encodeImage call.name call.png call.folder).1.colors.size
            ≤ (encoder.run (call :: calls)).colors.size := @run_size _ calls
        exact (toRLE_encodes hok hmargin htoRLE (hlater.trans hsize)).grows run_grows hlater
      · exact ih hok' (fun c hc => hdrawn c (List.mem_cons_of_mem _ hc)) hsize o ho rle hrle

end PNGCollectionEncoder

end Nouns.Sdk

namespace Nouns.Assets

open Sdk PNGCollectionEncoder JsMap

/-! ## The script -/

/-- The calls that a folder makes. -/
def folderCalls (folder : String) (files : List (String × PNG)) : List Call :=
  files.map fun file => ⟨dropPng file.1, readPngImage file.2, some (dropNumber folder)⟩

/-- The calls that the script makes. -/
def scriptCalls (readdir : String → List (String × PNG)) (folders : List String) : List Call :=
  folders.flatMap fun folder => folderCalls folder (readdir folder)

variable {readdir : String → List (String × PNG)} {encoder : PNGCollectionEncoder}

theorem encodeFiles {folder : String} {files : List (String × PNG)}
    (h : ∀ o ∈ encoder.outputs (folderCalls folder files), o.2.isSome = true) :
    files.foldlM (encodeFile folder) encoder = some (encoder.run (folderCalls folder files)) := by
  induction files generalizing encoder with
  | nil => rfl
  | cons file files ih =>
      obtain ⟨rle, hrle⟩ := Option.isSome_iff_exists.mp (h _ List.mem_cons_self)
      have hfile : encodeFile folder encoder file = some (encoder.encodeImage (dropPng file.1)
          (readPngImage file.2) (some (dropNumber folder))).1 := by
        show (Option.bind (encoder.encodeImage (dropPng file.1) (readPngImage file.2)
          (some (dropNumber folder))).2 fun _ => _) = _
        rw [hrle]
        rfl
      rw [List.foldlM_cons, hfile]
      exact ih fun o ho => h o (List.mem_cons_of_mem _ ho)

theorem encodeAll {folders : List String}
    (h : ∀ o ∈ encoder.outputs (scriptCalls readdir folders), o.2.isSome = true) :
    folders.foldlM (fun encoder folder => (readdir folder).foldlM (encodeFile folder) encoder)
      encoder = some (encoder.run (scriptCalls readdir folders)) := by
  induction folders generalizing encoder with
  | nil => rfl
  | cons folder folders ih =>
      have hcalls : scriptCalls readdir (folder :: folders)
          = folderCalls folder (readdir folder) ++ scriptCalls readdir folders := rfl
      rw [hcalls, outputs_append] at h
      rw [List.foldlM_cons, encodeFiles fun o ho => h o (List.mem_append_left _ ho), hcalls,
        run_append]
      exact ih fun o ho => h o (List.mem_append_right _ ho)

/-- The drawings that the script can encode without losing one. -/
structure Encodable (readdir : String → List (String × PNG)) : Prop where
  drawn : ∀ folder ∈ partfolders, ∀ file ∈ readdir folder, Drawn (readPngImage file.2)
  inhabited : ∀ folder ∈ partfolders, readdir folder ≠ []
  names : ((scriptCalls readdir partfolders).map Call.name).Nodup
  colors : ("" :: (scriptCalls readdir partfolders).flatMap Call.hexes).toFinset.card ≤ 256

/-- The folders without their numbers. -/
theorem dropNumber_partfolders :
    partfolders.map dropNumber = ["bodies", "accessories", "heads", "glasses"] := by
  decide +kernel

theorem dropNumber_own {folder : String} (h : folder ∈ partfolders) :
    dropNumber folder ≠ "" ∧ dropNumber folder ∉ inherited := by
  have hall : ∀ name ∈ partfolders.map dropNumber, name ≠ "" ∧ name ∉ inherited := by
    rw [dropNumber_partfolders]
    decide +kernel
  exact hall _ (List.mem_map_of_mem h)

theorem dropNumber_injective {folder folder' : String} (h : folder ∈ partfolders)
    (h' : folder' ∈ partfolders) (heq : dropNumber folder = dropNumber folder') :
    folder = folder' := by
  have hnodup : (partfolders.map dropNumber).Nodup := by
    rw [dropNumber_partfolders]
    decide +kernel
  exact List.inj_on_of_nodup_map hnodup h h' heq

theorem folderCalls_containing {folder : String} (hfolder : folder ∈ partfolders)
    {files : List (String × PNG)} {call : Call} (h : call ∈ folderCalls folder files) :
    call.containing = some (dropNumber folder) := by
  obtain ⟨file, -, rfl⟩ := List.mem_map.mp h
  simp [Call.containing, Option.filter, (dropNumber_own hfolder).1]

theorem scriptCalls_containing {call : Call} (h : call ∈ scriptCalls readdir partfolders) :
    ∃ folder ∈ partfolders, call.containing = some (dropNumber folder) := by
  obtain ⟨folder, hfolder, hcall⟩ := List.mem_flatMap.mp h
  exact ⟨folder, hfolder, folderCalls_containing hfolder hcall⟩

theorem flatMap_pick {α β : Type} [DecidableEq α] {l : List α} {a : α} (ha : a ∈ l)
    (hnodup : l.Nodup) (bs : List β) : (l.flatMap fun a' => if a' = a then bs else []) = bs := by
  induction l with
  | nil => exact absurd ha List.not_mem_nil
  | cons a' l ih =>
      obtain ⟨hnot, hrest⟩ := List.nodup_cons.mp hnodup
      rw [List.flatMap_cons]
      by_cases heq : a' = a
      · have hnone : (l.flatMap fun a' => if a' = a then bs else []) = [] := by
          refine List.flatMap_eq_nil_iff.mpr ?_
          intro b hb
          exact if_neg fun h : b = a => hnot (heq.trans h.symm ▸ hb)
        rw [if_pos heq, hnone, List.append_nil]
      · rw [if_neg heq, List.nil_append]
        exact ih ((List.mem_cons.mp ha).resolve_left fun h => heq h.symm) hrest

/-- The calls of a folder are those that name it. -/
theorem filter_scriptCalls {folder : String} (hfolder : folder ∈ partfolders) :
    (scriptCalls readdir partfolders).filter (fun call => call.key = dropNumber folder)
      = folderCalls folder (readdir folder) := by
  have hown : ∀ folder' ∈ partfolders, (folderCalls folder' (readdir folder')).filter
      (fun call => call.key = dropNumber folder)
      = if folder' = folder then folderCalls folder (readdir folder) else [] := by
    intro folder' hfolder'
    split
    · next heq =>
        subst heq
        refine List.filter_eq_self.mpr ?_
        intro call hcall
        rw [Call.key, folderCalls_containing hfolder' hcall]
        exact decide_eq_true rfl
    · next hne =>
        refine List.filter_eq_nil_iff.mpr ?_
        intro call hcall
        rw [Call.key, folderCalls_containing hfolder' hcall]
        exact fun h => hne (dropNumber_injective hfolder' hfolder (of_decide_eq_true h))
  unfold scriptCalls
  rw [List.filter_flatMap, List.flatMap_congr hown]
  exact flatMap_pick hfolder (by decide +kernel) _

theorem Encodable.returned (h : Encodable readdir) :
    ∀ o ∈ (new none).outputs (scriptCalls readdir partfolders), o.2.isSome = true := by
  refine outputs_returned (new none) ?_ ?_
  · intro call hcall
    obtain ⟨folder, hfolder, hcall⟩ := List.mem_flatMap.mp hcall
    obtain ⟨file, hfile, rfl⟩ := List.mem_map.mp hcall
    rw [(h.drawn folder hfolder file hfile).width]
    decide
  · intro call hcall f hf
    obtain ⟨folder, hfolder, hcontaining⟩ := scriptCalls_containing hcall
    obtain rfl := Option.some.inj (hf.symm.trans hcontaining)
    exact (dropNumber_own hfolder).2

/-- What the script writes down. -/
theorem Encodable.encode (h : Encodable readdir) :
    encode readdir = some { ((new none).run (scriptCalls readdir partfolders)).data with
      bgcolors := ["d5d7e1", "e1d7d5"] } := by
  unfold Assets.encode
  rw [encodeAll h.returned]
  rfl

/-- The palette that is there at the end. -/
theorem Encodable.numbers (readdir : String → List (String × PNG)) :
    Numbers ((new none).run (scriptCalls readdir partfolders)).colors
      ("" :: (scriptCalls readdir partfolders).flatMap Call.hexes) := by
  have hnew : Numbers (new none).colors ("" :: Option.getD none []) :=
    new_numbers List.nodup_nil fun _ h => by cases h
  exact run_numbers hnew _

theorem Encodable.size (h : Encodable readdir) :
    ((new none).run (scriptCalls readdir partfolders)).colors.size ≤ 256 := by
  rw [(Encodable.numbers readdir).size_eq]
  exact h.colors

/-- What is listed of a drawing. -/
def Transcribed (colors : Colors) (file : String × PNG) (image : EncodedImage) : Prop :=
  ∃ rle, image = ⟨dropPng file.1, some rle⟩
    ∧ EncodesDrawing (readPngImage file.2).rgbaAt colors rle

/-- **Every folder comes out with its drawings.** -/
theorem Encodable.listed (h : Encodable readdir) {folder : String} (hfolder : folder ∈ partfolders) :
    ∃ images, ((new none).run (scriptCalls readdir partfolders)).data.images.get?
        (dropNumber folder) = some images
      ∧ List.Forall₂ (Transcribed ((new none).run (scriptCalls readdir partfolders)).colors)
        (readdir folder) images := by
  have hfst := map_fst_outputs (new none) (scriptCalls readdir partfolders)
  have hnames : (((new none).outputs (scriptCalls readdir partfolders)).map
      fun o => o.1.name).Nodup := by
    have hnodup := h.names
    rw [← hfst, List.map_map] at hnodup
    exact hnodup
  have hroot : ¬ ((∃ o ∈ (new none).outputs (scriptCalls readdir partfolders),
        o.1.containing = some "root")
      ∧ ∃ o ∈ (new none).outputs (scriptCalls readdir partfolders), o.1.containing = none) := by
    intro hboth
    obtain ⟨-, o, ho, hnone⟩ := hboth
    have hcall : o.1 ∈ scriptCalls readdir partfolders := hfst ▸ List.mem_map_of_mem ho
    obtain ⟨_, _, hsome⟩ := scriptCalls_containing hcall
    rw [hnone] at hsome
    cases hsome
  have hget := (holds_run ⟨rfl, rfl⟩ _ h.returned).format_get? hnames h.returned hroot
    (dropNumber folder)
  generalize hL : ((new none).outputs (scriptCalls readdir partfolders)).filter
    (fun o => o.1.key = dropNumber folder) = L at hget
  -- what is listed are the outputs of the folder's calls
  have hcalls : L.map Prod.fst = folderCalls folder (readdir folder) := by
    rw [← filter_scriptCalls hfolder, ← hfst, List.filter_map, ← hL]
    rfl
  have hlength : (readdir folder).length = L.length := by
    have := congrArg List.length hcalls
    rw [List.length_map, folderCalls, List.length_map] at this
    exact this.symm
  refine ⟨L.map listing, ?_, List.forall₂_map_right_iff.mpr (List.forall₂_iff_get.mpr
    ⟨hlength, ?_⟩)⟩
  · have hne : L ≠ [] := fun hnil => h.inhabited folder hfolder
      (List.length_eq_zero_iff.mp (by rw [hlength, hnil]; rfl))
    rcases hsome : ((new none).run (scriptCalls readdir partfolders)).data.images.get?
        (dropNumber folder) with - | images
    · have hnone : L.map listing = [] := hget.symm.trans (by
        show (((new none).run (scriptCalls readdir partfolders)).data.images.get?
          (dropNumber folder)).getD [] = []
        rw [hsome]
        rfl)
      exact absurd (List.map_eq_nil_iff.mp hnone) hne
    · refine congrArg some ?_
      rw [← hget]
      show images = (((new none).run (scriptCalls readdir partfolders)).data.images.get?
        (dropNumber folder)).getD []
      rw [hsome]
      rfl
  · intro i hi hi'
    have hsub : ∀ o ∈ L, o ∈ (new none).outputs (scriptCalls readdir partfolders) := by
      intro o ho
      rw [← hL] at ho
      exact List.mem_of_mem_filter ho
    have hmem := hsub _ (List.getElem_mem hi')
    have hcall : L[i].1 = ⟨dropPng (readdir folder)[i].1, readPngImage (readdir folder)[i].2,
        some (dropNumber folder)⟩ := by
      have hsome := congrArg (fun l => l[i]?) hcalls
      simp only [folderCalls, List.getElem?_map, List.getElem?_eq_getElem hi',
        List.getElem?_eq_getElem hi, Option.map_some, Option.some.injEq] at hsome
      exact hsome
    obtain ⟨rle, hrle⟩ := Option.isSome_iff_exists.mp (h.returned _ hmem)
    have hdrawn : ∀ call ∈ scriptCalls readdir partfolders, Drawn call.png := by
      intro call hcall
      obtain ⟨folder, hfolder, hcall⟩ := List.mem_flatMap.mp hcall
      obtain ⟨file, hfile, rfl⟩ := List.mem_map.mp hcall
      exact h.drawn folder hfolder file hfile
    have hencodes := outputs_encode newPalette_ok hdrawn h.size _ hmem rle hrle
    rw [hcall] at hencodes
    refine ⟨rle, ?_, hencodes⟩
    show listing L[i] = _
    rw [listing, hrle, hcall]
    rfl

end Nouns.Assets
