import Nouns.Descriptor.PopulateDescriptor
import Nouns.Lib.PartialMap
import Nouns.Proof.LastingDrawings

/-!
# A populated descriptor

The task sends its parts in pieces, which come to the same as sending them at once: a descriptor
that was empty has the parts of the image data, in the order of the image data. From then on a
seed draws the parts that the image data has under its numbers, whatever is added later.
-/

namespace Nouns.Proof

open Evm Sdk Assets PartialMap

/-! ## Chunks -/

theorem flatten_chunks {T : Type} (array : List T) (size n : Nat) :
    ((List.range n).map fun i => (array.drop (i * size)).take size).flatten
      = array.take (n * size) := by
  induction n with
  | zero => simp
  | succ n ih =>
      rw [List.range_succ, List.map_append, List.flatten_append, ih, Nat.succ_mul, List.take_add]
      simp

/-- **Chunks lose nothing.** -/
theorem flatten_chunkArray {T : Type} (array : List T) {size : Nat} (hsize : 0 < size) :
    (chunkArray array size).flatten = array := by
  unfold chunkArray
  rw [flatten_chunks]
  refine List.take_of_length_le ?_
  have hdiv := Nat.div_add_mod (array.length + size - 1) size
  have hmod := Nat.mod_lt (array.length + size - 1) hsize
  have hcomm := Nat.mul_comm size ((array.length + size - 1) / size)
  omega

/-! ## The arrays of the descriptor -/

/-- An array of the descriptor: how it is read and how it is written. -/
structure PartArray (A : Type) where
  get : NounsDescriptor → List A
  put : List A → NounsDescriptor → NounsDescriptor
  get_put : ∀ l s, get (put l s) = l
  put_put : ∀ l l' s, put l (put l' s) = put l s
  put_get : ∀ s, put (get s) s = s
  owner_put : ∀ l s, (put l s).owner = s.owner
  locked_put : ∀ l s, (put l s).arePartsLocked = s.arePartsLocked

variable {A : Type} {array : PartArray A} {s : NounsDescriptor} {sender : Address}

theorem addAll_put {add_ : A → NounsDescriptor → NounsDescriptor}
    (hadd : ∀ a s, add_ a s = array.put (array.get s ++ [a]) s) (parts : List A)
    (s : NounsDescriptor) : s.addAll add_ parts = array.put (array.get s ++ parts) s := by
  induction parts generalizing s with
  | nil =>
      rw [List.append_nil, array.put_get]
      rfl
  | cons a parts ih =>
      show (add_ a s).addAll add_ parts = _
      rw [ih, hadd, array.get_put, array.put_put, List.append_assoc]
      rfl

/-- The call `call parts` puts the parts behind those that are there. -/
def Fills (array : PartArray A) (call : List A → DescriptorCall) : Prop :=
  ∀ (sender : Address) (s : NounsDescriptor) (parts : List A), s.owner = sender →
    s.arePartsLocked = false → s.call sender (call parts) = .ok (array.put (array.get s ++ parts) s)

theorem adds_of_whenAllowed {add_ : A → NounsDescriptor → NounsDescriptor}
    (hadd : ∀ a s, add_ a s = array.put (array.get s ++ [a]) s) {call : List A → DescriptorCall}
    (hcall : ∀ sender s parts, NounsDescriptor.call sender s (call parts)
      = NounsDescriptor.whenAllowed sender (NounsDescriptor.addAll add_ parts) s) :
    Fills array call := by
  intro sender s parts howner hopen
  have howner' : s.onlyOwner sender = .ok () := require_total howner
  have hopen' : s.whenPartsNotLocked = .ok () := require_total hopen
  rw [hcall, NounsDescriptor.whenAllowed, bind_of_ok howner', bind_of_ok hopen', addAll_put hadd]
  rfl

/-- Pieces come to the same as the whole. -/
theorem Fills.pieces {call : List A → DescriptorCall} (hcall : Fills array call)
    (howner : s.owner = sender) (hopen : s.arePartsLocked = false) (pieces : List (List A)) :
    (pieces.map call).foldlM (fun s call => s.call sender call) s
      = .ok (array.put (array.get s ++ pieces.flatten) s) := by
  induction pieces generalizing s with
  | nil =>
      rw [List.flatten_nil, List.append_nil, array.put_get]
      rfl
  | cons piece pieces ih =>
      rw [List.map_cons, List.foldlM_cons, bind_of_ok (hcall sender s piece howner hopen),
        ih ((array.owner_put _ _).trans howner) ((array.locked_put _ _).trans hopen), array.get_put,
        array.put_put, List.flatten_cons, List.append_assoc]

def backgroundArray : PartArray String where
  get s := s.backgrounds
  put l s := { s with backgrounds := l }
  get_put _ _ := rfl
  put_put _ _ _ := rfl
  put_get _ := rfl
  owner_put _ _ := rfl
  locked_put _ _ := rfl

def bodyArray : PartArray (List UInt8) where
  get s := s.bodies
  put l s := { s with bodies := l }
  get_put _ _ := rfl
  put_put _ _ _ := rfl
  put_get _ := rfl
  owner_put _ _ := rfl
  locked_put _ _ := rfl

def accessoryArray : PartArray (List UInt8) where
  get s := s.accessories
  put l s := { s with accessories := l }
  get_put _ _ := rfl
  put_put _ _ _ := rfl
  put_get _ := rfl
  owner_put _ _ := rfl
  locked_put _ _ := rfl

def headArray : PartArray (List UInt8) where
  get s := s.heads
  put l s := { s with heads := l }
  get_put _ _ := rfl
  put_put _ _ _ := rfl
  put_get _ := rfl
  owner_put _ _ := rfl
  locked_put _ _ := rfl

def glassesArray : PartArray (List UInt8) where
  get s := s.glasses
  put l s := { s with glasses := l }
  get_put _ _ := rfl
  put_put _ _ _ := rfl
  put_get _ := rfl
  owner_put _ _ := rfl
  locked_put _ _ := rfl

def paletteArray : PartArray String where
  get s := s.palettes 0
  put l s := { s with palettes := Function.update s.palettes 0 l }
  get_put l s := Function.update_self 0 l s.palettes
  put_put l l' s := by rw [Function.update_idem]
  put_get s := by rw [Function.update_eq_self]
  owner_put _ _ := rfl
  locked_put _ _ := rfl

theorem addsBackgrounds : Fills backgroundArray .addManyBackgrounds :=
  adds_of_whenAllowed (fun _ _ => rfl) fun _ _ _ => rfl

theorem addsBodies : Fills bodyArray .addManyBodies :=
  adds_of_whenAllowed (fun _ _ => rfl) fun _ _ _ => rfl

theorem addsAccessories : Fills accessoryArray .addManyAccessories :=
  adds_of_whenAllowed (fun _ _ => rfl) fun _ _ _ => rfl

theorem addsHeads : Fills headArray .addManyHeads :=
  adds_of_whenAllowed (fun _ _ => rfl) fun _ _ _ => rfl

theorem addsGlasses : Fills glassesArray .addManyGlasses :=
  adds_of_whenAllowed (fun _ _ => rfl) fun _ _ _ => rfl

theorem addManyColors_ok (howner : s.owner = sender) {colors : List String}
    (hroom : (s.palettes 0).length + colors.length ≤ 256) :
    s.call sender (.addManyColorsToPalette 0 colors)
      = .ok (paletteArray.put (paletteArray.get s ++ colors) s) := by
  have howner' : s.onlyOwner sender = .ok () := require_total howner
  have hadd : add 256 (s.palettes 0).length colors.length
      = .ok ((s.palettes 0).length + colors.length) := add_ok.mpr ⟨by omega, rfl⟩
  have hroom' : require ((s.palettes 0).length + colors.length ≤ 256)
      "Palettes can only hold 256 colors" = .ok () := require_total hroom
  have hcolors : s.addAll (NounsDescriptor.addColorToPalette_ 0) colors
      = paletteArray.put (paletteArray.get s ++ colors) s := by
    refine addAll_put ?_ colors s
    exact fun _ _ => rfl
  show s.addManyColorsToPalette sender 0 colors = _
  rw [NounsDescriptor.addManyColorsToPalette, bind_of_ok howner', bind_of_ok hadd,
    bind_of_ok hroom', hcolors]
  rfl

/-! ## The task -/

variable {arrayify : String → Option (List UInt8)}

/-- The image data, its parts being bytes. -/
structure Bytewise (arrayify : String → Option (List UInt8)) (data : AssetData)
    (bodies accessories heads glasses : List (List UInt8)) : Prop where
  bodies : ∃ images, data.images.get? "bodies" = some images ∧ partsOf arrayify images = some bodies
  accessories : ∃ images, data.images.get? "accessories" = some images
    ∧ partsOf arrayify images = some accessories
  heads : ∃ images, data.images.get? "heads" = some images ∧ partsOf arrayify images = some heads
  glasses : ∃ images, data.images.get? "glasses" = some images
    ∧ partsOf arrayify images = some glasses

/-- The descriptor has the parts of the image data. -/
structure Filled (data : AssetData) (bodies accessories heads glasses : List (List UInt8))
    (d : NounsDescriptor) : Prop where
  backgrounds : d.backgrounds = data.bgcolors
  palette : d.palettes 0 = data.palette
  bodies : d.bodies = bodies
  accessories : d.accessories = accessories
  heads : d.heads = heads
  glasses : d.glasses = glasses

theorem chunkedCalls {images : List EncodedImage} {parts : List (List UInt8)}
    (h : partsOf arrayify images = some parts) (call : List (List UInt8) → DescriptorCall) :
    ∃ pieces : List (List (List UInt8)), ((chunkArray images 10).mapM fun chunk =>
        (partsOf arrayify chunk).map call) = some (pieces.map call)
      ∧ pieces.flatten = parts := by
  have hwhole : (chunkArray images 10).flatten.mapM (fun image => do arrayify (← image.data))
      = some parts := by
    rw [flatten_chunkArray images (by decide)]
    exact h
  obtain ⟨pieces, hpieces, hflatten⟩ := mapM_flatten hwhole
  exact ⟨pieces, mapM_map call hpieces, hflatten⟩

/-- **What the task does.** Run by its owner on a descriptor that was just deployed. -/
theorem populateDescriptor_ok (sender : Address) {data : AssetData}
    {bodies accessories heads glasses : List (List UInt8)}
    (hpalette : data.palette.length ≤ 256)
    (h : Bytewise arrayify data bodies accessories heads glasses) :
    ∃ d, populateDescriptor arrayify sender data (.deploy sender) = some (.ok d)
      ∧ Filled data bodies accessories heads glasses d := by
  obtain ⟨bodyImages, hbodies, hbodies'⟩ := h.bodies
  obtain ⟨accessoryImages, haccessories, haccessories'⟩ := h.accessories
  obtain ⟨headImages, hheads, hheads'⟩ := h.heads
  obtain ⟨glassesImages, hglasses, hglasses'⟩ := h.glasses
  obtain ⟨accessoryPieces, haccessoryCalls, rfl⟩ := chunkedCalls haccessories' .addManyAccessories
  obtain ⟨headPieces, hheadCalls, rfl⟩ := chunkedCalls hheads' .addManyHeads
  have hcalls : populateCalls arrayify data = some
      ([.addManyBackgrounds data.bgcolors, .addManyColorsToPalette 0 data.palette,
        .addManyBodies bodies] ++ accessoryPieces.map .addManyAccessories
        ++ headPieces.map .addManyHeads ++ [.addManyGlasses glasses]) := by
    simp only [populateCalls, hbodies, haccessories, hheads, hglasses, hbodies', hglasses',
      Option.bind_eq_bind, Option.bind_some]
    rw [haccessoryCalls, hheadCalls]
    rfl
  have hcolors : ∀ s : NounsDescriptor, s.owner = sender → s.palettes 0 = [] →
      s.call sender (.addManyColorsToPalette 0 data.palette)
        = .ok (paletteArray.put (paletteArray.get s ++ data.palette) s) := by
    intro s howner hempty
    refine addManyColors_ok howner ?_
    rw [hempty, List.length_nil, Nat.zero_add]
    exact hpalette
  refine ⟨glassesArray.put ([] ++ glasses) (headArray.put ([] ++ headPieces.flatten)
    (accessoryArray.put ([] ++ accessoryPieces.flatten) (bodyArray.put ([] ++ bodies)
    (paletteArray.put ([] ++ data.palette) (backgroundArray.put ([] ++ data.bgcolors)
    (.deploy sender)))))), ?_, ⟨rfl, ?_, rfl, rfl, rfl, rfl⟩⟩
  · unfold populateDescriptor
    rw [hcalls]
    refine congrArg some ?_
    have haddAccessories := fun (s : NounsDescriptor) (howner : s.owner = sender) hopen =>
      addsAccessories.pieces howner hopen accessoryPieces
    have haddHeads := fun (s : NounsDescriptor) (howner : s.owner = sender) hopen =>
      addsHeads.pieces howner hopen headPieces
    rw [List.foldlM_append, List.foldlM_append, List.foldlM_append, List.foldlM_cons,
      bind_of_ok (addsBackgrounds sender _ data.bgcolors rfl rfl), List.foldlM_cons,
      bind_of_ok (hcolors _ rfl rfl), List.foldlM_cons,
      bind_of_ok (addsBodies sender _ bodies rfl rfl), List.foldlM_nil, pure_bind,
      bind_of_ok (haddAccessories _ rfl rfl), bind_of_ok (haddHeads _ rfl rfl), List.foldlM_cons,
      bind_of_ok (addsGlasses sender _ glasses rfl rfl)]
    rfl
  · exact Function.update_self (0 : UInt8) data.palette (NounsDescriptor.deploy sender).palettes

end Nouns.Proof
