import Nouns.Proof.SeedRange

/-!
# Drawings that last

Colours are only ever added to the end of a palette, as parts are to the ends of their arrays; the
palettes stay open even when the parts are locked. A rect that finds its colour goes on finding
it, so a Noun that can be drawn is drawn the same from then on. Once the token's descriptor is
locked nobody can change that: neither the owner of the token nor that of the descriptor.
-/

namespace Nouns.MultiPartRLEToSVG

open Evm Proof

/-! ## Rendering with more colours -/

variable {palette palette' : List String} {palettes palettes' : UInt8 → List String}

theorem Drawing.put_more (hp : palette <+: palette') {rect : Rect} {d d' : Drawing}
    (h : d.put palette rect = .ok d') : d.put palette' rect = .ok d' := by
  unfold Drawing.put at h ⊢
  split at h
  · next hcolor =>
      rw [if_pos hcolor]
      obtain ⟨b₁, h₁, h⟩ := bind_ok.mp h
      obtain ⟨b₂, h₂, h⟩ := bind_ok.mp h
      obtain ⟨b₃, h₃, h⟩ := bind_ok.mp h
      obtain ⟨b₄, h₄, h⟩ := bind_ok.mp h
      obtain ⟨b₅, h₅, h⟩ := bind_ok.mp h
      obtain ⟨b₆, h₆, h⟩ := bind_ok.mp h
      obtain ⟨color, hcolor, h⟩ := bind_ok.mp h
      rw [bind_of_ok h₁, bind_of_ok h₂, bind_of_ok h₃, bind_of_ok h₄, bind_of_ok h₅, bind_of_ok h₆,
        bind_of_ok ( index_prefix hp hcolor)]
      exact h
  · next hcolor =>
      rw [if_neg hcolor]
      exact h

theorem Drawing.draw_more (hp : palette <+: palette') {bounds : ContentBounds} {rect : Rect}
    {d d' : Drawing} (h : Drawing.draw palette bounds d rect = .ok d') :
    Drawing.draw palette' bounds d rect = .ok d' := by
  obtain ⟨d₁, h₁, h⟩ := bind_ok.mp h
  unfold Drawing.draw
  rw [bind_of_ok (Drawing.put_more hp h₁)]
  exact h

theorem drawLoop_more (hp : palette <+: palette') {bounds : ContentBounds} {rects : List Rect}
    {d d' : Drawing} (h : rects.foldlM (Drawing.draw palette bounds) d = .ok d') :
    rects.foldlM (Drawing.draw palette' bounds) d = .ok d' := by
  induction rects generalizing d with
  | nil => exact h
  | cons rect rects ih =>
      rw [List.foldlM_cons] at h ⊢
      obtain ⟨d₁, h₁, h⟩ := bind_ok.mp h
      rw [bind_of_ok (Drawing.draw_more hp h₁)]
      exact ih h

theorem drawPart_more (hp : ∀ i, palettes i <+: palettes' i) {image : DecodedImage} {part : String}
    (h : drawPart palettes image = .ok part) : drawPart palettes' image = .ok part := by
  obtain ⟨d, hd, h⟩ := bind_ok.mp h
  unfold drawPart
  rw [bind_of_ok (drawLoop_more (hp image.paletteIndex) hd)]
  exact h

theorem generateSVGRects_more (hp : ∀ i, palettes i <+: palettes' i) {p : Nat}
    {parts : List (List UInt8)} {rects text : String}
    (h : generateSVGRects_ palettes p parts rects = .ok text) :
    generateSVGRects_ palettes' p parts rects = .ok text := by
  induction parts generalizing p rects with
  | nil => exact h
  | cons part parts ih =>
      obtain ⟨image, himage, h⟩ := bind_ok.mp h
      obtain ⟨drawn, hdrawn, h⟩ := bind_ok.mp h
      obtain ⟨p', hp', h⟩ := bind_ok.mp h
      unfold generateSVGRects_
      rw [bind_of_ok himage, bind_of_ok (drawPart_more hp hdrawn), bind_of_ok hp']
      exact ih h

/-- What is rendered is rendered the same with more colours. -/
theorem generateSVG_more (hp : ∀ i, palettes i <+: palettes' i) {parts : List (List UInt8)}
    {background svg : String} (h : generateSVG parts background palettes = .ok svg) :
    generateSVG parts background palettes' = .ok svg := by
  obtain ⟨rects, hrects, h⟩ := bind_ok.mp h
  unfold generateSVG
  rw [bind_of_ok (generateSVGRects_more hp hrects)]
  exact h

end Nouns.MultiPartRLEToSVG

namespace Nouns.Proof

open Evm CallMachine MultiPartRLEToSVG

/-! ## The palettes of the descriptor -/

variable {d d' : NounsDescriptor} {sender : Address} {seed : Seed}

/-- Every palette has its colours where they were. -/
def Colours (d d' : NounsDescriptor) : Prop := ∀ i, d.palettes i <+: d'.palettes i

theorem Colours.refl : Colours d d := fun _ => List.prefix_rfl

theorem Colours.trans {d'' : NounsDescriptor} (h : Colours d d') (h' : Colours d' d'') :
    Colours d d'' := fun i => (h i).trans (h' i)

theorem Colours.of_eq (h : d'.palettes = d.palettes) : Colours d d' := fun i => by
  rw [h]

theorem addColorToPalette_colours (i : UInt8) (color : String) (d : NounsDescriptor) :
    Colours d (d.addColorToPalette_ i color) := by
  intro j
  by_cases hj : j = i
  · subst hj
    show d.palettes j <+: Function.update d.palettes j _ j
    rw [Function.update_self]
    exact List.prefix_append _ _
  · show d.palettes j <+: Function.update d.palettes i _ j
    rw [Function.update_of_ne hj]

theorem addAll_colours {A : Type} {add_ : A → NounsDescriptor → NounsDescriptor}
    (h : ∀ a d, Colours d (add_ a d)) (parts : List A) (d : NounsDescriptor) :
    Colours d (d.addAll add_ parts) := by
  induction parts generalizing d with
  | nil => exact .refl
  | cons part parts ih => exact (h part d).trans (ih (add_ part d))

theorem addAll_palettes {A : Type} {add_ : A → NounsDescriptor → NounsDescriptor}
    (h : ∀ a d, (add_ a d).palettes = d.palettes) (parts : List A) (d : NounsDescriptor) :
    (d.addAll add_ parts).palettes = d.palettes := by
  induction parts generalizing d with
  | nil => rfl
  | cons part parts ih => exact (ih (add_ part d)).trans (h part d)

/-- **No call of the descriptor takes a colour away.** -/
theorem descriptor_colours {call : DescriptorCall} (h : d.call sender call = .ok d') :
    Colours d d' := by
  cases call with
  | addManyColorsToPalette i colors =>
      obtain ⟨_, _, h⟩ := bind_ok.mp h
      obtain ⟨_, _, h⟩ := bind_ok.mp h
      obtain ⟨_, _, h⟩ := bind_ok.mp h
      exact Except.ok.inj h ▸ addAll_colours (addColorToPalette_colours i) colors d
  | addColorToPalette i color =>
      obtain ⟨_, _, h⟩ := bind_ok.mp h
      obtain ⟨_, _, h⟩ := bind_ok.mp h
      exact Except.ok.inj h ▸ addColorToPalette_colours i color d
  | addManyBackgrounds | addManyBodies | addManyAccessories | addManyHeads | addManyGlasses =>
      obtain ⟨_, _, h⟩ := bind_ok.mp h
      obtain ⟨_, _, h⟩ := bind_ok.mp h
      obtain rfl := Except.ok.inj h
      refine .of_eq (addAll_palettes ?_ _ _)
      exact fun _ _ => rfl
  | addBackground | addBody | addAccessory | addHead | addGlasses | lockParts
    | transferOwnership =>
      obtain ⟨_, _, h⟩ := bind_ok.mp h
      obtain ⟨_, _, h⟩ := bind_ok.mp h
      exact Except.ok.inj h ▸ .of_eq rfl
  | toggleDataURIEnabled | setBaseURI | renounceOwnership =>
      obtain ⟨_, _, h⟩ := bind_ok.mp h
      exact Except.ok.inj h ▸ .of_eq rfl

/-- What a descriptor draws it goes on drawing. -/
structure Lasting (d d' : NounsDescriptor) (seed : Seed) : Prop where
  image : ∀ base64 image, d.generateSVGImage base64 seed = .ok image →
    d'.generateSVGImage base64 seed = .ok image
  dataURI : ∀ base64 tokenId uri, d.dataURI base64 tokenId seed = .ok uri →
    d'.dataURI base64 tokenId seed = .ok uri

theorem generateSVGImage_more {base64 : String → String} {parts : List (List UInt8)}
    {background image : String} {palettes palettes' : UInt8 → List String}
    (hp : ∀ i, palettes i <+: palettes' i)
    (h : NFTDescriptor.generateSVGImage base64 parts background palettes = .ok image) :
    NFTDescriptor.generateSVGImage base64 parts background palettes' = .ok image := by
  obtain ⟨svg, hsvg, h⟩ := bind_ok.mp h
  unfold NFTDescriptor.generateSVGImage
  rw [bind_of_ok (generateSVG_more hp hsvg)]
  exact h

theorem Extends.lasting (he : Extends d d') (hc : Colours d d') : Lasting d d' seed := by
  constructor
  · intro base64 image h
    simp only [NounsDescriptor.generateSVGImage, bind_ok] at h
    obtain ⟨parts, hparts, background, hbackground, h⟩ := h
    have hlater := LooksUp.extends ⟨hparts, hbackground⟩ he
    rw [(hlater.generate base64).2]
    exact generateSVGImage_more hc h
  · intro base64 tokenId uri h
    simp only [NounsDescriptor.dataURI, NounsDescriptor.genericDataURI, bind_ok] at h
    obtain ⟨parts, hparts, background, hbackground, h⟩ := h
    have hlater := LooksUp.extends ⟨hparts, hbackground⟩ he
    unfold NounsDescriptor.dataURI
    rw [(hlater.generate base64).1]
    obtain ⟨image, himage, h⟩ := bind_ok.mp h
    unfold NFTDescriptor.constructTokenURI
    rw [bind_of_ok (generateSVGImage_more hc himage)]
    exact h

/-! ## A token whose descriptor is locked -/

variable {m : Msg} {s s' s₁ : NounsToken}

/-- The lock and what it keeps. -/
def SameLock (s s' : NounsToken) : Prop :=
  s'.isDescriptorLocked = s.isDescriptorLocked ∧ s'.descriptor = s.descriptor

theorem SameLock.trans {s'' : NounsToken} (h : SameLock s s') (h' : SameLock s' s'') :
    SameLock s s'' := ⟨h'.1.trans h.1, h'.2.trans h.2⟩

theorem mintTo_sameLock {dst : Address} (h₁ : s.nextNounId = .ok s₁)
    (h : s₁.mintTo_ m dst s.currentNounId_ = .ok s') : SameLock s s' := by
  obtain ⟨_, _, hm, rfl⟩ := mintTo_shape h₁ h
  obtain ⟨_, _, _, _, _, _, _, rfl⟩ := hm.book
  exact ⟨rfl, rfl⟩

theorem mint_sameLock {id : Nat} (h : s.mint m = .ok (s', id)) : SameLock s s' := by
  simp only [NounsToken.mint, NounsToken.mintReward, bind_ok] at h
  obtain ⟨_, _, s₁, h₁, s₂, h₂, s₃, h₃, h⟩ := h
  obtain ⟨rfl, rfl⟩ := Prod.mk.inj (Except.ok.inj h)
  refine SameLock.trans ?_ (mintTo_sameLock h₂ h₃)
  split at h₁
  · obtain ⟨s₀, h₀, h₁⟩ := bind_ok.mp h₁
    exact mintTo_sameLock h₀ h₁
  · obtain rfl := Except.ok.inj h₁
    exact ⟨rfl, rfl⟩

/-- No call opens the lock or replaces what it keeps. -/
theorem call_sameLock {c : TokenCall} (hlock : s.isDescriptorLocked = true)
    (h : s.call m c = .ok s') : SameLock s s' := by
  cases c with
  | mint =>
      obtain ⟨⟨_, id⟩, hmint, h⟩ := bind_ok.mp h
      obtain rfl := Except.ok.inj h
      exact mint_sameLock hmint
  | burn id =>
      obtain ⟨_, _, h⟩ := bind_ok.mp h
      obtain ⟨s₁, h₁, h⟩ := bind_ok.mp h
      obtain rfl := Except.ok.inj h
      obtain ⟨_, _, _, _, _, _, _, rfl⟩ := (burn_shape h₁).book
      exact ⟨rfl, rfl⟩
  | transferFrom src dst id | safeTransferFrom src dst id =>
      obtain ⟨_, _, _, _, _, _, _, rfl⟩ := (transferFrom_shape h).book
      exact ⟨rfl, rfl⟩
  | delegate d =>
      obtain ⟨_, _, _, _, _, _, _, rfl⟩ := (delegate_shape h).book
      exact ⟨rfl, rfl⟩
  | delegateBySig d nonce expiry sig =>
      obtain ⟨nonces, hr⟩ := delegateBySig_shape h
      obtain ⟨_, _, _, _, _, _, _, rfl⟩ := hr.book
      exact ⟨rfl, rfl⟩
  | setDescriptor | lockDescriptor =>
      obtain ⟨_, _, h⟩ := bind_ok.mp h
      obtain ⟨_, hopen, h⟩ := bind_ok.mp h
      rw [require_ok, hlock] at hopen
      cases hopen
  | approve dst id =>
      simp only [NounsToken.call, NounsToken.approve, NounsToken.erc721Approve,
        NounsToken.approve_, bind_ok] at h
      obtain ⟨_, _, _, _, _, _, _, _, h⟩ := h
      obtain rfl := Except.ok.inj h
      exact ⟨rfl, rfl⟩
  | setApprovalForAll | setNoundersDAO | renounceOwnership =>
      obtain ⟨_, _, h⟩ := bind_ok.mp h
      obtain rfl := Except.ok.inj h
      exact ⟨rfl, rfl⟩
  | setMinter | lockMinter | setSeeder | lockSeeder | transferOwnership =>
      obtain ⟨_, _, h⟩ := bind_ok.mp h
      obtain ⟨_, _, h⟩ := bind_ok.mp h
      obtain rfl := Except.ok.inj h
      exact ⟨rfl, rfl⟩

/-! ## From the lock on -/

variable {env : ArtEnv} {w w' : ArtWorld} {x y : Config ArtWorld TokenFrame}

/-- The token keeps its invariant, whatever becomes of its descriptor and seeder. -/
theorem artMachine_token (env : ArtEnv) :
    (artMachine env).Keeps Free (fun w _ => TokenInv w.block.number w.token)
      (fun w _ _ => TokenInv w.block.number w.token) where
  enter := by
    intro tx w fs o h _ _ he
    obtain ⟨sender, call⟩ := tx
    cases call with
    | token view call =>
        obtain ⟨s', hs, he⟩ := bind_ok.mp he
        have hnext : TokenInv w.block.number s' := (call_effects hs).inv h
        dsimp only at he
        split at he
        · obtain rfl := Except.ok.inj he
          exact ⟨hnext, hnext⟩
        · obtain rfl := Except.ok.inj he
          exact hnext
    | descriptor call =>
        obtain ⟨d', -, he⟩ := bind_ok.mp he
        obtain rfl := Except.ok.inj he
        exact h
  resume := by
    intro f w fs o hI _ hr
    rw [artMachine_resume hr]
    exact hI
  failed := by
    intro f w fs o hJ hr
    rw [artMachine_resume hr]
    exact hJ
  tick := by
    intro t w w' h _ ht
    simp only [artMachine, Option.map_eq_some_iff, tick_some] at ht
    obtain ⟨b, ⟨hn, _, rfl⟩, rfl⟩ := ht
    exact h.later hn

/-- The lock is on, and what was minted or added up to `w₀` is where it was. -/
structure UnderLock (env : ArtEnv) (w₀ w : ArtWorld) : Prop where
  locked : w.token.isDescriptorLocked = true
  descriptor : w.token.descriptor = env.descriptor
  grows : Grows w₀ w
  colours : Colours w₀.descriptor w.descriptor

theorem artMachine_underLock (env : ArtEnv) (w₀ : ArtWorld) :
    (artMachine env).Keeps Free (fun w _ => UnderLock env w₀ w) (fun w _ _ => UnderLock env w₀ w) where
  enter := by
    intro tx w fs o h _ _ he
    obtain ⟨sender, call⟩ := tx
    cases call with
    | token view call =>
        obtain ⟨s', hs, he⟩ := bind_ok.mp he
        obtain ⟨hlock, hdescriptor⟩ := call_sameLock h.locked hs
        have hallots := call_allots hs
        have hgrows : Grows w { w with token := s' } := ⟨hallots.counter, hallots.seeds, .refl⟩
        have hnext : UnderLock env w₀ { w with token := s' } :=
          ⟨hlock.trans h.locked, hdescriptor.trans h.descriptor, h.grows.trans hgrows, h.colours⟩
        dsimp only at he
        split at he
        · obtain rfl := Except.ok.inj he
          exact ⟨hnext, hnext⟩
        · obtain rfl := Except.ok.inj he
          exact hnext
    | descriptor call =>
        obtain ⟨d', hd, he⟩ := bind_ok.mp he
        obtain rfl := Except.ok.inj he
        have hgrows : Grows w { w with descriptor := d' } :=
          ⟨Nat.le_refl _, fun _ _ => rfl, descriptor_extends hd⟩
        exact ⟨h.locked, h.descriptor, h.grows.trans hgrows,
          h.colours.trans (descriptor_colours hd)⟩
  resume := by
    intro f w fs o hI _ hr
    rw [artMachine_resume hr]
    exact hI
  failed := by
    intro f w fs o hJ hr
    rw [artMachine_resume hr]
    exact hJ
  tick := by
    intro t w w' h _ ht
    simp only [artMachine, Option.map_eq_some_iff, tick_some] at ht
    obtain ⟨b, ⟨_, _, rfl⟩, rfl⟩ := ht
    exact ⟨h.locked, h.descriptor, h.grows.trans ⟨Nat.le_refl _, fun _ _ => rfl, .refl⟩, h.colours⟩

/--
**Drawings last.** Once the token's descriptor is locked, with this descriptor and whatever was done
before, and whatever anybody does: the token asks the same descriptor, a Noun's seed is what it was,
the image drawn of it stays the same, and so does its data URI, which `tokenURI` returns too while it
is enabled.
-/
theorem drawings_last (d : ArtDeployment env) (x y : Config ArtWorld TokenFrame)
    (hx : (artMachine env).Runs Free ⟨d.world, []⟩ x)
    (hlock : x.world.token.isDescriptorLocked = true)
    (hdescriptor : x.world.token.descriptor = env.descriptor)
    (hy : (artMachine env).Runs Free x y) (n : Nat) (hn : x.world.token.owners_ n ≠ 0) :
    y.world.token.descriptor = env.descriptor
    ∧ y.world.token.seeds n = x.world.token.seeds n
    ∧ Lasting x.world.descriptor y.world.descriptor (y.world.token.seeds n)
    ∧ ∀ base64 uri, x.world.dataURI base64 n = .ok uri → y.world.token.owners_ n ≠ 0 →
      y.world.dataURI base64 n = .ok uri
      ∧ (y.world.descriptor.isDataURIEnabled = true → y.world.tokenURI base64 n = .ok uri) := by
  have hinv := (artMachine_token env).runs hx (artInv_world d).token
  have hkept := (artMachine_underLock env x.world).runs hy ⟨hlock, hdescriptor, .refl, .refl⟩
  have hseed := hkept.grows.seeds n (hinv.holdings.lt_current hn)
  have hlasting : Lasting x.world.descriptor y.world.descriptor (y.world.token.seeds n) :=
    hkept.grows.parts.lasting hkept.colours
  refine ⟨hkept.descriptor, hseed, hlasting, ?_⟩
  intro base64 uri huri hy'
  obtain ⟨_, _, huri⟩ := bind_ok.mp huri
  rw [← hseed] at huri
  have hlater := hlasting.dataURI base64 n uri huri
  have hexists : y.world.token.exists_ n = true := decide_eq_true hy'
  have hpassed : require (y.world.token.exists_ n = true)
    "NounsToken: URI query for nonexistent token" = .ok () := require_total hexists
  refine ⟨?_, ?_⟩
  · unfold ArtWorld.dataURI NounsToken.dataURI
    rw [bind_of_ok hpassed]
    exact hlater
  · intro henabled
    unfold ArtWorld.tokenURI NounsToken.tokenURI
    rw [bind_of_ok hpassed]
    exact (if_pos henabled).trans hlater

/-- One red square. -/
def redSquare : List UInt8 := [0, 0, 1, 1, 0, 1, 1]

/-- A descriptor with one part of each kind, all of them red squares. -/
def redDescriptor : NounsDescriptor :=
  { ((NounsDescriptor.deploy (.ofNat 1)).addColorToPalette_ 0 "").addColorToPalette_ 0 "ff0000" with
    backgrounds := ["d5d7e1"], bodies := [redSquare], accessories := [redSquare],
    heads := [redSquare], glasses := [redSquare] }

/-- The small token with that descriptor. -/
def redArt : ArtDeployment smallArtEnv where
  genesis := smallGenesis
  descriptor := redDescriptor
  descriptor_eq := smallArt.descriptor_eq
  seeder_eq := smallArt.seeder_eq
  descriptor_called := ⟨.ofNat 1, .tail (.tail (.tail (.tail (.tail (.tail (.tail .refl
    ⟨.ofNat 1, .addColorToPalette 0 "", rfl⟩) ⟨.ofNat 1, .addColorToPalette 0 "ff0000", rfl⟩)
    ⟨.ofNat 1, .addBackground "d5d7e1", rfl⟩) ⟨.ofNat 1, .addBody redSquare, rfl⟩)
    ⟨.ofNat 1, .addAccessory redSquare, rfl⟩) ⟨.ofNat 1, .addHead redSquare, rfl⟩)
    ⟨.ofNat 1, .addGlasses redSquare, rfl⟩⟩

/-- A colour and a head are added after the lock, and Noun 1 is drawn as before. -/
theorem drawings_last_addColor : ∃ (y : Config ArtWorld TokenFrame) (image : String),
    y.world.descriptor.palettes 0 = ["", "ff0000", "00ff00"]
    ∧ y.world.descriptor.generateSVGImage id (y.world.token.seeds 1) = .ok image := by
  obtain ⟨x, hx, hp⟩ := Machine.script_exists (M := artMachine smallArtEnv) Machine.anything_free
    (x := ⟨redArt.world, []⟩) (m := [.enter ⟨.ofNat 4, .token smallView .mint⟩,
      .enter ⟨.ofNat 1, .token smallView .lockDescriptor⟩])
    (p := fun x => x.world.token.isDescriptorLocked = true
      ∧ x.world.token.descriptor = smallArtEnv.descriptor ∧ x.world.token.owners_ 1 = .ofNat 4
      ∧ (x.world.descriptor.generateSVGImage id (x.world.token.seeds 1)).toOption.isSome = true
      ∧ (Machine.script (artMachine smallArtEnv) Machine.anything x
          [.enter ⟨.ofNat 1, .descriptor (.addColorToPalette 0 "00ff00")⟩,
            .enter ⟨.ofNat 1, .descriptor (.addHead redSquare)⟩]).any
        fun y => y.world.descriptor.palettes 0 = ["", "ff0000", "00ff00"])
    (by decide +kernel)
  obtain ⟨hlocked, hdescriptor, howner, himage, hlater⟩ := of_decide_eq_true hp
  obtain ⟨y, hy, hp⟩ := Machine.script_exists (M := artMachine smallArtEnv)
    Machine.anything_free hlater
  obtain ⟨-, hseeds, hlasting, -⟩ := drawings_last redArt x y hx hlocked hdescriptor hy 1
    (by rw [howner]; decide)
  obtain ⟨image, himage⟩ := Option.isSome_iff_exists.mp himage
  refine ⟨y, image, of_decide_eq_true hp, hlasting.image id image ?_⟩
  rw [hseeds]
  exact toOption_some.mp himage

end Nouns.Proof
