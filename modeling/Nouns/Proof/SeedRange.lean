import Nouns.Descriptor.System
import Nouns.Proof.IdAllocation
import Nouns.Proof.Minting

/-!
# Seeds stay in range

A part is drawn modulo the number of parts there are, and nothing takes a part away: every
call of the descriptor that touches an array appends to it. So the seed of a Noun has a
part at every place it looks, now and later, and the same one.
-/

namespace Nouns.Proof

open Evm CallMachine

/-! ## Arrays that only grow -/

/-- The arrays of parts only got longer. -/
structure Extends (d d' : NounsDescriptor) : Prop where
  backgrounds : d.backgrounds <+: d'.backgrounds
  bodies : d.bodies <+: d'.bodies
  accessories : d.accessories <+: d'.accessories
  heads : d.heads <+: d'.heads
  glasses : d.glasses <+: d'.glasses

variable {d d' d'' : NounsDescriptor} {sender : Address} {seed : Seed}

theorem Extends.refl : Extends d d :=
  ⟨List.prefix_rfl, List.prefix_rfl, List.prefix_rfl, List.prefix_rfl, List.prefix_rfl⟩

theorem Extends.trans (h : Extends d d') (h' : Extends d' d'') : Extends d d'' :=
  ⟨h.backgrounds.trans h'.backgrounds, h.bodies.trans h'.bodies, h.accessories.trans h'.accessories,
    h.heads.trans h'.heads, h.glasses.trans h'.glasses⟩

/-- The same arrays. -/
theorem Extends.of_eq (hb : d'.backgrounds = d.backgrounds) (hbodies : d'.bodies = d.bodies)
    (ha : d'.accessories = d.accessories) (hh : d'.heads = d.heads) (hg : d'.glasses = d.glasses) :
    Extends d d' :=
  ⟨hb ▸ List.prefix_rfl, hbodies ▸ List.prefix_rfl, ha ▸ List.prefix_rfl, hh ▸ List.prefix_rfl,
    hg ▸ List.prefix_rfl⟩

theorem addAll_extends {A : Type} {add_ : A → NounsDescriptor → NounsDescriptor}
    (h : ∀ a d, Extends d (add_ a d)) (parts : List A) (d : NounsDescriptor) :
    Extends d (d.addAll add_ parts) := by
  induction parts generalizing d with
  | nil => exact .refl
  | cons part parts ih => exact (h part d).trans (ih (add_ part d))

theorem whenAllowed_extends {add : NounsDescriptor → NounsDescriptor} (hadd : ∀ d, Extends d (add d))
    (h : NounsDescriptor.whenAllowed sender add d = .ok d') : Extends d d' := by
  obtain ⟨_, _, h⟩ := bind_ok.mp h
  obtain ⟨_, _, h⟩ := bind_ok.mp h
  exact Except.ok.inj h ▸ hadd d

theorem addBackground_extends (a : String) (d : NounsDescriptor) : Extends d (d.addBackground_ a) :=
  { Extends.refl with backgrounds := List.prefix_append _ _ }

theorem addBody_extends (a : List UInt8) (d : NounsDescriptor) : Extends d (d.addBody_ a) :=
  { Extends.refl with bodies := List.prefix_append _ _ }

theorem addAccessory_extends (a : List UInt8) (d : NounsDescriptor) :
    Extends d (d.addAccessory_ a) :=
  { Extends.refl with accessories := List.prefix_append _ _ }

theorem addHead_extends (a : List UInt8) (d : NounsDescriptor) : Extends d (d.addHead_ a) :=
  { Extends.refl with heads := List.prefix_append _ _ }

theorem addGlasses_extends (a : List UInt8) (d : NounsDescriptor) : Extends d (d.addGlasses_ a) :=
  { Extends.refl with glasses := List.prefix_append _ _ }

theorem addColorToPalette_extends (i : UInt8) (a : String) (d : NounsDescriptor) :
    Extends d (d.addColorToPalette_ i a) := .of_eq rfl rfl rfl rfl rfl

/-- **No call of the descriptor takes a part away.** -/
theorem descriptor_extends {call : DescriptorCall} (h : d.call sender call = .ok d') :
    Extends d d' := by
  cases call with
  | addManyBackgrounds parts => exact whenAllowed_extends (addAll_extends addBackground_extends parts) h
  | addManyBodies parts => exact whenAllowed_extends (addAll_extends addBody_extends parts) h
  | addManyAccessories parts => exact whenAllowed_extends (addAll_extends addAccessory_extends parts) h
  | addManyHeads parts => exact whenAllowed_extends (addAll_extends addHead_extends parts) h
  | addManyGlasses parts => exact whenAllowed_extends (addAll_extends addGlasses_extends parts) h
  | addBackground part => exact whenAllowed_extends (addBackground_extends part) h
  | addBody part => exact whenAllowed_extends (addBody_extends part) h
  | addAccessory part => exact whenAllowed_extends (addAccessory_extends part) h
  | addHead part => exact whenAllowed_extends (addHead_extends part) h
  | addGlasses part => exact whenAllowed_extends (addGlasses_extends part) h
  | addManyColorsToPalette i colors =>
      obtain ⟨_, _, h⟩ := bind_ok.mp h
      obtain ⟨_, _, h⟩ := bind_ok.mp h
      obtain ⟨_, _, h⟩ := bind_ok.mp h
      exact Except.ok.inj h ▸ addAll_extends (addColorToPalette_extends i) colors d
  | addColorToPalette i color =>
      obtain ⟨_, _, h⟩ := bind_ok.mp h
      obtain ⟨_, _, h⟩ := bind_ok.mp h
      exact Except.ok.inj h ▸ addColorToPalette_extends i color d
  | lockParts =>
      obtain ⟨_, _, h⟩ := bind_ok.mp h
      obtain ⟨_, _, h⟩ := bind_ok.mp h
      exact Except.ok.inj h ▸ .of_eq rfl rfl rfl rfl rfl
  | transferOwnership newOwner =>
      obtain ⟨_, _, h⟩ := bind_ok.mp h
      obtain ⟨_, _, h⟩ := bind_ok.mp h
      exact Except.ok.inj h ▸ .of_eq rfl rfl rfl rfl rfl
  | toggleDataURIEnabled | setBaseURI | renounceOwnership =>
      obtain ⟨_, _, h⟩ := bind_ok.mp h
      exact Except.ok.inj h ▸ .of_eq rfl rfl rfl rfl rfl

/-! ## Seeds that fit -/

/-- Every component of a seed is below the length of its array. -/
structure Fits (seed : Seed) (d : NounsDescriptor) : Prop where
  background : seed.background < d.backgrounds.length
  body : seed.body < d.bodies.length
  accessory : seed.accessory < d.accessories.length
  head : seed.head < d.heads.length
  glasses : seed.glasses < d.glasses.length

theorem Fits.extends (h : Fits seed d) (he : Extends d d') : Fits seed d' :=
  ⟨Nat.lt_of_lt_of_le h.background he.backgrounds.length_le,
    Nat.lt_of_lt_of_le h.body he.bodies.length_le,
    Nat.lt_of_lt_of_le h.accessory he.accessories.length_le,
    Nat.lt_of_lt_of_le h.head he.heads.length_le,
    Nat.lt_of_lt_of_le h.glasses he.glasses.length_le⟩

/-- What is drawn of `n` parts is below `n`, and the cut to 48 bits does not change that. -/
theorem uint48_checkedMod_lt {a n r : Nat} (h : checkedMod a n = .ok r) : uint48 r < n := by
  unfold checkedMod at h
  split at h
  · cases h
  · next hn =>
      obtain rfl := Except.ok.inj h
      exact Nat.lt_of_le_of_lt (Nat.mod_le _ _) (Nat.mod_lt _ (Nat.pos_of_ne_zero hn))

theorem generateSeed_fits {keccak256 : List UInt8 → Bytes32} {blockhash : Nat → Bytes32}
    {block : Block} {nounId : Nat} (h : generateSeed keccak256 blockhash block nounId d.counts = .ok seed) :
    Fits seed d := by
  simp only [generateSeed, bind_ok] at h
  obtain ⟨_, _, background, hb, body, hbody, accessory, ha, head, hh, glasses, hg, h⟩ := h
  obtain rfl := Except.ok.inj h
  exact ⟨uint48_checkedMod_lt hb, uint48_checkedMod_lt hbody, uint48_checkedMod_lt ha,
    uint48_checkedMod_lt hh, uint48_checkedMod_lt hg⟩

/-- The parts and the background a seed names. -/
structure LooksUp (d : NounsDescriptor) (seed : Seed) (parts : List (List UInt8))
    (background : String) : Prop where
  parts : d.getPartsForSeed_ seed = .ok parts
  background : index d.backgrounds seed.background = .ok background

theorem index_of_lt {A : Type} {xs : List A} {i : Nat} (h : i < xs.length) :
    index xs i = .ok xs[i] := index_ok.mpr (List.getElem?_eq_getElem h)

/-- A longer array has the same element there. -/
theorem index_prefix {A : Type} {xs ys : List A} (h : xs <+: ys) {i : Nat} {a : A}
    (hi : index xs i = .ok a) : index ys i = .ok a := by
  rw [index_ok] at hi ⊢
  obtain ⟨rest, rfl⟩ := h
  rw [List.getElem?_append_left (List.getElem?_eq_some_iff.mp hi).1]
  exact hi

/-- A seed that fits names parts and a background. -/
theorem Fits.looksUp (h : Fits seed d) : ∃ parts background, LooksUp d seed parts background :=
  ⟨_, _, bind_ok.mpr ⟨_, index_of_lt h.body, bind_ok.mpr ⟨_, index_of_lt h.accessory,
    bind_ok.mpr ⟨_, index_of_lt h.head, bind_ok.mpr ⟨_, index_of_lt h.glasses, rfl⟩⟩⟩⟩,
    index_of_lt h.background⟩

theorem LooksUp.extends {parts : List (List UInt8)} {background : String}
    (h : LooksUp d seed parts background) (he : Extends d d') : LooksUp d' seed parts background := by
  obtain ⟨hparts, hbackground⟩ := h
  refine ⟨?_, index_prefix he.backgrounds hbackground⟩
  simp only [NounsDescriptor.getPartsForSeed_, bind_ok] at hparts ⊢
  obtain ⟨body, hbody, accessory, ha, head, hh, glasses, hg, hparts⟩ := hparts
  exact ⟨body, index_prefix he.bodies hbody, accessory, index_prefix he.accessories ha,
    head, index_prefix he.heads hh, glasses, index_prefix he.glasses hg, hparts⟩

/-! ## What the token draws -/

variable {m : Msg} {s s' s₁ : NounsToken} {dst : Address} {id n : Nat}

/-- Where the token asks for seeds is as it was. -/
structure SameArt (s s' : NounsToken) : Prop where
  descriptor : s'.descriptor = s.descriptor
  seeder : s'.seeder = s.seeder

/-- The seeds of the ids that were minted are what the seeder answered. -/
structure Draws (m : Msg) (s s' : NounsToken) : Prop where
  art : SameArt s s'
  drawn : ∀ n, s.currentNounId_ ≤ n → n < s'.currentNounId_ →
    m.view.generateSeed s.seeder n s.descriptor = .ok (s'.seeds n)

theorem mintTo_draws (h₁ : s.nextNounId = .ok s₁) (h : s₁.mintTo_ m dst s.currentNounId_ = .ok s') :
    Draws m s s' := by
  simp only [NounsToken.nextNounId, bind_ok, add_ok] at h₁
  obtain ⟨_, ⟨_, rfl⟩, h₁⟩ := h₁
  obtain rfl := Except.ok.inj h₁
  simp only [NounsToken.mintTo_, bind_ok] at h
  obtain ⟨seed, hseed, s₂, h₂, h⟩ := h
  obtain rfl := Except.ok.inj h
  obtain ⟨_, _, _, _, _, _, _, rfl⟩ := (mint_shape h₂).book
  refine ⟨⟨rfl, rfl⟩, ?_⟩
  intro n hle hlt
  have hlt : n < s.currentNounId_ + 1 := hlt
  obtain rfl : n = s.currentNounId_ := by omega
  show m.view.generateSeed s.seeder s.currentNounId_ s.descriptor
    = Except.ok (Function.update s.seeds s.currentNounId_ seed s.currentNounId_)
  rw [Function.update_self]
  exact hseed

theorem mintReward_draws (h : s.mintReward m = .ok s') : Draws m s s' := by
  unfold NounsToken.mintReward at h
  split at h
  · obtain ⟨s₁, h₁, h⟩ := bind_ok.mp h
    exact mintTo_draws h₁ h
  · obtain rfl := Except.ok.inj h
    exact ⟨⟨rfl, rfl⟩, fun n hle hlt => absurd hlt (Nat.not_lt_of_le hle)⟩

theorem mint_draws (h : s.mint m = .ok (s', id)) : Draws m s s' := by
  have hallots := mint_allots h
  simp only [NounsToken.mint, bind_ok] at h
  obtain ⟨_, _, s₁, h₁, s₂, h₂, s₃, h₃, h⟩ := h
  obtain ⟨rfl, rfl⟩ := Prod.mk.inj (Except.ok.inj h)
  have hfirst := mintReward_draws h₁
  have hsecond := mintTo_draws h₂ h₃
  refine ⟨⟨hsecond.art.descriptor.trans hfirst.art.descriptor,
    hsecond.art.seeder.trans hfirst.art.seeder⟩, ?_⟩
  intro n hle hlt
  by_cases hn : n < s₁.currentNounId_
  · -- the reward's seed is not written again
    have hkept : s₃.seeds n = s₁.seeds n := by
      obtain ⟨seed, hseeds⟩ := (mintTo_drew h₂ h₃).seeds
      rw [hseeds, Function.update_of_ne (Nat.ne_of_lt hn)]
    rw [hkept]
    exact hfirst.drawn n hle hn
  · rw [← hfirst.art.seeder, ← hfirst.art.descriptor]
    exact hsecond.drawn n (Nat.le_of_not_lt hn) hlt

/-- A call that does not move the descriptor or the seeder. -/
def LeavesArt (s : NounsToken) : TokenCall → Prop
  | .setDescriptor descriptor => descriptor = s.descriptor
  | .setSeeder seeder => seeder = s.seeder
  | _ => True

/-- **What every call draws.** -/
theorem call_draws {c : TokenCall} (hc : LeavesArt s c) (h : s.call m c = .ok s') : Draws m s s' := by
  by_cases hmint : c = .mint
  · subst hmint
    obtain ⟨⟨_, id⟩, hmint, h⟩ := bind_ok.mp h
    obtain rfl := Except.ok.inj h
    exact mint_draws hmint
  · -- no other call makes a Noun, so there is nothing to draw a seed for
    have hcounter := (call_barren hmint h).counter
    have hnone : ∀ n, s.currentNounId_ ≤ n → n < s'.currentNounId_ →
        m.view.generateSeed s.seeder n s.descriptor = .ok (s'.seeds n) :=
      fun n hle hlt => absurd hlt (hcounter ▸ Nat.not_lt_of_le hle)
    refine ⟨?_, hnone⟩
    cases c with
    | mint => exact absurd rfl hmint
    | burn id =>
        obtain ⟨_, _, h⟩ := bind_ok.mp h
        obtain ⟨s₁, h₁, h⟩ := bind_ok.mp h
        obtain rfl := Except.ok.inj h
        obtain ⟨_, _, _, _, _, _, _, rfl⟩ := (burn_shape h₁).book
        exact ⟨rfl, rfl⟩
    | transferFrom src dst id | safeTransferFrom src dst id =>
        obtain ⟨_, _, _, _, _, _, _, rfl⟩ := (transferFrom_shape h).book
        exact ⟨rfl, rfl⟩
    | delegate d =>
        obtain ⟨_, _, _, _, _, _, _, rfl⟩ := (delegate_shape h).book
        exact ⟨rfl, rfl⟩
    | delegateBySig d nonce expiry sig =>
        obtain ⟨nonces, hr⟩ := delegateBySig_shape h
        obtain ⟨_, _, _, _, _, _, _, rfl⟩ := hr.book
        exact ⟨rfl, rfl⟩
    | setDescriptor descriptor =>
        obtain ⟨_, _, h⟩ := bind_ok.mp h
        obtain ⟨_, _, h⟩ := bind_ok.mp h
        obtain rfl := Except.ok.inj h
        exact ⟨hc, rfl⟩
    | setSeeder seeder =>
        obtain ⟨_, _, h⟩ := bind_ok.mp h
        obtain ⟨_, _, h⟩ := bind_ok.mp h
        obtain rfl := Except.ok.inj h
        exact ⟨rfl, hc⟩
    | approve dst id =>
        simp only [NounsToken.call, NounsToken.approve, NounsToken.erc721Approve,
          NounsToken.approve_, bind_ok] at h
        obtain ⟨_, _, _, _, _, _, _, _, h⟩ := h
        obtain rfl := Except.ok.inj h
        exact ⟨rfl, rfl⟩
    | setApprovalForAll | setNoundersDAO | renounceOwnership =>
        obtain ⟨_, _, h⟩ := bind_ok.mp h
        obtain rfl := Except.ok.inj h
        exact ⟨rfl, rfl⟩
    | setMinter | lockMinter | lockDescriptor | lockSeeder | transferOwnership =>
        obtain ⟨_, _, h⟩ := bind_ok.mp h
        obtain ⟨_, _, h⟩ := bind_ok.mp h
        obtain rfl := Except.ok.inj h
        exact ⟨rfl, rfl⟩

/-! ## Along every history -/

variable {env : ArtEnv} {w w' w₀ : ArtWorld} {x y : Config ArtWorld TokenFrame}

/-- The token's descriptor and seeder are not replaced. -/
def KeepsArt (x : Config ArtWorld TokenFrame) : Label ArtTx TokenFrame Block → Prop
  | .enter ⟨_, .token _ call⟩ => LeavesArt x.world.token call
  | _ => True

/-- The histories from the deployment on in which the descriptor and the seeder stay. -/
abbrev ArtRuns (d : ArtDeployment env) (x : Config ArtWorld TokenFrame) : Prop :=
  (artMachine env).Runs KeepsArt ⟨d.world, []⟩ x

/-- What holds of the token and the descriptor together. -/
structure ArtInv (env : ArtEnv) (w : ArtWorld) : Prop where
  token : TokenInv w.block.number w.token
  descriptor : w.token.descriptor = env.descriptor
  seeder : w.token.seeder = env.seeder
  fits : ∀ n, n < w.token.currentNounId_ → Fits (w.token.seeds n) w.descriptor

/-- From `w` to `w'` parts were added and Nouns were minted, and what there was stayed. -/
structure Grows (w w' : ArtWorld) : Prop where
  counter : w.token.currentNounId_ ≤ w'.token.currentNounId_
  seeds : ∀ n, n < w.token.currentNounId_ → w'.token.seeds n = w.token.seeds n
  parts : Extends w.descriptor w'.descriptor

theorem Grows.refl : Grows w w := ⟨Nat.le_refl _, fun _ _ => rfl, .refl⟩

theorem Grows.trans (h : Grows w₀ w) (h' : Grows w w') : Grows w₀ w' :=
  ⟨h.counter.trans h'.counter,
    fun n hn => (h'.seeds n (Nat.lt_of_lt_of_le hn h.counter)).trans (h.seeds n hn),
    h.parts.trans h'.parts⟩

/-- Asked at the right addresses, the seeder draws from the parts there are. -/
theorem source_fits (hi : ArtInv env w) {n : Nat}
    (h : (w.source env).generateSeed w.block w.token.seeder n w.token.descriptor = .ok seed) :
    Fits seed w.descriptor := by
  rw [hi.seeder, hi.descriptor] at h
  simp only [SeedSource.generateSeed, ArtWorld.source, decide_true, if_true] at h
  exact generateSeed_fits h

/-- A call of the token keeps the invariant. -/
theorem ArtInv.token_call {view : View} {c : TokenCall} (hi : ArtInv env w)
    (hc : LeavesArt w.token c) (h : w.token.call (w.msg env sender view) c = .ok s') :
    ArtInv env { w with token := s' } ∧ Grows w { w with token := s' } := by
  have hallots := call_allots h
  have hdraws := call_draws hc h
  have hgrows : Grows w { w with token := s' } := ⟨hallots.counter, hallots.seeds, .refl⟩
  refine ⟨⟨(call_effects h).inv hi.token, hdraws.art.descriptor.trans hi.descriptor,
    hdraws.art.seeder.trans hi.seeder, ?_⟩, hgrows⟩
  intro n hn
  by_cases hold : n < w.token.currentNounId_
  · show Fits (s'.seeds n) w.descriptor
    rw [hallots.seeds n hold]
    exact hi.fits n hold
  · have hdrawn : Fits (s'.seeds n) w.descriptor :=
      source_fits hi (hdraws.drawn n (Nat.le_of_not_lt hold) hn)
    exact hdrawn

/-- A call of the descriptor keeps the invariant. -/
theorem ArtInv.descriptor_call {c : DescriptorCall} (hi : ArtInv env w)
    (h : w.descriptor.call sender c = .ok d') :
    ArtInv env { w with descriptor := d' } ∧ Grows w { w with descriptor := d' } := by
  have hparts := descriptor_extends h
  exact ⟨⟨hi.token, hi.descriptor, hi.seeder, fun n hn => (hi.fits n hn).extends hparts⟩,
    ⟨Nat.le_refl _, fun _ _ => rfl, hparts⟩⟩

theorem artMachine_resume {f : TokenFrame} {b : Bool} {o : Outcome ArtWorld TokenFrame}
    (h : (artMachine env).resume f b w = .ok o) : o = .done w := by
  obtain ⟨_, _, h⟩ := bind_ok.mp h
  exact (Except.ok.inj h).symm

/-- **What every step of the two contracts keeps.** -/
theorem artMachine_keeps (env : ArtEnv) (w₀ : ArtWorld) :
    (artMachine env).Keeps KeepsArt (fun w _ => ArtInv env w ∧ Grows w₀ w)
      (fun w _ _ => ArtInv env w ∧ Grows w₀ w) where
  enter := by
    intro tx w fs o h hc _ he
    obtain ⟨sender, call⟩ := tx
    obtain ⟨hi, hg⟩ := h
    cases call with
    | token view call =>
        obtain ⟨s', hs, he⟩ := bind_ok.mp he
        have hkept : ArtInv env { w with token := s' } ∧ Grows w { w with token := s' } :=
          hi.token_call hc hs
        have hnext := And.intro hkept.1 (hg.trans hkept.2)
        -- with or without a receiver to call, the token is the same
        dsimp only at he
        split at he
        · obtain rfl := Except.ok.inj he
          exact ⟨hnext, hnext⟩
        · obtain rfl := Except.ok.inj he
          exact hnext
    | descriptor call =>
        obtain ⟨d', hd, he⟩ := bind_ok.mp he
        obtain rfl := Except.ok.inj he
        have hkept : ArtInv env { w with descriptor := d' } ∧ Grows w { w with descriptor := d' } :=
          hi.descriptor_call hd
        exact ⟨hkept.1, hg.trans hkept.2⟩
  resume := by
    intro f w fs o hI _ hr
    rw [artMachine_resume hr]
    exact hI
  failed := by
    intro f w fs o hJ hr
    rw [artMachine_resume hr]
    exact hJ
  tick := by
    intro t w w' h _ ht
    obtain ⟨hi, hg⟩ := h
    simp only [artMachine, Option.map_eq_some_iff, tick_some] at ht
    obtain ⟨b, ⟨hn, _, rfl⟩, rfl⟩ := ht
    exact ⟨⟨hi.token.later hn, hi.descriptor, hi.seeder, hi.fits⟩, hg.trans ⟨Nat.le_refl _,
      fun _ _ => rfl, .refl⟩⟩

theorem artInv_world (d : ArtDeployment env) : ArtInv env d.world where
  token := tokenInv_deploy d.genesis.block_pos
  descriptor := d.descriptor_eq
  seeder := d.seeder_eq
  fits := fun n hn => absurd hn (Nat.not_lt_zero n)

theorem artInv_runs {d : ArtDeployment env} (h : ArtRuns d x) : ArtInv env x.world :=
  ((artMachine_keeps env d.world).runs h ⟨artInv_world d, .refl⟩).1

/-- What the descriptor draws of a seed whose parts it has. -/
theorem LooksUp.generate {parts : List (List UInt8)} {background : String}
    (h : LooksUp d seed parts background) (base64 : String → String) :
    (∀ name description, d.genericDataURI base64 name description seed
      = NFTDescriptor.constructTokenURI base64 ⟨name, description, parts, background⟩ d.palettes)
    ∧ d.generateSVGImage base64 seed
      = NFTDescriptor.generateSVGImage base64 parts background d.palettes := by
  obtain ⟨hparts, hbackground⟩ := h
  constructor
  · intro name description
    simp only [NounsDescriptor.genericDataURI, hparts, hbackground, bind, Except.bind]
  · simp only [NounsDescriptor.generateSVGImage, hparts, hbackground, bind, Except.bind]

/--
**Seeds stay in range.** While the token's descriptor and seeder are not replaced, the seed of
a Noun stays what it is and below the number of parts at every place, and the descriptor keeps
finding the same parts and the same background for it: they are what it draws.
-/
theorem seeds_fit (d : ArtDeployment env) (x y : Config ArtWorld TokenFrame) (hx : ArtRuns d x)
    (hy : (artMachine env).Runs KeepsArt x y) (n : Nat) (hn : x.world.token.owners_ n ≠ 0) :
    y.world.token.seeds n = x.world.token.seeds n
    ∧ Fits (y.world.token.seeds n) y.world.descriptor
    ∧ ∃ parts background, LooksUp x.world.descriptor (x.world.token.seeds n) parts background
      ∧ LooksUp y.world.descriptor (y.world.token.seeds n) parts background
      ∧ ∀ base64,
        (∀ name description, y.world.descriptor.genericDataURI base64 name description
            (y.world.token.seeds n)
          = NFTDescriptor.constructTokenURI base64 ⟨name, description, parts, background⟩
            y.world.descriptor.palettes)
        ∧ y.world.descriptor.generateSVGImage base64 (y.world.token.seeds n)
          = NFTDescriptor.generateSVGImage base64 parts background
            y.world.descriptor.palettes := by
  have hi := artInv_runs hx
  have hlt := hi.token.holdings.lt_current hn
  have hgrows := ((artMachine_keeps env x.world).runs hy ⟨hi, .refl⟩).2
  have hfits := hi.fits n hlt
  obtain ⟨parts, background, hlooks⟩ := hfits.looksUp
  have hlater := hlooks.extends hgrows.parts
  rw [hgrows.seeds n hlt]
  exact ⟨rfl, hfits.extends hgrows.parts, parts, background, hlooks, hlater, hlater.generate⟩

/-- A seeder at account 6 and a descriptor at account 5, where every hash is zero. -/
def smallArtEnv : ArtEnv where
  seeder := .ofNat 6
  descriptor := .ofNat 5
  keccak256 := fun _ => ⟨List.replicate 32 0, List.length_replicate⟩
  blockhash := fun _ => ⟨List.replicate 32 0, List.length_replicate⟩

/-- A descriptor with one part of each kind. -/
def smallDescriptor : NounsDescriptor :=
  { NounsDescriptor.deploy (.ofNat 1) with
    backgrounds := ["d5d7e1"], bodies := [[1]], accessories := [[2]], heads := [[3]],
    glasses := [[4]] }

/-- The small token with that descriptor. -/
def smallArt : ArtDeployment smallArtEnv where
  genesis := smallGenesis
  descriptor := smallDescriptor
  descriptor_eq := rfl
  seeder_eq := rfl
  descriptor_called := ⟨.ofNat 1, .tail (.tail (.tail (.tail (.tail .refl
    ⟨.ofNat 1, .addBackground "d5d7e1", rfl⟩) ⟨.ofNat 1, .addBody [1], rfl⟩)
    ⟨.ofNat 1, .addAccessory [2], rfl⟩) ⟨.ofNat 1, .addHead [3], rfl⟩)
    ⟨.ofNat 1, .addGlasses [4], rfl⟩⟩

/-- A move that neither replaces the descriptor nor the seeder. -/
theorem keepsArt_of_makes {tx : ArtTx} {fails : Nat} {l : Label ArtTx TokenFrame Block}
    (h : (Machine.Move.enter tx fails).Makes l) (htx : ∀ x, KeepsArt x (.enter tx)) : KeepsArt x l := by
  cases l with
  | enter tx' =>
      obtain rfl : tx = tx' := h
      exact htx x
  | resume | tick => cases h

/-- A head is added after Nouns 0 and 1 were minted; Noun 1 keeps the head it has. -/
theorem seeds_fit_addHead : ∃ x y : Config ArtWorld TokenFrame, ArtRuns smallArt x
    ∧ x.world.token.owners_ 1 ≠ 0 ∧ (artMachine smallArtEnv).Runs KeepsArt x y
    ∧ y.world.descriptor.heads = [[3], [5]]
    ∧ y.world.descriptor.getPartsForSeed_ (y.world.token.seeds 1) = .ok [[1], [2], [3], [4]] := by
  have hmint : ∀ m ∈ [Machine.Move.enter (T := Block) ⟨.ofNat 4, .token smallView .mint⟩],
      ∀ x l, m.Makes l → KeepsArt x l :=
    List.forall_mem_singleton.mpr fun _ _ h => keepsArt_of_makes h fun _ => trivial
  have hadd : ∀ m ∈ [Machine.Move.enter (T := Block) ⟨.ofNat 1, .descriptor (.addHead [5])⟩],
      ∀ x l, m.Makes l → KeepsArt x l :=
    List.forall_mem_singleton.mpr fun _ _ h => keepsArt_of_makes h fun _ => trivial
  obtain ⟨x, hx, hp⟩ := Machine.script_exists_moves (M := artMachine smallArtEnv) hmint
    (x := ⟨smallArt.world, []⟩)
    (p := fun x => x.world.token.owners_ 1 = .ofNat 4
      ∧ x.world.descriptor.getPartsForSeed_ (x.world.token.seeds 1) = .ok [[1], [2], [3], [4]]
      ∧ (Machine.script (artMachine smallArtEnv) Machine.anything x
          [.enter ⟨.ofNat 1, .descriptor (.addHead [5])⟩]).any
        fun y => y.world.descriptor.heads = [[3], [5]])
    (by decide +kernel)
  obtain ⟨howner, hparts, hlater⟩ := of_decide_eq_true hp
  obtain ⟨y, hy, hp⟩ := Machine.script_exists_moves (M := artMachine smallArtEnv) hadd hlater
  have hminted : x.world.token.owners_ 1 ≠ 0 := by
    rw [howner]
    decide
  obtain ⟨-, -, parts, background, hx₁, hy₁, -⟩ := seeds_fit smallArt x y hx hy 1 hminted
  refine ⟨x, y, hx, hminted, hy, of_decide_eq_true hp, ?_⟩
  rw [hy₁.parts, ← hx₁.parts]
  exact hparts

end Nouns.Proof
