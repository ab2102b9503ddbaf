import Nouns.Api.Metadata
import Nouns.Proof.LastingDrawings

/-!
# What the metadata server answers

The server makes the metadata of a Noun once and keeps them for ever, while the descriptor goes on
changing. Nothing it does not check can go wrong for all that: a data URI is read back as what was
put into it, whatever is drawn, and a drawing lasts. So what a request has in hand, what is in the
cache and what was ever sent is about the Noun as it is drawn now, at every moment of a history.
The web app and the bots read the same of a data URI.
-/

namespace Nouns.Api

open Evm CallMachine JsText Proof

/-! ## Data URIs -/

/-- What is relied on: the library the descriptor imports writes the standard base 64. -/
def EncodesBase64 (base64 : String → String) : Prop :=
  ∀ s, base64 s = String.ofList (Base64.encode (Base64.utf8 s.toList))

/-- Text of ASCII characters that needs no escapes. -/
def Simple (s : List Char) : Prop := ∀ c ∈ s, Json.Plain c ∧ c.toNat < 128

theorem Simple.append {s t : List Char} (hs : Simple s) (ht : Simple t) : Simple (s ++ t) :=
  List.forall_mem_append.mpr ⟨hs, ht⟩

instance (s : List Char) : Decidable (Simple s) := List.decidableBAll _ s

theorem simple_toString (n : Nat) : Simple (toString n).toList := by
  intro c hc
  have hdigit : c ∈ Nat.toDigits 10 n := Nat.toList_repr ▸ hc
  have h := Nat.isDigit_of_mem_toDigits (by decide) (by decide) hdigit
  rw [Char.isDigit_iff_toNat] at h
  have hzero : '0'.toNat = 48 := rfl
  have hnine : '9'.toNat = 57 := rfl
  have hne : ∀ b : Char, b.toNat < 48 ∨ 57 < b.toNat → c ≠ b := by
    intro b hb heq
    subst heq
    omega
  exact ⟨⟨by omega, hne _ (by decide), hne _ (by decide)⟩, by omega⟩

variable {base64 : String → String} (h64 : EncodesBase64 base64)
include h64

theorem simple_base64 (s : String) : Simple (base64 s).toList := by
  rw [h64, String.toList_ofList]
  intro c hc
  obtain ⟨hlow, hhigh, hnot⟩ := Base64.encode_plain hc
  have hquote : c ≠ '"' := fun h => hnot (h ▸ List.mem_cons_self)
  have hback : c ≠ '\\' := fun h => hnot (h ▸ List.mem_cons_of_mem _ List.mem_cons_self)
  exact ⟨⟨Nat.le_of_lt hlow, hquote, hback⟩, hhigh⟩

omit h64 in
/-- The text of a token URI is the text of an object. -/
theorem text_eq {name description image : String} (hname : Simple name.toList)
    (hdescription : Simple description.toList) (himage : Simple image.toList) :
    ("\x7b\"name\":\"" ++ name ++ "\", \"description\":\"" ++ description
      ++ "\", \"image\": \"" ++ "data:image/svg+xml;base64," ++ image ++ "\"\x7d").toList
    = Json.objectText [⟨"name", name, [], []⟩, ⟨"description", description, [' '], []⟩,
      ⟨"image", "data:image/svg+xml;base64," ++ image, [' '], [' ']⟩] := by
  have hscheme : Simple ("data:image/svg+xml;base64," : String).toList := by decide
  have hquote : ∀ s : String, Simple s.toList →
      Json.quote s.toList = '"' :: (s.toList ++ ['"']) :=
    fun s h => Json.quote_plain fun c hc => (h c hc).1
  have himage' : Simple ("data:image/svg+xml;base64," ++ image).toList := by
    rw [String.toList_append]
    exact hscheme.append himage
  unfold Json.objectText Json.membersText Json.membersText Json.membersText Json.Member.text
  dsimp only
  rw [hquote "name" (by decide), hquote "description" (by decide), hquote "image" (by decide),
    hquote _ hname, hquote _ hdescription, hquote _ himage']
  simp

theorem bufferFrom_base64 (s : String) :
    Base64.bufferFrom (base64 s).toList = Base64.utf8 s.toList := by
  rw [h64, String.toList_ofList, Base64.bufferFrom_encode]

/-- Behind the scheme a data URI is what was encoded. -/
theorem bufferFrom_uri {scheme : String} {n : Int} (hn : (scheme.toList.length : Int) = n)
    (s : String) :
    Base64.bufferFrom (substringFrom (scheme ++ base64 s).toList n) = Base64.utf8 s.toList := by
  subst hn
  rw [String.toList_append, substringFrom, Int.toNat_natCast, List.drop_left, bufferFrom_base64 h64]

/-- The picture in the metadata is the one that was drawn. -/
theorem svg_image (name description svg : String) :
    TokenMetadata.svg ⟨name, description, "data:image/svg+xml;base64," ++ base64 svg⟩
      = Base64.utf8 svg.toList :=
  bufferFrom_uri h64 (by decide) svg

omit h64 in
theorem parse_text {name description image : String} {text : List Char}
    {a b c d e f : List Char} (h : text = Json.objectText [⟨"name", name, a, b⟩,
      ⟨"description", description, c, d⟩, ⟨"image", image, e, f⟩])
    (hblank : (a ++ b ++ c ++ d ++ e ++ f).all Json.isBlank = true) :
    TokenMetadata.parse text = some ⟨name, description, image⟩ := by
  rw [List.all_eq_true] at hblank
  simp only [List.forall_mem_append] at hblank
  obtain ⟨⟨⟨⟨⟨ha, hb⟩, hc⟩, hd⟩, he⟩, hf⟩ := hblank
  have hparse : Json.parse text
      = some [("name", name), ("description", description), ("image", image)] := by
    rw [h, Json.parse_objectText]
    · rfl
    · intro m hm
      simp only [List.mem_cons, List.not_mem_nil, or_false] at hm
      rcases hm with rfl | rfl | rfl
      · exact ⟨ha, hb⟩
      · exact ⟨hc, hd⟩
      · exact ⟨he, hf⟩
  unfold TokenMetadata.parse
  rw [hparse]
  rfl

/-- A token URI is the text of the token's metadata. -/
theorem constructTokenURI_text {params : NFTDescriptor.TokenURIParams}
    {palettes : UInt8 → List String} {uri : String}
    (h : NFTDescriptor.constructTokenURI base64 params palettes = .ok uri)
    (hname : Simple params.name.toList) (hdescription : Simple params.description.toList) :
    ∃ svg text, MultiPartRLEToSVG.generateSVG params.parts params.background palettes = .ok svg
      ∧ uri = "data:application/json;base64," ++ base64 text ∧ (∀ c ∈ text.toList, c.toNat < 128)
      ∧ TokenMetadata.parse text.toList = some ⟨params.name, params.description,
        "data:image/svg+xml;base64," ++ base64 svg⟩ := by
  obtain ⟨image, himage, h⟩ := bind_ok.mp h
  obtain ⟨svg, hsvg, himage⟩ := bind_ok.mp himage
  obtain rfl := Except.ok.inj himage
  obtain rfl := Except.ok.inj h
  have htext := text_eq hname hdescription (simple_base64 h64 svg)
  refine ⟨svg, _, hsvg, rfl, ?_, parse_text htext (by decide)⟩
  have hsimple : ∀ s : String, Simple s.toList → ∀ c ∈ s.toList, c.toNat < 128 :=
    fun s h c hc => (h c hc).2
  have hmark : ∀ s : String, s.toList.all (fun c => c.toNat < 128) = true →
      ∀ c ∈ s.toList, c.toNat < 128 :=
    fun s h c hc => of_decide_eq_true (List.all_eq_true.mp h c hc)
  simp only [String.toList_append, List.forall_mem_append]
  exact ⟨⟨⟨⟨⟨⟨⟨hmark _ (by decide), hsimple _ hname⟩, hmark _ (by decide)⟩,
    hsimple _ hdescription⟩, hmark _ (by decide)⟩, hmark _ (by decide)⟩,
    hsimple _ (simple_base64 h64 svg)⟩, hmark _ (by decide)⟩

omit h64

include h64 in
/-- **A data URI is read back.** -/
theorem parseDataURI_text {text : String} (h : ∀ c ∈ text.toList, c.toNat < 128) :
    parseDataURI ("data:application/json;base64," ++ base64 text)
      = TokenMetadata.parse text.toList := by
  unfold parseDataURI
  rw [bufferFrom_uri h64 (by decide), Base64.ascii_utf8 h]

/-- What was kept in the cache is read back. -/
theorem parse_stringify (metadata : TokenMetadata) :
    TokenMetadata.parse metadata.stringify.toList = some metadata := by
  unfold TokenMetadata.stringify
  rw [String.toList_ofList]
  exact parse_text rfl (by decide)

/-! ## Drawings -/

variable {env : ArtEnv} {packages : Packages} {w w' w₀ : ArtWorld} {tokenId : String}
  {p : Nat → String → Prop}

/-- The Noun of that id has been minted, and `p` holds of it and of its drawing. -/
def Drawn (packages : Packages) (w : ArtWorld) (tokenId : String) (p : Nat → String → Prop) : Prop :=
  ∃ n svg, packages.bigNumber tokenId = some n ∧ n < w.token.currentNounId_
    ∧ w.descriptor.generateSVGImage id (w.token.seeds n) = .ok svg ∧ p n svg

/-- A drawing lasts. -/
theorem Drawn.later (h : Drawn packages w tokenId p) (hg : Grows w w')
    (hc : Colours w.descriptor w'.descriptor) : Drawn packages w' tokenId p := by
  obtain ⟨n, svg, hn, hlt, hsvg, hp⟩ := h
  refine ⟨n, svg, hn, Nat.lt_of_lt_of_le hlt hg.counter, ?_, hp⟩
  rw [hg.seeds n hlt]
  exact (hg.parts.lasting hc).image id svg hsvg

theorem Drawn.imp {q : Nat → String → Prop} (h : Drawn packages w tokenId p)
    (hpq : ∀ n svg, p n svg → q n svg) : Drawn packages w tokenId q := by
  obtain ⟨n, svg, hn, hlt, hsvg, hp⟩ := h
  exact ⟨n, svg, hn, hlt, hsvg, hpq n svg hp⟩

/-- No step of the two contracts takes a colour away. -/
theorem artMachine_colours (env : ArtEnv) (w₀ : ArtWorld) :
    (artMachine env).Keeps KeepsArt (fun w _ => Colours w₀.descriptor w.descriptor)
      (fun w _ _ => Colours w₀.descriptor w.descriptor) where
  enter := by
    intro tx w fs o h _ _ he
    obtain ⟨sender, call⟩ := tx
    cases call with
    | token view call =>
        obtain ⟨s', hs, he⟩ := bind_ok.mp he
        dsimp only at he
        split at he
        · obtain rfl := Except.ok.inj he
          exact ⟨h, h⟩
        · obtain rfl := Except.ok.inj he
          exact h
    | descriptor call =>
        obtain ⟨d', hd, he⟩ := bind_ok.mp he
        obtain rfl := Except.ok.inj he
        exact h.trans (descriptor_colours hd)
  resume := by
    intro f w fs o hI _ hr
    rw [artMachine_resume hr]
    exact hI
  failed := by
    intro f w fs o hJ hr
    rw [artMachine_resume hr]
    exact hJ
  tick := by
    intro t w w' h _ ht
    simp only [artMachine, Option.map_eq_some_iff] at ht
    obtain ⟨b, _, rfl⟩ := ht
    exact h

/-- What the descriptor says of a Noun. -/
def dataOf (base64 : String → String) (n : Nat) (svg : String) : TokenMetadata where
  name := "Noun " ++ toString n
  description := "Noun " ++ toString n ++ " is a member of the Nouns DAO"
  image := "data:image/svg+xml;base64," ++ base64 svg

/-- What the server says of it: the picture is stored as a PNG file. -/
def metadataOf (packages : Packages) (n : Nat) (svg : String) : TokenMetadata where
  name := "Noun " ++ toString n
  description := "Noun " ++ toString n ++ " is a member of the Nouns DAO"
  image := "ipfs://" ++ packages.cid (packages.png (Base64.utf8 svg.toList))

/-- What the contract answers is the text of the metadata of the Noun as it is drawn. -/
theorem dataURI_text (h64 : EncodesBase64 base64) {n : Nat} {uri : String}
    (h : w.dataURI base64 n = .ok uri) :
    ∃ svg text, w.token.owners_ n ≠ 0
      ∧ w.descriptor.generateSVGImage id (w.token.seeds n) = .ok svg
      ∧ uri = "data:application/json;base64," ++ base64 text ∧ (∀ c ∈ text.toList, c.toNat < 128)
      ∧ TokenMetadata.parse text.toList = some (dataOf base64 n svg) := by
  obtain ⟨_, hexists, h⟩ := bind_ok.mp h
  have howner : w.token.owners_ n ≠ 0 := of_decide_eq_true (require_ok.mp hexists)
  simp only [NounsDescriptor.dataURI, NounsDescriptor.genericDataURI, bind_ok] at h
  obtain ⟨parts, hparts, background, hbackground, h⟩ := h
  have hnoun : Simple ("Noun " ++ toString n).toList := by
    rw [String.toList_append]
    exact Simple.append (by decide) (simple_toString n)
  have hdescription : Simple ("Noun " ++ toString n ++ " is a member of the Nouns DAO").toList := by
    rw [String.toList_append]
    exact hnoun.append (by decide)
  obtain ⟨svg, text, hsvg, huri, hascii, hparse⟩ := constructTokenURI_text h64 h hnoun hdescription
  refine ⟨svg, text, howner, ?_, huri, hascii, hparse⟩
  rw [(LooksUp.generate ⟨hparts, hbackground⟩ id).2]
  unfold NFTDescriptor.generateSVGImage
  rw [bind_of_ok hsvg]
  rfl

/-- The server reads it back. -/
theorem callDataURI_drawn (h64 : EncodesBase64 base64) (hi : ArtInv env w) {uri : String}
    (h : Server.callDataURI packages base64 w tokenId = some uri) :
    ∃ data, parseDataURI uri = some data
      ∧ Drawn packages w tokenId fun n svg => data = dataOf base64 n svg := by
  obtain ⟨n, hn, huri⟩ := Option.bind_eq_some_iff.mp h
  obtain ⟨svg, text, howner, hsvg, rfl, hascii, hparse⟩ := dataURI_text h64 (toOption_some.mp huri)
  refine ⟨dataOf base64 n svg, ?_, n, svg, hn, hi.token.holdings.lt_current howner, hsvg, rfl⟩
  rw [parseDataURI_text h64 hascii]
  exact hparse

/-! ## What the server has in hand -/

/-- What a request has in hand is about its Noun as it is drawn. -/
def InHand (packages : Packages) (base64 : String → String) (w : ArtWorld) (tokenId : String) :
    Stage → Prop
  | .get | .dataURI => True
  | .storeBlob data => Drawn packages w tokenId fun n svg => data = dataOf base64 n svg
  | .set metadata => Drawn packages w tokenId fun n svg => metadata = metadataOf packages n svg

/-- So is what is kept in the cache, and what was ever sent. -/
structure ServerInv (packages : Packages) (base64 : String → String) (w : ArtWorld) (s : Server) :
    Prop where
  redis : ∀ tokenId text, s.redis (getMetadataKey tokenId) = some text →
    Drawn packages w tokenId fun n svg => text = (metadataOf packages n svg).stringify
  requests : ∀ r ∈ s.requests, InHand packages base64 w r.tokenId r.stage
  sent : ∀ tokenId metadata, (tokenId, .metadata metadata) ∈ s.sent →
    Drawn packages w tokenId fun n svg => metadata = metadataOf packages n svg

variable {s : Server}

theorem serverInv_start : ServerInv packages base64 w .start where
  redis _ _ h := by cases h
  requests _ h := by cases h
  sent _ _ h := by cases h

theorem InHand.later {stage : Stage} (h : InHand packages base64 w tokenId stage) (hg : Grows w w')
    (hc : Colours w.descriptor w'.descriptor) : InHand packages base64 w' tokenId stage := by
  cases stage with
  | get | dataURI => trivial
  | storeBlob | set => exact Drawn.later h hg hc

theorem ServerInv.later (h : ServerInv packages base64 w s) (hg : Grows w w')
    (hc : Colours w.descriptor w'.descriptor) : ServerInv packages base64 w' s where
  redis tokenId text htext := (h.redis tokenId text htext).later hg hc
  requests r hr := (h.requests r hr).later hg hc
  sent tokenId metadata hsent := (h.sent tokenId metadata hsent).later hg hc

theorem ServerInv.wait (h : ServerInv packages base64 w s) (stage : Stage)
    (hstage : InHand packages base64 w tokenId stage) :
    ServerInv packages base64 w (s.wait tokenId stage) where
  redis := h.redis
  requests := List.forall_mem_append.mpr ⟨h.requests, List.forall_mem_singleton.mpr hstage⟩
  sent := h.sent

theorem ServerInv.send {response : Response} (h : ServerInv packages base64 w s)
    (hresponse : ∀ metadata, response = .metadata metadata →
      Drawn packages w tokenId fun n svg => metadata = metadataOf packages n svg) :
    ServerInv packages base64 w (s.send tokenId response) where
  redis := h.redis
  requests := h.requests
  sent tokenId' metadata hsent := by
    rcases List.mem_append.mp hsent with hsent | hsent
    · exact h.sent tokenId' metadata hsent
    · obtain ⟨rfl, rfl⟩ := Prod.mk.inj (List.mem_singleton.mp hsent)
      exact hresponse metadata rfl

theorem getMetadataKey_inj {a b : String} (h : getMetadataKey a = getMetadataKey b) : a = b := by
  have hlist := congrArg String.toList h
  unfold getMetadataKey at hlist
  rw [String.toList_append, String.toList_append] at hlist
  exact String.toList_inj.mp (List.append_cancel_left hlist)

/-- What is put into the cache. -/
theorem ServerInv.keep {metadata : TokenMetadata} (h : ServerInv packages base64 w s)
    (hdrawn : Drawn packages w tokenId fun n svg => metadata = metadataOf packages n svg) :
    ServerInv packages base64 w { s with
      redis := Function.update s.redis (getMetadataKey tokenId) (some metadata.stringify) } where
  redis tokenId' text htext := by
    by_cases heq : tokenId' = tokenId
    · subst heq
      have htext := (Function.update_self ..).symm.trans htext
      obtain rfl := Option.some.inj htext
      exact hdrawn.imp fun n svg h => congrArg TokenMetadata.stringify h
    · have hkey : getMetadataKey tokenId' ≠ getMetadataKey tokenId :=
        fun h => heq (getMetadataKey_inj h)
      exact h.redis tokenId' text ((Function.update_of_ne hkey _ _).symm.trans htext)
  requests := h.requests
  sent := h.sent

/-- A request proceeds. -/
theorem ServerInv.proceed (h64 : EncodesBase64 base64) (hi : ArtInv env w) {ok : Bool} {stage : Stage}
    (h : ServerInv packages base64 w s) (hstage : InHand packages base64 w tokenId stage) :
    ServerInv packages base64 w (s.proceed packages base64 w ok tokenId stage) := by
  cases stage with
  | get =>
      rw [Server.proceed]
      split
      · split
        · exact h.wait .dataURI trivial
        · exact h.wait .dataURI trivial
        · next text _ htext =>
            split
            · next metadata hparse =>
                refine h.send fun metadata' hmetadata => ?_
                obtain rfl := Response.metadata.inj hmetadata
                refine (h.redis tokenId text htext).imp fun n svg heq => ?_
                rw [heq, parse_stringify] at hparse
                exact (Option.some.inj hparse).symm
            · exact h
      · exact h
  | dataURI =>
      rw [Server.proceed]
      split
      · exact h.send fun _ => nofun
      · next uri huri =>
          have hcall : Server.callDataURI packages base64 w tokenId = some uri := by
            cases ok with
            | true => exact huri
            | false => cases huri
          obtain ⟨data, hparse, hdrawn⟩ := callDataURI_drawn h64 hi hcall
          rw [hparse]
          exact h.wait _ hdrawn
  | storeBlob data =>
      rw [Server.proceed]
      split
      · refine h.wait _ (Drawn.imp hstage fun n svg heq => ?_)
        subst heq
        unfold metadataOf
        rw [← svg_image h64]
        rfl
      · exact h
  | set metadata =>
      rw [Server.proceed]
      split
      · refine (h.keep hstage).send fun metadata' hmetadata => ?_
        obtain rfl := Response.metadata.inj hmetadata
        exact hstage
      · exact h

/-! ## Every history -/

variable {x y : World}

structure WorldInv (env : ArtEnv) (packages : Packages) (base64 : String → String) (x : World) :
    Prop where
  art : ArtInv env x.chain.world
  server : ServerInv packages base64 x.chain.world x.server

/-- **Whatever happens next.** -/
theorem WorldInv.next (h64 : EncodesBase64 base64) (h : WorldInv env packages base64 x)
    (hn : Next env packages base64 KeepsArt x y) : WorldInv env packages base64 y := by
  cases hn with
  | @chain x y l s hkeeps hstep =>
      have hlater := (artMachine_keeps env x.world).step ⟨h.art, .refl⟩ hkeeps hstep
      have hcolours := (artMachine_colours env x.world).step .refl hkeeps hstep
      exact ⟨hlater.1, h.server.later hlater.2 hcolours⟩
  | @receive x s tokenId =>
      refine ⟨h.art, ?_⟩
      show ServerInv packages base64 x.world (s.receive packages tokenId)
      unfold Server.receive
      split
      · exact h.server.wait .get trivial
      · exact h.server.send fun _ => nofun
  | @resume x s ok i =>
      refine ⟨h.art, ?_⟩
      show ServerInv packages base64 x.world (s.resume packages base64 x.world ok i)
      unfold Server.resume
      split
      · exact h.server
      · next request hrequest =>
          have hrest : ServerInv packages base64 x.world
              { s with requests := s.requests.eraseIdx i } :=
            ⟨h.server.redis, fun r hr => h.server.requests r (List.mem_of_mem_eraseIdx hr),
              h.server.sent⟩
          exact hrest.proceed h64 h.art (h.server.requests request (List.mem_of_getElem? hrequest))
  | @restart x s => exact ⟨h.art, h.server.redis, fun _ => nofun, h.server.sent⟩

theorem worldInv_runs (h64 : EncodesBase64 base64) {d : ArtDeployment env}
    (h : Runs env packages base64 KeepsArt ⟨⟨d.world, []⟩, .start⟩ x) :
    WorldInv env packages base64 x := by
  induction h with
  | refl => exact ⟨artInv_world d, serverInv_start⟩
  | tail _ hn ih => exact ih.next h64 hn

/-! ## A request that is answered -/

/-- There is one number and one drawing. -/
theorem Drawn.here {n : Nat} {svg : String} (h : Drawn packages w tokenId p)
    (hn : packages.bigNumber tokenId = some n)
    (hsvg : w.descriptor.generateSVGImage id (w.token.seeds n) = .ok svg) : p n svg := by
  obtain ⟨n', svg', hn', -, hsvg', hp⟩ := h
  obtain rfl := Option.some.inj (hn'.symm.trans hn)
  obtain rfl := Except.ok.inj (hsvg'.symm.trans hsvg)
  exact hp

/-- A Noun that can be drawn has a data URI. -/
theorem callDataURI_some {n : Nat} {svg : String} (hn : packages.bigNumber tokenId = some n)
    (howner : w.token.owners_ n ≠ 0)
    (hsvg : w.descriptor.generateSVGImage id (w.token.seeds n) = .ok svg) :
    ∃ uri, Server.callDataURI packages base64 w tokenId = some uri := by
  simp only [NounsDescriptor.generateSVGImage, bind_ok] at hsvg
  obtain ⟨parts, hparts, background, hbackground, hsvg⟩ := hsvg
  obtain ⟨text, htext, _⟩ := bind_ok.mp hsvg
  have huri : ∃ uri, w.descriptor.dataURI base64 n (w.token.seeds n) = .ok uri := by
    unfold NounsDescriptor.dataURI
    rw [(LooksUp.generate ⟨hparts, hbackground⟩ base64).1]
    have himage : NFTDescriptor.generateSVGImage base64 parts background w.descriptor.palettes
        = .ok (base64 text) := bind_of_ok htext
    unfold NFTDescriptor.constructTokenURI
    rw [bind_of_ok himage]
    exact ⟨_, rfl⟩
  obtain ⟨uri, huri⟩ := huri
  have hexists : require (w.token.exists_ n = true)
    "NounsToken: URI query for nonexistent token" = .ok () := require_total (decide_eq_true howner)
  refine ⟨uri, Option.bind_eq_some_iff.mpr ⟨n, hn, toOption_some.mpr ?_⟩⟩
  unfold ArtWorld.dataURI NounsToken.dataURI
  rw [bind_of_ok hexists]
  exact huri

/-- The last request proceeds. -/
theorem resume_wait (w : ArtWorld) (ok : Bool) (stage : Stage) (s : Server) :
    (s.wait tokenId stage).resume packages base64 w ok s.requests.length
      = s.proceed packages base64 w ok tokenId stage := by
  have hlast : (s.wait tokenId stage).requests[s.requests.length]? = some ⟨tokenId, stage⟩ :=
    List.getElem?_concat_length
  have herase : { s.wait tokenId stage with
      requests := (s.wait tokenId stage).requests.eraseIdx s.requests.length } = s := by
    have hrequests :
        (s.requests ++ [(⟨tokenId, stage⟩ : Request)]).eraseIdx s.requests.length = s.requests := by
      rw [List.eraseIdx_append_of_length_le (Nat.le_refl _), Nat.sub_self, List.eraseIdx_cons_zero,
        List.append_nil]
    unfold Server.wait
    rw [hrequests]
  unfold Server.resume
  rw [hlast]
  dsimp only
  rw [herase]

variable {c : Config ArtWorld TokenFrame}
  {P : Config ArtWorld TokenFrame → Label ArtTx TokenFrame Block → Prop}

variable (env packages base64 P c tokenId) in
theorem Next.proceed (stage : Stage) (s : Server) : Next env packages base64 P
    ⟨c, s.wait tokenId stage⟩ ⟨c, s.proceed packages base64 c.world true tokenId stage⟩ := by
  rw [← resume_wait]
  exact .resume true _

/-- A request that has to ask the contract. -/
theorem answers_asking (h64 : EncodesBase64 base64) (hi : ArtInv env c.world) {n : Nat} {svg : String}
    (hn : packages.bigNumber tokenId = some n) (howner : c.world.token.owners_ n ≠ 0)
    (hsvg : c.world.descriptor.generateSVGImage id (c.world.token.seeds n) = .ok svg) (s : Server) :
    ∃ s', Runs env packages base64 P ⟨c, s.wait tokenId .dataURI⟩ ⟨c, s'⟩
      ∧ s'.sent = s.sent ++ [(tokenId, .metadata (metadataOf packages n svg))] := by
  obtain ⟨uri, huri⟩ : ∃ uri, Server.callDataURI packages base64 c.world tokenId = some uri :=
    callDataURI_some hn howner hsvg
  obtain ⟨data, hparse, hdrawn⟩ := callDataURI_drawn h64 hi huri
  have hasked : s.proceed packages base64 c.world true tokenId .dataURI
      = s.wait tokenId (.storeBlob (dataOf base64 n svg)) := by
    rw [Server.proceed, if_pos rfl, huri]
    dsimp only
    rw [hparse, hdrawn.here hn hsvg]
  have hstored : s.proceed packages base64 c.world true tokenId (.storeBlob (dataOf base64 n svg))
      = s.wait tokenId (.set (metadataOf packages n svg)) := by
    rw [Server.proceed, if_pos rfl, metadataOf, ← svg_image h64]
    rfl
  have hfirst := Next.proceed base64 env packages tokenId c P .dataURI s
  have hsecond := Next.proceed base64 env packages tokenId c P (.storeBlob (dataOf base64 n svg)) s
  have hthird := Next.proceed base64 env packages tokenId c P (.set (metadataOf packages n svg)) s
  rw [hasked] at hfirst
  rw [hstored] at hsecond
  exact ⟨_, .tail (.tail (.single hfirst) hsecond) hthird, rfl⟩

/-- A request from the start on, whether the cache has an answer or not. -/
theorem answers (h64 : EncodesBase64 base64) (hi : ArtInv env c.world)
    (hs : ServerInv packages base64 c.world s) {n : Nat} {svg : String}
    (hint : packages.isInt tokenId = true) (hn : packages.bigNumber tokenId = some n)
    (howner : c.world.token.owners_ n ≠ 0)
    (hsvg : c.world.descriptor.generateSVGImage id (c.world.token.seeds n) = .ok svg) :
    ∃ s', Runs env packages base64 P ⟨c, s⟩ ⟨c, s'⟩
      ∧ s'.sent = s.sent ++ [(tokenId, .metadata (metadataOf packages n svg))] := by
  have hreceive : Next env packages base64 P ⟨c, s⟩ ⟨c, s.wait tokenId .get⟩ := by
    have hreceived : s.receive packages tokenId = s.wait tokenId .get := if_pos hint
    rw [← hreceived]
    exact .receive tokenId
  have hget := Next.proceed base64 env packages tokenId c P .get s
  obtain ⟨s', hrest, hsent⟩ := answers_asking (P := P) h64 hi hn howner hsvg s
  rw [Server.proceed, if_pos rfl] at hget
  split at hget
  · exact ⟨s', .head hreceive (.head hget hrest), hsent⟩
  · exact ⟨s', .head hreceive (.head hget hrest), hsent⟩
  · next text _ htext =>
      have heq := (hs.redis tokenId text htext).here hn hsvg
      rw [heq, parse_stringify] at hget
      exact ⟨_, .tail (.single hreceive) hget, rfl⟩

/--
**The metadata server.** However the chain goes on without the token's descriptor and seeder being
replaced, however requests come in and proceed, fail and are lost meanwhile: every metadata the
server ever sent, from its cache or not, are those of the Noun, with the picture it is drawn with
now; and a Noun that exists and can be drawn is answered if the calls come back.
-/
theorem metadata_answered (d : ArtDeployment env) (packages : Packages) (base64 : String → String)
    (h64 : EncodesBase64 base64) (x : World)
    (hx : Runs env packages base64 KeepsArt ⟨⟨d.world, []⟩, .start⟩ x) (tokenId : String) :
    (∀ metadata, (tokenId, .metadata metadata) ∈ x.server.sent →
      Drawn packages x.chain.world tokenId fun n svg => metadata = metadataOf packages n svg)
    ∧ ∀ n svg, packages.isInt tokenId = true → packages.bigNumber tokenId = some n →
      x.chain.world.token.owners_ n ≠ 0 →
      x.chain.world.descriptor.generateSVGImage id (x.chain.world.token.seeds n) = .ok svg →
      ∃ s, Runs env packages base64 KeepsArt x ⟨x.chain, s⟩
        ∧ s.sent = x.server.sent ++ [(tokenId, .metadata (metadataOf packages n svg))] := by
  have h := worldInv_runs h64 hx
  refine ⟨h.server.sent tokenId, ?_⟩
  intro n svg hint hn howner hsvg
  exact answers h64 h.art h.server hint hn howner hsvg

/-- The server sleeps while the chain goes on. -/
theorem runs_chain {y : Config ArtWorld TokenFrame} (h : (artMachine env).Runs P c y) (s : Server) :
    Runs env packages base64 P ⟨c, s⟩ ⟨y, s⟩ := by
  induction h with
  | refl => exact .refl
  | tail _ hs ih =>
      obtain ⟨l, hp, hs⟩ := hs
      exact ih.tail (.chain hp hs)

/-- A number in decimal digits. -/
def decimal (s : String) : Option Nat :=
  if s ≠ "" ∧ s.toList.all Char.isDigit then
    some (s.toList.foldl (fun n c => 10 * n + (c.toNat - 48)) 0)
  else none

/-- Packages that read decimal numbers and store files under their number of bytes. -/
def smallPackages : Packages where
  isInt tokenId := (decimal tokenId).any fun n => n ≤ 1000
  bigNumber := decimal
  png svg := svg
  cid png := toString png.length

def standardBase64 (s : String) : String := String.ofList (Base64.encode (Base64.utf8 s.toList))

/-- Noun 1 is asked for twice, and a colour is added in between. -/
theorem metadata_answered_twice : ∃ (x : World) (metadata : TokenMetadata),
    x.server.sent = [("1", .metadata metadata), ("1", .metadata metadata)]
    ∧ metadata.name = "Noun 1"
    ∧ x.chain.world.descriptor.palettes 0 = ["", "ff0000", "00ff00"] := by
  have hmint : ∀ m ∈ [Machine.Move.enter (T := Block) ⟨.ofNat 4, .token smallView .mint⟩],
      ∀ x l, m.Makes l → KeepsArt x l := by
    intro m hm x l hl
    obtain rfl := List.mem_singleton.mp hm
    exact keepsArt_of_makes hl fun _ => trivial
  have hcolor : ∀ m ∈ [Machine.Move.enter (T := Block)
      ⟨.ofNat 1, .descriptor (.addColorToPalette 0 "00ff00")⟩], ∀ x l, m.Makes l → KeepsArt x l := by
    intro m hm x l hl
    obtain rfl := List.mem_singleton.mp hm
    exact keepsArt_of_makes hl fun _ => trivial
  obtain ⟨c, hc, hp⟩ := Machine.script_exists_moves (M := artMachine smallArtEnv) hmint
    (x := ⟨redArt.world, []⟩)
    (p := fun x => x.world.token.owners_ 1 = .ofNat 4
      ∧ (x.world.descriptor.generateSVGImage id (x.world.token.seeds 1)).toOption.isSome = true
      ∧ (Machine.script (artMachine smallArtEnv) Machine.anything x
          [.enter ⟨.ofNat 1, .descriptor (.addColorToPalette 0 "00ff00")⟩]).any
        fun y => y.world.descriptor.palettes 0 = ["", "ff0000", "00ff00"]
          ∧ y.world.token.owners_ 1 = .ofNat 4
          ∧ (y.world.descriptor.generateSVGImage id (y.world.token.seeds 1)).toOption.isSome = true)
    (by decide +kernel)
  obtain ⟨howner, hsvg, hlater⟩ := of_decide_eq_true hp
  obtain ⟨c', hc', hp⟩ := Machine.script_exists_moves (M := artMachine smallArtEnv) hcolor hlater
  obtain ⟨hpalette, howner', hsvg'⟩ := of_decide_eq_true hp
  obtain ⟨svg, hsvg⟩ := Option.isSome_iff_exists.mp hsvg
  obtain ⟨svg', hsvg'⟩ := Option.isSome_iff_exists.mp hsvg'
  have hx : Runs smallArtEnv smallPackages standardBase64 KeepsArt ⟨⟨redArt.world, []⟩, .start⟩
      ⟨c, .start⟩ := runs_chain hc .start
  have hanswered := metadata_answered redArt smallPackages standardBase64 fun _ => rfl
  obtain ⟨s, hs, hsent⟩ := (hanswered _ hx "1").2 1 svg (by decide) (by decide)
    (by rw [howner]; decide) (toOption_some.mp hsvg)
  have hy := hx.trans (hs.trans (runs_chain hc' s))
  obtain ⟨s', hs', hsent'⟩ := (hanswered _ hy "1").2 1 svg' (by decide) (by decide)
    (by rw [howner']; decide) (toOption_some.mp hsvg')
  have hz := hy.trans hs'
  have hfirst := (hanswered _ hz "1").1
    (metadataOf smallPackages 1 svg) (by
      rw [hsent', hsent]
      exact List.mem_cons_self)
  have heq := hfirst.here (by decide) (toOption_some.mp hsvg')
  refine ⟨⟨c', s'⟩, metadataOf smallPackages 1 svg', ?_, rfl, hpalette⟩
  rw [hsent', hsent, heq]
  rfl

/-! ## The other readers -/

/-- Base 64 behind its mark is read back. -/
theorem atob_uri (h64 : EncodesBase64 base64) {scheme : String} (hscheme : ';' ∉ scheme.toList)
    (s : String) :
    ((splitText ";base64,".toList 0 [] (scheme ++ ";base64," ++ base64 s).toList).getLast?).bind
      Base64.atob = some (Base64.utf8 s.toList) := by
  have hmark : ";base64,".toList = ';' :: "base64,".toList := rfl
  have hplain : ';' ∉ (base64 s).toList := by
    rw [h64, String.toList_ofList]
    intro h
    exact (Base64.encode_plain h).2.2 (by decide)
  have hsplit : splitText ";base64,".toList 0 [] (scheme ++ ";base64," ++ base64 s).toList
      = [scheme.toList, (base64 s).toList] := by
    rw [String.toList_append, String.toList_append, List.append_assoc, hmark,
      splitText_append hscheme, splitText_none hplain]
    rfl
  have hlast : ([scheme.toList, (base64 s).toList] : List (List Char)).getLast?
      = some (base64 s).toList := rfl
  rw [hsplit, hlast, Option.bind_some, h64, String.toList_ofList, Base64.atob_encode]

/-- What the web app makes of a data URI. -/
theorem useNounToken_text (h64 : EncodesBase64 base64) {text : String}
    (h : ∀ c ∈ text.toList, c.toNat < 128) :
    useNounToken ("data:application/json;base64," ++ base64 text)
      = TokenMetadata.parse text.toList := by
  have hread := atob_uri h64 (show ';' ∉ "data:application/json".toList by decide) text
  have hbind : useNounToken ("data:application/json;base64," ++ base64 text)
      = (((splitText ";base64,".toList 0 []
        ("data:application/json" ++ ";base64," ++ base64 text).toList).getLast?).bind
        Base64.atob).bind fun json => TokenMetadata.parse (Base64.binary json) :=
    (Option.bind_assoc ..).symm
  rw [hbind, hread, Option.bind_some, Base64.binary_utf8 h]

/--
**The readers of data URIs.** Whatever the contract answers about a Noun, in whatever state, the web
app reads the Noun's name and description and has a picture that is the Noun's drawing, and the
bots make their PNG file of the drawing too.
-/
theorem token_read (packages : Packages) (base64 : String → String) (h64 : EncodesBase64 base64)
    (w : ArtWorld) (tokenId : String) (n : Nat) (hn : packages.bigNumber tokenId = some n)
    (uri : String) (huri : w.dataURI base64 n = .ok uri) :
    ∃ svg, w.descriptor.generateSVGImage id (w.token.seeds n) = .ok svg
      ∧ useNounToken uri = some (dataOf base64 n svg)
      ∧ ((splitText ";base64,".toList 0 [] (dataOf base64 n svg).image.toList).getLast?).bind
        Base64.atob = some (Base64.utf8 svg.toList)
      ∧ getNounPngBuffer packages base64 w tokenId
        = some (packages.png (Base64.utf8 svg.toList)) := by
  obtain ⟨svg, text, _, hsvg, huri', hascii, hparse⟩ := dataURI_text h64 huri
  refine ⟨svg, hsvg, ?_, ?_, ?_⟩
  · rw [huri', useNounToken_text h64 hascii]
    exact hparse
  · exact atob_uri h64 (show ';' ∉ "data:image/svg+xml".toList by decide) svg
  · have hcall : Server.callDataURI packages base64 w tokenId = some uri :=
      Option.bind_eq_some_iff.mpr ⟨n, hn, toOption_some.mpr huri⟩
    have hdata : parseDataURI uri = some (dataOf base64 n svg) := by
      rw [huri', parseDataURI_text h64 hascii]
      exact hparse
    unfold getNounPngBuffer
    rw [hcall, Option.bind_eq_bind, Option.bind_some, hdata, Option.bind_eq_bind, Option.bind_some,
      dataOf, svg_image h64]
    rfl

/-- Noun 1 is read. -/
theorem token_read_noun1 : ∃ (w : ArtWorld) (uri : String) (noun : TokenMetadata),
    w.dataURI standardBase64 1 = .ok uri ∧ useNounToken uri = some noun ∧ noun.name = "Noun 1" := by
  obtain ⟨c, -, hp⟩ := Machine.script_exists (M := artMachine smallArtEnv) Machine.anything_free
    (x := ⟨redArt.world, []⟩) (m := [.enter ⟨.ofNat 4, .token smallView .mint⟩])
    (p := fun x => x.world.token.owners_ 1 = .ofNat 4
      ∧ (x.world.descriptor.generateSVGImage id (x.world.token.seeds 1)).toOption.isSome = true)
    (by decide +kernel)
  obtain ⟨howner, hsvg⟩ := of_decide_eq_true hp
  obtain ⟨svg, hsvg⟩ := Option.isSome_iff_exists.mp hsvg
  obtain ⟨uri, huri⟩ :
      ∃ uri, Server.callDataURI smallPackages standardBase64 c.world "1" = some uri :=
    callDataURI_some (by decide) (by rw [howner]; decide) (toOption_some.mp hsvg)
  obtain ⟨n, hn, huri⟩ : ∃ n, decimal "1" = some n
      ∧ (c.world.dataURI standardBase64 n).toOption = some uri := Option.bind_eq_some_iff.mp huri
  obtain rfl : 1 = n := Option.some.inj hn
  obtain ⟨svg, -, hread, -⟩ := token_read smallPackages standardBase64 (fun _ => rfl) c.world "1" 1
    (by decide) uri (toOption_some.mp huri)
  exact ⟨c.world, uri, _, toOption_some.mp huri, hread, rfl⟩

end Nouns.Api
