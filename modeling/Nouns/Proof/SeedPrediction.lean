import Nouns.Assets.Utils

/-!
# Which seeds are predicted

The width is cut off a string of digits, and the string has no leading zeros. A shifted
value of twelve digits or more loses what `uint48` loses. A shorter one is not cut at all:
it keeps its `0x`, gets another in front, and nobody reads that.
-/

namespace Nouns

open JsText Evm

/-! ## Hexadecimal strings -/

theorem ofHex_bytes (bytes : List UInt8) :
    ofHex (bytes.flatMap fun x => hexByte x.toNat)
      = bytes.foldl (fun n x => 256 * n + x.toNat) 0 := by
  induction bytes using List.reverseRecOn with
  | nil => rfl
  | append_singleton bytes x ih =>
      have hx : x.toNat < 256 := x.toNat_lt
      rw [List.flatMap_append, ofHex_append, ih, List.foldl_append, List.flatMap_singleton,
        ofHex_hexByte hx]
      simp only [hexByte, List.length_cons, List.length_nil, List.foldl_cons, List.foldl_nil]
      omega

theorem toList_prefixed (digits : List Char) :
    ("0x" ++ String.ofList digits).toList = '0' :: 'x' :: digits := by
  have hprefix : "0x".toList = ['0', 'x'] := by decide
  simp only [String.toList_append, String.toList_ofList, hprefix, List.cons_append, List.nil_append]

namespace Assets

variable {keccak256 : List UInt8 → Bytes32} {ethers : Ethers}

/-- A digest in hexadecimal is read back. -/
theorem Ethers.Documented.fromString_hexlify (he : ethers.Documented keccak256) (b : Bytes32) :
    ethers.fromString b.hexlify = some b.toUint := by
  have hdigits : ∀ c ∈ b.bytes.flatMap fun x => hexByte x.toNat, isHexDigit c = true := by
    intro c hc
    obtain ⟨x, -, hc⟩ := List.mem_flatMap.mp hc
    exact isHexDigit_hexByte x.toNat_lt c hc
  have hne : (b.bytes.flatMap fun x => hexByte x.toNat) ≠ [] := by
    intro hnil
    have hlen := b.length_eq
    cases hb : b.bytes with
    | nil => simp [hb] at hlen
    | cons x bytes => simp [hb, hexByte] at hnil
  rw [Bytes32.hexlify, he.fromString_hex _ hne hdigits, ofHex_bytes]
  rfl

/-- A string with `0x` in it twice is no number. -/
theorem Ethers.Documented.fromString_doubled (he : ethers.Documented keccak256)
    (digits : List Char) :
    ethers.fromString ("0x" ++ String.ofList ('0' :: 'x' :: digits)) = none := by
  have htext : ("0x" ++ String.ofList ('0' :: 'x' :: digits)).toList
      = '0' :: 'x' :: '0' :: 'x' :: digits := toList_prefixed _
  refine he.fromString_invalid _ ?_ ?_
  · rw [htext]
    have hx : isHexDigit 'x' = false := by decide
    simp [isHexNumber, hx]
  · rw [htext]
    have hx : Char.isDigit 'x' = false := by decide
    simp [isDecimalNumber, hx]

/-! ## The cast -/

/-- The cast is right where the value has twelve digits, and throws later where it has not. -/
theorem shiftRightAndCast_spec (he : ethers.Documented keccak256) {s : String} {value : Nat}
    (hs : ethers.fromString s = some value) (shift : Nat) :
    ∃ hex, shiftRightAndCast ethers s shift 48 = some hex
      ∧ ethers.fromString hex
        = if 2 ^ 40 ≤ value >>> shift then some (uint48 (value >>> shift)) else none := by
  obtain ⟨digits, htext, hhex, hvalue, heven, hminimal⟩ := he.toHexString_even (value >>> shift)
  have hlist := toList_prefixed digits
  have hstart : (4 * ('0' :: 'x' :: digits).length - 48 : Int).tdiv 4 = digits.length - 10 := by
    have hmul : (4 * ('0' :: 'x' :: digits).length - 48 : Int) = 4 * (digits.length - 10) := by
      simp only [List.length_cons]
      omega
    rw [hmul, Int.mul_tdiv_cancel_left _ (by decide)]
  refine ⟨"0x" ++ String.ofList (substringFrom ('0' :: 'x' :: digits) (digits.length - 10)),
    ?_, ?_⟩
  · rw [shiftRightAndCast, hs]
    simp only [Option.bind_eq_bind, Option.bind_some, he.shr_eq, htext, hlist]
    rw [← hstart]
    rfl
  · unfold substringFrom
    have hlt := ofHex_lt digits
    rw [hvalue] at hlt
    rcases Nat.lt_or_ge digits.length 12 with hshort | hlong
    · -- ten digits at most: nothing is cut off
      have hten : digits.length ≤ 10 := by
        obtain ⟨k, hk⟩ := heven
        omega
      have hnone : ¬ 2 ^ 40 ≤ value >>> shift := by
        have hpow : 16 ^ digits.length ≤ 16 ^ 10 := Nat.pow_le_pow_right (by decide) hten
        omega
      rw [show ((digits.length : Int) - 10).toNat = 0 by omega, List.drop_zero, if_neg hnone]
      exact he.fromString_doubled digits
    · -- twelve or more: twelve are left
      have hmany : 2 ^ 40 ≤ value >>> shift := by
        rcases hminimal with hle | hge
        · omega
        · have hpow : 16 ^ 10 ≤ 16 ^ (digits.length - 2) :=
            Nat.pow_le_pow_right (by decide) (by omega)
          omega
      have hdrop : ('0' :: 'x' :: digits).drop ((digits.length : Int) - 10).toNat
          = digits.drop (digits.length - 12) := by
        rw [show ((digits.length : Int) - 10).toNat = digits.length - 12 + 2 by omega]
        rfl
      have hlen : (digits.drop (digits.length - 12)).length = 12 := by
        rw [List.length_drop]
        omega
      rw [hdrop, he.fromString_hex _ (List.ne_nil_of_length_pos (by omega))
        fun c hc => hhex c (List.mem_of_mem_drop hc), ofHex_drop hlong, hvalue, if_pos hmany]
      rfl

/-- One part is predicted exactly from 2^40 on, by counts that are safe numbers. -/
theorem getPseudorandomPart_some (he : ethers.Documented keccak256) {s : String} {value : Nat}
    (hs : ethers.fromString s = some value) {count : Nat} (hcount : 0 < count) (shift : Nat) :
    getPseudorandomPart ethers s count shift 48
      = if 2 ^ 40 ≤ value >>> shift ∧ count < maxSafeInteger
        then some (uint48 (value >>> shift) % count) else none := by
  obtain ⟨hex, hcast, hfrom⟩ := shiftRightAndCast_spec he hs shift
  have hsafe : uint48 (value >>> shift) % count ≤ maxSafeInteger := by
    have hle : uint48 (value >>> shift) % count ≤ uint48 (value >>> shift) := Nat.mod_le _ _
    have hlt : uint48 (value >>> shift) < 2 ^ 48 := Nat.mod_lt _ (by decide)
    unfold maxSafeInteger
    omega
  rw [getPseudorandomPart, hcast]
  simp only [Option.bind_eq_bind, Option.bind_some, hfrom]
  by_cases hmany : 2 ^ 40 ≤ value >>> shift
  · rcases Nat.lt_or_ge count maxSafeInteger with hlt | hge
    · rw [if_pos hmany, if_pos ⟨hmany, hlt⟩, Option.bind_some, he.fromNumber_safe _ hlt,
        Option.bind_some, he.mod_eq _ _ hcount, Option.bind_some, he.toNumber_safe _ hsafe]
    · rw [if_pos hmany, if_neg (by omega), Option.bind_some, he.fromNumber_unsafe _ hge,
        Option.bind_none]
  · rw [if_neg hmany, if_neg (fun h => hmany h.1), Option.bind_none]

/-! ## Whole seeds -/

/-- The seed drawn from a digest, for given counts. -/
def seedOf (p : Nat) (counts : PartCounts) : Seed where
  background := uint48 p % counts.backgroundCount
  body := uint48 (p >>> 48) % counts.bodyCount
  accessory := uint48 (p >>> 96) % counts.accessoryCount
  head := uint48 (p >>> 144) % counts.headCount
  glasses := uint48 (p >>> 192) % counts.glassesCount

theorem checkedMod_ok {a b : Nat} (hb : 0 < b) : checkedMod a b = .ok (a % b) :=
  if_neg (Nat.ne_of_gt hb)

/-- The second cast changes nothing. -/
theorem uint48_mod (a b : Nat) : uint48 (uint48 a % b) = uint48 a % b := by
  have hle : uint48 a % b ≤ uint48 a := Nat.mod_le _ _
  have hlt : uint48 a < 2 ^ 48 := Nat.mod_lt _ (by decide)
  exact Nat.mod_eq_of_lt (by omega)

theorem generateSeed_ok {blockhash : Nat → Bytes32} {block : Block} {nounId : Nat}
    (hblock : 0 < block.number) :
    generateSeed keccak256 blockhash block nounId imageData
      = .ok (seedOf (pseudorandomness keccak256 (blockhash (block.number - 1)) nounId) imageData) := by
  have hprevious : sub block.number 1 = .ok (block.number - 1) := sub_ok.mpr ⟨hblock, rfl⟩
  unfold generateSeed
  rw [hprevious]
  simp only [bind, Except.bind, checkedMod_ok (show 0 < imageData.backgroundCount by decide),
    checkedMod_ok (show 0 < imageData.bodyCount by decide),
    checkedMod_ok (show 0 < imageData.accessoryCount by decide),
    checkedMod_ok (show 0 < imageData.headCount by decide),
    checkedMod_ok (show 0 < imageData.glassesCount by decide), uint48_mod]
  rfl

theorem shiftRight_ge {p k : Nat} : 2 ^ 40 ≤ p >>> k ↔ 2 ^ (40 + k) ≤ p := by
  rw [Nat.shiftRight_eq_div_pow, Nat.le_div_iff_mul_le (Nat.two_pow_pos k), ← Nat.pow_add]

/-- The last part to be read decides: no other is shifted as far. -/
theorem getNounSeedFromBlockHash_some (he : ethers.Documented keccak256) (hash : Bytes32)
    {nounId : Nat} (hid : nounId < 2 ^ 256) :
    getNounSeedFromBlockHash ethers nounId hash.hexlify
      = if 2 ^ 232 ≤ pseudorandomness keccak256 hash nounId
        then some (seedOf (pseudorandomness keccak256 hash nounId) imageData) else none := by
  have hfrom : ethers.fromString (ethers.solidityKeccak256 hash.hexlify nounId)
      = some (pseudorandomness keccak256 hash nounId) := by
    rw [he.solidityKeccak256_eq hash nounId hid]
    exact he.fromString_hexlify _
  have hpart : ∀ count shift, 0 < count → count < maxSafeInteger →
      getPseudorandomPart ethers (ethers.solidityKeccak256 hash.hexlify nounId) count shift 48
        = if 2 ^ (40 + shift) ≤ pseudorandomness keccak256 hash nounId
          then some (uint48 (pseudorandomness keccak256 hash nounId >>> shift) % count)
          else none := by
    intro count shift hpos hsafe
    have h := getPseudorandomPart_some he hfrom hpos shift
    simp only [hsafe, and_true, shiftRight_ge] at h
    exact h
  unfold getNounSeedFromBlockHash
  dsimp only
  rw [hpart _ 0 (by decide) (by decide), hpart _ 48 (by decide) (by decide),
    hpart _ 96 (by decide) (by decide), hpart _ 144 (by decide) (by decide),
    hpart _ 192 (by decide) (by decide)]
  generalize pseudorandomness keccak256 hash nounId = p
  rcases Nat.lt_or_ge p (2 ^ 232) with hsmall | hlarge
  · -- the glasses are not found, if anything before them is
    have hglasses : ¬ 2 ^ (40 + 192) ≤ p := Nat.not_le_of_lt hsmall
    rw [if_neg hglasses, if_neg (Nat.not_le_of_lt hsmall)]
    simp
  · have hall : ∀ k ≤ 192, 2 ^ (40 + k) ≤ p := fun k hk =>
      Nat.le_trans (Nat.pow_le_pow_right (by decide) (by omega)) hlarge
    rw [if_pos (hall 0 (by decide)), if_pos (hall 48 (by decide)), if_pos (hall 96 (by decide)),
      if_pos (hall 144 (by decide)), if_pos (hall 192 (by decide)), if_pos hlarge]
    rfl

/--
**Predicted seeds.** A part is predicted as the seeder draws it, without throwing, exactly
if the shifted value is at least 2^40 and the count a safe number; and a whole seed, with
the counts of the image data, exactly if the digest is at least 2^232.
-/
theorem seeds_predicted_iff (keccak256 : List UInt8 → Bytes32) (ethers : Ethers)
    (he : ethers.Documented keccak256) :
    (∀ (s : String) (value shift count : Nat), ethers.fromString s = some value → 0 < count →
      (getPseudorandomPart ethers s count shift 48 = some (uint48 (value >>> shift) % count)
        ↔ 2 ^ 40 ≤ value >>> shift ∧ count < maxSafeInteger))
    ∧ ∀ (blockhash : Nat → Bytes32) (block : Block) (nounId : Nat), 0 < block.number →
      nounId < 2 ^ 256 →
      ∃ seed, generateSeed keccak256 blockhash block nounId imageData = .ok seed
        ∧ (getNounSeedFromBlockHash ethers nounId (blockhash (block.number - 1)).hexlify = some seed
          ↔ 2 ^ 232 ≤ pseudorandomness keccak256 (blockhash (block.number - 1)) nounId) := by
  constructor
  · intro s value shift count hs hcount
    rw [getPseudorandomPart_some he hs hcount]
    constructor
    · intro h
      by_contra hno
      rw [if_neg hno] at h
      exact absurd h (by simp)
    · intro h
      rw [if_pos h]
  · intro blockhash block nounId hblock hid
    refine ⟨_, generateSeed_ok hblock, ?_⟩
    rw [getNounSeedFromBlockHash_some he _ hid]
    constructor
    · intro h
      by_contra hno
      rw [if_neg hno] at h
      exact absurd h (by simp)
    · intro h
      rw [if_pos h]

/-! ## An instance -/

/-- What ethers does, but for negative numbers, where every digest is the same. -/
def plainEthers (digest : Bytes32) : Ethers where
  fromString s := match s.toList with
    | '0' :: 'x' :: digits =>
        if !digits.isEmpty && digits.all isHexDigit then some (ofHex digits) else none
    | digits =>
        if !digits.isEmpty && digits.all Char.isDigit then some (Nat.ofDigitChars 10 digits 0)
        else none
  fromNumber n := if n < maxSafeInteger then some n else none
  toHexString n :=
    let digits := toHex n
    "0x" ++ String.ofList (if digits.length % 2 = 1 then '0' :: digits else digits)
  shr n k := n >>> k
  mod n m := if m = 0 then none else some (n % m)
  toNumber n := if n ≤ maxSafeInteger then some n else none
  solidityKeccak256 _ _ := digest.hexlify

theorem plainEthers_documented (digest : Bytes32) :
    (plainEthers digest).Documented fun _ => digest where
  fromString_hex digits hne hhex := by
    simp only [plainEthers, toList_prefixed]
    rw [if_pos]
    simp only [Bool.and_eq_true, Bool.not_eq_true', List.isEmpty_eq_false_iff, List.all_eq_true]
    exact ⟨hne, hhex⟩
  fromString_invalid s hhex hdec := by
    simp only [plainEthers]
    split
    · next digits heq =>
        rw [heq] at hhex
        rw [if_neg]
        simpa [isHexNumber] using hhex
    · next digits _ =>
        rw [if_neg]
        intro h
        obtain ⟨hne, hall⟩ := Bool.and_eq_true_iff.mp h
        by_cases hminus : s.toList.head? = some '-'
        · -- a minus sign is no digit
          obtain ⟨rest, hrest⟩ : ∃ rest, s.toList = '-' :: rest := by
            cases hs : s.toList with
            | nil => simp [hs] at hminus
            | cons c rest =>
                rw [hs] at hminus
                exact ⟨rest, by rw [Option.some.inj hminus]⟩
          rw [hrest] at hall
          simp at hall
        · rw [isDecimalNumber, if_neg hminus] at hdec
          rw [Bool.and_eq_true_iff.mpr ⟨hne, hall⟩] at hdec
          exact absurd hdec (by decide)
  fromNumber_safe n h := if_pos h
  fromNumber_unsafe n h := if_neg (Nat.not_lt.mpr h)
  toHexString_even n := by
    have hdigits : ∀ n, ∀ c ∈ toHex n, isHexDigit c = true := isHexDigit_toHex
    have hvalue : ofHex (toHex n) = n := ofHex_toDigits n
    have hlen := length_toHex n
    refine ⟨_, rfl, ?_, ?_, ?_, ?_⟩
    · intro c hc
      split at hc
      · rcases List.mem_cons.mp hc with rfl | hc
        · decide
        · exact hdigits n c hc
      · exact hdigits n c hc
    · split
      · rw [ofHex_cons, hvalue]
        simp [show hexValue '0' = some 0 by decide]
      · exact hvalue
    · split
      · rw [List.length_cons]
        omega
      · omega
    · rcases hlen with hone | hge
      · left
        split
        · rw [List.length_cons]
          omega
        · omega
      · right
        refine Nat.le_trans (Nat.pow_le_pow_right (by decide) ?_) hge
        split
        · rw [List.length_cons]
          omega
        · omega
  shr_eq _ _ := rfl
  mod_eq _ _ h := if_neg (Nat.ne_of_gt h)
  toNumber_safe _ h := if_pos h
  solidityKeccak256_eq _ _ _ := rfl

/-- The hash of the block before Noun 116's. -/
def hashBefore116 : Bytes32 where
  bytes := [80, 20, 16, 22, 145, 232, 29, 121, 162, 235, 167, 17, 230, 152, 17, 142, 26, 144, 201,
    190, 122, 203, 47, 64, 215, 242, 0, 19, 78, 229, 62, 1]
  length_eq := rfl

/-- The Keccak digest of that hash and 116. -/
def digest116 : Bytes32 where
  bytes := [127, 70, 82, 138, 218, 53, 195, 232, 201, 244, 5, 171, 122, 243, 246, 223, 162, 218, 18,
    204, 80, 39, 74, 193, 246, 236, 182, 180, 26, 74, 103, 51]
  length_eq := rfl

/-- A part of a shifted value of eleven digits, and the seed of Noun 116. -/
theorem seeds_predicted_iff_116 :
    getPseudorandomPart (plainEthers digest116) "0x1000000000000" 30 8 48 = some (2 ^ 40 % 30)
    ∧ generateSeed (fun _ => digest116) (fun _ => hashBefore116) ⟨13661786, 0⟩ 116 imageData
      = .ok ⟨1, 28, 120, 95, 15⟩
    ∧ getNounSeedFromBlockHash (plainEthers digest116) 116 hashBefore116.hexlify
      = some ⟨1, 28, 120, 95, 15⟩ := by
  obtain ⟨hpart, hseed⟩ := seeds_predicted_iff (fun _ => digest116) (plainEthers digest116)
    (plainEthers_documented digest116)
  refine ⟨?_, ?_⟩
  · exact (hpart "0x1000000000000" (2 ^ 48) 8 30 (by decide +kernel) (by decide)).mpr
      ⟨by decide, by decide⟩
  · obtain ⟨seed, hseed, hiff⟩ := hseed (fun _ => hashBefore116) ⟨13661786, 0⟩ 116 (by decide)
      (by decide)
    have hdrawn : generateSeed (fun _ => digest116) (fun _ => hashBefore116) ⟨13661786, 0⟩ 116
        imageData = .ok ⟨1, 28, 120, 95, 15⟩ := by decide +kernel
    obtain rfl : ⟨1, 28, 120, 95, 15⟩ = seed := Except.ok.inj (hdrawn.symm.trans hseed)
    exact ⟨hdrawn, hiff.mpr (by decide +kernel)⟩

/-- Out of nothing, nothing is predicted: the part is 0, and the code throws. -/
theorem getPseudorandomPart_zero :
    (plainEthers digest116).Documented (fun _ => digest116)
    ∧ (plainEthers digest116).fromString "0x00" = some 0
    ∧ uint48 (0 >>> 0) % 2 = 0
    ∧ getPseudorandomPart (plainEthers digest116) "0x00" 2 0 48 = none :=
  ⟨plainEthers_documented digest116, by decide +kernel, by decide, by decide +kernel⟩

end Assets

end Nouns
