import Mathlib.Tactic.IntervalCases
import Mathlib.Data.List.Basic

/-!
# Base 64

Bytes written in the standard alphabet, and the two ways in which JavaScript reads them back:
`Buffer.from(s, 'base64')`, which passes over what it does not know, and `atob`, which does not.
Three bytes are four digits of six bits; `sextets` is what the digits are worth. At the end, text
as bytes.
-/

namespace Base64

/-! ## Digits -/

/-- The standard alphabet. -/
def digit (d : Nat) : Char :=
  if d < 26 then Char.ofNat (d + 65)
  else if d < 52 then Char.ofNat (d + 71)
  else if d < 62 then Char.ofNat (d - 4)
  else if d = 62 then '+' else '/'

/-- What a character of the alphabet is worth. -/
def value (c : Char) : Option Nat :=
  if 'A' ≤ c ∧ c ≤ 'Z' then some (c.toNat - 65)
  else if 'a' ≤ c ∧ c ≤ 'z' then some (c.toNat - 71)
  else if '0' ≤ c ∧ c ≤ '9' then some (c.toNat + 4)
  else if c = '+' then some 62
  else if c = '/' then some 63
  else none

theorem value_digit {d : Nat} (h : d < 64) : value (digit d) = some d := by
  interval_cases d <;> decide

theorem mapM_value_digit {ds : List Nat} (h : ∀ d ∈ ds, d < 64) :
    (ds.map digit).mapM value = some ds := by
  induction ds with
  | nil => rfl
  | cons d ds ih =>
      obtain ⟨hd, hds⟩ := List.forall_mem_cons.mp h
      rw [List.map_cons, List.mapM_cons, value_digit hd, ih hds]
      rfl

/-- A digit is a visible character, and none of those that mark up text. -/
theorem digit_plain {d : Nat} (h : d < 64) :
    32 < (digit d).toNat ∧ (digit d).toNat < 128 ∧ digit d ∉ ['=', '"', '\\', ';', ','] := by
  interval_cases d <;> decide

/-! ## Encoding -/

/-- What the digits are worth that the bytes are written with. -/
def sextets : List UInt8 → List Nat
  | [] => []
  | [a] => [a.toNat / 4, a.toNat % 4 * 16]
  | [a, b] => [a.toNat / 4, a.toNat % 4 * 16 + b.toNat / 16, b.toNat % 16 * 4]
  | a :: b :: c :: bs => a.toNat / 4 :: (a.toNat % 4 * 16 + b.toNat / 16)
      :: (b.toNat % 16 * 4 + c.toNat / 64) :: c.toNat % 64 :: sextets bs

/-- The bytes are filled up to threes. -/
def padding (n : Nat) : List Char := List.replicate ((3 - n % 3) % 3) '='

def encode (bs : List UInt8) : List Char := (sextets bs).map digit ++ padding bs.length

/-- The bytes that digits are worth; what is left of a byte is dropped. -/
def bytes : List Nat → List UInt8
  | p :: q :: r :: s :: ds => UInt8.ofNat (p * 4 + q / 16) :: UInt8.ofNat (q % 16 * 16 + r / 4)
      :: UInt8.ofNat (r % 4 * 64 + s) :: bytes ds
  | [p, q, r] => [UInt8.ofNat (p * 4 + q / 16), UInt8.ofNat (q % 16 * 16 + r / 4)]
  | [p, q] => [UInt8.ofNat (p * 4 + q / 16)]
  | _ => []

theorem byte_eq {a : UInt8} {n : Nat} (h : n = a.toNat) : UInt8.ofNat n = a := by
  rw [h, UInt8.ofNat_toNat]

theorem bytes_sextets (bs : List UInt8) : bytes (sextets bs) = bs := by
  induction bs using sextets.induct with
  | case1 => rfl
  | case2 a =>
      have ha := a.toNat_lt
      exact congrArg (· :: []) (byte_eq (by omega))
  | case3 a b =>
      have ha := a.toNat_lt
      have hb := b.toNat_lt
      exact congrArg₂ (· :: · :: []) (byte_eq (by omega)) (byte_eq (by omega))
  | case4 a b c bs ih =>
      have ha := a.toNat_lt
      have hb := b.toNat_lt
      have hc := c.toNat_lt
      rw [sextets, bytes, ih, byte_eq (a := a) (by omega), byte_eq (a := b) (by omega),
        byte_eq (a := c) (by omega)]

theorem sextets_lt {bs : List UInt8} {d : Nat} (h : d ∈ sextets bs) : d < 64 := by
  induction bs using sextets.induct with
  | case1 => exact absurd h List.not_mem_nil
  | case2 a =>
      have ha := a.toNat_lt
      rcases List.mem_pair.mp h with rfl | rfl <;> omega
  | case3 a b =>
      have ha := a.toNat_lt
      have hb := b.toNat_lt
      rw [sextets, List.mem_cons, List.mem_pair] at h
      rcases h with rfl | rfl | rfl <;> omega
  | case4 a b c bs ih =>
      have ha := a.toNat_lt
      have hb := b.toNat_lt
      have hc := c.toNat_lt
      rw [sextets, List.mem_cons, List.mem_cons, List.mem_cons, List.mem_cons] at h
      rcases h with rfl | rfl | rfl | rfl | h
      · omega
      · omega
      · omega
      · omega
      · exact ih h

theorem length_sextets (bs : List UInt8) : (sextets bs).length = (4 * bs.length + 2) / 3 := by
  induction bs using sextets.induct with
  | case1 => rfl
  | case2 | case3 => simp only [sextets, List.length_cons, List.length_nil]
  | case4 a b c bs ih =>
      rw [sextets, List.length_cons, List.length_cons, List.length_cons, List.length_cons, ih,
        List.length_cons, List.length_cons, List.length_cons]
      omega

/-- The length of a code is a multiple of four. -/
theorem length_encode (bs : List UInt8) : (encode bs).length = 4 * ((bs.length + 2) / 3) := by
  rw [encode, List.length_append, List.length_map, length_sextets, padding, List.length_replicate]
  obtain ⟨k, hk | hk | hk⟩ : ∃ k, bs.length = 3 * k ∨ bs.length = 3 * k + 1
    ∨ bs.length = 3 * k + 2 := ⟨bs.length / 3, by omega⟩
  · rw [hk]
    omega
  · rw [hk]
    omega
  · rw [hk]
    omega

/-- The digits are no padding. -/
theorem digits_ne {bs : List UInt8} {c : Char} (h : c ∈ (sextets bs).map digit) : c ≠ '=' := by
  obtain ⟨d, hd, rfl⟩ := List.mem_map.mp h
  exact fun heq => (digit_plain (sextets_lt hd)).2.2 (heq ▸ List.mem_cons_self)

/-- What is written is visible, and nothing in it marks up text. -/
theorem encode_plain {bs : List UInt8} {c : Char} (h : c ∈ encode bs) :
    32 < c.toNat ∧ c.toNat < 128 ∧ c ∉ ['"', '\\', ';', ','] := by
  rcases List.mem_append.mp h with h | h
  · obtain ⟨d, hd, rfl⟩ := List.mem_map.mp h
    obtain ⟨hlow, hhigh, hnot⟩ := digit_plain (sextets_lt hd)
    exact ⟨hlow, hhigh, List.not_mem_of_not_mem_cons hnot⟩
  · obtain rfl := List.eq_of_mem_replicate h
    decide

/-! ## Decoding -/

/-- What `Buffer.from` takes a character for: it knows the alphabet for URLs as well. -/
def looseValue (c : Char) : Option Nat :=
  if c = '-' then some 62 else if c = '_' then some 63 else value c

theorem looseValue_digit {d : Nat} (h : d < 64) : looseValue (digit d) = some d := by
  interval_cases d <;> decide

/-- `Buffer.from(s, 'base64')` -/
def bufferFrom (s : List Char) : List UInt8 :=
  bytes ((s.takeWhile (· ≠ '=')).filterMap looseValue)

/-- **What was written is read back.** -/
theorem bufferFrom_encode (bs : List UInt8) : bufferFrom (encode bs) = bs := by
  have htake : (encode bs).takeWhile (· ≠ '=') = (sextets bs).map digit := by
    unfold encode padding
    rw [List.takeWhile_append_of_pos]
    · rw [List.takeWhile_replicate, if_neg (by decide), List.append_nil]
    · exact fun c hc => decide_eq_true (digits_ne hc)
  have hread : ((sextets bs).map digit).filterMap looseValue = sextets bs := by
    rw [List.filterMap_map]
    refine (List.filterMap_congr fun d hd => ?_).trans List.filterMap_some
    exact looseValue_digit (sextets_lt hd)
  rw [bufferFrom, htake, hread, bytes_sextets]

/-- What `atob` passes over. -/
def isBlank (c : Char) : Bool := c ∈ [' ', '\t', '\n', '\r', '\x0c']

/-- One or two signs at the end fill up. -/
def dropPadding (s : List Char) : List Char :=
  match s.reverse with
  | '=' :: '=' :: r => r.reverse
  | '=' :: r => r.reverse
  | _ => s

/-- `atob(s)`, as bytes -/
def atob (s : List Char) : Option (List UInt8) :=
  let s := s.filter fun c => !isBlank c
  let s := if s.length % 4 = 0 then dropPadding s else s
  if s.length % 4 = 1 then none else (s.mapM value).map bytes

theorem dropPadding_self {ds : List Char} (h : ∀ r, ds.reverse ≠ '=' :: r) :
    dropPadding ds = ds := by
  unfold dropPadding
  split
  · next hr => exact absurd hr (h _)
  · next hr => exact absurd hr (h _)
  · rfl

theorem dropPadding_append {ds : List Char} (h : ∀ c ∈ ds, c ≠ '=') (n : Nat) :
    dropPadding (ds ++ padding n) = ds := by
  have hlast : ∀ r, ds.reverse ≠ '=' :: r := by
    intro r hr
    refine h '=' ?_ rfl
    rw [← List.mem_reverse, hr]
    exact List.mem_cons_self
  have hcases : padding n = [] ∨ padding n = ['='] ∨ padding n = ['=', '='] := by
    unfold padding
    have hlt : (3 - n % 3) % 3 < 3 := Nat.mod_lt _ (by decide)
    interval_cases (3 - n % 3) % 3 <;> decide
  rcases hcases with hp | hp | hp
  · rw [hp, List.append_nil, dropPadding_self hlast]
  · have hone : (ds ++ ['=']).reverse = '=' :: ds.reverse := List.reverse_concat ..
    rw [hp]
    unfold dropPadding
    rw [hone]
    split
    · next r hr => exact absurd (List.cons.inj hr).2 (hlast r)
    · next r _ hr => rw [← (List.cons.inj hr).2, List.reverse_reverse]
    · next hr => exact absurd rfl (hr _)
  · have htwo : (ds ++ ['=', '=']).reverse = '=' :: '=' :: ds.reverse := by
      rw [List.reverse_append]
      rfl
    rw [hp]
    unfold dropPadding
    rw [htwo]
    exact List.reverse_reverse ds

/-- What was written `atob` reads back as well. -/
theorem atob_encode (bs : List UInt8) : atob (encode bs) = some bs := by
  have hblank : (encode bs).filter (fun c => !isBlank c) = encode bs := by
    refine List.filter_eq_self.mpr ?_
    intro c hc
    obtain ⟨hlow, -, -⟩ := encode_plain hc
    refine (Bool.not_eq_true' _).mpr (decide_eq_false ?_)
    intro hmem
    simp only [List.mem_cons, List.not_mem_nil, or_false] at hmem
    rcases hmem with rfl | rfl | rfl | rfl | rfl
    all_goals exact absurd hlow (by decide)
  have hdigits : dropPadding (encode bs) = (sextets bs).map digit :=
    dropPadding_append (fun _ => digits_ne) _
  have hread : ((sextets bs).map digit).mapM value = some (sextets bs) :=
    mapM_value_digit fun _ => sextets_lt
  have hrest : ((sextets bs).map digit).length % 4 ≠ 1 := by
    rw [List.length_map, length_sextets]
    omega
  have hmod : (encode bs).length % 4 = 0 := by
    rw [length_encode, Nat.mul_mod_right]
  simp only [atob, hblank, if_pos hmod, hdigits, if_neg hrest, hread, Option.map_some,
    bytes_sextets]

/-! ## Text -/

/-- The bytes of a text in UTF-8. -/
def utf8 (s : List Char) : List UInt8 := s.flatMap String.utf8EncodeChar

/-- `buffer.toString('ascii')` -/
def ascii (bs : List UInt8) : List Char := bs.map fun b => Char.ofNat (b.toNat % 128)

/-- The string `atob` returns has a character for each byte. -/
def binary (bs : List UInt8) : List Char := bs.map fun b => Char.ofNat b.toNat

theorem utf8_ascii {s : List Char} (h : ∀ c ∈ s, c.toNat < 128) :
    utf8 s = s.map fun c => UInt8.ofNat c.toNat := by
  unfold utf8
  induction s with
  | nil => rfl
  | cons c s ih =>
      obtain ⟨hc, hs⟩ := List.forall_mem_cons.mp h
      have hsize : c.utf8Size = 1 := by
        have hle : c.val ≤ 127 := UInt32.le_iff_toNat_le.mpr (Nat.le_of_lt_succ hc)
        exact if_pos hle
      rw [List.flatMap_cons, ih hs, String.utf8EncodeChar_eq_singleton hsize]
      rfl

theorem ascii_utf8 {s : List Char} (h : ∀ c ∈ s, c.toNat < 128) : ascii (utf8 s) = s := by
  rw [utf8_ascii h, ascii, List.map_map]
  refine (List.map_congr_left fun c hc => ?_).trans (List.map_id s)
  have hlt := h c hc
  show Char.ofNat ((UInt8.ofNat c.toNat).toNat % 128) = c
  rw [UInt8.toNat_ofNat', Nat.mod_eq_of_lt (by omega), Nat.mod_eq_of_lt (by omega),
    Char.ofNat_toNat]

theorem binary_utf8 {s : List Char} (h : ∀ c ∈ s, c.toNat < 128) : binary (utf8 s) = s := by
  rw [utf8_ascii h, binary, List.map_map]
  refine (List.map_congr_left fun c hc => ?_).trans (List.map_id s)
  have hlt := h c hc
  show Char.ofNat (UInt8.ofNat c.toNat).toNat = c
  rw [UInt8.toNat_ofNat', Nat.mod_eq_of_lt (by omega), Char.ofNat_toNat]

end Base64
