import Mathlib.Tactic.IntervalCases
import Mathlib.Tactic.Ring
import Mathlib.Data.List.Basic

/-!
# JavaScript's strings of digits

Hexadecimal strings as JavaScript code handles them: `toString(16)`, `padStart`,
`substring`, `parseInt` and splitting with a regular expression. A string is the list of
its characters; `NaN` is `none`. At the end, `split` and `join` of any strings.

`ofHex` is what a list of digits is worth. Everything else is stated with it: cutting
digits off the left is a remainder, and what `toString` writes `parseInt` reads.
-/

namespace JsText

/-! ## Digits -/

/-- A hexadecimal digit, of either case. -/
def hexValue (c : Char) : Option Nat :=
  if '0' ≤ c ∧ c ≤ '9' then some (c.toNat - 48)
  else if 'a' ≤ c ∧ c ≤ 'f' then some (c.toNat - 87)
  else if 'A' ≤ c ∧ c ≤ 'F' then some (c.toNat - 55)
  else none

def isHexDigit (c : Char) : Bool := (hexValue c).isSome

/-- What digits are worth, the first counting most. -/
def ofHex (cs : List Char) : Nat := cs.foldl (fun n c => 16 * n + (hexValue c).getD 0) 0

theorem hexValue_le {c : Char} : (hexValue c).getD 0 ≤ 15 := by
  have hle : ∀ {a b : Char}, a ≤ b → a.toNat ≤ b.toNat := fun h => h
  unfold hexValue
  split
  · next h =>
      have := hle h.2
      simp only [Option.getD_some]
      have : '9'.toNat = 57 := rfl
      omega
  · split
    · next h =>
        have := hle h.2
        simp only [Option.getD_some]
        have : 'f'.toNat = 102 := rfl
        omega
    · split
      · next h =>
          have := hle h.2
          simp only [Option.getD_some]
          have : 'F'.toNat = 70 := rfl
          omega
      · simp

/-- The digits `toString(16)` writes. -/
theorem hexValue_digitChar {d : Nat} (h : d < 16) : hexValue d.digitChar = some d := by
  interval_cases d <;> decide

theorem isHexDigit_digitChar {d : Nat} (h : d < 16) : isHexDigit d.digitChar = true := by
  rw [isHexDigit, hexValue_digitChar h]
  rfl

private theorem foldl_ofHex (cs : List Char) (n : Nat) :
    cs.foldl (fun n c => 16 * n + (hexValue c).getD 0) n = n * 16 ^ cs.length + ofHex cs := by
  induction cs generalizing n with
  | nil => simp [ofHex]
  | cons c cs ih =>
      unfold ofHex
      rw [List.foldl_cons, List.foldl_cons, ih, ih (16 * 0 + _), List.length_cons, Nat.pow_succ]
      ring

theorem ofHex_append (cs ds : List Char) :
    ofHex (cs ++ ds) = ofHex cs * 16 ^ ds.length + ofHex ds := by
  unfold ofHex
  rw [List.foldl_append, foldl_ofHex]
  rfl

theorem ofHex_cons (c : Char) (cs : List Char) :
    ofHex (c :: cs) = (hexValue c).getD 0 * 16 ^ cs.length + ofHex cs := by
  have h := ofHex_append [c] cs
  simpa [ofHex] using h

theorem ofHex_lt (cs : List Char) : ofHex cs < 16 ^ cs.length := by
  induction cs with
  | nil => decide
  | cons c cs ih =>
      have hc : (hexValue c).getD 0 ≤ 15 := hexValue_le
      rw [ofHex_cons, List.length_cons, Nat.pow_succ]
      calc (hexValue c).getD 0 * 16 ^ cs.length + ofHex cs
          < (hexValue c).getD 0 * 16 ^ cs.length + 16 ^ cs.length := Nat.add_lt_add_left ih _
        _ = ((hexValue c).getD 0 + 1) * 16 ^ cs.length := by ring
        _ ≤ 16 * 16 ^ cs.length := Nat.mul_le_mul_right _ (by omega)
        _ = 16 ^ cs.length * 16 := Nat.mul_comm _ _

/-- The last `k` digits are worth the remainder. -/
theorem ofHex_drop {cs : List Char} {k : Nat} (hk : k ≤ cs.length) :
    ofHex (cs.drop (cs.length - k)) = ofHex cs % 16 ^ k := by
  have hlen : (cs.drop (cs.length - k)).length = k := by
    rw [List.length_drop]
    omega
  have hsplit := ofHex_append (cs.take (cs.length - k)) (cs.drop (cs.length - k))
  rw [List.take_append_drop, hlen] at hsplit
  have hlt := ofHex_lt (cs.drop (cs.length - k))
  rw [hlen] at hlt
  rw [hsplit, Nat.mul_add_mod', Nat.mod_eq_of_lt hlt]

theorem ofHex_toDigits (n : Nat) : ofHex (Nat.toDigits 16 n) = n := by
  induction n using Nat.strongRecOn with
  | ind n ih =>
    rw [Nat.toDigits_eq_if (by decide)]
    split
    · next h =>
        rw [ofHex_cons, hexValue_digitChar h]
        simp [ofHex]
    · next h =>
        rw [ofHex_append, ih (n / 16) (by omega), ofHex_cons, hexValue_digitChar (by omega)]
        simp only [List.length_singleton, List.length_nil, Option.getD_some]
        have : ofHex [] = 0 := rfl
        omega

/-- The digits of a byte, two of them. -/
def hexByte (b : Nat) : List Char := [(b / 16).digitChar, (b % 16).digitChar]

theorem ofHex_hexByte {b : Nat} (h : b < 256) : ofHex (hexByte b) = b := by
  unfold hexByte
  rw [ofHex_cons, ofHex_cons, hexValue_digitChar (by omega), hexValue_digitChar (by omega)]
  have : ofHex [] = 0 := rfl
  simp only [List.length_cons, List.length_nil, Option.getD_some]
  omega

theorem isHexDigit_hexByte {b : Nat} (h : b < 256) : ∀ c ∈ hexByte b, isHexDigit c = true := by
  intro c hc
  rcases List.mem_pair.mp hc with rfl | rfl
  · exact isHexDigit_digitChar (by omega)
  · exact isHexDigit_digitChar (by omega)

/-! ## What the language does with them -/

/-- Strings put behind a string, one after the other. -/
theorem foldl_append {A : Type} (f : A → String) (xs : List A) (start : String) :
    xs.foldl (fun result x => result ++ f x) start = start ++ String.join (xs.map f) := by
  induction xs generalizing start with
  | nil => exact String.append_empty.symm
  | cons x xs ih => rw [List.foldl_cons, ih, List.map_cons, String.join_cons, String.append_assoc]

/-- `n.toString(16)` -/
def toHex (n : Nat) : List Char := Nat.toDigits 16 n

theorem isHexDigit_toHex (n : Nat) : ∀ c ∈ toHex n, isHexDigit c = true := by
  induction n using Nat.strongRecOn with
  | ind n ih =>
    intro c hc
    rw [toHex, Nat.toDigits_eq_if (by decide)] at hc
    split at hc
    · next h =>
        obtain rfl := List.mem_singleton.mp hc
        exact isHexDigit_digitChar h
    · rcases List.mem_append.mp hc with hc | hc
      · exact ih (n / 16) (by omega) c hc
      · obtain rfl := List.mem_singleton.mp hc
        exact isHexDigit_digitChar (by omega)

/-- No leading zeros. -/
theorem length_toHex (n : Nat) : (toHex n).length = 1 ∨ 16 ^ ((toHex n).length - 1) ≤ n := by
  have hpos : 0 < (toHex n).length := Nat.length_toDigits_pos
  by_cases hone : (toHex n).length = 1
  · exact .inl hone
  · refine .inr (Nat.le_of_not_lt ?_)
    intro hlt
    have hle := (Nat.length_toDigits_le_iff (by decide) (by omega)).mpr hlt
    have : (Nat.toDigits 16 n).length = (toHex n).length := rfl
    omega

/-- `s.padStart(n, '0')` -/
def padStart (s : List Char) (n : Nat) : List Char := List.replicate (n - s.length) '0' ++ s

theorem padStart_two {b : Nat} (h : b < 256) : padStart (toHex b) 2 = hexByte b := by
  have hall : ∀ b : Fin 256, padStart (toHex b) 2 = hexByte b := by decide +kernel
  exact hall ⟨b, h⟩

/-- `s.substring(start)`, the end of the string being the limit on both sides -/
def substringFrom (s : List Char) (start : Int) : List Char := s.drop start.toNat

/-- `s.substring(start, end)`, for a start that is not after the end -/
def substring (s : List Char) (start stop : Nat) : List Char := (s.drop start).take (stop - start)

def isSpace (c : Char) : Bool :=
  c ∈ [' ', '\t', '\n', '\r', '\x0b', '\x0c', '\u00a0', '\u1680', '\u2028', '\u2029', '\u202f',
    '\u205f', '\u3000', '\ufeff'] || (0x2000 ≤ c.toNat && c.toNat ≤ 0x200a)

/-- The sign in front, if there is one. -/
def dropSign : List Char → Bool × List Char
  | '-' :: s => (true, s)
  | '+' :: s => (false, s)
  | s => (false, s)

/-- `0x` in front, if it is there. -/
def dropPrefix : List Char → List Char
  | '0' :: 'x' :: s | '0' :: 'X' :: s => s
  | s => s

/-- `parseInt(s, 16)` -/
def parseInt (s : List Char) : Option Int :=
  let (negative, s) := dropSign (s.dropWhile isSpace)
  match (dropPrefix s).takeWhile isHexDigit with
  | [] => none
  | digits => some (if negative then -(ofHex digits : Int) else ofHex digits)

theorem parseInt_hexByte {b : Nat} (h : b < 256) : parseInt (hexByte b) = some (b : Int) := by
  have hall : ∀ b : Fin 256, parseInt (hexByte b) = some ((b : Nat) : Int) := by decide +kernel
  exact hall ⟨b, h⟩

/-- `s.replace(/^0x/, '')` -/
def without0x : List Char → List Char
  | '0' :: 'x' :: s => s
  | s => s

/-- What a dot in a regular expression does not match. -/
def isLineEnd (c : Char) : Bool := c ∈ ['\n', '\r', '\u2028', '\u2029']

/-- `s.match(/.{1,4}/g)`, with what has been matched of the next four characters in front -/
def matchFour : List Char → List Char → List (List Char)
  | pending, [] => if pending = [] then [] else [pending]
  | pending, c :: s =>
      if isLineEnd c then (if pending = [] then [] else [pending]) ++ matchFour [] s
      else if pending.length = 3 then (pending ++ [c]) :: matchFour [] s
      else matchFour (pending ++ [c]) s

theorem isLineEnd_digitChar {d : Nat} (h : d < 16) : isLineEnd d.digitChar = false := by
  interval_cases d <;> decide

/-- Four characters of two bytes are matched together. -/
theorem matchFour_hexBytes {a b : Nat} (ha : a < 256) (hb : b < 256) (s : List Char) :
    matchFour [] (hexByte a ++ (hexByte b ++ s)) = (hexByte a ++ hexByte b) :: matchFour [] s := by
  have h₁ := isLineEnd_digitChar (d := a / 16) (by omega)
  have h₂ := isLineEnd_digitChar (d := a % 16) (by omega)
  have h₃ := isLineEnd_digitChar (d := b / 16) (by omega)
  have h₄ := isLineEnd_digitChar (d := b % 16) (by omega)
  simp [hexByte, matchFour, h₁, h₂, h₃, h₄]

/-! ## Splitting and joining -/

/-- `s.split(sep)`, for one character -/
def split (sep : Char) (s : String) : List String := (s.toList.splitOn sep).map String.ofList

/-- `parts.join(sep)` -/
def join (sep : Char) (parts : List String) : String := (String.singleton sep).intercalate parts

/-- **What was joined splits again**, unless it is nothing or holds the separator itself. -/
theorem split_join {sep : Char} {parts : List String} (hne : parts ≠ [])
    (h : ∀ part ∈ parts, sep ∉ part.toList) : split sep (join sep parts) = parts := by
  rw [split, join, String.toList_intercalate, String.toList_singleton, List.splitOn_intercalate,
    List.map_map]
  · exact (List.map_congr_left fun part _ => String.ofList_toList).trans (List.map_id _)
  · intro cs hcs
    obtain ⟨part, hpart, rfl⟩ := List.mem_map.mp hcs
    exact h part hpart
  · exact fun h => hne (List.map_eq_nil_iff.mp h)

theorem join_singleton {sep : Char} {part : String} : join sep [part] = part := by
  rw [← String.toList_inj, join, String.toList_intercalate, List.map_cons, List.map_nil,
    List.intercalate_singleton]

/-- A part without the separator is not split. -/
theorem split_of_not_mem {sep : Char} {s : String} (h : sep ∉ s.toList) : split sep s = [s] := by
  have hsplit : split sep (join sep [s]) = [s] :=
    split_join (List.cons_ne_nil _ _) fun part hpart => List.mem_singleton.mp hpart ▸ h
  rw [join_singleton] at hsplit
  exact hsplit

/-- A character of what was joined is the separator or one of the parts'. -/
theorem mem_join {sep c : Char} {parts : List String} (h : c ∈ (join sep parts).toList) :
    c = sep ∨ ∃ part ∈ parts, c ∈ part.toList := by
  rw [join, String.toList_intercalate, String.toList_singleton] at h
  induction parts with
  | nil => exact absurd h List.not_mem_nil
  | cons part parts ih =>
      cases parts with
      | nil =>
          rw [List.map_cons, List.map_nil, List.intercalate_singleton] at h
          exact .inr ⟨part, List.mem_singleton_self _, h⟩
      | cons next parts =>
          rw [List.map_cons, List.map_cons, List.intercalate_cons_cons, List.append_assoc,
            List.mem_append, List.mem_append, List.mem_singleton] at h
          rcases h with h | h | h
          · exact .inr ⟨part, List.mem_cons_self, h⟩
          · exact .inl h
          · rcases ih h with hsep | ⟨other, hother, hc⟩
            · exact .inl hsep
            · exact .inr ⟨other, List.mem_cons_of_mem _ hother, hc⟩

/--
`s.split(sep)`, for a separator of any length but none, with what has been read of a part in front.
Of a separator that was found `skip` characters are still to be passed over.
-/
def splitText (sep : List Char) : Nat → List Char → List Char → List (List Char)
  | _, part, [] => [part]
  | skip + 1, part, _ :: s => splitText sep skip part s
  | 0, part, c :: s =>
      if sep.isPrefixOf (c :: s) then part :: splitText sep (sep.length - 1) [] s
      else splitText sep 0 (part ++ [c]) s

theorem splitText_skip (sep part s t : List Char) :
    splitText sep s.length part (s ++ t) = splitText sep 0 part t := by
  induction s with
  | nil => rfl
  | cons c s ih => exact ih

/-- A separator is found where it stands, if it does not begin earlier. -/
theorem splitText_append {first : Char} {rest part s : List Char} (h : first ∉ s) (t : List Char) :
    splitText (first :: rest) 0 part (s ++ (first :: rest ++ t))
      = (part ++ s) :: splitText (first :: rest) 0 [] t := by
  induction s generalizing part with
  | nil =>
      rw [List.nil_append, List.append_nil, List.cons_append, splitText, if_pos]
      · exact congrArg (part :: ·) (splitText_skip _ _ rest t)
      · exact List.isPrefixOf_iff_prefix.mpr (List.prefix_append (first :: rest) t)
  | cons c s ih =>
      obtain ⟨hc, hs⟩ := not_or.mp (mt List.mem_cons.mpr h)
      rw [List.cons_append, splitText, if_neg, ih hs, List.append_assoc]
      · rfl
      · intro hprefix
        exact hc (List.cons_prefix_cons.mp (List.isPrefixOf_iff_prefix.mp hprefix)).1

/-- Text in which it does not begin is not split. -/
theorem splitText_none {first : Char} {rest part s : List Char} (h : first ∉ s) :
    splitText (first :: rest) 0 part s = [part ++ s] := by
  induction s generalizing part with
  | nil => rw [splitText, List.append_nil]
  | cons c s ih =>
      obtain ⟨hc, hs⟩ := not_or.mp (mt List.mem_cons.mpr h)
      rw [splitText, if_neg, ih hs, List.append_assoc]
      · rfl
      · intro hprefix
        exact hc (List.cons_prefix_cons.mp (List.isPrefixOf_iff_prefix.mp hprefix)).1

end JsText
