import Nouns.Lib.JsText

/-!
# Objects of strings in JSON

`JSON.stringify` and `JSON.parse` of objects whose members are strings. There may be blanks
between the tokens of a text. What is written is read back, whatever is in the strings.
-/

namespace Json

open JsText

/-! ## Strings -/

/-- A character within quotes. -/
def escape (c : Char) : List Char :=
  if c = '"' then ['\\', '"']
  else if c = '\\' then ['\\', '\\']
  else if c = '\x08' then ['\\', 'b']
  else if c = '\x0c' then ['\\', 'f']
  else if c = '\n' then ['\\', 'n']
  else if c = '\r' then ['\\', 'r']
  else if c = '\t' then ['\\', 't']
  else if c.toNat < 32 then '\\' :: 'u' :: '0' :: '0' :: hexByte c.toNat
  else [c]

/-- A string in quotes. -/
def quote (s : List Char) : List Char := '"' :: (s.flatMap escape ++ ['"'])

/-- What a character behind a backslash stands for. -/
def unescape (e : Char) : Option Char :=
  if e = '"' ∨ e = '\\' ∨ e = '/' then some e
  else if e = 'b' then some '\x08'
  else if e = 'f' then some '\x0c'
  else if e = 'n' then some '\n'
  else if e = 'r' then some '\r'
  else if e = 't' then some '\t'
  else none

/-- A character by its number, of four digits. Half of a pair is no character. -/
def unicode (digits : List Char) : Option Char :=
  if digits.all isHexDigit ∧ (ofHex digits).isValidChar then some (Char.ofNat (ofHex digits))
  else none

/-- A string behind its first quote, and what comes after it. -/
def readBody : List Char → Option (List Char × List Char)
  | [] => none
  | c :: rest =>
      if c = '"' then some ([], rest)
      else if c = '\\' then
        match rest with
        | 'u' :: d₁ :: d₂ :: d₃ :: d₄ :: rest => do
            let read ← unicode [d₁, d₂, d₃, d₄]
            let (s, rest) ← readBody rest
            return (read :: s, rest)
        | e :: rest => do
            let read ← unescape e
            let (s, rest) ← readBody rest
            return (read :: s, rest)
        | [] => none
      else if c.toNat < 32 then none
      else do
        let (s, rest) ← readBody rest
        return (c :: s, rest)

/-- A character that needs no escape. -/
def Plain (c : Char) : Prop := 32 ≤ c.toNat ∧ c ≠ '"' ∧ c ≠ '\\'

instance (c : Char) : Decidable (Plain c) := inferInstanceAs (Decidable (_ ∧ _ ∧ _))

theorem escape_plain {c : Char} (h : Plain c) : escape c = [c] := by
  obtain ⟨hlow, hquote, hback⟩ := h
  have hne : ∀ b : Char, b.toNat < 32 → c ≠ b := by
    intro b hb heq
    subst heq
    omega
  unfold escape
  rw [if_neg hquote, if_neg hback, if_neg (hne _ (by decide)), if_neg (hne _ (by decide)),
    if_neg (hne _ (by decide)), if_neg (hne _ (by decide)), if_neg (hne _ (by decide)),
    if_neg (by omega)]

/-- Plain text stands in quotes as it is. -/
theorem quote_plain {s : List Char} (h : ∀ c ∈ s, Plain c) : quote s = '"' :: (s ++ ['"']) := by
  have hall : s.flatMap escape = s := by
    induction s with
    | nil => rfl
    | cons c s ih =>
        obtain ⟨hc, hs⟩ := List.forall_mem_cons.mp h
        rw [List.flatMap_cons, escape_plain hc, ih hs]
        rfl
  rw [quote, hall]

theorem readBody_plain {c : Char} (h : Plain c) (rest : List Char) :
    readBody (c :: rest) = (readBody rest).map fun p => (c :: p.1, p.2) := by
  obtain ⟨hlow, hquote, hback⟩ := h
  rw [readBody.eq_def]
  dsimp only
  rw [if_neg hquote, if_neg hback, if_neg (by omega)]
  cases readBody rest <;> rfl

/-- A character by its number is read back. -/
theorem unicode_hexByte {n : Nat} (h : n < 32) :
    unicode ('0' :: '0' :: hexByte n) = some (Char.ofNat n) := by
  have hall : ∀ n : Fin 32, unicode ('0' :: '0' :: hexByte n) = some (Char.ofNat n) := by
    decide +kernel
  exact hall ⟨n, h⟩

/-- An escaped character is read back. -/
theorem readBody_escape (c : Char) (rest : List Char) :
    readBody (escape c ++ rest) = (readBody rest).map fun p => (c :: p.1, p.2) := by
  have hsimple : ∀ e, e ≠ 'u' → ∀ b, unescape e = some b →
      readBody ('\\' :: e :: rest) = (readBody rest).map fun p => (b :: p.1, p.2) := by
    intro e hu b hb
    rw [readBody, if_neg (by decide), if_pos rfl, hb]
    · cases readBody rest <;> rfl
    · exact fun _ _ _ _ _ h => absurd h hu
  by_cases hplain : Plain c
  · rw [escape_plain hplain]
    exact readBody_plain hplain rest
  unfold escape
  split
  · next h =>
      subst h
      exact hsimple '"' (by decide) _ rfl
  split
  · next h =>
      subst h
      exact hsimple '\\' (by decide) _ rfl
  split
  · next h =>
      subst h
      exact hsimple 'b' (by decide) _ rfl
  split
  · next h =>
      subst h
      exact hsimple 'f' (by decide) _ rfl
  split
  · next h =>
      subst h
      exact hsimple 'n' (by decide) _ rfl
  split
  · next h =>
      subst h
      exact hsimple 'r' (by decide) _ rfl
  split
  · next h =>
      subst h
      exact hsimple 't' (by decide) _ rfl
  split
  · next h =>
      show readBody ('\\' :: 'u' :: '0' :: '0' :: (c.toNat / 16).digitChar
        :: (c.toNat % 16).digitChar :: rest) = _
      have hread := unicode_hexByte h
      unfold hexByte at hread
      rw [readBody, if_neg (by decide), if_pos rfl]
      simp only [hread, Char.ofNat_toNat]
      cases readBody rest <;> rfl
  · next hquote hback _ _ _ _ _ hlow => exact absurd ⟨Nat.le_of_not_lt hlow, hquote, hback⟩ hplain

theorem readBody_escaped (s rest : List Char) :
    readBody (s.flatMap escape ++ '"' :: rest) = some (s, rest) := by
  induction s with
  | nil =>
      rw [List.flatMap_nil, List.nil_append, readBody.eq_def]
      rfl
  | cons c s ih =>
      rw [List.flatMap_cons, List.append_assoc, readBody_escape, ih]
      rfl

/-! ## Members -/

def isBlank (c : Char) : Bool := c = ' ' || c = '\t' || c = '\n' || c = '\r'

def skip (s : List Char) : List Char := s.dropWhile isBlank

theorem skip_append {blanks : List Char} (h : ∀ c ∈ blanks, isBlank c = true) {c : Char}
    (hc : isBlank c = false) (rest : List Char) : skip (blanks ++ c :: rest) = c :: rest := by
  unfold skip
  rw [List.dropWhile_append_of_pos h, List.dropWhile_cons_of_neg (by rw [hc]; decide)]

theorem skip_cons {c : Char} (hc : isBlank c = false) (rest : List Char) :
    skip (c :: rest) = c :: rest :=
  List.dropWhile_cons_of_neg (by rw [hc]; decide)

/-- A string, and what comes after it. -/
def readString (s : List Char) : Option (List Char × List Char) :=
  match skip s with
  | '"' :: rest => readBody rest
  | _ => none

theorem readString_quote {blanks : List Char} (h : ∀ c ∈ blanks, isBlank c = true)
    (s rest : List Char) : readString (blanks ++ (quote s ++ rest)) = some (s, rest) := by
  have hskip : skip (blanks ++ (quote s ++ rest)) = '"' :: (s.flatMap escape ++ '"' :: rest) := by
    rw [quote, List.cons_append, List.append_assoc]
    exact skip_append h rfl _
  unfold readString
  rw [hskip]
  exact readBody_escaped s rest

/-- The members up to the closing brace. Every one takes a character at least. -/
def readMembers : Nat → List Char → Option (List (String × String) × List Char)
  | 0, _ => none
  | fuel + 1, s => do
      let (key, s) ← readString s
      match skip s with
      | ':' :: s =>
          let (value, s) ← readString s
          let m := (String.ofList key, String.ofList value)
          match skip s with
          | ',' :: s =>
              let (members, s) ← readMembers fuel s
              return (m :: members, s)
          | '\x7d' :: s => return ([m], s)
          | _ => none
      | _ => none

/-- `JSON.parse(text)`, of the text of an object whose members are strings -/
def parse (text : List Char) : Option (List (String × String)) :=
  match skip text with
  | '\x7b' :: s =>
      match skip s with
      | '\x7d' :: s => if skip s = [] then some [] else none
      | _ => do
          let (members, s) ← readMembers s.length s
          if skip s = [] then some members else none
  | _ => none

/-- `o[key]`, of the members of `o`; a later member hides an earlier one -/
def get (members : List (String × String)) (key : String) : Option String :=
  members.reverse.lookup key

/-- A member as it may be written, with blanks in front of the key and of the value. -/
structure Member where
  key : String
  value : String
  beforeKey : List Char
  beforeValue : List Char

structure Member.Spaced (m : Member) : Prop where
  beforeKey : ∀ c ∈ m.beforeKey, isBlank c = true
  beforeValue : ∀ c ∈ m.beforeValue, isBlank c = true

def Member.text (m : Member) : List Char :=
  m.beforeKey ++ (quote m.key.toList ++ ':' :: (m.beforeValue ++ quote m.value.toList))

def membersText : List Member → List Char
  | [] => []
  | [m] => m.text
  | m :: ms => m.text ++ ',' :: membersText ms

/-- The text of an object. -/
def objectText (ms : List Member) : List Char := '\x7b' :: (membersText ms ++ ['\x7d'])

theorem readMembers_text {m : Member} (h : m.Spaced) (fuel : Nat) (rest : List Char) :
    readMembers (fuel + 1) (m.text ++ rest) = (match skip rest with
      | ',' :: s => do
          let (members, s) ← readMembers fuel s
          return ((m.key, m.value) :: members, s)
      | '\x7d' :: s => some ([(m.key, m.value)], s)
      | _ => none) := by
  have htext : m.text ++ rest = m.beforeKey ++ (quote m.key.toList
      ++ ':' :: (m.beforeValue ++ (quote m.value.toList ++ rest))) := by
    simp only [Member.text, List.append_assoc, List.cons_append]
  rw [htext, readMembers, readString_quote h.beforeKey]
  simp only [Option.bind_eq_bind, Option.bind_some, skip_cons (c := ':') rfl,
    readString_quote h.beforeValue, String.ofList_toList]
  rfl

theorem readMembers_membersText {ms : List Member} (hne : ms ≠ []) (h : ∀ m ∈ ms, m.Spaced)
    {fuel : Nat} (hfuel : ms.length ≤ fuel) (rest : List Char) :
    readMembers fuel (membersText ms ++ '\x7d' :: rest)
      = some (ms.map fun m => (m.key, m.value), rest) := by
  induction ms generalizing fuel with
  | nil => exact absurd rfl hne
  | cons m ms ih =>
      obtain ⟨hm, hms⟩ := List.forall_mem_cons.mp h
      obtain ⟨fuel, rfl⟩ := Nat.exists_eq_add_of_le' (Nat.le_trans (Nat.le_add_left 1 _) hfuel)
      cases ms with
      | nil =>
          rw [membersText, readMembers_text hm, skip_cons rfl]
          rfl
      | cons next ms =>
          have hrest := ih (List.cons_ne_nil _ _) hms (Nat.le_of_succ_le_succ hfuel)
          rw [membersText, List.append_assoc, readMembers_text hm, List.cons_append,
            skip_cons rfl]
          · simp only [hrest]
            rfl
          · exact nofun

theorem length_membersText (ms : List Member) : ms.length ≤ (membersText ms).length := by
  induction ms with
  | nil => exact Nat.le_refl 0
  | cons m ms ih =>
      have hm : 1 ≤ m.text.length := by
        simp only [Member.text, quote, List.length_append, List.length_cons]
        omega
      cases ms with
      | nil => exact hm
      | cons next ms =>
          have htext : membersText (m :: next :: ms) = m.text ++ ',' :: membersText (next :: ms) := rfl
          rw [htext, List.length_append, List.length_cons, List.length_cons (a := ',')]
          omega

/-- The text of members begins with a quote. -/
theorem membersText_cons (m : Member) (ms : List Member) :
    ∃ rest, membersText (m :: ms) = m.beforeKey ++ '"' :: rest := by
  have hm : m.text = m.beforeKey ++ '"' :: ((m.key.toList.flatMap escape ++ ['"'])
      ++ ':' :: (m.beforeValue ++ quote m.value.toList)) := rfl
  cases ms with
  | nil => exact ⟨_, hm⟩
  | cons next ms =>
      rw [membersText, hm, List.append_assoc]
      · exact ⟨_, rfl⟩
      · exact nofun

/-- **What is written is read back.** -/
theorem parse_objectText {ms : List Member} (h : ∀ m ∈ ms, m.Spaced) :
    parse (objectText ms) = some (ms.map fun m => (m.key, m.value)) := by
  unfold parse objectText
  rw [skip_cons rfl]
  cases ms with
  | nil => rfl
  | cons m ms =>
      have hread : readMembers (membersText (m :: ms) ++ ['\x7d']).length
          (membersText (m :: ms) ++ ['\x7d']) = some ((m :: ms).map fun m => (m.key, m.value), []) := by
        refine readMembers_membersText (List.cons_ne_nil m ms) h ?_ []
        rw [List.length_append]
        exact Nat.le_add_right_of_le (length_membersText _)
      have hfirst : ∃ rest, skip (membersText (m :: ms) ++ ['\x7d']) = '"' :: rest := by
        obtain ⟨rest, htext⟩ := membersText_cons m ms
        rw [htext, List.append_assoc]
        exact ⟨_, skip_append (h m List.mem_cons_self).beforeKey rfl _⟩
      obtain ⟨rest, hfirst⟩ := hfirst
      simp only [hfirst, hread]
      rfl

/-- `JSON.stringify` -/
def stringify (members : List (String × String)) : List Char :=
  objectText (members.map fun p => ⟨p.1, p.2, [], []⟩)

end Json
