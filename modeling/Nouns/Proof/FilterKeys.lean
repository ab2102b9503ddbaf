import Mathlib.Data.Set.Basic
import Nouns.Webapp.LogParsing

/-!
# Filters as keys

A filter is kept under its key and read back from it when the chain is asked. What a filter
asks for is an address and, for each position, the topics it admits. The key of a filter
reads back to one that asks for the same if every position it lists has a topic or
alternatives. A wildcard is written as a null character and read back as that topic, and
no topics at all as one empty topic: both then admit no topic there is.
-/

namespace Nouns.Webapp

open JsText

/-! ## What a filter asks for -/

/-- The topics an entry admits. -/
def Topic.admits : Topic → Set String
  | .any => Set.univ
  | .one topic => {topic}
  | .oneOf topics => {topic | topic ∈ topics}

/-- The topics a filter admits at a position. It admits any where it has no entry. -/
def EventFilter.admits (f : EventFilter) (i : Nat) : Set String :=
  match (f.topics.getD [])[i]? with
  | none => Set.univ
  | some topic => topic.admits

/-- Two filters that match the same logs. -/
structure SameLogs (f g : EventFilter) : Prop where
  address : g.address = f.address
  topics : ∀ i, g.admits i = f.admits i

/-- `0x` and hexadecimal digits. -/
def IsHex (s : String) : Prop :=
  s.toList.take 2 = ['0', 'x'] ∧ (s.toList.drop 2).all isHexDigit = true

instance (s : String) : Decidable (IsHex s) :=
  inferInstanceAs (Decidable (s.toList.take 2 = ['0', 'x'] ∧ (s.toList.drop 2).all isHexDigit = true))

/-- An entry of hexadecimal topics; alternatives there is at least one of. -/
def Topic.Hex : Topic → Prop
  | .any => True
  | .one topic => IsHex topic
  | .oneOf topics => topics ≠ [] ∧ ∀ topic ∈ topics, IsHex topic

instance (t : Topic) : Decidable t.Hex :=
  match t with
  | .any => inferInstanceAs (Decidable True)
  | .one topic => inferInstanceAs (Decidable (IsHex topic))
  | .oneOf topics => inferInstanceAs (Decidable (topics ≠ [] ∧ ∀ topic ∈ topics, IsHex topic))

/-- A filter of a hexadecimal address and hexadecimal topics. -/
def EventFilter.Hex (f : EventFilter) : Prop :=
  (∀ address ∈ f.address, IsHex address) ∧ ∀ topic ∈ f.topics.getD [], topic.Hex

instance (f : EventFilter) : Decidable f.Hex :=
  inferInstanceAs (Decidable
    ((∀ address ∈ f.address, IsHex address) ∧ ∀ topic ∈ f.topics.getD [], topic.Hex))

theorem IsHex.ne_empty {s : String} (h : IsHex s) : s ≠ "" := by
  intro h0
  rw [h0] at h
  exact absurd h (by decide)

/-- A character that is neither `x` nor a digit is not in a hexadecimal string. -/
theorem IsHex.not_mem {s : String} (h : IsHex s) {c : Char} (hx : c ≠ 'x')
    (hc : isHexDigit c = false) : c ∉ s.toList := by
  intro hmem
  rw [← List.take_append_drop 2 s.toList, List.mem_append, h.1] at hmem
  rcases hmem with hmem | hmem
  · rcases List.mem_cons.mp hmem with rfl | hmem
    · exact absurd hc (by decide)
    · exact hx (List.mem_singleton.mp hmem)
  · rw [List.all_eq_true.mp h.2 c hmem] at hc
    exact absurd hc (by decide)

/-! ## What is read back -/

/-- The entry read back from an entry's key. -/
def Topic.readBack : Topic → Topic
  | .any => .one "\x00"
  | .one topic => .one topic
  | .oneOf [topic] => .one topic
  | .oneOf topics => .oneOf topics

theorem Topic.ofKey_toKey {t : Topic} (h : t.Hex) : Topic.ofKey t.toKey = t.readBack := by
  cases t with
  | any => rfl
  | one topic =>
      have h : IsHex topic := h
      rw [toKey, if_neg h.ne_empty, ofKey, split_of_not_mem (h.not_mem (by decide) (by decide))]
      rfl
  | oneOf topics =>
      obtain ⟨hne, hall⟩ := h
      rw [toKey, ofKey, split_join hne fun t ht => (hall t ht).not_mem (by decide) (by decide)]
      match topics with
      | [topic] => rfl
      | _ :: _ :: _ => rfl

/-- The characters of a key are hexadecimal, semicolons or null. -/
theorem Topic.not_mem_toKey {t : Topic} (h : t.Hex) {c : Char} (hx : c ≠ 'x')
    (hc : isHexDigit c = false) (hsemi : c ≠ ';') (hnull : c ≠ '\x00') : c ∉ t.toKey.toList := by
  cases t with
  | any =>
      intro hmem
      exact hnull (List.mem_singleton.mp hmem)
  | one topic =>
      have h : IsHex topic := h
      rw [toKey, if_neg h.ne_empty]
      exact h.not_mem hx hc
  | oneOf topics =>
      intro hmem
      rcases mem_join hmem with hsep | ⟨topic, htopic, hmem⟩
      · exact hsemi hsep
      · exact (h.2 topic htopic).not_mem hx hc hmem

/-- The topics read back from the key of a filter's topics. -/
theorem topics_readBack {topics : List Topic} (h : ∀ t ∈ topics, t.Hex) :
    (split '-' (join '-' (topics.map Topic.toKey))).map Topic.ofKey
      = if topics = [] then [.one ""] else topics.map Topic.readBack := by
  split
  · next h0 =>
      subst h0
      decide
  · next hne =>
      rw [split_join (fun h => hne (List.map_eq_nil_iff.mp h)), List.map_map]
      · exact List.map_congr_left fun t ht => Topic.ofKey_toKey (h t ht)
      · intro key hkey
        obtain ⟨t, ht, rfl⟩ := List.mem_map.mp hkey
        exact Topic.not_mem_toKey (h t ht) (by decide) (by decide) (by decide) (by decide)

/-- The filter read back from a filter's key. -/
def EventFilter.readBack (f : EventFilter) : EventFilter where
  address := f.address
  topics := some (if f.topics.getD [] = [] then [.one ""] else (f.topics.getD []).map Topic.readBack)

theorem keyToFilter_eq {f : EventFilter} (h : f.Hex) :
    keyToFilter (filterToKey f) = some f.readBack := by
  obtain ⟨hhex, htopics⟩ := h
  have haddress : ':' ∉ (f.address.getD "").toList := by
    cases hf : f.address with
    | none => exact List.not_mem_nil
    | some address => exact (hhex address hf).not_mem (by decide) (by decide)
  have hrest : ':' ∉ (join '-' ((f.topics.getD []).map Topic.toKey)).toList := by
    intro hmem
    rcases mem_join hmem with hsep | ⟨key, hkey, hmem⟩
    · exact absurd hsep (by decide)
    · obtain ⟨t, ht, rfl⟩ := List.mem_map.mp hkey
      exact Topic.not_mem_toKey (htopics t ht) (by decide) (by decide) (by decide) (by decide) hmem
  have hkey : filterToKey f
      = join ':' [f.address.getD "", join '-' ((f.topics.getD []).map Topic.toKey)] := by
    have hpart : (f.topics.map fun topics => join '-' (topics.map Topic.toKey)).getD ""
        = join '-' ((f.topics.getD []).map Topic.toKey) := by
      cases f.topics with
      | none => rfl
      | some topics => rfl
    rw [filterToKey, hpart]
    rfl
  -- no colon in the address or in the topics, so the key splits where it was joined
  have hsplit : split ':' (filterToKey f)
      = [f.address.getD "", join '-' ((f.topics.getD []).map Topic.toKey)] := by
    rw [hkey, split_join (List.cons_ne_nil _ _)]
    intro part hpart
    rcases List.mem_cons.mp hpart with rfl | hpart
    · exact haddress
    · rw [List.mem_singleton.mp hpart]
      exact hrest
  have hback : (if f.address.getD "" = "" then none else some (f.address.getD "")) = f.address := by
    cases hf : f.address with
    | none => rfl
    | some address => exact if_neg (hhex address hf).ne_empty
  rw [keyToFilter, hsplit]
  simp only [List.getElem?_cons_zero, List.getElem?_cons_succ, Option.bind_eq_bind, Option.bind_some,
    Option.pure_def, hback, topics_readBack htopics]
  rfl

/-! ## What is the same -/

/-- Alternatives admit the same when read back, and so does a topic; a wildcard does not. -/
theorem Topic.admits_readBack {t : Topic} : t.readBack.admits = t.admits ↔ t ≠ .any := by
  match t with
  | .any =>
      refine iff_of_false ?_ (fun h => h rfl)
      intro h
      have hmem : "" ∈ Topic.any.readBack.admits := h ▸ Set.mem_univ _
      exact absurd (Set.mem_singleton_iff.mp hmem) (by decide)
  | .one topic => exact iff_of_true rfl (by simp)
  | .oneOf [] => exact iff_of_true rfl (by simp)
  | .oneOf [topic] =>
      refine iff_of_true (Set.ext ?_) (by simp)
      intro t
      show t = topic ↔ t ∈ [topic]
      exact List.mem_singleton.symm
  | .oneOf (_ :: _ :: _) => exact iff_of_true rfl (by simp)

/-- No topics read back to one empty topic. -/
theorem not_sameLogs_nil {f : EventFilter} (h : f.topics.getD [] = []) : ¬ SameLogs f f.readBack := by
  intro hsame
  have hzero := hsame.topics 0
  have hany : f.admits 0 = Set.univ := by
    rw [EventFilter.admits, h]
    rfl
  have hone : f.readBack.admits 0 = {""} := by
    rw [EventFilter.admits, EventFilter.readBack, if_pos h]
    rfl
  have hmem : "0x" ∈ f.readBack.admits 0 := by
    rw [hzero, hany]
    exact Set.mem_univ _
  rw [hone] at hmem
  exact absurd (Set.mem_singleton_iff.mp hmem) (by decide)

/--
**When a filter survives its key.** For every filter of hexadecimal strings, its key reads back,
and what is read back matches the same logs exactly if the filter lists topics, at least one, and
none of them is a wildcard.
-/
theorem keyToFilter_filterToKey (f : EventFilter) (hf : f.Hex) :
    (∃ g, keyToFilter (filterToKey f) = some g ∧ SameLogs f g)
      ↔ ∃ topics, f.topics = some topics ∧ topics ≠ [] ∧ Topic.any ∉ topics := by
  rw [keyToFilter_eq hf]
  constructor
  · intro h
    obtain ⟨g, hg, hsame⟩ := h
    obtain rfl := Option.some.inj hg
    have hne : f.topics.getD [] ≠ [] := fun h0 => not_sameLogs_nil h0 hsame
    cases hts : f.topics with
    | none =>
        rw [hts] at hne
        exact absurd rfl hne
    | some topics =>
        rw [hts, Option.getD_some] at hne
        refine ⟨topics, rfl, hne, ?_⟩
        intro hany
        -- a wildcard comes back as a topic of one null character, which is none that a log has
        obtain ⟨i, hi⟩ := List.getElem?_of_mem hany
        have hat := hsame.topics i
        simp only [EventFilter.admits, EventFilter.readBack, hts, Option.getD_some, if_neg hne,
          List.getElem?_map, hi, Option.map_some] at hat
        exact Topic.admits_readBack.mp hat rfl
  · intro h
    obtain ⟨topics, hts, hne, hany⟩ := h
    refine ⟨_, rfl, rfl, ?_⟩
    intro i
    simp only [EventFilter.admits, EventFilter.readBack, hts, Option.getD_some, if_neg hne,
      List.getElem?_map]
    cases hi : topics[i]? with
    | none => rfl
    | some t => exact Topic.admits_readBack.mpr fun h => hany (h ▸ List.mem_of_getElem? hi)

/-- The transfers of one token to either of two accounts. -/
def transferFilter : EventFilter where
  address := some "0x9c"
  topics := some [.one "0xdd", .oneOf ["0x01", "0x02"]]

theorem keyToFilter_transferFilter :
    ∃ g, keyToFilter (filterToKey transferFilter) = some g ∧ SameLogs transferFilter g :=
  (keyToFilter_filterToKey transferFilter (by decide)).mpr ⟨_, rfl, by decide, by decide⟩

/-- The transfers of one token from anybody to one account. -/
def wildcardFilter : EventFilter where
  address := some "0x9c"
  topics := some [.one "0xdd", .any, .one "0x02"]

/-- What is read back asks for transfers from the null character. -/
theorem not_keyToFilter_wildcardFilter :
    wildcardFilter.Hex
    ∧ keyToFilter (filterToKey wildcardFilter)
      = some ⟨some "0x9c", some [.one "0xdd", .one "\x00", .one "0x02"]⟩
    ∧ ¬ ∃ g, keyToFilter (filterToKey wildcardFilter) = some g ∧ SameLogs wildcardFilter g := by
  have hhex : wildcardFilter.Hex := by decide
  refine ⟨hhex, keyToFilter_eq hhex, ?_⟩
  intro h
  obtain ⟨g, hg, hsame⟩ := h
  rw [keyToFilter_eq hhex] at hg
  obtain rfl := Option.some.inj hg
  have hat : Topic.any.readBack.admits = Topic.any.admits := hsame.topics 1
  exact Topic.admits_readBack.mp hat rfl

end Nouns.Webapp
