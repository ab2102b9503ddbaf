import Nouns.Proof.FilterKeys
import Nouns.Webapp.Logs

/-!
# What the web app shows of the logs

The answers of the provider come in any order, and are kept under the key of a filter that was
read back from a key. Still, what `useLogs` shows as synced are the logs of its own filter, as
of the current block or a later one: no answer replaces a later one, and the key of what is read
back from a key is that key. No logs are asked for twice as of the same block, and once
everything has been answered nothing is left loading.
-/

namespace Nouns.Webapp

open JsText

/-! ## Keys of filters that were read back -/

/-- A filter of hexadecimal strings with a topic at least. -/
def EventFilter.Readable (f : EventFilter) : Prop := f.Hex ∧ f.topics.getD [] ≠ []

/-- A readable filter without wildcards. -/
def EventFilter.Plain (f : EventFilter) : Prop := f.Readable ∧ .any ∉ f.topics.getD []

instance (f : EventFilter) : Decidable f.Readable :=
  inferInstanceAs (Decidable (f.Hex ∧ f.topics.getD [] ≠ []))

instance (f : EventFilter) : Decidable f.Plain :=
  inferInstanceAs (Decidable (f.Readable ∧ .any ∉ f.topics.getD []))

variable {f g : EventFilter} {k : String} {b n : Nat}

theorem Topic.toKey_readBack {t : Topic} (h : t.Hex) : t.readBack.toKey = t.toKey := by
  match t with
  | .any => rfl
  | .one _ => rfl
  | .oneOf [] => exact absurd rfl h.1
  | .oneOf [topic] => exact if_neg (h.2 topic List.mem_cons_self).ne_empty
  | .oneOf (_ :: _ :: _) => rfl

theorem filterToKey_readBack (h : f.Readable) : filterToKey f.readBack = filterToKey f := by
  obtain ⟨⟨-, htopics⟩, hne⟩ := h
  have hkeys : ((f.topics.getD []).map Topic.readBack).map Topic.toKey
      = (f.topics.getD []).map Topic.toKey := by
    rw [List.map_map]
    exact List.map_congr_left fun t ht => Topic.toKey_readBack (htopics t ht)
  unfold filterToKey EventFilter.readBack
  simp only [if_neg hne, Option.map_some, Option.getD_some, hkeys]
  cases hts : f.topics with
  | none => exact absurd (by rw [hts]; rfl) hne
  | some topics => rfl

/-- What is read back from a plain filter's key matches the same logs. -/
theorem sameLogs_readBack (h : f.Plain) : SameLogs f f.readBack := by
  obtain ⟨⟨-, hne⟩, hany⟩ := h
  refine ⟨rfl, ?_⟩
  intro i
  simp only [EventFilter.admits, EventFilter.readBack, Option.getD_some, if_neg hne,
    List.getElem?_map]
  cases hi : (f.topics.getD [])[i]? with
  | none => rfl
  | some t => exact Topic.admits_readBack.mpr fun h => hany (h ▸ List.mem_of_getElem? hi)

/-! ## What is kept of a filter -/

/-- A key from which a filter is read back whose key it is. -/
def ReadsBack (k : String) (f : EventFilter) : Prop := keyToFilter k = some f ∧ filterToKey f = k

theorem readsBack_readBack (h : f.Readable) : ReadsBack (filterToKey f) f.readBack :=
  ⟨keyToFilter_eq h.1, filterToKey_readBack h⟩

namespace LogsState

variable {state : LogsState} {s : FilterState}

theorem get?_set (state : LogsState) (k k' : String) (s : FilterState) :
    (state.set k s).get? k' = if k' = k then some s else state.get? k' := by
  split
  · next h =>
      subst h
      exact JsMap.get?_set_self
  · next h => exact JsMap.get?_set_of_ne h

/-- Change what is kept under a key, if anything is. -/
theorem get?_modify {key : String} {c : FilterState → FilterState} :
    (match state.get? key with
      | none => state
      | some s => state.set key (c s)).get? k
    = if k = key then (state.get? k).map c else state.get? k := by
  cases h : state.get? key with
  | none =>
      dsimp only
      split
      · next hk => rw [hk, h]; rfl
      · rfl
  | some s =>
      dsimp only
      rw [get?_set]
      split
      · next hk => rw [hk, h]; rfl
      · rfl

theorem get?_addListener : (state.addListener f).get? k
    = if k = filterToKey f then
        some (match state.get? k with
          | none => ⟨1, none, none⟩
          | some s => { s with listeners := s.listeners + 1 })
      else state.get? k := by
  unfold addListener
  dsimp only
  cases h : state.get? (filterToKey f) with
  | none | some =>
      rw [get?_set]
      split
      · next hk => rw [hk, h]
      · rfl

theorem get?_removeListener : (state.removeListener f).get? k
    = if k = filterToKey f then
        (state.get? k).map fun s => { s with listeners := s.listeners - 1 }
      else state.get? k := get?_modify

theorem get?_fetchingLogs {fs : List EventFilter} : (state.fetchingLogs fs b).get? k
    = if k ∈ fs.map filterToKey then
        (state.get? k).map fun s => { s with fetchingBlockNumber := some b }
      else state.get? k := by
  induction fs generalizing state with
  | nil => rfl
  | cons f fs ih =>
      have hfirst : (state.fetchingLogs [f] b).get? k
          = if k = filterToKey f then
              (state.get? k).map fun s => { s with fetchingBlockNumber := some b }
            else state.get? k := get?_modify
      show ((state.fetchingLogs [f] b).fetchingLogs fs b).get? k = _
      rw [ih, hfirst, List.map_cons]
      by_cases hk : k = filterToKey f
      · have hmem : k ∈ filterToKey f :: fs.map filterToKey := hk ▸ List.mem_cons_self
        rw [if_pos hk, if_pos hmem]
        split
        · rw [Option.map_map]
          rfl
        · rfl
      · rw [if_neg hk]
        simp only [List.mem_cons, hk, false_or]

theorem get?_keepResults {r : LogResults} : (state.keepResults f r).get? k
    = if k = filterToKey f then
        (state.get? k).map fun s =>
          if s.results.any (fun r' => r'.blockNumber > r.blockNumber) then s
          else { s with results := some r }
      else state.get? k := by
  unfold keepResults
  dsimp only
  cases h : state.get? (filterToKey f) with
  | none =>
      dsimp only
      split
      · next hk => rw [hk, h]; rfl
      · rfl
  | some s =>
      dsimp only
      split
      · next hlater =>
          split
          · next hk => rw [hk, h, Option.map_some, if_pos hlater]
          · rfl
      · next hlater =>
          rw [get?_set]
          split
          · next hk => rw [hk, h, Option.map_some, if_neg hlater]
          · rfl

end LogsState

/-! ## Histories -/

/-- The filters read back from keys that read back. -/
theorem mapM_keyToFilter {ks : List String} {fs : List EventFilter}
    (h : ks.mapM keyToFilter = some fs) (hks : ∀ k ∈ ks, ∃ f, ReadsBack k f) :
    fs.map filterToKey = ks ∧ ∀ f ∈ fs, ReadsBack (filterToKey f) f := by
  induction ks generalizing fs with
  | nil =>
      obtain rfl := Option.some.inj h
      exact ⟨rfl, fun f hf => absurd hf List.not_mem_nil⟩
  | cons k ks ih =>
      obtain ⟨f, hback, hkey⟩ := hks k List.mem_cons_self
      rw [List.mapM_cons, hback] at h
      obtain ⟨fs', hfs', heq⟩ : ∃ fs', ks.mapM keyToFilter = some fs' ∧ some (f :: fs') = some fs :=
        Option.bind_eq_some_iff.mp h
      obtain rfl := Option.some.inj heq
      obtain ⟨hmap, hall⟩ := ih hfs' fun k' hk' => hks k' (List.mem_cons_of_mem _ hk')
      refine ⟨by rw [List.map_cons, hmap, hkey], ?_⟩
      intro g hg
      rcases List.mem_cons.mp hg with rfl | hg
      · exact ⟨by rw [hkey, hback], rfl⟩
      · exact hall g hg

namespace LogCache

variable {getLogs : EventFilter → Nat → List Log} {x y : LogCache}

/-- What holds along every history in which only readable filters are used. -/
structure CacheInv (getLogs : EventFilter → Nat → List Log) (x : LogCache) : Prop where
  stable : ∀ k s, x.logs.get? k = some s → ∃ f, ReadsBack k f
  right : ∀ k s r logs, x.logs.get? k = some s → s.results = some r → r.logs = some logs →
    ∃ f, ReadsBack k f ∧ logs = getLogs f r.blockNumber
  once : x.asked.Nodup
  asked : ∀ f b, (f, b) ∈ x.asked →
    ∃ s n, x.logs.get? (filterToKey f) = some s ∧ s.fetchingBlockNumber = some n ∧ b ≤ n
  requested : ∀ f b, (f, b) ∈ x.requests → ReadsBack (filterToKey f) f
  due : ∀ b fs, x.effect = some (b, fs) → (fs.map filterToKey).Nodup
    ∧ ∀ f ∈ fs, ReadsBack (filterToKey f) f ∧ ∃ s, x.logs.get? (filterToKey f) = some s
      ∧ ∀ n, s.fetchingBlockNumber = some n → n < b
  waiting : ∀ k s n, x.logs.get? k = some s → s.fetchingBlockNumber = some n →
    (∃ f, ReadsBack k f ∧ (f, n) ∈ x.requests) ∨ ∃ r, s.results = some r ∧ n ≤ r.blockNumber

/-- What is kept of a filter is the same but for its listeners, or nothing has been fetched. -/
def Listens (s : Option FilterState) (s' : FilterState) : Prop :=
  s'.fetchingBlockNumber = s.bind FilterState.fetchingBlockNumber
    ∧ s'.results = s.bind FilterState.results

/-- Listeners come and go. -/
theorem CacheInv.listen (h : CacheInv getLogs x) {logs : LogsState}
    (hnew : ∀ k s', logs.get? k = some s' → Listens (x.logs.get? k) s' ∧ ∃ f, ReadsBack k f)
    (hkept : ∀ k s, x.logs.get? k = some s → ∃ s', logs.get? k = some s') :
    CacheInv getLogs { x with logs := logs } := by
  have hfetching : ∀ k s, x.logs.get? k = some s →
      ∃ s', logs.get? k = some s' ∧ s'.fetchingBlockNumber = s.fetchingBlockNumber := by
    intro k s hs
    obtain ⟨s', hs'⟩ := hkept k s hs
    refine ⟨s', hs', ?_⟩
    have hlisten := (hnew k s' hs').1.1
    rwa [hs] at hlisten
  refine ⟨fun k s' hs' => (hnew k s' hs').2, ?_, h.once, ?_, h.requested, ?_, ?_⟩
  · intro k s' r l hs' hr hl
    have hlisten := (hnew k s' hs').1.2
    rw [hr] at hlisten
    obtain ⟨s, hs, hsr⟩ := Option.bind_eq_some_iff.mp hlisten.symm
    exact h.right k s r l hs hsr hl
  · intro f b hf
    obtain ⟨s, n, hs, hn, hle⟩ := h.asked f b hf
    obtain ⟨s', hs', heq⟩ := hfetching _ s hs
    exact ⟨s', n, hs', heq.trans hn, hle⟩
  · intro b fs heffect
    obtain ⟨hnodup, hall⟩ := h.due b fs heffect
    refine ⟨hnodup, ?_⟩
    intro f hf
    obtain ⟨hback, s, hs, hlt⟩ := hall f hf
    obtain ⟨s', hs', heq⟩ := hfetching _ s hs
    exact ⟨hback, s', hs', fun n hn => hlt n (heq.symm.trans hn)⟩
  · intro k s' n hs' hn
    obtain ⟨⟨hsame, hresults⟩, -⟩ := hnew k s' hs'
    rw [hn] at hsame
    obtain ⟨s, hs, hsn⟩ := Option.bind_eq_some_iff.mp hsame.symm
    rcases h.waiting k s n hs hsn with hopen | ⟨r, hr, hle⟩
    · exact .inl hopen
    · refine .inr ⟨r, ?_, hle⟩
      rw [hresults, hs]
      exact hr

theorem CacheInv.mount (h : CacheInv getLogs x) (hf : f.Readable) :
    CacheInv getLogs { x with logs := x.logs.addListener f } := by
  refine h.listen ?_ ?_
  · intro k s' hs'
    rw [LogsState.get?_addListener] at hs'
    split at hs'
    · next hk =>
        obtain rfl := Option.some.inj hs'
        refine ⟨?_, _, hk ▸ readsBack_readBack hf⟩
        cases x.logs.get? k with
        | none | some => exact ⟨rfl, rfl⟩
    · rw [hs']
      exact ⟨⟨rfl, rfl⟩, h.stable k s' hs'⟩
  · intro k s hs
    rw [LogsState.get?_addListener]
    split
    · exact ⟨_, rfl⟩
    · exact ⟨s, hs⟩

theorem CacheInv.unmount (h : CacheInv getLogs x) :
    CacheInv getLogs { x with logs := x.logs.removeListener f } := by
  refine h.listen ?_ ?_
  · intro k s' hs'
    rw [LogsState.get?_removeListener] at hs'
    split at hs'
    · obtain ⟨s, hs, rfl⟩ := Option.map_eq_some_iff.mp hs'
      rw [hs]
      exact ⟨⟨rfl, rfl⟩, h.stable k s hs⟩
    · rw [hs']
      exact ⟨⟨rfl, rfl⟩, h.stable k s' hs'⟩
  · intro k s hs
    rw [LogsState.get?_removeListener, hs]
    split
    · exact ⟨_, rfl⟩
    · exact ⟨s, rfl⟩

theorem FilterState.needsFetch_fetching {s : FilterState} (h : s.needsFetch b = true)
    (hn : s.fetchingBlockNumber = some n) : n < b := by
  unfold FilterState.needsFetch at h
  rw [hn] at h
  by_contra hle
  have hge : n ≥ b := Nat.le_of_not_lt hle
  simp [hge] at h

theorem CacheInv.render (h : CacheInv getLogs x) {fs : List EventFilter}
    (hfs : filtersNeedFetch x.blockNumber x.logs = some fs) :
    CacheInv getLogs { x with effect := x.blockNumber.map fun n => (n, fs) } := by
  refine ⟨h.stable, h.right, h.once, h.asked, h.requested, ?_, h.waiting⟩
  intro b fs' heffect
  obtain ⟨n, hn, heq⟩ := Option.map_eq_some_iff.mp heffect
  obtain ⟨rfl, rfl⟩ := Prod.mk.inj heq
  rw [hn] at hfs
  have hkeys : ∀ k ∈ x.logs.keys.filter fun key =>
      (x.logs.get? key).any (FilterState.needsFetch n), ∃ s, x.logs.get? k = some s
        ∧ s.needsFetch n = true := by
    intro k hk
    exact (Option.any_eq_true _ _).mp (List.mem_filter.mp hk).2
  obtain ⟨hmap, hback⟩ := mapM_keyToFilter hfs fun k hk => by
    obtain ⟨s, hs, -⟩ := hkeys k hk
    exact h.stable k s hs
  refine ⟨?_, ?_⟩
  · rw [hmap]
    exact x.logs.nodup.filter _
  · intro f hf
    have hmem : filterToKey f ∈ fs.map filterToKey := List.mem_map_of_mem hf
    rw [hmap] at hmem
    obtain ⟨s, hs, hneeds⟩ := hkeys _ hmem
    exact ⟨hback f hf, s, hs, fun m hm => FilterState.needsFetch_fetching hneeds hm⟩

/-- The effect asks for the logs of filters that were not asked for as of this block. -/
theorem CacheInv.effect (h : CacheInv getLogs x) {fs : List EventFilter}
    (heffect : x.effect = some (b, fs)) : CacheInv getLogs { x with
      logs := x.logs.fetchingLogs fs b
      effect := none
      requests := x.requests ++ fs.map fun f => (f, b)
      asked := x.asked ++ fs.map fun f => (f, b) } := by
  obtain ⟨hnodup, hall⟩ := h.due b fs heffect
  -- an entry is as before, but that the effect's filters are now being fetched
  have hold : ∀ k s', (x.logs.fetchingLogs fs b).get? k = some s' → ∃ s, x.logs.get? k = some s
      ∧ s'.results = s.results ∧ (s'.fetchingBlockNumber = s.fetchingBlockNumber
        ∨ s'.fetchingBlockNumber = some b ∧ k ∈ fs.map filterToKey) := by
    intro k s' hs'
    rw [LogsState.get?_fetchingLogs] at hs'
    split at hs'
    · next hk =>
        obtain ⟨s, hs, rfl⟩ := Option.map_eq_some_iff.mp hs'
        exact ⟨s, hs, rfl, .inr ⟨rfl, hk⟩⟩
    · exact ⟨s', hs', rfl, .inl rfl⟩
  refine ⟨?_, ?_, ?_, ?_, ?_, (fun _ _ hnone => by cases hnone), ?_⟩
  · intro k s' hs'
    obtain ⟨s, hs, -, -⟩ := hold k s' hs'
    exact h.stable k s hs
  · intro k s' r l hs' hr hl
    obtain ⟨s, hs, hsame, -⟩ := hold k s' hs'
    exact h.right k s r l hs (hsame.symm.trans hr) hl
  · refine List.nodup_append.mpr ⟨h.once, ?_, ?_⟩
    · exact (List.Nodup.of_map _ hnodup).map fun f g heq => (Prod.mk.inj heq).1
    · intro p hp q hq heq
      subst heq
      obtain ⟨f, hf, rfl⟩ := List.mem_map.mp hq
      obtain ⟨s, n, hs, hn, hle⟩ := h.asked f b hp
      obtain ⟨-, s', hs', hlt⟩ := hall f hf
      obtain rfl := Option.some.inj (hs.symm.trans hs')
      exact Nat.not_lt_of_le hle (hlt n hn)
  · intro f m hm
    have hentry : ∃ s, x.logs.get? (filterToKey f) = some s
        ∧ (f ∈ fs ∧ m = b ∨ ∃ n, s.fetchingBlockNumber = some n ∧ m ≤ n) := by
      rcases List.mem_append.mp hm with hm | hm
      · obtain ⟨s, n, hs, hn, hle⟩ := h.asked f m hm
        exact ⟨s, hs, .inr ⟨n, hn, hle⟩⟩
      · obtain ⟨g, hg, heq⟩ := List.mem_map.mp hm
        obtain ⟨rfl, rfl⟩ := Prod.mk.inj heq
        obtain ⟨-, s, hs, -⟩ := hall g hg
        exact ⟨s, hs, .inl ⟨hg, rfl⟩⟩
    obtain ⟨s, hs, hcase⟩ := hentry
    show ∃ s n, (x.logs.fetchingLogs fs b).get? (filterToKey f) = some s ∧ _
    rw [LogsState.get?_fetchingLogs, hs]
    split
    · next hk =>
        refine ⟨_, b, rfl, rfl, ?_⟩
        rcases hcase with ⟨-, rfl⟩ | ⟨n, hn, hle⟩
        · exact Nat.le_refl _
        · obtain ⟨g, hg, hkey⟩ := List.mem_map.mp hk
          obtain ⟨-, s', hs', hlt⟩ := hall g hg
          rw [hkey] at hs'
          obtain rfl := Option.some.inj (hs.symm.trans hs')
          exact Nat.le_of_lt (Nat.lt_of_le_of_lt hle (hlt n hn))
    · next hk =>
        rcases hcase with ⟨hf, -⟩ | ⟨n, hn, hle⟩
        · exact absurd (List.mem_map_of_mem hf) hk
        · exact ⟨s, n, rfl, hn, hle⟩
  · intro f m hm
    rcases List.mem_append.mp hm with hm | hm
    · exact h.requested f m hm
    · obtain ⟨g, hg, heq⟩ := List.mem_map.mp hm
      obtain ⟨rfl, rfl⟩ := Prod.mk.inj heq
      exact (hall g hg).1
  · intro k s' n hs' hn
    obtain ⟨s, hs, hsame, hfetching⟩ := hold k s' hs'
    rcases hfetching with hkept | ⟨hnew, hk⟩
    · rcases h.waiting k s n hs (hkept.symm.trans hn) with ⟨f, hback, hf⟩ | ⟨r, hr, hle⟩
      · exact .inl ⟨f, hback, List.mem_append_left _ hf⟩
      · exact .inr ⟨r, hsame.trans hr, hle⟩
    · obtain rfl := Option.some.inj (hnew.symm.trans hn)
      obtain ⟨f, hf, rfl⟩ := List.mem_map.mp hk
      exact .inl ⟨f, (hall f hf).1, List.mem_append_right _ (List.mem_map.mpr ⟨f, hf, rfl⟩)⟩

/-- A call comes back, with logs or without. -/
theorem CacheInv.keep (h : CacheInv getLogs x) (hf : (f, b) ∈ x.requests) {r : LogResults}
    (hb : r.blockNumber = b) (hr : ∀ l, r.logs = some l → l = getLogs f b) :
    CacheInv getLogs { x with
      logs := x.logs.keepResults f r
      requests := x.requests.erase (f, b) } := by
  subst hb
  have hback := h.requested f r.blockNumber hf
  -- an entry is as before, but that one has the new results
  have hold : ∀ k s', (x.logs.keepResults f r).get? k = some s' → ∃ s, x.logs.get? k = some s
      ∧ s'.fetchingBlockNumber = s.fetchingBlockNumber ∧ (s'.results = s.results
          ∧ (k = filterToKey f → ∃ r', s.results = some r' ∧ r.blockNumber < r'.blockNumber)
        ∨ s'.results = some r ∧ k = filterToKey f
          ∧ ∀ r', s.results = some r' → r'.blockNumber ≤ r.blockNumber) := by
    intro k s' hs'
    rw [LogsState.get?_keepResults] at hs'
    split at hs'
    · next hk =>
        obtain ⟨s, hs, heq⟩ := Option.map_eq_some_iff.mp hs'
        refine ⟨s, hs, ?_⟩
        split at heq
        · next hlater =>
            obtain rfl := heq
            obtain ⟨r', hr', hlt⟩ := (Option.any_eq_true _ _).mp hlater
            exact ⟨rfl, .inl ⟨rfl, fun _ => ⟨r', hr', of_decide_eq_true hlt⟩⟩⟩
        · next hlater =>
            subst heq
            refine ⟨rfl, .inr ⟨rfl, hk, ?_⟩⟩
            intro r' hr'
            rw [hr'] at hlater
            simpa using hlater
    · next hk => exact ⟨s', hs', rfl, .inl ⟨rfl, fun heq => absurd heq hk⟩⟩
  have hthere : ∀ k s, x.logs.get? k = some s → ∃ s', (x.logs.keepResults f r).get? k = some s'
      ∧ s'.fetchingBlockNumber = s.fetchingBlockNumber := by
    intro k s hs
    rw [LogsState.get?_keepResults, hs]
    split
    · refine ⟨_, rfl, ?_⟩
      dsimp only
      split
      · rfl
      · rfl
    · exact ⟨s, rfl, rfl⟩
  refine ⟨?_, ?_, h.once, ?_, ?_, ?_, ?_⟩
  · intro k s' hs'
    obtain ⟨s, hs, -⟩ := hold k s' hs'
    exact h.stable k s hs
  · intro k s' r' l hs' hr' hl
    obtain ⟨s, hs, -, ⟨hsame, -⟩ | ⟨hnew, hk, -⟩⟩ := hold k s' hs'
    · exact h.right k s r' l hs (hsame.symm.trans hr') hl
    · obtain rfl := Option.some.inj (hnew.symm.trans hr')
      exact ⟨f, hk ▸ hback, hr l hl⟩
  · intro g m hm
    obtain ⟨s, n, hs, hn, hle⟩ := h.asked g m hm
    obtain ⟨s', hs', hsame⟩ := hthere _ s hs
    exact ⟨s', n, hs', hsame.trans hn, hle⟩
  · intro g m hm
    exact h.requested g m (List.mem_of_mem_erase hm)
  · intro m fs heffect
    obtain ⟨hnodup, hall⟩ := h.due m fs heffect
    refine ⟨hnodup, ?_⟩
    intro g hg
    obtain ⟨hgback, s, hs, hlt⟩ := hall g hg
    obtain ⟨s', hs', hsame⟩ := hthere _ s hs
    exact ⟨hgback, s', hs', fun n hn => hlt n (hsame.symm.trans hn)⟩
  · intro k s' n hs' hn
    obtain ⟨s, hs, hfetching, hresults⟩ := hold k s' hs'
    rcases h.waiting k s n hs (hfetching.symm.trans hn) with ⟨g, hgback, hg⟩ | ⟨r', hr', hle⟩
    · by_cases hsame : (g, n) = (f, r.blockNumber)
      · obtain ⟨rfl, rfl⟩ := Prod.mk.inj hsame
        -- this was the call that has come back
        rcases hresults with ⟨hkept, hlater⟩ | ⟨hnew, -, -⟩
        · obtain ⟨r', hr', hlt⟩ := hlater hgback.2.symm
          exact .inr ⟨r', hkept.trans hr', Nat.le_of_lt hlt⟩
        · exact .inr ⟨r, hnew, Nat.le_refl _⟩
      · exact .inl ⟨g, hgback, (List.mem_erase_of_ne hsame).mpr hg⟩
    · rcases hresults with ⟨hkept, -⟩ | ⟨hnew, -, hearlier⟩
      · exact .inr ⟨r', hkept.trans hr', hle⟩
      · exact .inr ⟨r, hnew, Nat.le_trans hle (hearlier r' hr')⟩

/-- Components only mount readable filters: of any other the key is read back as another filter. -/
def ReadableMounts : Happens → Prop
  | .mount f => f.Readable
  | _ => True

theorem CacheInv.step {l : Happens} (h : CacheInv getLogs x) (hP : ReadableMounts l)
    (hs : Step getLogs x l y) : CacheInv getLogs y := by
  cases hs with
  | mount => exact h.mount hP
  | unmount => exact h.unmount
  | block => exact ⟨h.stable, h.right, h.once, h.asked, h.requested, h.due, h.waiting⟩
  | render _ hfs => exact h.render hfs
  | effect heffect => exact h.effect heffect
  | answer hf => exact h.keep hf rfl fun l hl => (Option.some.inj hl).symm
  | failure hf => exact h.keep hf rfl fun l hl => by cases hl

theorem cacheInv_start : CacheInv getLogs start where
  stable _ _ hs := by cases hs
  right _ _ _ _ hs := by cases hs
  once := List.nodup_nil
  asked _ _ hf := absurd hf List.not_mem_nil
  requested _ _ hf := absurd hf List.not_mem_nil
  due _ _ heffect := by cases heffect
  waiting _ _ _ hs := by cases hs

theorem cacheInv_runs (hx : Runs getLogs ReadableMounts start x) : CacheInv getLogs x := by
  induction hx with
  | refl => exact cacheInv_start
  | tail _ hs ih =>
      obtain ⟨l, hP, hs⟩ := hs
      exact ih.step hP hs

/-! ### Results never go back -/

/-- The block the results of a key are of. -/
def resultsBlock (x : LogCache) (k : String) : Option Nat :=
  ((x.logs.get? k).bind FilterState.results).map LogResults.blockNumber

/-- The results of a key are kept, or replaced by those of a block no earlier. -/
def NoEarlier (s s' : Option FilterState) : Prop :=
  ∀ r, s.bind FilterState.results = some r →
    ∃ r', s'.bind FilterState.results = some r' ∧ r.blockNumber ≤ r'.blockNumber

theorem NoEarlier.of_eq {s s' : Option FilterState}
    (h : s'.bind FilterState.results = s.bind FilterState.results) : NoEarlier s s' :=
  fun r hr => ⟨r, h.trans hr, Nat.le_refl _⟩

theorem noEarlier_keepResults (state : LogsState) (f : EventFilter) (r : LogResults) (k : String) :
    NoEarlier (state.get? k) ((state.keepResults f r).get? k) := by
  rw [LogsState.get?_keepResults]
  split
  · cases hs : state.get? k with
    | none => exact .of_eq rfl
    | some s =>
        rw [Option.map_some]
        split
        · exact .of_eq rfl
        · next hlater =>
            intro r' hr'
            have hr' : s.results = some r' := hr'
            rw [hr'] at hlater
            exact ⟨r, rfl, by simpa using hlater⟩
  · exact .of_eq rfl

theorem Step.noEarlier {l : Happens} (hs : Step getLogs x l y) (k : String) :
    NoEarlier (x.logs.get? k) (y.logs.get? k) := by
  cases hs with
  | block | render => exact .of_eq rfl
  | answer | failure => exact noEarlier_keepResults _ _ _ _
  | mount =>
      dsimp only
      rw [LogsState.get?_addListener]
      split
      · cases x.logs.get? k with
        | none | some => exact .of_eq rfl
      · exact .of_eq rfl
  | unmount =>
      dsimp only
      rw [LogsState.get?_removeListener]
      split
      · cases x.logs.get? k with
        | none | some => exact .of_eq rfl
      · exact .of_eq rfl
  | effect =>
      dsimp only
      rw [LogsState.get?_fetchingLogs]
      split
      · cases x.logs.get? k with
        | none | some => exact .of_eq rfl
      · exact .of_eq rfl

theorem noEarlier_runs {P : Happens → Prop} (hr : Runs getLogs P x y) (k : String) :
    NoEarlier (x.logs.get? k) (y.logs.get? k) := by
  induction hr with
  | refl => exact .of_eq rfl
  | tail _ hs ih =>
      obtain ⟨l, -, hs⟩ := hs
      intro r hr
      obtain ⟨r', hr', hle⟩ := ih r hr
      obtain ⟨r'', hr'', hle'⟩ := hs.noEarlier k r' hr'
      exact ⟨r'', hr'', Nat.le_trans hle hle'⟩

/-! ### What is shown -/

/-- What components are shown, and what the provider is asked for it. -/
structure ShownRight (getLogs : EventFilter → Nat → List Log) (x : LogCache) : Prop where
  /-- No logs are asked for twice as of the same block. -/
  once : x.asked.Nodup
  synced : ∀ f n logs, f.Plain → useLogs (some f) (some n) x.logs = ⟨some logs, .synced⟩ →
    ∃ b, n ≤ b ∧ logs = getLogs f b
  syncing : ∀ f n logs, f.Plain → useLogs (some f) (some n) x.logs = ⟨some logs, .syncing⟩ →
    ∃ b, b < n ∧ logs = getLogs f b
  /-- When nothing is open, what is listened to is synced or has failed. -/
  settled : x.effect = none → x.requests = [] → filtersNeedFetch x.blockNumber x.logs = some [] →
    ∀ f s n, x.blockNumber = some n → n ≠ 0 → x.logs.get? (filterToKey f) = some s →
      s.listeners ≠ 0 → (useLogs (some f) (some n) x.logs).state = .synced
        ∨ (useLogs (some f) (some n) x.logs).state = .error

theorem filterToKey_ne_empty (f : EventFilter) : filterToKey f ≠ "" := by
  intro h
  have hlist := congrArg String.toList h
  simp [filterToKey] at hlist

/-- What is shown comes from results. -/
theorem useLogs_results {logs : List Log} {sync : LogsSync} {state : LogsState}
    (h : useLogs (some f) (some n) state = ⟨some logs, sync⟩) :
    ∃ b, (state.get? (filterToKey f)).bind FilterState.results = some ⟨b, some logs⟩
      ∧ sync = if b ≥ n then .synced else .syncing := by
  unfold useLogs at h
  simp only [Option.map_some] at h
  split at h
  · cases h
  · split at h
    · cases h
    · cases h
    · next b l hr =>
        obtain ⟨hl, hsync⟩ := UseLogsResult.mk.inj h
        obtain rfl := Option.some.inj hl
        exact ⟨b, hr, hsync.symm⟩

theorem CacheInv.shown (h : CacheInv getLogs x)
    (hget : ∀ f g b, SameLogs f g → getLogs g b = getLogs f b) (hf : f.Plain) {logs : List Log}
    (hr : (x.logs.get? (filterToKey f)).bind FilterState.results = some ⟨b, some logs⟩) :
    logs = getLogs f b := by
  obtain ⟨s, hs, hsr⟩ := Option.bind_eq_some_iff.mp hr
  obtain ⟨g, hg, hlogs⟩ := h.right _ s _ logs hs hsr rfl
  obtain rfl := Option.some.inj (hg.1.symm.trans (readsBack_readBack hf.1).1)
  exact hlogs.trans (hget f _ b (sameLogs_readBack hf))

theorem CacheInv.settled {s : FilterState} (h : CacheInv getLogs x) (hidle : x.requests = [])
    (hfs : filtersNeedFetch (some n) x.logs = some []) (hs : x.logs.get? k = some s)
    (hlisteners : s.listeners ≠ 0) : ∃ r, s.results = some r ∧ n ≤ r.blockNumber := by
  have hkeys : (x.logs.keys.filter fun key =>
      (x.logs.get? key).any (FilterState.needsFetch n)) = [] := by
    have hmap := (mapM_keyToFilter hfs fun k hk => by
      obtain ⟨s', hs', -⟩ := (Option.any_eq_true _ _).mp (List.mem_filter.mp hk).2
      exact h.stable k s' hs').1
    exact hmap.symm
  have hmem : k ∈ x.logs.keys := JsMap.has_iff.mp (by rw [JsMap.has, hs]; rfl)
  have hneeds : s.needsFetch n = false := by
    have hnot := List.filter_eq_nil_iff.mp hkeys k hmem
    rw [hs] at hnot
    simpa using hnot
  unfold FilterState.needsFetch at hneeds
  rw [if_neg hlisteners] at hneeds
  split at hneeds
  · next hfetching =>
      obtain ⟨m, hm, hle⟩ := (Option.any_eq_true _ _).mp hfetching
      have hle : n ≤ m := of_decide_eq_true hle
      rcases h.waiting k s m hs hm with ⟨g, -, hg⟩ | ⟨r, hr, hmr⟩
      · rw [hidle] at hg
        exact absurd hg List.not_mem_nil
      · exact ⟨r, hr, Nat.le_trans hle hmr⟩
  · split at hneeds
    · next hresults =>
        obtain ⟨r, hr, hle⟩ := (Option.any_eq_true _ _).mp hresults
        exact ⟨r, hr, of_decide_eq_true hle⟩
    · cases hneeds

/--
**The logs shown are the logs asked for.** As long as components only mount readable filters
(`ReadableMounts`), in every history of components mounting and unmounting, blocks coming in,
renders, effects and answers in any order, what a component is shown as synced for a plain filter
are the filter's logs as of the current block or a later one, and what is shown while syncing are
those of an earlier block; the results of a filter never go back to an earlier block; no logs are
asked for twice as of one block; and when everything has been answered, all that is listened to is
synced or has failed.
-/
theorem logs_shown (getLogs : EventFilter → Nat → List Log)
    (hget : ∀ f g b, SameLogs f g → getLogs g b = getLogs f b) (x : LogCache)
    (hx : Runs getLogs ReadableMounts start x) :
    ShownRight getLogs x ∧ ∀ y, Runs getLogs ReadableMounts x y → ∀ f b,
      x.resultsBlock (filterToKey f) = some b →
      ∃ b', y.resultsBlock (filterToKey f) = some b' ∧ b ≤ b' := by
  have h := cacheInv_runs hx
  refine ⟨⟨h.once, ?_, ?_, ?_⟩, ?_⟩
  · intro f n logs hf hu
    obtain ⟨b, hr, hsync⟩ := useLogs_results hu
    refine ⟨b, ?_, h.shown hget hf hr⟩
    by_contra hlt
    rw [if_neg hlt] at hsync
    cases hsync
  · intro f n logs hf hu
    obtain ⟨b, hr, hsync⟩ := useLogs_results hu
    refine ⟨b, ?_, h.shown hget hf hr⟩
    by_contra hge
    rw [if_pos (Nat.le_of_not_lt hge)] at hsync
    cases hsync
  · intro _ hidle hfs f s n hn h0 hs hlisteners
    rw [hn] at hfs
    obtain ⟨r, hr, hle⟩ := h.settled hidle hfs hs hlisteners
    unfold useLogs
    simp only [Option.map_some, if_neg (not_or.mpr ⟨filterToKey_ne_empty f, h0⟩), hs,
      Option.bind_some, hr]
    obtain ⟨b, logs⟩ := r
    cases logs with
    | none => exact .inr rfl
    | some logs => exact .inl (if_pos hle)
  · intro y hy f b hb
    obtain ⟨r, hr, rfl⟩ := Option.map_eq_some_iff.mp hb
    obtain ⟨r', hr', hle⟩ := noEarlier_runs hy (filterToKey f) r hr
    exact ⟨r'.blockNumber, by rw [resultsBlock, hr']; rfl, hle⟩

/-! ### Two blocks, answered in reverse -/

/-- The step that happens, where it can. -/
def next (getLogs : EventFilter → Nat → List Log) (x : LogCache) : Happens → Option LogCache
  | .mount f => some { x with logs := x.logs.addListener f }
  | .unmount f => some { x with logs := x.logs.removeListener f }
  | .block b => some { x with blockNumber := b }
  | .render => if x.effect.isSome then none else
      (filtersNeedFetch x.blockNumber x.logs).map fun fs =>
        { x with effect := x.blockNumber.map fun n => (n, fs) }
  | .effect => x.effect.map fun (b, fs) => { x with
      logs := x.logs.fetchingLogs fs b
      effect := none
      requests := x.requests ++ fs.map fun f => (f, b)
      asked := x.asked ++ fs.map fun f => (f, b) }
  | .answer f b => if (f, b) ∈ x.requests then some { x with
      logs := x.logs.fetchedLogs f b (getLogs f b)
      requests := x.requests.erase (f, b) } else none
  | .failure f b => if (f, b) ∈ x.requests then some { x with
      logs := x.logs.fetchedLogsError f b
      requests := x.requests.erase (f, b) } else none

theorem next_step {l : Happens} (h : next getLogs x l = some y) : Step getLogs x l y := by
  cases l with
  | mount f =>
      obtain rfl := Option.some.inj h
      exact .mount
  | unmount f =>
      obtain rfl := Option.some.inj h
      exact .unmount
  | block b =>
      obtain rfl := Option.some.inj h
      exact .block
  | render =>
      simp only [next] at h
      split at h
      · cases h
      · next hnone =>
          obtain ⟨fs, hfs, rfl⟩ := Option.map_eq_some_iff.mp h
          exact .render (by simpa using hnone) hfs
  | effect =>
      obtain ⟨⟨b, fs⟩, heffect, rfl⟩ := Option.map_eq_some_iff.mp h
      exact .effect heffect
  | answer f b =>
      simp only [next] at h
      split at h
      · next hmem =>
          obtain rfl := Option.some.inj h
          exact .answer hmem
      · cases h
  | failure f b =>
      simp only [next] at h
      split at h
      · next hmem =>
          obtain rfl := Option.some.inj h
          exact .failure hmem
      · cases h

theorem script_runs {P : Happens → Prop} {ls : List Happens} (hP : ∀ l ∈ ls, P l)
    (h : ls.foldlM (next getLogs) x = some y) : Runs getLogs P x y := by
  induction ls generalizing x with
  | nil =>
      obtain rfl := Option.some.inj h
      exact .refl
  | cons l ls ih =>
      rw [List.foldlM_cons] at h
      obtain ⟨z, hz, h⟩ := Option.bind_eq_some_iff.mp h
      exact .head ⟨l, hP l List.mem_cons_self, next_step hz⟩
        (ih (fun l' hl' => hP l' (List.mem_cons_of_mem _ hl')) h)

/-- One log a block, of a transaction that is named after the number of blocks. -/
def oneABlock (_ : EventFilter) (b : Nat) : List Log :=
  (List.range b).map fun n => ⟨["0xdd"], String.ofList (List.replicate n 'x'), ""⟩

/-- The logs as of block 3 are asked for, then those as of block 4, and block 4 is answered first. -/
def reversed : List Happens :=
  [.mount transferFilter, .block (some 3), .render, .effect, .block (some 4), .render, .effect,
    .answer transferFilter 4, .answer transferFilter 3]

/-- What is shown in the end are the logs as of block 4. -/
theorem logs_shown_reversed : ∃ x, Runs oneABlock ReadableMounts start x ∧ x.asked.length = 2
    ∧ ShownRight oneABlock x
    ∧ useLogs (some transferFilter) (some 4) x.logs
      = ⟨some (oneABlock transferFilter 4), .synced⟩ := by
  have hscript : (reversed.foldlM (next oneABlock) start).any (fun x => x.asked.length = 2
      ∧ useLogs (some transferFilter) (some 4) x.logs
        = ⟨some (oneABlock transferFilter 4), .synced⟩) = true := by decide +kernel
  obtain ⟨x, hx, hp⟩ := (Option.any_eq_true _ _).mp hscript
  obtain ⟨hasked, hshown⟩ := of_decide_eq_true hp
  have hruns : Runs oneABlock ReadableMounts start x := script_runs (fun l hl => by
    simp only [reversed, List.mem_cons, List.not_mem_nil, or_false] at hl
    rcases hl with rfl | rfl | rfl | rfl | rfl | rfl | rfl | rfl | rfl
    · exact (by decide : transferFilter.Readable)
    all_goals trivial) hx
  exact ⟨x, hruns, hasked, (logs_shown oneABlock (fun _ _ _ _ => rfl) x hruns).1, hshown⟩

end LogCache

end Nouns.Webapp
