import Nouns.Proof.PaletteIndices

/-!
# What an export loses

The images are kept by name and the folders keep lists of names. On the way out a folder
reads its names and deletes them, and what is left goes to the root. So a name is read
once: whoever reads it next finds nothing, and what was kept under it is the last image of
that name. If no name is there twice, every image comes out in its folder; images without a
folder take the place of a folder called root.
-/

namespace Nouns.Sdk

open JsMap

namespace PNGCollectionEncoder

/-- The folder of a call. An empty name is none. -/
def Call.containing (call : Call) : Option String := call.folder.filter (· ≠ "")

/-- Where the image of a call is listed. -/
def Call.key (call : Call) : String := call.containing.getD "root"

/-- Calls and what they returned. -/
def outputs (encoder : PNGCollectionEncoder) : List Call → List (Call × Option String)
  | [] => []
  | call :: calls =>
      let result := encoder.encodeImage call.name call.png call.folder
      (call, result.2) :: outputs result.1 calls

/-- An image as its call knows it. -/
def listing (o : Call × Option String) : EncodedImage := ⟨o.1.name, o.2⟩

/-- **Nothing is lost.** Every call returned a string, and the data list the images of every folder,
and of the root, in the order of the calls and with their strings. -/
structure Lossless (encoder : PNGCollectionEncoder) (calls : List Call) : Prop where
  returned : ∀ o ∈ encoder.outputs calls, o.2.isSome = true
  listed : ∀ key, ((encoder.run calls).data.images.get? key).getD []
    = ((encoder.outputs calls).filter fun o => o.1.key = key).map listing

variable {encoder : PNGCollectionEncoder} {calls : List Call} {name rle : String} {png : PngImage}
  {folder : Option String} {outs : List (Call × Option String)}

theorem map_fst_outputs (encoder : PNGCollectionEncoder) (calls : List Call) :
    (encoder.outputs calls).map Prod.fst = calls := by
  induction calls generalizing encoder with
  | nil => rfl
  | cons call calls ih => exact congrArg (call :: ·) (ih _)

theorem outputs_append {before after : List Call} :
    encoder.outputs (before ++ after) = encoder.outputs before ++ (encoder.run before).outputs after := by
  induction before generalizing encoder with
  | nil => rfl
  | cons call before ih => exact congrArg (_ :: ·) ih

/-! ## What the encoder holds -/

/-- A call that returned has put its image under its name, and its name into its folder. -/
theorem encodeImage_returned (h : (encoder.encodeImage name png folder).2 = some rle) :
    (encoder.encodeImage name png folder).1.images = encoder.images.set name rle
    ∧ ((encoder.encodeImage name png folder).1.folders
      = match folder.filter (· ≠ "") with
        | none => encoder.folders
        | some f => encoder.folders.set f ((encoder.folders.get? f).getD [] ++ [name]))
    ∧ ∀ f, folder.filter (· ≠ "") = some f → f ∉ inherited := by
  unfold encodeImage at h ⊢
  cases hrle : (Image.new png.width png.height).toRLE png.rgbaAt encoder.colors with
  | none =>
      rw [hrle] at h
      cases h
  | some st =>
      obtain ⟨rle', image, colors'⟩ := st
      rw [hrle] at h
      cases folder with
      | none =>
          obtain rfl := Option.some.inj h
          exact ⟨rfl, rfl, fun _ hf => by cases hf⟩
      | some folder =>
          dsimp only at h ⊢
          -- an empty folder name is no folder
          by_cases hempty : folder = ""
          · rw [if_pos hempty] at h ⊢
            obtain rfl := Option.some.inj h
            have hfilter : (some folder).filter (· ≠ "") = none := by simp [Option.filter, hempty]
            rw [hfilter]
            exact ⟨rfl, rfl, fun _ hf => by cases hf⟩
          · have hfilter : (some folder).filter (· ≠ "") = some folder := by
              simp [Option.filter, hempty]
            rw [if_neg hempty] at h ⊢
            by_cases hin : folder ∈ inherited
            · rw [if_pos hin] at h
              cases h
            · rw [if_neg hin] at h ⊢
              obtain rfl := Option.some.inj h
              rw [hfilter]
              exact ⟨rfl, rfl, fun f hf => Option.some.inj hf ▸ hin⟩

/-- What an encoder holds after calls that all returned. -/
structure Holds (encoder : PNGCollectionEncoder) (outs : List (Call × Option String)) : Prop where
  folders : ∀ f, (encoder.folders.get? f).getD []
    = (outs.filter fun o => o.1.containing = some f).map fun o => o.1.name
  names : ∀ n, n ∈ encoder.images.keys ↔ n ∈ outs.map fun o => o.1.name
  entries : (outs.map fun o => o.1.name).Nodup →
    (encoder.images.entries.map fun e => (⟨e.1, some e.2⟩ : EncodedImage)) = outs.map listing

theorem Holds.step (h : Holds encoder outs) {call : Call}
    (hret : (encoder.encodeImage call.name call.png call.folder).2 = some rle) :
    Holds (encoder.encodeImage call.name call.png call.folder).1 (outs ++ [(call, some rle)]) := by
  obtain ⟨himages, hfolders, -⟩ := encodeImage_returned hret
  refine ⟨?_, ?_, ?_⟩
  · intro f
    have hsame : call.folder.filter (· ≠ "") = call.containing := rfl
    rw [hfolders, hsame, List.filter_append, List.map_append, ← h.folders f]
    cases hc : call.containing with
    | none =>
        rw [List.filter_cons_of_neg (by simp [hc])]
        exact (List.append_nil _).symm
    | some g =>
        -- the name goes to the end of its own folder's list
        by_cases hfg : f = g
        · subst hfg
          rw [List.filter_cons_of_pos (by simp [hc])]
          simp only [get?_set_self, Option.getD_some]
          rfl
        · rw [List.filter_cons_of_neg (by simpa [hc] using Ne.symm hfg)]
          simp only [get?_set_of_ne hfg]
          exact (List.append_nil _).symm
  · intro n
    rw [himages, mem_keys_set, h.names, List.map_append, List.mem_append, or_comm]
    exact or_congr_right List.mem_singleton.symm
  · intro hnodup
    rw [List.map_append] at hnodup
    have hold := (List.nodup_append.mp hnodup).1
    have hnew : encoder.images.has call.name = false := by
      rw [← Bool.not_eq_true, has_iff, h.names]
      exact fun hmem => (List.nodup_append.mp hnodup).2.2 _ hmem _ (List.mem_singleton_self _) rfl
    rw [himages, entries_set hnew, List.map_append, h.entries hold, List.map_append]
    rfl

theorem holds_run (hnew : encoder.images = .empty ∧ encoder.folders = .empty) (calls : List Call)
    (hret : ∀ o ∈ encoder.outputs calls, o.2.isSome = true) :
    Holds (encoder.run calls) (encoder.outputs calls) := by
  induction calls using List.reverseRecOn with
  | nil =>
      obtain ⟨himages, hfolders⟩ := hnew
      refine ⟨?_, ?_, ?_⟩
      · intro f
        show (encoder.folders.get? f).getD [] = []
        rw [hfolders]
        rfl
      · intro n
        show n ∈ encoder.images.keys ↔ n ∈ []
        rw [himages]
        exact Iff.rfl
      · intro _
        show encoder.images.entries.map _ = []
        rw [himages]
        rfl
  | append_singleton calls call ih =>
      rw [outputs_append] at hret ⊢
      have ih := ih fun o ho => hret o (List.mem_append_left _ ho)
      obtain ⟨rle, hrle⟩ := Option.isSome_iff_exists.mp
        (hret _ (List.mem_append_right _ (List.mem_singleton_self _)))
      have hstep := ih.step hrle
      rw [← hrle] at hstep
      rw [run_append]
      exact hstep

/-! ## Walking the folders -/

/-- What a folder reads. A name that comes again is gone. -/
def readAll (images : JsMap String String) : List String → List EncodedImage
  | [] => []
  | filename :: filenames =>
      ⟨filename, images.get? filename⟩ :: readAll (images.delete filename) filenames

variable {data : JsMap String (List EncodedImage)} {images : JsMap String String}
  {names : List String}

theorem foldl_writeFile (f : String) (written : List EncodedImage) :
    names.foldl (writeFile f) (data.set f written, images)
      = (data.set f (written ++ readAll images names), names.foldl delete images) := by
  induction names generalizing written images with
  | nil => rw [readAll, List.append_nil]; rfl
  | cons name names ih =>
      have hstep : writeFile f (data.set f written, images) name
          = (data.set f (written ++ [⟨name, images.get? name⟩]), images.delete name) := by
        rw [writeFile, set_set, get?_set_self]
        rfl
      rw [List.foldl_cons, hstep, ih, readAll, List.append_assoc]
      rfl

theorem writeFolder_eq (e : String × List String) :
    writeFolder (data, images) e = (data.set e.1 (readAll images e.2), e.2.foldl delete images) :=
  foldl_writeFile e.1 []

/-- Different names are read as they are kept. -/
theorem readAll_eq (h : names.Nodup) :
    readAll images names = names.map fun name => ⟨name, images.get? name⟩ := by
  induction names generalizing images with
  | nil => rfl
  | cons name names ih =>
      obtain ⟨hname, hnames⟩ := List.nodup_cons.mp h
      rw [readAll, ih hnames, List.map_cons]
      refine congrArg (_ :: ·) (List.map_congr_left ?_)
      intro n hn
      rw [get?_delete_of_ne fun heq : n = name => hname (heq ▸ hn)]

/-- The data and what is left of the images after some folders. -/
def walked (images : JsMap String String) (folders : List (String × List String)) :
    JsMap String (List EncodedImage) × JsMap String String :=
  folders.foldl writeFolder (.empty, images)

theorem walked_append {folders : List (String × List String)} {e : String × List String} :
    walked images (folders ++ [e])
      = ((walked images folders).1.set e.1 (readAll (walked images folders).2 e.2),
        e.2.foldl delete (walked images folders).2) := by
  rw [walked, List.foldl_append]
  exact writeFolder_eq e

/-- The export of an encoder. -/
theorem format_eq : encoder.format false
    = if (walked encoder.images (objectEntries encoder.folders)).2.size ≠ 0 then
        (walked encoder.images (objectEntries encoder.folders)).1.set "root"
          ((walked encoder.images (objectEntries encoder.folders)).2.entries.map
            fun e => ⟨e.1, some e.2⟩)
      else (walked encoder.images (objectEntries encoder.folders)).1 := by
  unfold format walked
  cases objectEntries encoder.folders with
  | nil => rfl
  | cons e folders => rfl

variable {folders : List (String × List String)}

theorem walked_images :
    (walked images folders).2 = (folders.flatMap Prod.snd).foldl delete images := by
  induction folders using List.reverseRecOn with
  | nil => rfl
  | append_singleton folders e ih =>
      rw [walked_append, ih, List.flatMap_append, List.foldl_append, List.flatMap_singleton]

/-- No folder that is not walked is there. -/
theorem walked_other {f : String} (h : f ∉ folders.map Prod.fst) :
    (walked images folders).1.get? f = none := by
  induction folders using List.reverseRecOn with
  | nil => rfl
  | append_singleton folders e ih =>
      rw [List.map_append, List.mem_append, not_or] at h
      rw [walked_append, get?_set_of_ne fun heq => h.2 (List.mem_singleton.mpr heq)]
      exact ih h.1

/-- If no name is in two folders, a folder reads what is kept under its names. -/
theorem walked_get? (hkeys : (folders.map Prod.fst).Nodup) (hnames : (folders.flatMap Prod.snd).Nodup)
    {e : String × List String} (he : e ∈ folders) :
    (walked images folders).1.get? e.1 = some (e.2.map fun n => ⟨n, images.get? n⟩) := by
  induction folders using List.reverseRecOn with
  | nil => exact absurd he List.not_mem_nil
  | append_singleton folders last ih =>
      rw [List.map_append, List.nodup_append] at hkeys
      rw [List.flatMap_append, List.flatMap_singleton, List.nodup_append] at hnames
      rw [walked_append]
      rcases List.mem_append.mp he with he | he
      · have hne : e.1 ≠ last.1 := hkeys.2.2 _ (List.mem_map_of_mem he) _ (List.mem_singleton_self _)
        rw [get?_set_of_ne hne]
        exact ih hkeys.1 hnames.1 he
      · obtain rfl := List.mem_singleton.mp he
        rw [get?_set_self, readAll_eq hnames.2.1]
        refine congrArg some (List.map_congr_left ?_)
        intro n hn
        have hfresh : n ∉ folders.flatMap Prod.snd := fun hmem => hnames.2.2 n hmem n hn rfl
        have hsame : (walked images folders).2.get? n = images.get? n := by
          ext v
          rw [get?_eq_some, get?_eq_some, walked_images, entries_foldl_delete, List.mem_filter]
          exact and_iff_left (decide_eq_true hfresh)
        rw [hsame]

/-! ## A name is read once -/

/-- The names a list has an image for. -/
def namesIn (list : List EncodedImage) : List String :=
  list.filterMap fun i => i.data.map fun _ => i.filename

/-- No name has an image in two places, or twice in one, or is left once it was read. -/
structure ReadOnce (data : JsMap String (List EncodedImage)) (left : List String) : Prop where
  once : ∀ f list, data.get? f = some list → (namesIn list).Nodup
  apart : ∀ f f' list list', data.get? f = some list → data.get? f' = some list' → f ≠ f' →
    ∀ n ∈ namesIn list, n ∉ namesIn list'
  gone : ∀ f list, data.get? f = some list → ∀ n ∈ namesIn list, n ∉ left

/-- What a folder reads was there, comes once and is left no more. -/
theorem namesIn_readAll : (namesIn (readAll images names)).Nodup
    ∧ ∀ n ∈ namesIn (readAll images names), n ∈ images.keys ∧ n ∈ names := by
  induction names generalizing images with
  | nil => exact ⟨List.nodup_nil, fun _ h => absurd h List.not_mem_nil⟩
  | cons name names ih =>
      obtain ⟨hnodup, hmem⟩ := @ih (images.delete name)
      have hrest : ∀ n ∈ namesIn (readAll (images.delete name) names),
          n ∈ images.keys ∧ n ∈ name :: names := fun n hn =>
        ⟨(mem_keys_delete.mp (hmem n hn).1).1, List.mem_cons_of_mem _ (hmem n hn).2⟩
      cases hget : images.get? name with
      | none =>
          have hnames : namesIn (readAll images (name :: names))
              = namesIn (readAll (images.delete name) names) := by
            rw [readAll, hget]
            exact List.filterMap_cons_none rfl
          rw [hnames]
          exact ⟨hnodup, hrest⟩
      | some rle =>
          have hnames : namesIn (readAll images (name :: names))
              = name :: namesIn (readAll (images.delete name) names) := by
            rw [readAll, hget]
            exact List.filterMap_cons_some rfl
          rw [hnames]
          refine ⟨List.nodup_cons.mpr ⟨?_, hnodup⟩, ?_⟩
          · intro hn
            exact (mem_keys_delete.mp (hmem name hn).1).2 rfl
          · intro n hn
            rcases List.mem_cons.mp hn with rfl | hn
            · exact ⟨has_iff.mp (by rw [has, hget]; rfl), List.mem_cons_self⟩
            · exact hrest n hn

theorem ReadOnce.set {left : List String} (h : ReadOnce data left) {f : String}
    {list : List EncodedImage} {left' : List String} (hnodup : (namesIn list).Nodup)
    (hwas : ∀ n ∈ namesIn list, n ∈ left) (hgone : ∀ n ∈ namesIn list, n ∉ left')
    (hleft : ∀ n ∈ left', n ∈ left) : ReadOnce (data.set f list) left' := by
  have hcases : ∀ g l, (data.set f list).get? g = some l → g = f ∧ l = list ∨ data.get? g = some l := by
    intro g l hg
    by_cases hgf : g = f
    · subst hgf
      rw [get?_set_self] at hg
      exact .inl ⟨rfl, (Option.some.inj hg).symm⟩
    · rw [get?_set_of_ne hgf] at hg
      exact .inr hg
  refine ⟨?_, ?_, ?_⟩
  · intro g l hg
    rcases hcases g l hg with ⟨-, rfl⟩ | hold
    · exact hnodup
    · exact h.once g l hold
  · intro g g' l l' hg hg' hne n hn hn'
    rcases hcases g l hg with ⟨rfl, rfl⟩ | hold
    · rcases hcases g' l' hg' with ⟨rfl, -⟩ | hold'
      · exact hne rfl
      · exact h.gone g' l' hold' n hn' (hwas n hn)
    · rcases hcases g' l' hg' with ⟨rfl, rfl⟩ | hold'
      · exact h.gone g l hold n hn (hwas n hn')
      · exact h.apart g g' l l' hold hold' hne n hn hn'
  · intro g l hg n hn hin
    rcases hcases g l hg with ⟨-, rfl⟩ | hold
    · exact hgone n hn hin
    · exact h.gone g l hold n hn (hleft n hin)

theorem readOnce_walked : ReadOnce (walked images folders).1 (walked images folders).2.keys := by
  induction folders using List.reverseRecOn with
  | nil =>
      have hnone : ∀ f list, (walked images []).1.get? f ≠ some list :=
        fun f list h => Option.some_ne_none list h.symm
      exact ⟨fun f l h => absurd h (hnone f l), fun f _ l _ h => absurd h (hnone f l),
        fun f l h => absurd h (hnone f l)⟩
  | append_singleton folders e ih =>
      rw [walked_append]
      obtain ⟨hnodup, hmem⟩ := @namesIn_readAll (walked images folders).2 e.2
      exact ih.set hnodup (fun n hn => (hmem n hn).1)
        (fun n hn hin => (mem_keys_foldl_delete.mp hin).2 (hmem n hn).2)
        (fun n hin => (mem_keys_foldl_delete.mp hin).1)

theorem namesIn_entries (entries : List (String × String)) :
    namesIn (entries.map fun e => ⟨e.1, some e.2⟩) = entries.map Prod.fst := by
  induction entries with
  | nil => rfl
  | cons e entries ih =>
      rw [List.map_cons, List.map_cons, ← ih]
      exact List.filterMap_cons_some rfl

/-- **An export has an image for a name once at most.** -/
theorem readOnce_format : ReadOnce (encoder.format false) [] := by
  have hwalked := @readOnce_walked encoder.images (objectEntries encoder.folders)
  rw [format_eq]
  split
  · refine hwalked.set ?_ ?_ (fun _ _ => List.not_mem_nil) fun _ h => absurd h List.not_mem_nil
    · rw [namesIn_entries]
      exact (walked encoder.images (objectEntries encoder.folders)).2.nodup
    · intro n hn
      rw [namesIn_entries] at hn
      exact hn
  · exact ⟨hwalked.once, hwalked.apart, fun _ _ _ _ _ => List.not_mem_nil⟩

/-! ## When nothing is lost -/

/-- A name stands for one call. -/
theorem eq_of_name_eq (hnodup : (outs.map fun o => o.1.name).Nodup) {o o' : Call × Option String}
    (ho : o ∈ outs) (ho' : o' ∈ outs) (h : o.1.name = o'.1.name) : o = o' :=
  List.inj_on_of_nodup_map hnodup ho ho' h

theorem Holds.mem_folder (h : Holds encoder outs) {f n : String} {names : List String}
    (he : (f, names) ∈ encoder.folders.entries) :
    n ∈ names ↔ ∃ o ∈ outs, o.1.containing = some f ∧ o.1.name = n := by
  have hnames := h.folders f
  rw [get?_eq_some.mpr he, Option.getD_some] at hnames
  rw [hnames, List.mem_map]
  simp only [List.mem_filter, decide_eq_true_eq, and_assoc]

/-- The names in folders are those of the calls that named one. -/
theorem Holds.mem_folders (h : Holds encoder outs) {n : String} :
    n ∈ (objectEntries encoder.folders).flatMap Prod.snd
      ↔ ∃ o ∈ outs, o.1.containing ≠ none ∧ o.1.name = n := by
  rw [List.mem_flatMap]
  constructor
  · intro hn
    obtain ⟨e, he, hn⟩ := hn
    obtain ⟨o, ho, hc, hname⟩ := (h.mem_folder ((objectEntries_perm _).mem_iff.mp he)).mp hn
    exact ⟨o, ho, by rw [hc]; exact Option.some_ne_none _, hname⟩
  · intro hn
    obtain ⟨o, ho, hc, hname⟩ := hn
    obtain ⟨f, hf⟩ := Option.ne_none_iff_exists'.mp hc
    cases hget : encoder.folders.get? f with
    | none =>
        have hempty := h.folders f
        rw [hget] at hempty
        have hmem : o.1.name ∈ (outs.filter fun o => o.1.containing = some f).map fun o => o.1.name :=
          List.mem_map.mpr ⟨o, List.mem_filter.mpr ⟨ho, decide_eq_true hf⟩, rfl⟩
        rw [← hempty] at hmem
        exact absurd hmem List.not_mem_nil
    | some names =>
        have he := get?_eq_some.mp hget
        exact ⟨(f, names), (objectEntries_perm _).mem_iff.mpr he,
          (h.mem_folder he).mpr ⟨o, ho, hf, hname⟩⟩

theorem Holds.folders_nodup (h : Holds encoder outs) (hnodup : (outs.map fun o => o.1.name).Nodup) :
    ((objectEntries encoder.folders).flatMap Prod.snd).Nodup := by
  rw [((objectEntries_perm encoder.folders).flatMap_right Prod.snd).nodup_iff, List.nodup_flatMap]
  constructor
  · intro e he
    have hnames := h.folders e.1
    rw [get?_eq_some.mpr he, Option.getD_some] at hnames
    rw [hnames]
    exact hnodup.sublist (List.filter_sublist.map _)
  · refine (List.pairwise_map.mp encoder.folders.nodup).imp_of_mem fun {e e'} he he' hne n hn hn' => ?_
    obtain ⟨o, ho, hc, hname⟩ := (h.mem_folder he).mp hn
    obtain ⟨o', ho', hc', hname'⟩ := (h.mem_folder he').mp hn'
    obtain rfl := eq_of_name_eq hnodup ho ho' (hname.trans hname'.symm)
    exact hne (Option.some.inj (hc.symm.trans hc'))

/-- What is kept under a name is what its call returned. -/
theorem Holds.get? (h : Holds encoder outs) (hnodup : (outs.map fun o => o.1.name).Nodup)
    (hret : ∀ o ∈ outs, o.2.isSome = true) {o : Call × Option String} (ho : o ∈ outs) :
    encoder.images.get? o.1.name = o.2 := by
  obtain ⟨rle, hrle⟩ := Option.isSome_iff_exists.mp (hret o ho)
  have hmem : listing o ∈ encoder.images.entries.map fun e => (⟨e.1, some e.2⟩ : EncodedImage) := by
    rw [h.entries hnodup]
    exact List.mem_map_of_mem ho
  obtain ⟨e, he, heq⟩ := List.mem_map.mp hmem
  obtain ⟨hname, hdata⟩ := EncodedImage.mk.inj heq
  rw [hrle] at hdata ⊢
  rw [get?_eq_some, ← hname, ← Option.some.inj hdata]
  exact he

/-- Every folder comes out as it was filled. -/
theorem Holds.walked_get? (h : Holds encoder outs) (hnodup : (outs.map fun o => o.1.name).Nodup)
    (hret : ∀ o ∈ outs, o.2.isSome = true) (f : String) :
    ((walked encoder.images (objectEntries encoder.folders)).1.get? f).getD []
      = (outs.filter fun o => o.1.containing = some f).map listing := by
  have hkeys : ((objectEntries encoder.folders).map Prod.fst).Nodup :=
    ((objectEntries_perm encoder.folders).map Prod.fst).nodup_iff.mpr encoder.folders.nodup
  have hnames := h.folders f
  cases hget : encoder.folders.get? f with
  | none =>
      have hother : f ∉ (objectEntries encoder.folders).map Prod.fst := by
        rw [((objectEntries_perm encoder.folders).map Prod.fst).mem_iff]
        exact get?_eq_none.mp hget
      rw [hget] at hnames
      rw [walked_other hother, List.map_eq_nil_iff.mp hnames.symm]
      rfl
  | some names =>
      have he : (f, names) ∈ objectEntries encoder.folders :=
        (objectEntries_perm _).mem_iff.mpr (get?_eq_some.mp hget)
      rw [PNGCollectionEncoder.walked_get? hkeys (h.folders_nodup hnodup) he, Option.getD_some]
      rw [hget, Option.getD_some] at hnames
      simp only [hnames, List.map_map]
      refine List.map_congr_left ?_
      intro o ho
      show (⟨o.1.name, encoder.images.get? o.1.name⟩ : EncodedImage) = listing o
      rw [h.get? hnodup hret (List.mem_filter.mp ho).1]
      rfl

/-- What is left are the images without a folder. -/
theorem Holds.walked_left (h : Holds encoder outs) (hnodup : (outs.map fun o => o.1.name).Nodup) :
    ((walked encoder.images (objectEntries encoder.folders)).2.entries.map
        fun e => (⟨e.1, some e.2⟩ : EncodedImage))
      = (outs.filter fun o => o.1.containing = none).map listing := by
  have hleft : ∀ o ∈ outs, (o.1.name ∉ (objectEntries encoder.folders).flatMap Prod.snd
      ↔ o.1.containing = none) := by
    intro o ho
    rw [h.mem_folders]
    constructor
    · intro hnot
      by_contra hc
      exact hnot ⟨o, ho, hc, rfl⟩
    · intro hc hsome
      obtain ⟨o', ho', hc', hname⟩ := hsome
      obtain rfl := eq_of_name_eq hnodup ho' ho hname
      exact hc' hc
  have hfilter := congrArg
    (List.filter fun i => i.filename ∉ (objectEntries encoder.folders).flatMap Prod.snd)
    (h.entries hnodup)
  rw [List.filter_map, List.filter_map] at hfilter
  rw [walked_images, entries_foldl_delete]
  refine hfilter.trans (congrArg _ (List.filter_congr ?_))
  intro o ho
  exact decide_eq_decide.mpr (hleft o ho)

theorem Call.key_eq {call : Call} {key : String} (h : call.containing ≠ none ∨ key ≠ "root") :
    call.key = key ↔ call.containing = some key := by
  unfold Call.key
  cases hc : call.containing with
  | none =>
      rw [Option.getD_none]
      rcases h with h | h
      · exact absurd hc h
      · exact iff_of_false (Ne.symm h) (by simp)
  | some f => rw [Option.getD_some, Option.some.injEq]

/-- Different names, and no images without a folder next to a folder called root: all is listed. -/
theorem Holds.format_get? (h : Holds encoder outs) (hnodup : (outs.map fun o => o.1.name).Nodup)
    (hret : ∀ o ∈ outs, o.2.isSome = true)
    (hroot : ¬ ((∃ o ∈ outs, o.1.containing = some "root") ∧ ∃ o ∈ outs, o.1.containing = none))
    (key : String) : ((encoder.format false).get? key).getD []
      = (outs.filter fun o => o.1.key = key).map listing := by
  have hleft := h.walked_left hnodup
  have hsize : (walked encoder.images (objectEntries encoder.folders)).2.size
      = (outs.filter fun o => o.1.containing = none).length := by
    rw [size, ← List.length_map (f := fun e => (⟨e.1, some e.2⟩ : EncodedImage)), hleft,
      List.length_map]
  rw [format_eq, hleft, hsize]
  by_cases hnone : ∃ o ∈ outs, o.1.containing = none
  · obtain ⟨o, ho, hc⟩ := hnone
    have hmem : o ∈ outs.filter fun o => o.1.containing = none :=
      List.mem_filter.mpr ⟨ho, decide_eq_true hc⟩
    rw [if_pos fun h0 => List.ne_nil_of_mem hmem (List.length_eq_zero_iff.mp h0)]
    -- the images left over replace whatever folder is called root
    by_cases hkey : key = "root"
    · subst hkey
      rw [get?_set_self, Option.getD_some]
      refine congrArg _ (List.filter_congr fun o' ho' => decide_eq_decide.mpr ?_)
      constructor
      · intro hc'
        rw [Call.key, hc']
        rfl
      · intro hk
        -- an image in that folder is what is excluded
        by_contra hc'
        exact hroot ⟨⟨o', ho', (Call.key_eq (.inl hc')).mp hk⟩, o, ho, hc⟩
    · rw [get?_set_of_ne hkey, h.walked_get? hnodup hret]
      exact congrArg _ (List.filter_congr fun o' _ =>
        decide_eq_decide.mpr (Call.key_eq (.inr hkey)).symm)
  · have hempty : (outs.filter fun o => o.1.containing = none) = [] :=
      List.filter_eq_nil_iff.mpr fun o ho hc => hnone ⟨o, ho, of_decide_eq_true hc⟩
    rw [hempty, List.length_nil, if_neg (not_not.mpr rfl), h.walked_get? hnodup hret]
    exact congrArg _ (List.filter_congr fun o ho =>
      decide_eq_decide.mpr (Call.key_eq (.inl fun hc => hnone ⟨o, ho, hc⟩)).symm)

/-! ## When something is -/

/-- The names of the images listed under a key. -/
theorem Lossless.namesIn (h : Lossless encoder calls) (key : String) :
    namesIn (((encoder.run calls).data.images.get? key).getD [])
      = ((encoder.outputs calls).filter fun o => o.1.key = key).map fun o => o.1.name := by
  rw [h.listed key]
  have hret : ∀ o ∈ (encoder.outputs calls).filter fun o => o.1.key = key, o.2.isSome = true :=
    fun o ho => h.returned o (List.mem_filter.mp ho).1
  generalize (encoder.outputs calls).filter (fun o => o.1.key = key) = outs at hret
  induction outs with
  | nil => rfl
  | cons o outs ih =>
      obtain ⟨rle, hrle⟩ := Option.isSome_iff_exists.mp (hret o List.mem_cons_self)
      rw [List.map_cons, List.map_cons, ← ih fun o' ho' => hret o' (List.mem_cons_of_mem _ ho')]
      refine List.filterMap_cons_some ?_
      show o.2.map _ = _
      rw [hrle]
      rfl

/-- If nothing is lost, no two calls have the same name. -/
theorem Lossless.nodup (h : Lossless encoder calls) :
    ((encoder.outputs calls).map fun o => o.1.name).Nodup := by
  have hread := @readOnce_format (encoder.run calls)
  have hlist : ∀ key n, n ∈ ((encoder.outputs calls).filter fun o => o.1.key = key).map
      (fun o => o.1.name) → ∃ list, (encoder.run calls).data.images.get? key = some list
        ∧ PNGCollectionEncoder.namesIn list
          = ((encoder.outputs calls).filter fun o => o.1.key = key).map fun o => o.1.name := by
    intro key n hn
    have hnames := h.namesIn key
    cases hget : (encoder.run calls).data.images.get? key with
    | none =>
        rw [hget] at hnames
        rw [← hnames] at hn
        exact absurd hn List.not_mem_nil
    | some list =>
        rw [hget] at hnames
        exact ⟨list, rfl, hnames⟩
  refine List.pairwise_map.mpr (List.pairwise_iff_forall_sublist.mpr fun {o o'} hsub heq => ?_)
  have hin : ∀ o ∈ encoder.outputs calls, o.1.name
      ∈ ((encoder.outputs calls).filter fun p => p.1.key = o.1.key).map fun p => p.1.name :=
    fun o ho => List.mem_map.mpr ⟨o, List.mem_filter.mpr ⟨ho, decide_eq_true rfl⟩, rfl⟩
  have ho := hsub.subset List.mem_cons_self
  have ho' := hsub.subset (List.mem_cons_of_mem _ (List.mem_singleton_self _))
  obtain ⟨list, hget, hnames⟩ := hlist _ _ (hin o ho)
  by_cases hkey : o'.1.key = o.1.key
  · -- twice under one key
    have hpair : [o, o'].filter (fun p => decide (p.1.key = o.1.key)) = [o, o'] := by
      rw [List.filter_eq_self]
      intro p hp
      rcases List.mem_cons.mp hp with rfl | hp
      · exact decide_eq_true rfl
      · exact decide_eq_true (List.mem_singleton.mp hp ▸ hkey)
    have htwice := (hsub.filter fun p => decide (p.1.key = o.1.key)).map fun p => p.1.name
    rw [hpair, ← hnames] at htwice
    have hnodup := (hread.once _ _ hget).sublist htwice
    exact (List.nodup_cons.mp hnodup).1 (List.mem_singleton.mpr heq)
  · obtain ⟨list', hget', hnames'⟩ := hlist _ _ (hin o' ho')
    refine hread.apart _ _ list list' hget hget' (Ne.symm hkey) o.1.name ?_ ?_
    · rw [hnames]
      exact hin o ho
    · rw [hnames', heq]
      exact hin o' ho'

/-- If nothing is lost, no image without a folder is next to a folder called root. -/
theorem Lossless.not_root (h : Lossless encoder calls)
    (hh : Holds (encoder.run calls) (encoder.outputs calls)) :
    ¬ ((∃ o ∈ encoder.outputs calls, o.1.containing = some "root")
      ∧ ∃ o ∈ encoder.outputs calls, o.1.containing = none) := by
  intro hboth
  obtain ⟨⟨o, ho, hc⟩, o', ho', hc'⟩ := hboth
  have hleft := hh.walked_left h.nodup
  have hmem' : o' ∈ (encoder.outputs calls).filter fun o => o.1.containing = none :=
    List.mem_filter.mpr ⟨ho', decide_eq_true hc'⟩
  have hlisted := h.listed "root"
  have hsize : (walked (encoder.run calls).images (objectEntries (encoder.run calls).folders)).2.size
      ≠ 0 := by
    intro h0
    have hnil := List.length_eq_zero_iff.mp h0
    rw [hnil] at hleft
    exact List.ne_nil_of_mem hmem' (List.map_eq_nil_iff.mp hleft.symm)
  rw [data, format_eq, if_pos hsize, get?_set_self, Option.getD_some, hleft] at hlisted
  -- the folder's own image is not among those that are left
  have hin : listing o ∈ ((encoder.outputs calls).filter fun o => o.1.containing = none).map listing := by
    rw [hlisted]
    refine List.mem_map_of_mem (List.mem_filter.mpr ⟨ho, decide_eq_true ?_⟩)
    rw [Call.key, hc]
    rfl
  obtain ⟨p, hp, heq⟩ := List.mem_map.mp hin
  obtain ⟨hp, hpc⟩ := List.mem_filter.mp hp
  obtain rfl := eq_of_name_eq h.nodup hp ho (EncodedImage.mk.inj heq).1
  rw [hc] at hpc
  exact absurd hpc (by simp)

/-! ## The export -/

/-- A call with an image that has columns returns, if its folder has a name of its own. -/
theorem encodeImage_total (encoder : PNGCollectionEncoder) {call : Call} (hwidth : 0 < call.png.width)
    (hown : ∀ f, call.containing = some f → f ∉ inherited) :
    (encoder.encodeImage call.name call.png call.folder).2.isSome = true := by
  obtain ⟨b, hloop, -⟩ := encodeLoop call.png.rgbaAt encoder.colors call.png.height hwidth
    call.png.height
  unfold encodeImage
  rw [toRLE_eq hloop]
  cases hf : call.folder with
  | none => rfl
  | some folder =>
      dsimp only
      by_cases hempty : folder = ""
      · rw [if_pos hempty]
        rfl
      · have hc : call.containing = some folder := by simp [Call.containing, hf, Option.filter, hempty]
        rw [if_neg hempty, if_neg (hown folder hc)]
        rfl

theorem outputs_returned (encoder : PNGCollectionEncoder)
    (hwidth : ∀ call ∈ calls, 0 < call.png.width)
    (hown : ∀ call ∈ calls, ∀ f, call.containing = some f → f ∉ inherited) :
    ∀ o ∈ encoder.outputs calls, o.2.isSome = true := by
  induction calls generalizing encoder with
  | nil => exact fun o ho => absurd ho List.not_mem_nil
  | cons call calls ih =>
      intro o ho
      rcases List.mem_cons.mp ho with rfl | ho
      · exact encodeImage_total encoder (hwidth call List.mem_cons_self) (hown call List.mem_cons_self)
      · exact ih _ (fun c hc => hwidth c (List.mem_cons_of_mem _ hc))
          (fun c hc => hown c (List.mem_cons_of_mem _ hc)) o ho

theorem returned_own {o : Call × Option String} (ho : o ∈ encoder.outputs calls)
    (hret : o.2.isSome = true) {f : String} (hf : o.1.containing = some f) : f ∉ inherited := by
  induction calls generalizing encoder with
  | nil => exact absurd ho List.not_mem_nil
  | cons call calls ih =>
      rcases List.mem_cons.mp ho with rfl | ho
      · obtain ⟨rle, hrle⟩ := Option.isSome_iff_exists.mp hret
        exact (encodeImage_returned hrle).2.2 f hf
      · exact ih ho

/-- A property of what was called is one of the calls. -/
theorem exists_output (encoder : PNGCollectionEncoder) (calls : List Call) (P : Call → Prop) :
    (∃ o ∈ encoder.outputs calls, P o.1) ↔ ∃ call ∈ calls, P call := by
  conv_rhs => rw [← map_fst_outputs encoder calls]
  simp only [List.mem_map, exists_exists_and_eq_and]

/--
**When an export is complete.** For every palette to begin with and every sequence of images with
columns: nothing is lost exactly if no name comes twice, in whatever folders, no image without a
folder is next to a folder called root, and no folder has the name of something every object has.
-/
theorem lossless_iff (colors : Option (List String)) (calls : List Call)
    (hwidth : ∀ call ∈ calls, 0 < call.png.width) :
    Lossless (new colors) calls ↔
      (calls.map Call.name).Nodup
      ∧ ¬ ((∃ call ∈ calls, call.containing = some "root") ∧ ∃ call ∈ calls, call.containing = none)
      ∧ ∀ call ∈ calls, ∀ folder, call.containing = some folder → folder ∉ inherited := by
  have hnames : ((new colors).outputs calls).map (fun o => o.1.name) = calls.map Call.name := by
    conv_rhs => rw [← map_fst_outputs (new colors) calls, List.map_map]
    rfl
  rw [← hnames, ← exists_output (new colors) calls fun call => call.containing = some "root",
    ← exists_output (new colors) calls fun call => call.containing = none]
  constructor
  · intro h
    refine ⟨h.nodup, h.not_root (holds_run ⟨rfl, rfl⟩ calls h.returned), ?_⟩
    intro call hcall f hf
    rw [← map_fst_outputs (new colors) calls] at hcall
    obtain ⟨o, ho, rfl⟩ := List.mem_map.mp hcall
    exact returned_own ho (h.returned o ho) hf
  · intro h
    obtain ⟨hnodup, hroot, hown⟩ := h
    have hret := outputs_returned (new colors) hwidth hown
    exact ⟨hret, (holds_run ⟨rfl, rfl⟩ calls hret).format_get? hnodup hret hroot⟩

/-- An image of one pixel. -/
def pixel (c : RGBAColor) : PngImage := ⟨1, 1, fun _ _ => c⟩

/-- Two images in two folders, and one in none. -/
def threeCalls : List Call :=
  [⟨"frog", pixel ⟨1, 2, 3, 255⟩, some "heads"⟩, ⟨"bark", pixel ⟨4, 5, 6, 255⟩, some "bodies"⟩,
    ⟨"cool", pixel ⟨0, 0, 0, 0⟩, none⟩]

theorem lossless_threeCalls : Lossless (new none) threeCalls := by
  refine (lossless_iff none threeCalls ?_).mpr (by decide)
  intro call hcall
  rcases List.mem_cons.mp hcall with rfl | hcall
  · exact Nat.one_pos
  · rcases List.mem_cons.mp hcall with rfl | hcall
    · exact Nat.one_pos
    · obtain rfl := List.mem_singleton.mp hcall
      exact Nat.one_pos

/-- Two images of one name in two folders. -/
def sameName : List Call :=
  [⟨"frog", pixel ⟨1, 2, 3, 255⟩, some "heads"⟩, ⟨"frog", pixel ⟨0, 0, 0, 0⟩, some "bodies"⟩]

/-- The first folder lists the second's image, and the second lists none. -/
theorem not_lossless_sameName :
    ((new none).outputs sameName).map Prod.snd = [some "0x0000000001ff01", some "0x0000000000"]
    ∧ ((new none).run sameName).data.images.get? "heads" = some [⟨"frog", some "0x0000000000"⟩]
    ∧ ((new none).run sameName).data.images.get? "bodies" = some [⟨"frog", none⟩]
    ∧ ¬ Lossless (new none) sameName := by
  have hbodies : ((new none).run sameName).data.images.get? "bodies" = some [⟨"frog", none⟩] := by
    decide +kernel
  refine ⟨by decide +kernel, by decide +kernel, hbodies, fun h => ?_⟩
  have hlisted := h.listed "bodies"
  rw [hbodies, Option.getD_some] at hlisted
  have hmem : (⟨"frog", none⟩ : EncodedImage) ∈ [(⟨"frog", none⟩ : EncodedImage)] :=
    List.mem_singleton_self _
  rw [hlisted] at hmem
  -- what is listed has a string
  obtain ⟨o, ho, heq⟩ := List.mem_map.mp hmem
  have hret := h.returned o (List.mem_filter.mp ho).1
  rw [(EncodedImage.mk.inj heq).2] at hret
  exact absurd hret (by decide)

end PNGCollectionEncoder

end Nouns.Sdk
