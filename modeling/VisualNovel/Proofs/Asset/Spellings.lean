import Mathlib.Data.List.Induction
import VisualNovel.Asset.Manifest

/-!
What the names of a manifest come to stand for. Entries are gathered twice: all sections of a
category under the spellings of names, and what comes of it under folded names. Both times a later
identifier takes the place of an earlier one, but a spelling that comes back stays where it first
came up. So of several spellings of one name it is the newest that counts, and the last entry of a
name counts unless a newer spelling than its own says something else.
-/
namespace VisualNovel

section FirstAppearances
variable {α β : Type} [DecidableEq α] [DecidableEq β]

theorem find?_eraseDups (p : α → Bool) (xs : List α) : xs.eraseDups.find? p = xs.find? p := by
  induction xs using List.reverseRecOn with
  | nil => rfl
  | append_singleton xs x ih =>
    rw [eraseDups_concat, List.find?_append, ← ih]
    split
    · next hmem =>
      cases hfound : xs.eraseDups.find? p with
      | some y => rfl
      | none =>
        have hx := List.find?_eq_none.mp hfound x (List.mem_eraseDups.mpr hmem)
        simp [hx]
    · exact List.find?_append

theorem eraseDups_map_eraseDups (f : α → β) (xs : List α) :
    (xs.eraseDups.map f).eraseDups = (xs.map f).eraseDups := by
  induction xs using List.reverseRecOn with
  | nil => rfl
  | append_singleton xs x ih =>
    rw [eraseDups_concat, List.map_append, List.map_singleton, eraseDups_concat, ← ih]
    split
    · next hmem => rw [if_pos (List.mem_map_of_mem hmem)]
    · rw [List.map_append, List.map_singleton, eraseDups_concat]
      simp only [List.mem_map, List.mem_eraseDups]

end FirstAppearances

namespace KeyedList

variable {κ ν : Type} [DecidableEq κ]

theorem ofList_append (entries more : List (κ × ν)) :
    ofList (entries ++ more) = more.foldl (fun d (k, v) => d.insert k v) (ofList entries) :=
  List.foldl_append

theorem keys_ofList (entries : List (κ × ν)) :
    (ofList entries).keys = (entries.map Prod.fst).eraseDups := by
  induction entries using List.reverseRecOn with
  | nil => rfl
  | append_singleton entries entry ih =>
    rw [ofList_append, List.foldl_cons, List.foldl_nil, keys_insert, ih, List.map_append,
      List.map_singleton, eraseDups_concat]
    simp only [List.mem_eraseDups]

/-- The last entry whose key is wanted is the entry of the last key that is wanted. -/
theorem find?_reverse_entries (d : KeyedList κ ν) (p : κ → Bool) :
    (d.entries.reverse.find? (p ·.1)).map Prod.snd = (d.keys.reverse.find? p).bind d.get? := by
  have hkeys : d.keys.reverse.find? p = (d.entries.reverse.find? (p ·.1)).map Prod.fst := by
    rw [keys, ← List.map_reverse, List.find?_map]
    rfl
  rw [hkeys]
  cases hfound : d.entries.reverse.find? (p ·.1) with
  | none => rfl
  | some entry =>
    have hmem : entry ∈ d.entries := List.mem_reverse.mp (List.mem_of_find?_eq_some hfound)
    exact ((d.mem_entries_iff entry.1 entry.2).mp hmem).symm

end KeyedList

namespace Asset

open Data

/-- The last identifier that entries give to a name, however it is spelled there. -/
def lastGiven? (entries : List (String × String)) (name : String) : Option String :=
  (entries.reverse.find? fun entry => foldedName entry.1 = foldedName name).map Prod.snd

/-- The last identifier that entries give to a name in just this spelling. -/
def lastSpelled? (entries : List (String × String)) (spelling : String) : Option String :=
  (entries.reverse.find? (·.1 = spelling)).map Prod.snd

/-- Of the spellings of a name the one that was the last to come up. -/
def newestSpelling? (entries : List (String × String)) (name : String) : Option String :=
  (entries.map Prod.fst).eraseDups.reverse.find? (foldedName · = foldedName name)

/-- The last entry in the newest spelling of the name gives the same identifier as the last entry
of the name. -/
def Undisputed (entries : List (String × String)) (name : String) : Prop :=
  ∀ spelling ∈ newestSpelling? entries name, lastSpelled? entries spelling = lastGiven? entries name

/-- The names among some spellings: each name once, as it is spelled first, and in the order in
which they first come up. -/
structure FirstSpellings (spellings names : List String) : Prop where
  folded : names.map foldedName = (spellings.map foldedName).eraseDups
  first : ∀ name ∈ names, spellings.find? (foldedName · = foldedName name) = some name

theorem FirstSpellings.of_eraseDups {spellings names : List String}
    (h : FirstSpellings spellings.eraseDups names) : FirstSpellings spellings names where
  folded := by rw [h.folded, eraseDups_map_eraseDups]
  first name hname := by rw [← find?_eraseDups, h.first name hname]

theorem lastGiven?_of_newestSpelling?_eq_none {entries : List (String × String)} {name : String}
    (h : newestSpelling? entries name = none) : lastGiven? entries name = none := by
  unfold newestSpelling? at h
  rw [lastGiven?, Option.map_eq_none_iff, List.find?_eq_none]
  intro entry hentry
  refine List.find?_eq_none.mp h entry.1 ?_
  rw [List.mem_reverse, List.mem_eraseDups]
  exact List.mem_map_of_mem (List.mem_reverse.mp hentry)

theorem undisputed_iff {entries : List (String × String)} {name : String} :
    (newestSpelling? entries name).bind (lastSpelled? entries) = lastGiven? entries name ↔
      Undisputed entries name := by
  unfold Undisputed
  cases hnewest : newestSpelling? entries name with
  | none => simp [lastGiven?_of_newestSpelling?_eq_none hnewest]
  | some spelling => simp

/-- Where no spelling comes back, the last entry of a name is in its newest spelling. -/
theorem undisputed_of_nodup {entries : List (String × String)}
    (h : (entries.map Prod.fst).Nodup) (name : String) : Undisputed entries name := by
  -- Such entries are gathered as they stand.
  let d : KeyedList String String := ⟨entries, h⟩
  have hnewest : newestSpelling? entries name =
      d.keys.reverse.find? (foldedName · = foldedName name) := by
    rw [newestSpelling?, ← KeyedList.keys_ofList, d.ofList_entries]
  have hspelled : lastSpelled? entries = d.get? := funext fun spelling => by
    rw [lastSpelled?, ← KeyedList.get?_ofList, d.ofList_entries]
  rw [← undisputed_iff, hnewest, hspelled]
  exact (d.find?_reverse_entries (foldedName · = foldedName name)).symm

/-- Puts an entry on a shelf. A name that is there already keeps its spelling. -/
def shelve (shelf : KeyedList String Listing) (entry : String × String) :
    KeyedList String Listing :=
  shelf.insert (foldedName entry.1)
    ⟨(shelf.get? (foldedName entry.1)).elim entry.1 (·.name), entry.2⟩

def shelfOf (entries : List (String × String)) : KeyedList String Listing :=
  entries.foldl shelve ∅

theorem shelfOf_concat (entries : List (String × String)) (entry : String × String) :
    shelfOf (entries ++ [entry]) = shelve (shelfOf entries) entry := by
  rw [shelfOf, List.foldl_append]
  rfl

theorem keys_shelfOf (entries : List (String × String)) :
    (shelfOf entries).keys = ((entries.map Prod.fst).map foldedName).eraseDups := by
  induction entries using List.reverseRecOn with
  | nil => rfl
  | append_singleton entries entry ih =>
    rw [shelfOf_concat, shelve, KeyedList.keys_insert, ih, List.map_append, List.map_append,
      List.map_singleton, List.map_singleton, eraseDups_concat]
    simp only [List.mem_eraseDups]

/-- A name keeps its first spelling. -/
theorem name_shelfOf (entries : List (String × String)) (key : String) :
    ((shelfOf entries).get? key).map (·.name) =
      (entries.map Prod.fst).find? (foldedName · = key) := by
  induction entries using List.reverseRecOn with
  | nil => rfl
  | append_singleton entries entry ih =>
    rw [shelfOf_concat, shelve, KeyedList.get?_insert, List.map_append, List.find?_append, ← ih]
    by_cases hkey : foldedName entry.1 = key
    · rw [if_pos hkey, hkey]
      cases (shelfOf entries).get? key <;> simp [hkey]
    · rw [if_neg hkey]
      cases (shelfOf entries).get? key <;> simp [hkey]

/-- A name takes its last identifier. -/
theorem identifier_shelfOf (entries : List (String × String)) (key : String) :
    ((shelfOf entries).get? key).map (·.identifier) =
      (entries.reverse.find? fun entry => foldedName entry.1 = key).map Prod.snd := by
  induction entries using List.reverseRecOn with
  | nil => rfl
  | append_singleton entries entry ih =>
    rw [shelfOf_concat, shelve, KeyedList.get?_insert, List.reverse_append, List.reverse_singleton,
      List.singleton_append, List.find?_cons]
    by_cases hkey : foldedName entry.1 = key
    · simp [hkey]
    · simp [hkey, ih]

theorem firstSpellings_shelfOf (entries : List (String × String)) :
    FirstSpellings (entries.map Prod.fst) ((shelfOf entries).values.map (·.name)) := by
  have hspelt : ∀ entry ∈ (shelfOf entries).entries,
      (entries.map Prod.fst).find? (foldedName · = entry.1) = some entry.2.name := by
    intro entry hentry
    rw [← name_shelfOf, ((shelfOf entries).mem_entries_iff _ _).mp hentry]
    rfl
  have hkey : ∀ entry ∈ (shelfOf entries).entries, foldedName entry.2.name = entry.1 := by
    intro entry hentry
    simpa using List.find?_some (hspelt entry hentry)
  constructor
  · rw [← keys_shelfOf, KeyedList.keys, KeyedList.values, List.map_map, List.map_map]
    exact List.map_congr_left hkey
  · intro name hname
    rw [KeyedList.values, List.map_map] at hname
    obtain ⟨entry, hentry, rfl⟩ := List.mem_map.mp hname
    simp only [Function.comp_apply, hkey entry hentry]
    exact hspelt entry hentry

/-- Once entries are gathered under their spellings, the newest spelling of a name counts. -/
theorem identifier_shelfOf_ofList (entries : List (String × String)) (name : String) :
    ((shelfOf (KeyedList.ofList entries).entries).get? (foldedName name)).map (·.identifier) =
      (newestSpelling? entries name).bind (lastSpelled? entries) := by
  have hlast := (KeyedList.ofList entries).find?_reverse_entries (foldedName · = foldedName name)
  rw [KeyedList.keys_ofList] at hlast
  rw [identifier_shelfOf, hlast]
  exact congrArg _ (funext fun spelling => KeyedList.get?_ofList spelling entries)

theorem firstSpellings_shelfOf_ofList (entries : List (String × String)) :
    FirstSpellings (entries.map Prod.fst)
      ((shelfOf (KeyedList.ofList entries).entries).values.map (·.name)) := by
  have h := firstSpellings_shelfOf (KeyedList.ofList entries).entries
  have hkeys : (KeyedList.ofList entries).entries.map Prod.fst = _ := KeyedList.keys_ofList entries
  rw [hkeys] at h
  exact h.of_eraseDups

namespace Catalog

theorem shelf_addAll (c : Catalog) (category k : Category) (entries : List (String × String)) :
    (c.addAll category entries).shelf k =
      if k = category then entries.foldl shelve (c.shelf k) else c.shelf k := by
  induction entries generalizing c with
  | nil => simp [addAll]
  | cons entry rest ih =>
    have hadd : (c.add category entry.1 entry.2).shelf k =
      if k = category then shelve (c.shelf k) entry else c.shelf k := rfl
    rw [addAll, List.foldl_cons]
    refine (ih _).trans ?_
    rw [hadd]
    split <;> rfl

end Catalog

/-- What has been gathered for a category. -/
def Sections.gathered (sections : Sections) (category : Category) : KeyedList String String :=
  (sections.get? category).getD ∅

/-- Every category is among the sections once, so its shelf is filled once. -/
theorem Catalog.shelf_foldl_addAll {sections : List (Category × KeyedList String String)}
    (h : (sections.map Prod.fst).Nodup) (c : Catalog) (k : Category) :
    (sections.foldl (fun c (category, d) => c.addAll category d.entries) c).shelf k =
      ((Entries.find? k sections).getD ∅).entries.foldl shelve (c.shelf k) := by
  induction sections generalizing c with
  | nil => rfl
  | cons first rest ih =>
    obtain ⟨category, d⟩ := first
    obtain ⟨hfirst, hrest⟩ := List.nodup_cons.mp h
    rw [List.foldl_cons, ih hrest, shelf_addAll, Entries.find?]
    by_cases hk : category = k
    · subst hk
      have hnone : Entries.find? category rest = none := by
        rw [← Option.not_isSome_iff_eq_none, Entries.find?_isSome_iff]
        exact hfirst
      rw [if_pos rfl, if_pos rfl, hnone]
      rfl
    · rw [if_neg (Ne.symm hk), if_neg hk]

theorem Catalog.shelf_ofSections (sections : Sections) (k : Category) :
    (Catalog.ofSections sections).shelf k = shelfOf (sections.gathered k).entries :=
  shelf_foldl_addAll sections.nodup_keys ∅ k

def legible (name : Option String) : Option String := name.filter fun n => !(Text.trim n).isEmpty

theorem Catalog.resolve_eq (c : Catalog) (category : Category) (name : Option String) :
    c.resolve category name =
      (legible name).bind fun n =>
        ((c.shelf category).get? (foldedName n)).map (·.identifier) := by
  cases name with
  | none => rfl
  | some n =>
    rw [legible, Option.filter_some, resolve]
    cases (Text.trim n).isEmpty <;> rfl

/-- Whether a key is one of the names of a category. -/
def Denotes (key : Value) (category : Category) : Prop :=
  (foldedName key.display, category) ∈ sectionNames

instance (key : Value) (category : Category) : Decidable (Denotes key category) :=
  inferInstanceAs (Decidable (_ ∈ sectionNames))

/-- Whatever stands under a name of a category lists names and identifiers. -/
def WellSectioned (manifest : List (Value × Value)) : Prop :=
  ∀ entry ∈ manifest, ∀ category, Denotes entry.1 category → ∃ entries, entry.2 = .map entries

/-- The entries of a section as texts, with raw addresses if those are asked for. -/
def sectionEntries (direct : Bool) : Value → List (String × String)
  | .map entries => entries.map fun (name, identifier) =>
      (name.display, if direct then rawAddress identifier.display else identifier.display)
  | _ => []

/-- The entries of all sections of a category, in the order of the manifest. -/
def entriesOf (direct : Bool) (category : Category) (manifest : List (Value × Value)) :
    List (String × String) :=
  manifest.flatMap fun (key, value) =>
    if Denotes key category then sectionEntries direct value else []

def asksForRaw (manifest : List (Value × Value)) : Bool :=
  (Value.lookup? rawFlag manifest).any Value.isTruthy

/-- What a manifest lists in a category: spellings with identifiers. -/
def listed (category : Category) (manifest : List (Value × Value)) : List (String × String) :=
  entriesOf (asksForRaw manifest) category manifest

theorem lookup_eq_some_iff_mem {α β : Type} [DecidableEq α] {entries : List (α × β)}
    (h : (entries.map Prod.fst).Nodup) {a : α} {b : β} :
    entries.lookup a = some b ↔ (a, b) ∈ entries := by
  constructor
  · intro hlookup
    obtain ⟨before, after, rfl, -⟩ := List.lookup_eq_some_iff.mp hlookup
    exact List.mem_append_right _ List.mem_cons_self
  · intro hmem
    obtain ⟨before, after, rfl⟩ := List.append_of_mem hmem
    rw [List.map_append, List.nodup_append] at h
    refine List.lookup_eq_some_iff.mpr ⟨before, after, rfl, fun entry hentry => ?_⟩
    simpa using (h.2.2 entry.1 (List.mem_map_of_mem hentry) a (by simp)).symm

theorem sectionCategory?_eq_some_iff {key : Value} {category : Category} :
    sectionCategory? key = some category ↔ Denotes key category :=
  lookup_eq_some_iff_mem (by decide)

theorem not_denotes_of_isRawFlag {key : Value} (h : isRawFlag key = true) (category : Category) :
    ¬ Denotes key category := by
  cases key with
  | text s =>
    obtain rfl : s = rawFlag := by simpa [isRawFlag] using h
    cases category <;> decide +kernel
  | _ => cases h

theorem Sections.gathered_add (sections : Sections) (direct : Bool) (category k : Category)
    (entries : List (Value × Value)) :
    (sections.add direct category entries).gathered k =
      if category = k then
        (sectionEntries direct (.map entries)).foldl
          (fun d (name, identifier) => d.insert name identifier) (sections.gathered k)
      else sections.gathered k := by
  unfold gathered add
  rw [KeyedList.get?_insert]
  split
  · next hk =>
    subst hk
    rw [sectionEntries, List.foldl_map]
    rfl
  · rfl

theorem entriesOf_cons (direct : Bool) (category : Category) (key value : Value)
    (rest : List (Value × Value)) :
    entriesOf direct category ((key, value) :: rest) =
      (if Denotes key category then sectionEntries direct value else []) ++
        entriesOf direct category rest :=
  List.flatMap_cons

theorem exists_gatherSections {manifest : List (Value × Value)} (h : WellSectioned manifest)
    (direct : Bool) (sections : Sections) :
    ∃ sections', gatherSections direct sections manifest = .ok sections' ∧
      ∀ category, sections'.gathered category =
        (entriesOf direct category manifest).foldl
          (fun d (name, identifier) => d.insert name identifier) (sections.gathered category) := by
  induction manifest generalizing sections with
  | nil => exact ⟨sections, rfl, fun _ => rfl⟩
  | cons entry rest ih =>
    obtain ⟨key, value⟩ := entry
    obtain ⟨hfirst, hrest⟩ := List.forall_mem_cons.mp h
    have hpassed (hkey : ∀ category, ¬ Denotes key category) (category : Category) :
        entriesOf direct category ((key, value) :: rest) = entriesOf direct category rest := by
      rw [entriesOf_cons, if_neg (hkey category), List.nil_append]
    unfold gatherSections
    split
    · -- The flag is no section, and neither is what stands under an unknown name.
      next hflag =>
      simp only [hpassed (not_denotes_of_isRawFlag hflag)]
      exact ih hrest sections
    · cases hcategory : sectionCategory? key with
      | none =>
        have hkey (category : Category) : ¬ Denotes key category := by
          rw [← sectionCategory?_eq_some_iff, hcategory]
          exact nofun
        simp only [hpassed hkey]
        exact ih hrest sections
      | some category =>
        obtain ⟨entries, rfl⟩ := hfirst category (sectionCategory?_eq_some_iff.mp hcategory)
        obtain ⟨sections', hgather, hgathered⟩ := ih hrest (sections.add direct category entries)
        refine ⟨sections', hgather, fun k => ?_⟩
        have hdenotes : Denotes key k ↔ category = k := by
          rw [← sectionCategory?_eq_some_iff, hcategory, Option.some.injEq]
        rw [hgathered, Sections.gathered_add, entriesOf_cons, List.foldl_append]
        simp only [hdenotes]
        split <;> rfl

/-- The catalogue of a manifest has one shelf for each category, filled with what the manifest lists
there once it is gathered under its spellings. -/
theorem exists_ofManifest {manifest : List (Value × Value)} (h : WellSectioned manifest) :
    ∃ catalog, Catalog.ofManifest manifest = .ok catalog ∧ ∀ category,
      catalog.shelf category =
        shelfOf (KeyedList.ofList (listed category manifest)).entries := by
  obtain ⟨sections, hgather, hgathered⟩ := exists_gatherSections h (asksForRaw manifest) ∅
  refine ⟨Catalog.ofSections sections, ?_, fun category => ?_⟩
  · exact congrArg (Except.map Catalog.ofSections) hgather
  · rw [Catalog.shelf_ofSections, hgathered]
    rfl

theorem Catalog.size_eq (c : Catalog) : c.size = (Category.all.flatMap c.names).length := by
  have hnames (category : Category) : (c.names category).length = (c.shelf category).size := by
    rw [names, KeyedList.values, List.length_map, List.length_map, KeyedList.size]
  simp only [size, Category.all, List.foldl_cons, List.foldl_nil, List.flatMap_cons,
    List.flatMap_nil, List.length_append, List.length_nil, hnames]
  omega

/-- If whatever stands under a name of a category lists names and identifiers, a manifest makes a
catalogue. A name that is not blank then stands for the identifier in its last entry exactly if the
newest spelling does not dispute that; in any case it stands for what the newest spelling was given
last. The names of a category come one for each folded name, and the size counts all of them. -/
theorem names_stand_for_their_last_entries_iff {manifest : List (Value × Value)}
    (hmanifest : WellSectioned manifest) :
    ∃ catalog, Catalog.ofManifest manifest = .ok catalog ∧
      (∀ category name, catalog.resolve category name = (legible name).bind fun n =>
        (newestSpelling? (listed category manifest) n).bind
          (lastSpelled? (listed category manifest))) ∧
      (∀ category name,
        catalog.resolve category name =
            (legible name).bind (lastGiven? (listed category manifest)) ↔
          ∀ n ∈ legible name, Undisputed (listed category manifest) n) ∧
      (∀ category,
        FirstSpellings ((listed category manifest).map Prod.fst) (catalog.names category)) ∧
      catalog.size = (Category.all.flatMap catalog.names).length := by
  obtain ⟨catalog, hcatalog, hshelf⟩ := exists_ofManifest hmanifest
  have hresolve (category : Category) (name : Option String) :
      catalog.resolve category name = (legible name).bind fun n =>
        (newestSpelling? (listed category manifest) n).bind
          (lastSpelled? (listed category manifest)) := by
    simp only [catalog.resolve_eq, hshelf, identifier_shelfOf_ofList]
  refine ⟨catalog, hcatalog, hresolve, fun category name => ?_, fun category => ?_,
    catalog.size_eq⟩
  · rw [hresolve]
    cases legible name with
    | none => simp
    | some n => simp [← undisputed_iff]
  · rw [Catalog.names, hshelf]
    exact firstSpellings_shelfOf_ofList _

/-- Two sections of backgrounds, one of no category, and the flag at the end. -/
def dayAndNight : List (Value × Value) := [
  (.text "BG", .map [
    (.text "Room", .text "https://github.com/u/r/blob/main/day.png"), (.int 7, .text "seven.png")]),
  (.text "music", .list []),
  (.text " Backgrounds", .map [
    (.text "ROOM", .text "https://github.com/u/r/blob/main/night.png")]),
  (.text "raw_github", .int 1)]

theorem wellSectioned_dayAndNight : WellSectioned dayAndNight := by
  have hmusic (category : Category) : ¬ Denotes (.text "music") category := by
    cases category <;> decide +kernel
  simp only [WellSectioned, dayAndNight, List.forall_mem_cons]
  exact ⟨fun _ _ => ⟨_, rfl⟩, fun category h => absurd h (hmusic category), fun _ _ => ⟨_, rfl⟩,
    fun category h => absurd h (not_denotes_of_isRawFlag rfl category), nofun⟩

theorem names_stand_for_their_last_entries_by_day_and_night :
    WellSectioned dayAndNight ∧ ∃ catalog, Catalog.ofManifest dayAndNight = .ok catalog ∧
      catalog.resolve .background (some " room ") =
        some "https://raw.githubusercontent.com/u/r/main/night.png" ∧
      FirstSpellings ["Room", "7", "ROOM"] (catalog.names .background) := by
  obtain ⟨catalog, hcatalog, -, hresolve, hnames, -⟩ :=
    names_stand_for_their_last_entries_iff wellSectioned_dayAndNight
  have hlisted : (listed .background dayAndNight).map Prod.fst = ["Room", "7", "ROOM"] := by
    decide +kernel
  have hnodup : ((listed .background dayAndNight).map Prod.fst).Nodup := by
    rw [hlisted]
    decide
  refine ⟨wellSectioned_dayAndNight, catalog, hcatalog, ?_, hlisted ▸ hnames .background⟩
  rw [(hresolve .background (some " room ")).mpr fun n _ => undisputed_of_nodup hnodup n]
  decide +kernel

/-- A spelling that comes back after another spelling of the same name has come up. -/
def comeback : List (Value × Value) := [
  (.text "BG", .map [(.text "Room", .text "1"), (.text "ROOM", .text "2")]),
  (.text "backgrounds", .map [(.text "Room", .text "3")])]

/-- The last entry of the name is overruled by the one before it. -/
theorem a_spelling_that_comes_back_is_overruled :
    WellSectioned comeback ∧ asksForRaw comeback = false ∧
      listed .background comeback = [("Room", "1"), ("ROOM", "2"), ("Room", "3")] ∧
      lastGiven? (listed .background comeback) "room" = some "3" ∧
      (Catalog.ofManifest comeback).toOption.map (·.resolve .background (some "room")) =
        some (some "2") := by
  refine ⟨?_, rfl, by decide +kernel, by decide +kernel, by decide +kernel⟩
  simp only [WellSectioned, comeback, List.forall_mem_cons]
  exact ⟨fun _ _ => ⟨_, rfl⟩, fun _ _ => ⟨_, rfl⟩, nofun⟩

end Asset

end VisualNovel
