import VisualNovel.Proofs.Save.Overwrites

/-!
Deleting a slot from a save collection. The entries that belong to the slot go, and all other slots
stay as they are. An entry that gives its number as a text belongs to no slot: it is not removed,
although it may be read as the save of its number.
-/
namespace VisualNovel.Save

open Data
open Text (RawText)

/-- An entry that is read as the save of a slot, but does not belong to it. -/
def Misspelt (form : SlotForm) (slot : Int) (e : Json) : Prop :=
  isEntryOf slot e = false ∧ ∃ s, form.read e = some s ∧ s.id = slot

theorem forall_not_misspelt_iff {form : SlotForm} {slot : Int} {entries : List Json} :
    (∀ e ∈ entries, ¬ Misspelt form slot e) ↔
      lastReadable form slot (entries.filter (!isEntryOf slot ·)) = none := by
  rw [lastReadable_eq_none_iff]
  constructor
  · intro hright e he s hs hid
    obtain ⟨he, hentry⟩ := List.mem_filter.mp he
    exact hright e he ⟨by simpa using hentry, s, hs, hid⟩
  · rintro hnone e he ⟨hentry, s, hs, hid⟩
    exact hnone e (List.mem_filter.mpr ⟨he, by simpa using hentry⟩) s hs hid

namespace Repository

variable {ν : Type} [KeyValueStore ν] {r r' : Repository ν} {room : Nat} {entries : List Json}
  {slot : Int} {found : Bool}

/-- What is left of a collection, and whether anything was found, when a slot is deleted. -/
structure Deleted (r : Repository ν) (room : Nat) (slot : Int) (entries : List Json)
    (found : Bool) (r' : Repository ν) : Prop where
  place : SamePlace r r'
  before : ∀ more, room ≤ more → r.entries more = .ok entries
  after : ∀ more, room ≤ more → r'.entries more = .ok (entries.filter (!isEntryOf slot ·))
  found_iff : found = true ↔ ∃ e ∈ entries, isEntryOf slot e = true
  /-- Nothing is written unless something is found. -/
  untouched : found = false → r' = r

theorem fits_filter [Reliable ν] (h : r.entries room = .ok entries) (hsome : entries ≠ [])
    (p : Json → Bool) : Json.Fits room (.list (entries.filter p)) := by
  rcases fits_of_entries h with rfl | hfits
  · exact absurd rfl hsome
  · cases hfits with
    | list hitems => exact .list fun e he => hitems e (List.mem_filter.mp he).1

theorem exists_delete [Reliable ν] (hslot : r.hasSlot slot = true)
    (h : r.entries room = .ok entries) :
    ∃ found r', r.delete room slot = .ok (found, r') ∧ Deleted r room slot entries found r' := by
  have hbefore : ∀ more, room ≤ more → r.entries more = .ok entries :=
    fun more hle => entries_more hle h
  by_cases hfound : ∃ e ∈ entries, isEntryOf slot e = true
  · obtain ⟨e, he, hentry⟩ := hfound
    have hfits : Json.Fits room (.list (entries.filter (!isEntryOf slot ·))) :=
      fits_filter h (List.ne_nil_of_mem he) _
    obtain ⟨r', hwrite⟩ := r.exists_write hfits
    obtain ⟨hplace, hlater⟩ := entries_of_write hwrite
    have hlength : (entries.filter (!isEntryOf slot ·)).length ≠ entries.length := by
      intro hall
      have hkept := List.length_filter_eq_length_iff.mp hall e he
      simp [hentry] at hkept
    refine ⟨true, r', ?_, hplace, hbefore, fun more hle => hlater more (hfits.mono hle),
      by simpa using ⟨e, he, hentry⟩, by simp⟩
    rw [delete, checkSlot_of_hasSlot hslot, h]
    simp only [mapError_ok, bind, Except.bind, if_neg hlength, hwrite]
    rfl
  · have hall : entries.filter (!isEntryOf slot ·) = entries := by
      refine List.filter_eq_self.mpr fun e he => ?_
      rw [Bool.not_eq_true']
      exact Bool.eq_false_iff.mpr fun hentry => hfound ⟨e, he, hentry⟩
    refine ⟨false, r, ?_, SamePlace.refl r, hbefore, fun more hle => ?_, by simpa using hfound,
      fun _ => rfl⟩
    · rw [delete, checkSlot_of_hasSlot hslot, h]
      simp only [mapError_ok, bind, Except.bind, hall, if_true]
      rfl
    · rw [hall]
      exact hbefore more hle

theorem delete_of_entries_error {failure : Failure} (hslot : r.hasSlot slot = true)
    (h : r.entries room = .error failure) : r.delete room slot = .error failure := by
  rw [delete, checkSlot_of_hasSlot hslot, h]
  rfl

namespace Deleted

theorem get_other (h : Deleted r room slot entries found r') (hform : r.form.Documented)
    {more : Nat} (hle : room ≤ more) {other : Int} (hne : other ≠ slot) :
    r'.get more other = r.get more other := by
  refine h.place.get_congr (h.before more hle) (h.after more hle) ?_
  refine lastReadable_filter fun e _ he t ht hid => hne ?_
  exact hid.symm.trans (id_of_isEntryOf hform (by simpa using he) ht)

/-- A save that was there was found, if none of its entries is misspelt. -/
theorem found_of_ne_none (h : Deleted r room slot entries found r')
    (hright : ∀ e ∈ entries, ¬ Misspelt r.form slot e)
    (hsave : lastReadable r.form slot entries ≠ none) : found = true := by
  rw [h.found_iff]
  by_cases hentry : ∃ e ∈ entries, isEntryOf slot e = true
  · exact hentry
  · refine absurd (lastReadable_eq_none_iff.mpr fun e he s hs hid => ?_) hsave
    refine hright e he ⟨?_, s, hs, hid⟩
    exact Bool.eq_false_iff.mpr fun hown => hentry ⟨e, he, hown⟩

end Deleted

/-- The slot is empty afterwards, and it was said whether there was a save. -/
structure Emptied (r : Repository ν) (room : Nat) (slot : Int) (found : Bool)
    (r' : Repository ν) : Prop where
  get_self : ∀ more, room ≤ more → r'.get more slot = .ok none
  get_other : ∀ more, room ≤ more → ∀ other, other ≠ slot → r'.get more other = r.get more other
  tells : r.get room slot ≠ .ok none → found = true
  untouched : found = false → r' = r

theorem Deleted.emptied_iff (h : Deleted r room slot entries found r')
    (hform : r.form.Documented) (hslot : r.hasSlot slot = true) :
    Emptied r room slot found r' ↔ ∀ e ∈ entries, ¬ Misspelt r.form slot e := by
  have hslot' : r'.hasSlot slot = true := (h.place.hasSlot slot).trans hslot
  have hself : ∀ more, room ≤ more → r'.get more slot =
      .ok (lastReadable r.form slot (entries.filter (!isEntryOf slot ·))) := by
    intro more hle
    rw [get_of_entries hslot' (h.after more hle), h.place.form]
  constructor
  · intro hempty
    rw [forall_not_misspelt_iff]
    exact Except.ok.inj ((hself room (Nat.le_refl _)).symm.trans
      (hempty.get_self room (Nat.le_refl _)))
  · intro hright
    exact
      { get_self := fun more hle => by rw [hself more hle, forall_not_misspelt_iff.mp hright]
        get_other := fun more hle _ hne => h.get_other hform hle hne
        tells := fun hsave => h.found_of_ne_none hright fun hnone => hsave (by
          rw [get_of_entries hslot (h.before room (Nat.le_refl _)), hnone])
        untouched := h.untouched }

/-- Deleting a slot goes through if the text in the store is read, and then it empties the slot
exactly if no entry that is read as its save gives the number as a text. In any case the other slots
stay as they are, and nothing is written if nothing is found. -/
theorem delete_empties_iff [Reliable ν] (r : Repository ν) {slot : Int}
    (hform : r.form.Documented) (hslot : r.hasSlot slot = true) (room : Nat) :
    (r.GivesUp room → ∃ limit, r.delete room slot = .error (.unreadable limit)) ∧
      ∀ entries, r.entries room = .ok entries →
        ∃ found r', r.delete room slot = .ok (found, r') ∧
          (Emptied r room slot found r' ↔ ∀ e ∈ entries, ¬ Misspelt r.form slot e) ∧
          (∀ more, room ≤ more → ∀ other, other ≠ slot → r'.get more other = r.get more other) ∧
          (found = false → r' = r) := by
  constructor
  · intro h
    obtain ⟨limit, hentries⟩ := entries_of_givesUp h
    exact ⟨limit, delete_of_entries_error hslot hentries⟩
  · intro entries hentries
    obtain ⟨found, r', hdelete, h⟩ := exists_delete hslot hentries
    exact ⟨found, r', hdelete, h.emptied_iff hform hslot,
      fun more hle _ hne => h.get_other hform hle hne, h.untouched⟩

theorem emptied_of_holding (text : RawText)
    (h : ((holding text).entries 900).toOption.map
      (fun entries => lastReadable .lenient 1 (entries.filter (!isEntryOf 1 ·))) = some none) :
    ∃ entries, (holding text).entries 900 = .ok entries ∧
      ∀ e ∈ entries, ¬ Misspelt .lenient 1 e := by
  cases hentries : (holding text).entries 900 with
  | error failure =>
    rw [hentries] at h
    cases h
  | ok entries =>
    rw [hentries] at h
    exact ⟨entries, rfl, forall_not_misspelt_iff.mpr (Option.some.inj h)⟩

def twoSaves : RawText :=
  "[\x7b\"id\": 1, \"nodeId\": \"start\", \"date\": \"2024-05-01T12:30:00Z\"\x7d, " ++
    "\x7b\"slot_id\": 2, \"nodeId\": \"b\", \"date\": \"2024-05-02\"\x7d]"

theorem delete_empties_one_of_two_saves :
    (holding twoSaves).form.Documented ∧ (holding twoSaves).hasSlot 1 = true ∧
      ∃ entries, (holding twoSaves).entries 900 = .ok entries ∧
        ∃ found r', (holding twoSaves).delete 900 1 = .ok (found, r') ∧
          Emptied (holding twoSaves) 900 1 found r' := by
  have hslot : (holding twoSaves).hasSlot 1 = true := by decide
  obtain ⟨entries, hentries, hright⟩ := emptied_of_holding twoSaves (by decide +kernel)
  obtain ⟨found, r', hdelete, hiff, -⟩ :=
    ((holding twoSaves).delete_empties_iff SlotForm.documented_lenient hslot 900).2 entries hentries
  exact ⟨SlotForm.documented_lenient, hslot, entries, hentries, found, r', hdelete, hiff.mpr hright⟩

/-- Its only save gives its number as a text. -/
def spelledSave : RawText :=
  "[\x7b\"id\": \"1\", \"nodeId\": \"start\", \"date\": \"2024-05-01T12:30:00Z\"\x7d]"

/-- The save is there, but it is not found and stays. -/
theorem a_spelled_number_survives_deletion :
    let r := holding spelledSave
    (∃ s, r.get 900 1 = .ok (some s)) ∧ r.delete 900 1 = .ok (false, r) := by
  intro r
  have hslot : r.hasSlot 1 = true := by decide
  have hread : (r.entries 900).toOption.map (lastReadable .lenient 1 ·) =
      some (some sampleSlot) := by decide +kernel
  have hnone : (r.entries 900).toOption.map (·.any (isEntryOf 1)) = some false := by
    decide +kernel
  cases hentries : r.entries 900 with
  | error failure =>
    rw [hentries] at hread
    cases hread
  | ok entries =>
    rw [hentries] at hread hnone
    obtain ⟨found, r', hdelete, h⟩ := exists_delete hslot hentries
    have hfound : found = false := by
      refine Bool.eq_false_iff.mpr fun hfound => ?_
      have hany : entries.any (isEntryOf 1) = true :=
        List.any_eq_true.mpr (h.found_iff.mp hfound)
      exact absurd (Option.some.inj hnone) (by simpa using hany)
    rw [hfound, h.untouched hfound] at hdelete
    refine ⟨⟨sampleSlot, ?_⟩, hdelete⟩
    rw [get_of_entries hslot hentries]
    exact congrArg Except.ok (Option.some.inj hread)

end Repository

end VisualNovel.Save
