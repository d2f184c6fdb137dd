import VisualNovel.Proofs.Save.Entries

/-!
Writing to a save collection. Unless the text in the store goes beyond what is read, a slot that is
put into the collection takes the place of every entry with its number, and nothing else changes.
-/
namespace VisualNovel.Save

open Data
open Text (RawText)

/-- A store that never fails, and from which every write is read back. -/
class Reliable (ν : Type) [KeyValueStore ν] : Prop where
  gets (store : ν) (key : RawText) : ∃ found, ∀ room, KeyValueStore.get store room key = .ok found
  sets (store : ν) (room : Nat) (key value : RawText) :
    ∃ written, KeyValueStore.set store room key value = .ok written ∧
      ∀ room, KeyValueStore.get written room key = .ok (some value)

instance : Reliable MemoryStore where
  gets _ _ := ⟨_, fun _ => rfl⟩
  sets store _ key value :=
    ⟨_, rfl, fun _ => congrArg _ (KeyedList.get?_insert_self store key value)⟩

namespace Repository

variable {ν : Type} {r r' : Repository ν}

structure SamePlace (r r' : Repository ν) : Prop where
  key : r'.key = r.key
  slotCount : r'.slotCount = r.slotCount
  form : r'.form = r.form

namespace SamePlace

theorem refl (r : Repository ν) : SamePlace r r := ⟨rfl, rfl, rfl⟩

theorem trans {r'' : Repository ν} (h : SamePlace r r') (h' : SamePlace r' r'') :
    SamePlace r r'' :=
  ⟨h'.key.trans h.key, h'.slotCount.trans h.slotCount, h'.form.trans h.form⟩

theorem hasSlot (h : SamePlace r r') (slot : Int) : r'.hasSlot slot = r.hasSlot slot := by
  simp [Repository.hasSlot, h.slotCount]

end SamePlace

variable [KeyValueStore ν] {room more : Nat} {entries entries' : List Json}

theorem SamePlace.get_congr (h : SamePlace r r') {slot : Int} (hr : r.entries room = .ok entries)
    (hr' : r'.entries room = .ok entries')
    (hlast : lastReadable r.form slot entries' = lastReadable r.form slot entries) :
    r'.get room slot = r.get room slot := by
  cases hslot : r.hasSlot slot with
  | true =>
    rw [get_of_entries hslot hr, get_of_entries ((h.hasSlot slot).trans hslot) hr', h.form, hlast]
  | false =>
    rw [get_of_not_hasSlot hslot, get_of_not_hasSlot ((h.hasSlot slot).trans hslot), h.slotCount]

/-- The text of the collection goes beyond what is read. -/
def GivesUp (r : Repository ν) (room : Nat) : Prop :=
  ∃ text limit, r.storedText room = .ok (some text) ∧ Json.read? room text = .error limit

theorem entries_of_givesUp (h : r.GivesUp room) :
    ∃ limit, r.entries room = .error (.unreadable limit) := by
  obtain ⟨text, limit, htext, hread⟩ := h
  refine ⟨limit, ?_⟩
  simp [entries, htext, hread, bind, Except.bind]

theorem entries_of_storedText {text : RawText} {document : Option Json}
    (htext : r.storedText room = .ok (some text)) (hread : Json.read? room text = .ok document) :
    r.entries room = .ok (document.elim [] fun
      | .list items => items
      | _ => []) := by
  rw [entries, htext]
  simp only [bind, Except.bind, hread, mapError_ok]
  cases document with
  | none => rfl
  | some v => cases v <;> rfl

theorem entries_of_storedText_none (htext : r.storedText room = .ok none) :
    r.entries room = .ok [] := by
  rw [entries, htext]
  rfl

section Reading
variable [Reliable ν]

theorem exists_storedText (r : Repository ν) :
    ∃ found, ∀ room, r.storedText room = .ok found := by
  obtain ⟨found, hfound⟩ := Reliable.gets r.store (r.key : RawText)
  exact ⟨found, fun room => hfound _⟩

theorem exists_entries (h : ¬ r.GivesUp room) : ∃ entries, r.entries room = .ok entries := by
  obtain ⟨found, hfound⟩ := r.exists_storedText
  cases found with
  | none => exact ⟨[], entries_of_storedText_none (hfound room)⟩
  | some text =>
    cases hread : Json.read? room text with
    | ok document => exact ⟨_, entries_of_storedText (hfound room) hread⟩
    | error limit => exact absurd ⟨text, limit, hfound room, hread⟩ h

theorem not_givesUp_iff : ¬ r.GivesUp room ↔ ∃ entries, r.entries room = .ok entries := by
  refine ⟨exists_entries, ?_⟩
  rintro ⟨entries, hentries⟩ hgives
  obtain ⟨limit, hlimit⟩ := entries_of_givesUp hgives
  rw [hlimit] at hentries
  cases hentries

theorem not_givesUp_of_isOk (h : (r.entries room).isOk = true) : ¬ r.GivesUp room := by
  rw [not_givesUp_iff]
  cases hentries : r.entries room with
  | ok entries => exact ⟨entries, rfl⟩
  | error failure =>
    rw [hentries] at h
    cases h

theorem document_of_entries (h : r.entries room = .ok entries) :
    (∀ room, r.storedText room = .ok none) ∧ entries = [] ∨
      ∃ text document, (∀ room, r.storedText room = .ok (some text)) ∧
        Json.read? room text = .ok document ∧ entries = document.elim [] fun
          | .list items => items
          | _ => [] := by
  obtain ⟨found, hfound⟩ := r.exists_storedText
  cases found with
  | none =>
    rw [entries_of_storedText_none (hfound room)] at h
    exact .inl ⟨hfound, (Except.ok.inj h).symm⟩
  | some text =>
    cases hread : Json.read? room text with
    | ok document =>
      rw [entries_of_storedText (hfound room) hread] at h
      exact .inr ⟨text, document, hfound, hread, (Except.ok.inj h).symm⟩
    | error limit =>
      exact absurd ⟨entries, h⟩ (not_givesUp_iff.not_right.mp ⟨text, limit, hfound room, hread⟩)

theorem entries_more (hle : room ≤ more) (h : r.entries room = .ok entries) :
    r.entries more = .ok entries := by
  rcases document_of_entries h with ⟨hnone, rfl⟩ | ⟨text, document, htext, hread, rfl⟩
  · exact entries_of_storedText_none (hnone more)
  · exact entries_of_storedText (htext more) (Json.read?_more hle hread)

theorem fits_of_entries (h : r.entries room = .ok entries) :
    entries = [] ∨ Json.Fits room (.list entries) := by
  rcases document_of_entries h with ⟨-, rfl⟩ | ⟨text, document, -, hread, rfl⟩
  · exact .inl rfl
  · cases document with
    | none => exact .inl rfl
    | some v =>
      have hfits := Json.fits_of_read? hread
      cases v with
      | list items => exact .inr hfits
      | _ => exact .inl rfl

theorem exists_write (r : Repository ν) (h : Json.Fits room (.list entries)) :
    ∃ r', r.write room entries = .ok r' := by
  obtain ⟨written, hset, -⟩ := Reliable.sets r.store (room - 2) (r.key : RawText)
    (Json.write Json.compact (.list entries))
  refine ⟨{ r with store := written }, ?_⟩
  rw [write, Json.dump_of_fits h]
  simp [bind, Except.bind, hset, pure, Except.pure]

/-- Entries that are written are the entries of the collection from then on, wherever there is room
for them. -/
theorem entries_of_write (h : r.write room entries = .ok r') :
    SamePlace r r' ∧ ∀ more, Json.Fits more (.list entries) → r'.entries more = .ok entries := by
  obtain ⟨text, hdump, h⟩ := bind_eq_ok_iff.mp h
  obtain ⟨store, hset, h⟩ := bind_eq_ok_iff.mp h
  obtain ⟨written, hwritten, hget⟩ := Reliable.sets r.store (room - 2) (r.key : RawText) text
  obtain rfl : store = written := Except.ok.inj (hset.symm.trans hwritten)
  obtain rfl := Except.ok.inj h
  refine ⟨⟨rfl, rfl, rfl⟩, fun more hfits => ?_⟩
  rw [(Json.dump_eq_ok (mapError_eq_ok_iff.mp hdump)).2] at hget
  exact entries_of_storedText (hget _) (Json.read?_write Json.compact hfits)

end Reading

/-- Entries among which every entry of a slot has been replaced by a new one. -/
def withSlot (form : SlotForm) (s : Slot) (entries : List Json) : List Json :=
  entries.filter (!isEntryOf s.id ·) ++ [form.write s]

section WithSlot
variable {form : SlotForm} {s : Slot}

theorem isEntryOf_write (hform : form.Documented) (s : Slot) :
    isEntryOf s.id (form.write s) = true := by
  obtain ⟨stamp, hwrite⟩ := hform.written s
  rw [hwrite]
  exact s.isEntryOf_entry stamp

theorem lastReadable_withSlot (hs : form.Keeps s) (entries : List Json) :
    lastReadable form s.id (withSlot form s entries) = some s := by
  rw [withSlot, lastReadable_append, lastReadable_singleton hs, if_pos rfl, Option.some_or]

/-- No other slot is affected, whether or not the new entry can be read. -/
theorem lastReadable_withSlot_of_ne (hform : form.Documented) {slot : Int} (hne : s.id ≠ slot)
    (entries : List Json) :
    lastReadable form slot (withSlot form s entries) = lastReadable form slot entries := by
  have hnew : lastReadable form slot [form.write s] = none := by
    refine lastReadable_eq_none_iff.mpr fun e he t ht => ?_
    rw [List.mem_singleton.mp he] at ht
    rw [id_of_isEntryOf hform (isEntryOf_write hform s) ht]
    exact hne
  rw [withSlot, lastReadable_append, hnew, Option.none_or]
  refine lastReadable_filter fun e _ he t ht => ?_
  rw [id_of_isEntryOf hform (by simpa using he) ht]
  exact hne

theorem filter_withSlot (hform : form.Documented) (entries : List Json) :
    (withSlot form s entries).filter (!isEntryOf s.id ·) =
      entries.filter (!isEntryOf s.id ·) := by
  simp [withSlot, isEntryOf_write hform]

theorem filter_withSlot_self (hform : form.Documented) (entries : List Json) :
    (withSlot form s entries).filter (isEntryOf s.id ·) = [form.write s] := by
  simp [withSlot, isEntryOf_write hform]

end WithSlot

/-- Whether a slot can be put into the collection: its text is read, and the entry of the slot can
be written. -/
structure Permits (r : Repository ν) (room : Nat) (slot : Int) : Prop where
  legible : ¬ r.GivesUp room
  /-- The list has entries, which are objects. -/
  deep : 2 ≤ room
  short : Json.isTooLong slot = false

section Put
variable {s : Slot}

theorem hasSlot_of_put (h : r.put room s = .ok r') : r.hasSlot s.id = true := by
  by_cases hslot : r.hasSlot s.id = true
  · exact hslot
  · rw [put, checkSlot, if_neg hslot] at h
    cases h

variable [Reliable ν]

theorem fits_withSlot (hform : r.form.Documented) (hdeep : 2 ≤ room)
    (hshort : Json.isTooLong s.id = false) (h : r.entries room = .ok entries) :
    Json.Fits room (.list (withSlot r.form s entries)) := by
  obtain ⟨deeper, rfl⟩ : ∃ deeper, room = deeper + 2 := ⟨room - 2, by omega⟩
  obtain ⟨stamp, hwritten⟩ := hform.written s
  have hkept : ∀ e ∈ entries, Json.Fits (deeper + 1) e := by
    rcases fits_of_entries h with rfl | hfits
    · nofun
    · cases hfits with
      | list hitems => exact hitems
  refine .list fun e he => ?_
  rcases List.mem_append.mp he with he | he
  · exact hkept e (List.mem_filter.mp he).1
  · rw [List.mem_singleton.mp he, hwritten]
    exact Slot.fits_entry stamp hshort deeper

theorem exists_put (hform : r.form.Documented) (hslot : r.hasSlot s.id = true)
    (h : r.Permits room s.id) : ∃ r', r.put room s = .ok r' := by
  obtain ⟨entries, hentries⟩ := exists_entries h.legible
  rw [put, checkSlot_of_hasSlot hslot, hentries]
  exact r.exists_write (fits_withSlot hform h.deep h.short hentries)

theorem permits_of_put (hform : r.form.Documented) (h : r.put room s = .ok r') :
    r.Permits room s.id := by
  obtain ⟨_, -, h⟩ := bind_eq_ok_iff.mp h
  obtain ⟨entries, hentries, hwrite⟩ := bind_eq_ok_iff.mp h
  obtain ⟨text, hdump, -⟩ := bind_eq_ok_iff.mp hwrite
  have hobstacle := (Json.dump_eq_ok (mapError_eq_ok_iff.mp hdump)).1
  obtain ⟨stamp, hwritten⟩ := hform.written s
  cases room with
  | zero => cases hobstacle
  | succ room =>
    rw [Json.obstacle?, Json.itemsObstacle?_append, hwritten] at hobstacle
    have hentry := (Option.or_eq_none_iff.mp hobstacle).2
    cases room with
    | zero => cases hentry
    | succ room =>
      refine ⟨not_givesUp_iff.mpr ⟨entries, hentries⟩, by omega, ?_⟩
      by_contra hlong
      rw [Bool.not_eq_false] at hlong
      simp [Json.itemsObstacle?, Slot.entry, Json.obstacle?, Json.fieldsObstacle?, hlong] at hentry

/-- The entries after a slot has been put into the collection, wherever those before were read. -/
theorem entries_of_put (hform : r.form.Documented) {least : Nat} (hdeep : 2 ≤ least)
    (hentries : r.entries least = .ok entries) (h : r.put room s = .ok r') :
    SamePlace r r' ∧ ∀ more, least ≤ more → r'.entries more = .ok (withSlot r.form s entries) := by
  have hshort := (permits_of_put hform h).short
  obtain ⟨_, -, h⟩ := bind_eq_ok_iff.mp h
  obtain ⟨found, hfound, hwrite⟩ := bind_eq_ok_iff.mp h
  obtain rfl : found = entries := by
    rcases le_total room least with hle | hle
    · exact Except.ok.inj ((entries_more hle hfound).symm.trans hentries)
    · exact Except.ok.inj (hfound.symm.trans (entries_more hle hentries))
  obtain ⟨hplace, hlater⟩ := entries_of_write hwrite
  refine ⟨hplace, fun more hle => hlater more ?_⟩
  exact (fits_withSlot hform hdeep hshort hentries).mono hle

end Put

/-- What becomes of the entries when a slot is overwritten. -/
structure Rewritten (form : SlotForm) (s : Slot) (entries entries' : List Json) : Prop where
  /-- The entries of all other numbers, in their order. -/
  kept : entries'.filter (!isEntryOf s.id ·) = entries.filter (!isEntryOf s.id ·)
  alone : entries'.filter (isEntryOf s.id ·) = [form.write s]

/-- The collection `r'` is `r` with one slot overwritten, wherever there is as much room. -/
structure Overwritten (r : Repository ν) (room : Nat) (s : Slot) (r' : Repository ν) : Prop where
  place : SamePlace r r'
  get_self : ∀ more, room ≤ more → r'.get more s.id = .ok (some s)
  get_other : ∀ more, room ≤ more → ∀ slot, slot ≠ s.id → r'.get more slot = r.get more slot
  entries : ∃ entries entries', Rewritten r.form s entries entries' ∧
    ∀ more, room ≤ more → r.entries more = .ok entries ∧ r'.entries more = .ok entries' ∧
      ∃ slots, r'.listSlots more = .ok slots ∧ Listed r.form entries' slots

theorem overwritten_of_put [Reliable ν] {s : Slot} (hform : r.form.Documented)
    (hs : r.form.Keeps s) (h : r.put room s = .ok r') : Overwritten r room s r' := by
  have hslot := hasSlot_of_put h
  have hpermits := permits_of_put hform h
  obtain ⟨entries, hentries⟩ := exists_entries hpermits.legible
  obtain ⟨hplace, hlater⟩ := entries_of_put hform hpermits.deep hentries h
  refine ⟨hplace, fun more hle => ?_, fun more hle slot hne => ?_, entries, _,
    ⟨filter_withSlot hform entries, filter_withSlot_self hform entries⟩, fun more hle => ?_⟩
  · rw [get_of_entries ((hplace.hasSlot s.id).trans hslot) (hlater more hle), hplace.form,
      lastReadable_withSlot hs]
  · exact hplace.get_congr (entries_more hle hentries) (hlater more hle)
      (lastReadable_withSlot_of_ne hform hne.symm entries)
  · refine ⟨entries_more hle hentries, hlater more hle, ?_⟩
    obtain ⟨slots, hslots, hlisted⟩ := exists_listSlots (hlater more hle)
    exact ⟨slots, hslots, hplace.form ▸ hlisted⟩

/-- Putting a slot into a collection overwrites this slot and leaves all others as they are, exactly
if the text in the store is read and the entry of the slot can be written. -/
theorem put_overwrites [Reliable ν] (r : Repository ν) {s : Slot} (hform : r.form.Documented)
    (hs : r.form.Keeps s) (hslot : r.hasSlot s.id = true) (room : Nat) :
    (∃ r', r.put room s = .ok r' ∧ Overwritten r room s r') ↔ r.Permits room s.id := by
  constructor
  · rintro ⟨r', hput, -⟩
    exact permits_of_put hform hput
  · intro h
    obtain ⟨r', hput⟩ := exists_put hform hslot h
    exact ⟨r', hput, overwritten_of_put hform hs hput⟩

/-- A slot holds a save, which is found wherever there is as much room. -/
structure Holds (r : Repository ν) (room : Nat) (slot : Int) (saved : Slot) : Prop where
  hasSlot : r.hasSlot slot = true
  form : r.form.Documented
  deep : 2 ≤ room
  found : ∃ entries, r.entries room = .ok entries ∧ lastReadable r.form slot entries = some saved

section Holds
variable [Reliable ν] {slot : Int} {s saved : Slot}

theorem holds_of_put (hform : r.form.Documented) (hs : r.form.Keeps s) (h : r.put room s = .ok r') :
    r'.Holds room s.id s := by
  have hpermits := permits_of_put hform h
  obtain ⟨entries, hentries⟩ := exists_entries hpermits.legible
  obtain ⟨hplace, hlater⟩ := entries_of_put hform hpermits.deep hentries h
  exact
    { hasSlot := (hplace.hasSlot s.id).trans (hasSlot_of_put h)
      form := hplace.form ▸ hform
      deep := hpermits.deep
      found := ⟨_, hlater room le_rfl, hplace.form ▸ lastReadable_withSlot hs entries⟩ }

theorem Holds.get_eq_ok (h : r.Holds room slot saved) (hle : room ≤ more) :
    r.get more slot = .ok (some saved) := by
  obtain ⟨entries, hentries, hlast⟩ := h.found
  rw [get_of_entries h.hasSlot (entries_more hle hentries), hlast]

/-- A save is still found, in the room in which it was, after another slot has been put into the
collection in any other. -/
theorem Holds.put (h : r.Holds room slot saved) (hne : s.id ≠ slot) (hput : r.put more s = .ok r') :
    r'.Holds room slot saved := by
  obtain ⟨entries, hentries, hlast⟩ := h.found
  obtain ⟨hplace, hlater⟩ := entries_of_put h.form h.deep hentries hput
  refine ⟨(hplace.hasSlot slot).trans h.hasSlot, hplace.form ▸ h.form, h.deep, _,
    hlater room le_rfl, ?_⟩
  rw [hplace.form, lastReadable_withSlot_of_ne h.form hne, hlast]

end Holds

/-- A collection that starts with a text. -/
def holding (text : RawText) : Repository MemoryStore where
  store := KeyedList.ofList [("galgame_saves_v1", text)]

theorem storedText_holding (text : RawText) (room : Nat) :
    (holding text).storedText room = .ok (some text) := by
  have hget : (KeyedList.ofList [(("galgame_saves_v1" : RawText), text)]).get?
      "galgame_saves_v1" = some text := by
    simp [KeyedList.get?_ofList]
  exact congrArg Except.ok hget

def sampleSlot : Slot :=
  { id := 1, nodeId := "start", stamp := ⟨⟨2024, 5, 1⟩, ⟨12, 30, 0, 0⟩, some 0⟩ }

theorem civil_sampleSlot : sampleSlot.stamp.Civil := ⟨by decide, by decide, rfl, by decide⟩

theorem keeps_sampleSlot : SlotForm.lenient.Keeps sampleSlot :=
  SlotForm.keeps_lenient (by decide) (by decide) civil_sampleSlot

/-- An entry for another slot, and one that gives its number as a text. -/
def mixedSaves : RawText :=
  "[\x7b\"id\": \"1\", \"nodeId\": \"a\"\x7d, \x7b\"slot_id\": 2\x7d, 7]"

theorem put_overwrites_among_other_entries :
    (holding mixedSaves).form.Documented ∧ (holding mixedSaves).form.Keeps sampleSlot ∧
      (holding mixedSaves).hasSlot sampleSlot.id = true ∧
      ∃ r', (holding mixedSaves).put 900 sampleSlot = .ok r' ∧
        Overwritten (holding mixedSaves) 900 sampleSlot r' := by
  have hpermits : (holding mixedSaves).Permits 900 sampleSlot.id :=
    ⟨not_givesUp_of_isOk (by decide +kernel), by decide, by decide +kernel⟩
  have hslot : (holding mixedSaves).hasSlot sampleSlot.id = true := by decide
  exact ⟨SlotForm.documented_lenient, keeps_sampleSlot, hslot,
    ((holding mixedSaves).put_overwrites SlotForm.documented_lenient keeps_sampleSlot hslot
      900).mpr hpermits⟩

theorem givesUp_numberText {n : Int} (hlong : Json.isTooLong n = true) (room : Nat) :
    (holding (Json.numberText n)).GivesUp (room + 1) :=
  ⟨_, _, storedText_holding (Json.numberText n) _, Json.read?_numberText hlong room⟩

/-- Nothing is wrong with the slot, but a number with a digit too many keeps it out. -/
theorem a_long_number_keeps_a_slot_out :
    let r := holding (Json.numberText (10 ^ Text.digitLimit))
    r.form.Keeps sampleSlot ∧ r.hasSlot sampleSlot.id = true ∧
      ∀ r', r.put 900 sampleSlot ≠ .ok r' := by
  refine ⟨keeps_sampleSlot, by decide, fun r' hput => ?_⟩
  have hpermits := permits_of_put SlotForm.documented_lenient hput
  exact hpermits.legible (givesUp_numberText Json.isTooLong_pow 899)

end Repository

end VisualNovel.Save
