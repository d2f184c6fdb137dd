import VisualNovel.Save.Repository
import VisualNovel.Proofs.Calendar.Stored
import VisualNovel.Proofs.Json.RoundTrip

/-!
The entries of a save collection. An entry has a number of its own, by which it is replaced and
removed, and a slot it may be read as. The last entry that is read as a slot of some number is the
save of that number.
-/
namespace VisualNovel.Save

open Data
open Text (RawText)

/-- What is relied on in a form of slots. Slots are written field by field, and an entry is read
under the number that it gives, as a number or as a text. -/
structure SlotForm.Documented (form : SlotForm) : Prop where
  /-- How the moment of a slot is written is left to the form. -/
  written (s : Slot) : ∃ stamp, form.write s = s.entry stamp
  number {e : Json} {s : Slot} (hread : form.read e = some s) :
    ∃ v, entryId? e = some v ∧ (v.whole? = some s.id ∨ ∃ text, v = .text text)

/-- A slot that is read from what is written of it. -/
def SlotForm.Keeps (form : SlotForm) (s : Slot) : Prop := form.read (form.write s) = some s

/-- The save of a number: the last entry that is read as a slot of this number. -/
def lastReadable (form : SlotForm) (slot : Int) (entries : List Json) : Option Slot :=
  (entries.filterMap form.read).reverse.find? (·.id == slot)

section LastReadable
variable {form : SlotForm} {slot : Int}

theorem id_of_lastReadable {entries : List Json} {s : Slot}
    (h : lastReadable form slot entries = some s) : s.id = slot := by
  simpa using List.find?_some h

theorem lastReadable_append (a b : List Json) :
    lastReadable form slot (a ++ b) =
      (lastReadable form slot b).or (lastReadable form slot a) := by
  simp [lastReadable, List.filterMap_append, List.find?_append]

theorem lastReadable_singleton {e : Json} {s : Slot} (h : form.read e = some s) :
    lastReadable form slot [e] = if s.id = slot then some s else none := by
  by_cases hid : s.id = slot <;> simp [lastReadable, h, hid]

theorem lastReadable_eq_none_iff {entries : List Json} :
    lastReadable form slot entries = none ↔
      ∀ e ∈ entries, ∀ s, form.read e = some s → s.id ≠ slot := by
  simp only [lastReadable, List.find?_eq_none, List.mem_reverse, List.mem_filterMap]
  constructor
  · intro h e he s hs hid
    exact h s ⟨e, he, hs⟩ (beq_iff_eq.mpr hid)
  · rintro h s ⟨e, he, hs⟩ hid
    exact h e he s hs (eq_of_beq hid)

/-- Entries that are read as slots of other numbers may be left out. -/
theorem lastReadable_filter {p : Json → Bool} {entries : List Json}
    (h : ∀ e ∈ entries, p e = false → ∀ s, form.read e = some s → s.id ≠ slot) :
    lastReadable form slot (entries.filter p) = lastReadable form slot entries := by
  induction entries with
  | nil => rfl
  | cons e rest ih =>
    have hrest := ih fun e' he' => h e' (List.mem_cons_of_mem e he')
    have hcons : ∀ es, lastReadable form slot (e :: es) =
        (lastReadable form slot es).or (lastReadable form slot [e]) := lastReadable_append [e]
    by_cases hp : p e = true
    · rw [List.filter_cons_of_pos hp, hcons (rest.filter p), hcons rest, hrest]
    · have hnone : lastReadable form slot [e] = none :=
        lastReadable_eq_none_iff.mpr fun e' he' =>
          List.mem_singleton.mp he' ▸ h e List.mem_cons_self (Bool.eq_false_iff.mpr hp)
      rw [List.filter_cons_of_neg hp, hcons rest, hnone, Option.or_none, hrest]

end LastReadable

/-- An entry that belongs to a slot is read as no other. -/
theorem id_of_isEntryOf {form : SlotForm} {e : Json} {s : Slot} {slot : Int}
    (hform : form.Documented) (hentry : isEntryOf slot e = true) (h : form.read e = some s) :
    s.id = slot := by
  obtain ⟨v, hid, hnumber⟩ := hform.number h
  have hwhole : v.whole? = some slot := by simpa [isEntryOf, hid] using hentry
  rcases hnumber with hsame | ⟨text, rfl⟩
  · exact Option.some.inj (hsame.symm.trans hwhole)
  · cases hwhole

namespace Slot

variable (s : Slot) (stamp : RawText)

def fields : List (RawText × Json) :=
  [(idField.stored, .int s.id), (nodeField.stored, .text s.nodeId),
    (previewField.stored, .text s.preview), (stampField.stored, .text stamp),
    (backgroundField.stored, s.background.elim .null .text)]

theorem nodup_fields : ((s.fields stamp).map Prod.fst).Nodup := by
  change (List.map RawText.ofString ["id", "nodeId", "textSnippet", "date", "bg"]).Nodup
  decide

theorem find_fields {f : FieldName} {v : Json} (h : ((f.stored : RawText), v) ∈ s.fields stamp) :
    f.find (s.fields stamp) = some (v, f.stored) := by
  have hfind : Entries.find? (f.stored : RawText) (s.fields stamp) = some v :=
    (KeyedList.mem_entries_iff ⟨_, s.nodup_fields stamp⟩ _ _).mp h
  rw [FieldName.find, hfind]

theorem read_fields {β : Type} {f : FieldName} {v : Json} (missing : Option β)
    {convert : Json → Option β} {b : β} (h : ((f.stored : RawText), v) ∈ s.fields stamp)
    (hconvert : convert v = some b) : f.read (s.fields stamp) missing convert = .ok b := by
  rw [FieldName.read, s.find_fields stamp h]
  simp [hconvert]

theorem isEntryOf_entry : isEntryOf s.id (s.entry stamp) = true := by
  have hid : entryId? (s.entry stamp) = some (.int s.id) := rfl
  simp [isEntryOf, hid, Json.whole?]

theorem fits_entry {s : Slot} (h : Json.isTooLong s.id = false) (room : Nat) :
    Json.Fits (room + 1) (s.entry stamp) := by
  refine .object (s.nodup_fields stamp) fun f hf => ?_
  simp only [List.mem_cons, List.not_mem_nil, or_false] at hf
  rcases hf with rfl | rfl | rfl | rfl | rfl
  · exact .int h
  · exact .text _
  · exact .text _
  · exact .text _
  · cases s.background with
    | none => exact .null
    | some _ => exact .text _

end Slot

section Lenient

theorem FieldName.read_eq_ok {β : Type} {f : FieldName} {fields : List (RawText × Json)}
    {convert : Json → Option β} {b : β} (h : f.read fields none convert = .ok b) :
    ∃ v name, f.find fields = some (v, name) ∧ convert v = some b := by
  unfold FieldName.read at h
  split at h
  · cases h
  · next v name hfind =>
    cases hv : convert v with
    | none =>
      rw [hv] at h
      cases h
    | some b' =>
      rw [hv] at h
      cases h
      exact ⟨v, name, hfind, hv⟩

theorem whole?_of_lenient {v : Json} {n : Int} (h : Lenient.whole? v.toValue = some n) :
    v.whole? = some n ∨ ∃ text, v = .text text := by
  cases v with
  | text text => exact .inr ⟨text, rfl⟩
  | float x => exact .inl (Option.filter_eq_some_iff.mp h).1
  | _ => exact .inl h

theorem slotForm_lenient_read {e : Json} {s : Slot} :
    SlotForm.lenient.read e = some s ↔ Slot.ofJson e = .ok s := by
  change (Slot.ofJson e).toOption = some s ↔ _
  cases Slot.ofJson e <;> simp [Except.toOption]

theorem SlotForm.documented_lenient : SlotForm.lenient.Documented where
  written s := ⟨s.stamp.stored, rfl⟩
  number := by
    intro e s h
    rw [slotForm_lenient_read] at h
    cases e with
    | object fields =>
      simp only [Slot.ofJson] at h
      split at h
      · next hid _ _ _ _ =>
        obtain ⟨v, name, hfind, hv⟩ := FieldName.read_eq_ok hid
        cases h
        refine ⟨v, ?_, whole?_of_lenient (Option.filter_eq_some_iff.mp hv).1⟩
        rw [entryId?, Json.fields?, Option.bind_some, hfind]
        rfl
      · cases h
    | _ => cases h

theorem nodeName?_text {name : String} (h : name ≠ "") :
    nodeName? (.text (name : RawText)) = some name := by
  have htext : (text? (.text (name : RawText))).bind (fun s => s.strict.toOption) = some name := by
    simp [text?, Text.RawText.strict_ofString, Except.toOption]
  rw [nodeName?, htext]
  simp [h]

/-- Slots are read back if their moment is one of the civil calendar. -/
theorem SlotForm.keeps_lenient {s : Slot} (hid : 1 ≤ s.id) (hnode : s.nodeId ≠ "")
    (hstamp : s.stamp.Civil) : SlotForm.lenient.Keeps s := by
  have hmoment : Lenient.moment? (Json.text (s.stamp.stored : RawText)).toValue = some s.stamp := by
    rw [Json.toValue, Text.RawText.mended_ofString]
    exact hstamp.readsBack
  have hbackground : optionalText? (s.background.elim .null .text) = some s.background := by
    cases s.background <;> rfl
  have hnumber : slotNumber? (.int s.id) = some s.id := by
    simpa [slotNumber?, Lenient.whole?, Json.toValue, Value.whole?, Option.filter] using hid
  have hid' : idField.read (s.fields s.stamp.stored) none slotNumber? = .ok s.id :=
    s.read_fields _ none (v := .int s.id) (by simp [Slot.fields]) hnumber
  have hnode' : nodeField.read (s.fields s.stamp.stored) none nodeName? = .ok s.nodeId :=
    s.read_fields _ none (v := .text s.nodeId) (by simp [Slot.fields]) (nodeName?_text hnode)
  have hpreview : previewField.read (s.fields s.stamp.stored) (some []) text? = .ok s.preview :=
    s.read_fields _ (some []) (v := .text s.preview) (by simp [Slot.fields]) rfl
  have hstamp' : stampField.read (s.fields s.stamp.stored) none
      (fun v => Lenient.moment? v.toValue) = .ok s.stamp :=
    s.read_fields _ none (v := .text s.stamp.stored) (by simp [Slot.fields]) hmoment
  have hbackground' : backgroundField.read (s.fields s.stamp.stored) (some none) optionalText? =
      .ok s.background :=
    s.read_fields _ (some none) (v := s.background.elim .null .text) (by simp [Slot.fields])
      hbackground
  have hread : Slot.ofJson (.object (s.fields s.stamp.stored)) = .ok s := by
    simp only [Slot.ofJson, hid', hnode', hpreview, hstamp', hbackground']
  exact slotForm_lenient_read.mpr hread

end Lenient

namespace Repository

variable {ν : Type} {r : Repository ν} {entries : List Json}

theorem get?_readable (r : Repository ν) (entries : List Json) (slot : Int) :
    (r.readable entries).get? slot = lastReadable r.form slot entries := by
  have hsame : ((fun p : Int × Slot => decide (p.1 = slot)) ∘ fun s : Slot => (s.id, s)) =
      fun s : Slot => s.id == slot := rfl
  rw [readable, KeyedList.get?_ofList, ← List.map_reverse, List.find?_map, Option.map_map, hsame]
  exact Option.map_id_apply

theorem mem_readable {entry : Int × Slot} (h : entry ∈ (r.readable entries).entries) :
    lastReadable r.form entry.2.id entries = some entry.2 ∧ entry.1 = entry.2.id := by
  have hget := (KeyedList.mem_entries_iff (r.readable entries) entry.1 entry.2).mp h
  rw [get?_readable] at hget
  have hid := id_of_lastReadable hget
  exact ⟨hid ▸ hget, hid.symm⟩

/-- The slots that are listed for some entries: the last readable one of each number. -/
structure Listed (form : SlotForm) (entries : List Json) (slots : List Slot) : Prop where
  increasing : slots.Pairwise (·.id < ·.id)
  mem_iff (s : Slot) : s ∈ slots ↔ lastReadable form s.id entries = some s

theorem Listed.find? {form : SlotForm} {slots : List Slot} (h : Listed form entries slots)
    (slot : Int) : slots.find? (·.id == slot) = lastReadable form slot entries := by
  cases hfound : slots.find? (·.id == slot) with
  | none =>
    cases hlast : lastReadable form slot entries with
    | none => rfl
    | some s =>
      have hid := id_of_lastReadable hlast
      have hmem : s ∈ slots := (h.mem_iff s).mpr (hid.symm ▸ hlast)
      exact absurd (beq_iff_eq.mpr hid) (List.find?_eq_none.mp hfound s hmem)
  | some s =>
    have hid : s.id = slot := by simpa using List.find?_some hfound
    rw [← hid, (h.mem_iff s).mp (List.mem_of_find?_eq_some hfound)]

theorem listed_mergeSort (r : Repository ν) (entries : List Json) :
    Listed r.form entries
      ((r.readable entries).values.mergeSort fun a b => decide (a.id ≤ b.id)) := by
  have hids : (r.readable entries).values.map Slot.id = (r.readable entries).keys := by
    rw [KeyedList.values, KeyedList.keys, List.map_map]
    exact List.map_congr_left fun entry hentry => (mem_readable hentry).2.symm
  have hperm := List.mergeSort_perm (r.readable entries).values fun a b => decide (a.id ≤ b.id)
  have hdistinct := hperm.map Slot.id
  rw [hids] at hdistinct
  have htrans : ∀ a b c : Slot, decide (a.id ≤ b.id) = true → decide (b.id ≤ c.id) = true →
      decide (a.id ≤ c.id) = true := by
    simp only [decide_eq_true_eq]
    intro a b c
    exact Int.le_trans
  have htotal : ∀ a b : Slot, (decide (a.id ≤ b.id) || decide (b.id ≤ a.id)) = true := by
    simp only [Bool.or_eq_true, decide_eq_true_eq]
    exact fun a b => Int.le_total a.id b.id
  have hsort := List.pairwise_mergeSort htrans htotal (r.readable entries).values
  have hne := List.pairwise_map.mp (hdistinct.nodup_iff.mpr (r.readable entries).nodup_keys)
  refine ⟨(hsort.and hne).imp fun ⟨hle, hne⟩ =>
    Int.lt_iff_le_and_ne.mpr ⟨of_decide_eq_true hle, hne⟩, fun s => ?_⟩
  rw [List.mem_mergeSort, KeyedList.values, List.mem_map]
  constructor
  · rintro ⟨entry, hentry, rfl⟩
    exact (mem_readable hentry).1
  · intro h
    rw [← get?_readable] at h
    exact ⟨(s.id, s), (KeyedList.mem_entries_iff _ _ _).mpr h, rfl⟩

theorem checkSlot_of_hasSlot {slot : Int} (h : r.hasSlot slot = true) :
    r.checkSlot slot = .ok () := by
  rw [checkSlot, if_pos h]

variable [KeyValueStore ν] {room : Nat}

theorem exists_listSlots (h : r.entries room = .ok entries) :
    ∃ slots, r.listSlots room = .ok slots ∧ Listed r.form entries slots := by
  refine ⟨_, ?_, r.listed_mergeSort entries⟩
  rw [listSlots, h]
  rfl

/-- A slot holds the last readable entry of its number. -/
theorem get_of_entries {slot : Int} (hslot : r.hasSlot slot = true)
    (h : r.entries room = .ok entries) :
    r.get room slot = .ok (lastReadable r.form slot entries) := by
  obtain ⟨slots, hslots, hlisted⟩ := exists_listSlots h
  rw [get, checkSlot_of_hasSlot hslot, hslots, ← hlisted.find?]
  rfl

theorem get_of_entries_error {slot : Int} {failure : Failure} (hslot : r.hasSlot slot = true)
    (h : r.entries room = .error failure) : r.get room slot = .error failure := by
  rw [get, checkSlot_of_hasSlot hslot, listSlots, h]
  rfl

theorem get_of_not_hasSlot {slot : Int} (hslot : r.hasSlot slot = false) :
    r.get room slot = .error (.fault (.invalidSlot slot r.slotCount)) := by
  rw [get, checkSlot, if_neg (Bool.eq_false_iff.mp hslot)]
  rfl

/-- A slot holds an entry that can be read. -/
def HoldsReadable (r : Repository ν) (room : Nat) (slot : Int) : Prop :=
  ∃ entries, r.entries room = .ok entries ∧ ∃ e ∈ entries, ∃ s, r.form.read e = some s ∧ s.id = slot

theorem holdsReadable_iff (slot : Int) (h : r.entries room = .ok entries) :
    r.HoldsReadable room slot ↔ lastReadable r.form slot entries ≠ none := by
  rw [Ne, lastReadable_eq_none_iff]
  simp [HoldsReadable, h]

end Repository

end VisualNovel.Save
