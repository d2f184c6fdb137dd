import VisualNovel.Save.Slot
import VisualNovel.Save.Store

/-!
All save slots, kept as one JSON list under a single key of a store. Entries that cannot be read
are passed over when slots are listed, and written back unchanged when another slot is saved.

Whatever reads or writes the list is given `room`: how many collections can be opened one inside the
other, which is a question of the stack. The reader of the store stands two calls further in.
-/
namespace VisualNovel.Save

open Data

structure Repository (ν : Type) where
  store : ν
  key : String := "galgame_saves_v1"
  /-- Slots are numbered from 1 to this. -/
  slotCount : Int := 4
  form : SlotForm := .lenient
deriving Inhabited

/-- The slot number of a raw entry, whether or not the rest of the entry can be read. -/
def entryId? (entry : Json) : Option Json :=
  entry.fields?.bind fun fields => (idField.find fields).map Prod.fst

/-- Whether a raw entry belongs to a slot. Numbers are compared by value, texts never match. -/
def isEntryOf (slot : Int) (entry : Json) : Bool :=
  match entryId? entry with
  | some v => v.whole? == some slot
  | none => false

namespace Repository

variable {ν : Type} [KeyValueStore ν]

def slotIds (r : Repository ν) : List Int :=
  (List.range r.slotCount.toNat).map fun n : Nat => (n : Int) + 1

def hasSlot (r : Repository ν) (slot : Int) : Bool := 1 ≤ slot && slot ≤ r.slotCount

def checkSlot (r : Repository ν) (slot : Int) : Except Fault Unit :=
  if r.hasSlot slot then .ok () else .error (.invalidSlot slot r.slotCount)

def storedText (r : Repository ν) (room : Nat) : Except Failure (Option Text.RawText) :=
  KeyValueStore.get r.store (room - 2) r.key

/-- The raw entries; a text that is no JSON list counts as no entries. -/
def entries (r : Repository ν) (room : Nat) : Except Failure (List Json) := do
  match ← r.storedText room with
  | none => return []
  | some text =>
      match ← (Json.read? room text).mapError .unreadable with
      | some (.list items) => return items
      | _ => return []

/-- The readable saves among entries, the last one of each number. -/
def readable (r : Repository ν) (entries : List Json) : KeyedList Int Slot :=
  KeyedList.ofList ((entries.filterMap r.form.read).map fun s => (s.id, s))

/-- The readable saves in the order of their numbers. -/
def listSlots (r : Repository ν) (room : Nat) : Except Failure (List Slot) := do
  return (r.readable (← r.entries room)).values.mergeSort fun a b => decide (a.id ≤ b.id)

def get (r : Repository ν) (room : Nat) (slot : Int) : Except Failure (Option Slot) := do
  (r.checkSlot slot).mapError .fault
  return (← r.listSlots room).find? (·.id == slot)

def write (r : Repository ν) (room : Nat) (entries : List Json) :
    Except Failure (Repository ν) := do
  let text ← (Json.dump room (.list entries)).mapError .unwritable
  return { r with store := ← KeyValueStore.set r.store (room - 2) r.key text }

/-- Saves a slot in place of every entry with its number. -/
def put (r : Repository ν) (room : Nat) (s : Slot) : Except Failure (Repository ν) := do
  (r.checkSlot s.id).mapError .fault
  r.write room ((← r.entries room).filter (!isEntryOf s.id ·) ++ [r.form.write s])

/-- Removes the entries of a slot and tells whether there were any; if not, nothing is written. -/
def delete (r : Repository ν) (room : Nat) (slot : Int) :
    Except Failure (Bool × Repository ν) := do
  (r.checkSlot slot).mapError .fault
  let entries ← r.entries room
  let remaining := entries.filter (!isEntryOf slot ·)
  if remaining.length = entries.length then return (false, r)
  else return (true, ← r.write room remaining)

end Repository

end VisualNovel.Save
