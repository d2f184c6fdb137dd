import VisualNovel.Data.Json.Basic
import VisualNovel.Data.Lenient

/-!
Save slots: where the player was, and what is shown of it in a list of saves.
-/
namespace VisualNovel.Save

open Data
open Text (RawText)

/-- A slot's number is at least 1, and its node has a name. -/
structure Slot where
  id : Int
  nodeId : String
  preview : RawText := []
  stamp : Calendar.Moment
  background : Option RawText := none
deriving DecidableEq, Repr, Inhabited

/-- A field goes by a short name in stored collections and may also be given under its long
name. -/
structure FieldName where
  stored : String
  long : String
deriving DecidableEq, Repr

def idField : FieldName := ⟨"id", "slot_id"⟩
def nodeField : FieldName := ⟨"nodeId", "node_id"⟩
def previewField : FieldName := ⟨"textSnippet", "text_preview"⟩
def stampField : FieldName := ⟨"date", "timestamp"⟩
def backgroundField : FieldName := ⟨"bg", "background"⟩

/-- The value of a field and the name it was found under; the stored name wins. -/
def FieldName.find (f : FieldName) (fields : List (RawText × Json)) : Option (Json × String) :=
  match Entries.find? (f.stored : RawText) fields with
  | some v => some (v, f.stored)
  | none => (Entries.find? (f.long : RawText) fields).map fun v => (v, f.long)

/-- How slots are kept in a stored collection. -/
structure SlotForm where
  /-- The slot that an entry stands for, if it can be read as one. -/
  read : Json → Option Slot
  write : Slot → Json

namespace Slot

/-- The entry of a slot whose moment is written in some way. -/
def entry (s : Slot) (stamp : RawText) : Json :=
  .object [(idField.stored, .int s.id), (nodeField.stored, .text s.nodeId),
    (previewField.stored, .text s.preview), (stampField.stored, .text stamp),
    (backgroundField.stored, s.background.elim .null .text)]

def toJson (s : Slot) : Json := s.entry s.stamp.stored

end Slot

/-- Reads one field; a failure is reported under the name that was used. -/
def FieldName.read {β : Type} (f : FieldName) (fields : List (RawText × Json))
    (missing : Option β) (convert : Json → Option β) : Except String β :=
  match f.find fields with
  | none => missing.elim (.error f.stored) .ok
  | some (v, name) => (convert v).elim (.error name) .ok

def slotNumber? (v : Json) : Option Int := (Lenient.whole? v.toValue).filter (1 ≤ ·)

def text? : Json → Option RawText
  | .text s => some s
  | _ => none

def nodeName? (v : Json) : Option String :=
  ((text? v).bind fun s => s.strict.toOption).filter (!·.isEmpty)

def optionalText? : Json → Option (Option RawText)
  | .null => some none
  | .text s => some (some s)
  | _ => none

def failed {β : Type} : Except String β → List String
  | .error name => [name]
  | .ok _ => []

/-- Reads a slot, or tells the names of the fields that do not fit; the empty name stands for a
document that has no fields. -/
def Slot.ofJson : Json → Except (List String) Slot
  | .object fields =>
      let id := idField.read fields none slotNumber?
      let node := nodeField.read fields none nodeName?
      let preview := previewField.read fields (some []) text?
      let stamp := stampField.read fields none fun v => Lenient.moment? v.toValue
      let background := backgroundField.read fields (some none) optionalText?
      match id, node, preview, stamp, background with
      | .ok id, .ok nodeId, .ok preview, .ok stamp, .ok background =>
          .ok { id, nodeId, preview, stamp, background }
      | _, _, _, _, _ =>
          .error (failed id ++ failed node ++ failed preview ++ failed stamp ++ failed background)
  | _ => .error [""]

/-- The form in which fields are converted leniently. -/
def SlotForm.lenient : SlotForm where
  read v := (Slot.ofJson v).toOption
  write := Slot.toJson

instance : Inhabited SlotForm := ⟨.lenient⟩

end VisualNovel.Save
