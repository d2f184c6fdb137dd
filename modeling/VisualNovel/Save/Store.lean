import VisualNovel.Disk.Tree
import VisualNovel.KeyedList
import VisualNovel.Save.Failure
import VisualNovel.Text.Utf8

/-!
Stores of texts under keys: one in memory, and one in a file that holds a single JSON object. Where
a store has to read, `room` is how many collections can be opened one inside the other.
-/
namespace VisualNovel.Save

open Data
open Text (RawText)

class KeyValueStore (ν : Type) where
  get : ν → (room : Nat) → (key : RawText) → Except Failure (Option RawText)
  /-- Replaces the value of a key. A store that cannot be written stays as it was. -/
  set : ν → (room : Nat) → (key value : RawText) → Except Failure ν

abbrev Texts := KeyedList RawText RawText

abbrev MemoryStore := Texts

instance : KeyValueStore MemoryStore where
  get store _ key := .ok (KeyedList.get? store key)
  set store _ key value := .ok (KeyedList.insert store key value)

/-- A file in a tree. A missing or malformed file counts as an empty store. -/
structure FileStore where
  tree : Disk.Tree
  path : Disk.Path
deriving Inhabited

namespace FileStore

/-- The fields of an object that are texts; others are passed over. -/
def textFields : Json → List (RawText × RawText)
  | .object fields => fields.filterMap fun
      | (key, .text value) => some (key, value)
      | _ => none
  | _ => []

/-- The text that the file holds, if it is one. -/
def text? (f : FileStore) : Option String := do
  let bytes ← (f.tree.read f.path).toOption
  (Text.Utf8.decodeLines bytes).toOption

def contents (f : FileStore) (room : Nat) : Except Json.ReadLimit Texts :=
  match f.text? with
  | none => .ok ∅
  | some text => do
      let document ← Json.read? room text
      return KeyedList.ofList ((document.map textFields).getD [])

def document (d : Texts) : RawText :=
  Json.write Json.indented (.object (d.entries.map fun (k, v) => (k, .text v)))

/-- What keeps a document from being written: the first of its texts that has no bytes. -/
def unencodable? (d : Texts) : Option Text.Unencodable :=
  (d.entries.flatMap fun (k, v) => [Json.quote k, Json.quote v]).findSome? fun t => t.surrogates?

/-- The bytes that are written of a document: all of them, or those before the first text that has
none. -/
def encode (d : Texts) : ByteArray :=
  let characters := (document d).characters
  let left := (unencodable? d).elim 0 (·.first)
  (String.ofList (characters.take (characters.length - left))).toUTF8

/-- A file beside the one of the store. `token` is what makes its name a new one. -/
def temporary (f : FileStore) (token : String) : Disk.Path :=
  f.path.parent.child ("." ++ f.path.name ++ "." ++ token ++ ".tmp")

/-- A failure that comes from outside the tree, such as a full disk. So many parts of the way to the
file have been made before it and, if the temporary file was opened, so many bytes were written. -/
structure Trouble where
  parts : Nat
  bytes : Option Nat
  reason : String

def unwritable (f : FileStore) (reason : String) : Failure :=
  .fault (.unwritableSaves f.path.text reason)

/-- Where a write stops in trouble. A file that is on the way still stops it before. -/
def stopped (f : FileStore) (d : Texts) (token : String) (trouble : Trouble) :
    Failure × FileStore :=
  let way := { f.path.parent with parts := f.path.parent.parts.take trouble.parts }
  match f.tree.makeDirectories way with
  | (some e, tree) => (f.unwritable e.message, { f with tree })
  | (none, tree) =>
      let tree := match trouble.bytes with
        | some count => tree.create (f.temporary token) ((encode d).extract 0 count)
        | none => tree
      (f.unwritable trouble.reason, { f with tree })

/-- Writes the whole file anew, in a directory that is made if need be: a temporary file is written
and moved to the place. When that fails, the reason comes back, and what has been made stays. -/
def replace (f : FileStore) (d : Texts) (token : String) :
    Option Trouble → Option Failure × FileStore
  | some trouble =>
      let (failure, after) := f.stopped d token trouble
      (some failure, after)
  | none =>
      match f.tree.makeDirectories f.path.parent with
      | (some e, tree) => (some (f.unwritable e.message), { f with tree })
      | (none, tree) =>
          let source := f.temporary token
          match unencodable? d with
          | some u => (some (.unencodable u), { f with tree := tree.create source (encode d) })
          | none =>
              match tree.write f.path (encode d) with
              | .ok tree => (none, { f with tree })
              | .error e =>
                  (some (f.unwritable (e.messageFrom (.resolve tree.cwd source))),
                    { f with tree := tree.create source (encode d) })

/-- Replaces the value of a key, and tells what went wrong. -/
def put (f : FileStore) (room : Nat) (key value : RawText) (token : String)
    (trouble : Option Trouble) : Option Failure × FileStore :=
  match f.contents room with
  | .ok d => f.replace (d.insert key value) token trouble
  | .error limit => (some (.unreadable limit), f)

end FileStore

instance : KeyValueStore FileStore where
  get f room key := ((f.contents room).mapError .unreadable).map fun d => d.get? key
  set f room key value :=
    match f.put room key value "" none with
    | (none, after) => .ok after
    | (some failure, _) => .error failure

end VisualNovel.Save
