import VisualNovel.Data.Value
import VisualNovel.KeyedList

/-!
Tables while a TOML document is being read. A value is written once. A table can be opened by a
header, by the headers of tables inside of it, or by keys with points in them; once a later section
has begun, keys no longer reopen it. Lists of tables grow at their end.
-/
namespace VisualNovel.Data.Toml

inductive Entry where
  | value (v : Value)
  /-- A table, and the first section, if any, in which it is complete. -/
  | table (closedFrom : Option Nat) (entries : List (String × Entry))
  /-- A list of tables, the last of which is still being written. -/
  | tables (earlier : List Value) (last : List (String × Entry))
deriving Inhabited

abbrev Table := List (String × Entry)

mutual

def Entry.toValue : Entry → Value
  | .value v => v
  | .table _ entries => .map (entryValues entries)
  | .tables earlier last => .list (earlier ++ [.map (entryValues last)])

def entryValues : List (String × Entry) → List (Value × Value)
  | [] => []
  | (key, entry) :: rest => (.text key, entry.toValue) :: entryValues rest

end

namespace Table

/-- Changes the table at the end of a path of headers. -/
def openAt? (change : Table → Option Table) : List String → Table → Option Table
  | [], entries => change entries
  | key :: rest, entries =>
      match Entries.find? key entries with
      | none => (openAt? change rest []).map fun es => Entries.put key (.table none es) entries
      | some (.table closed es) =>
          (openAt? change rest es).map fun es => Entries.put key (.table closed es) entries
      | some (.tables earlier last) =>
          (openAt? change rest last).map fun es => Entries.put key (.tables earlier es) entries
      | some (.value _) => none

/-- The header of section `number`. A table that was only opened on the way to others may still get
its own. -/
def declare? (number : Nat) (key : String) (entries : Table) : Option Table :=
  match Entries.find? key entries with
  | none => some (Entries.put key (.table (some number) []) entries)
  | some (.table none es) => some (Entries.put key (.table (some number) es) entries)
  | _ => none

/-- A header that adds a table to a list. -/
def append? (key : String) (entries : Table) : Option Table :=
  match Entries.find? key entries with
  | none => some (Entries.put key (.tables [] []) entries)
  | some (.tables earlier last) =>
      some (Entries.put key (.tables (earlier ++ [.map (entryValues last)]) []) entries)
  | _ => none

/-- Writes a value in section `number`, under a key with points in it. Tables on the way are
complete from the next section on. -/
def assign? (number : Nat) (v : Value) : List String → Table → Option Table
  | [], _ => none
  | [key], entries =>
      if (Entries.find? key entries).isSome then none
      else some (Entries.put key (.value v) entries)
  | key :: rest, entries =>
      match Entries.find? key entries with
      | none =>
          (assign? number v rest []).map fun es =>
            Entries.put key (.table (some (number + 1)) es) entries
      | some (.table closed es) =>
          if closed.any (· ≤ number) then none
          else
            (assign? number v rest es).map fun es =>
              Entries.put key (.table (some (number + 1)) es) entries
      | some _ => none

end Table

end VisualNovel.Data.Toml
