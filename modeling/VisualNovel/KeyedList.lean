/-!
Entries under keys, each key once, in the order in which the keys first came in. Writing to a key
that is already there changes its value and keeps its place; a new key goes to the end. The main
facts give the keys and the look-ups after each operation.
-/
namespace VisualNovel

theorem eraseDups_concat {α : Type} [DecidableEq α] (xs : List α) (x : α) :
    (xs ++ [x]).eraseDups = if x ∈ xs then xs.eraseDups else xs.eraseDups ++ [x] := by
  rw [List.eraseDups_append]
  by_cases hmem : x ∈ xs
  · simp [List.removeAll, hmem]
  · simp [List.removeAll, hmem, List.eraseDups_cons]

variable {κ ν : Type}

namespace Entries

variable [DecidableEq κ]

def find? (key : κ) : List (κ × ν) → Option ν
  | [] => none
  | (k, v) :: rest => if k = key then some v else find? key rest

/-- Overwrites the entry of the key, or adds one at the end. -/
def put (key : κ) (value : ν) : List (κ × ν) → List (κ × ν)
  | [] => [(key, value)]
  | (k, v) :: rest => if k = key then (key, value) :: rest else (k, v) :: put key value rest

theorem map_fst_put (key : κ) (value : ν) (entries : List (κ × ν)) :
    (put key value entries).map Prod.fst =
      if key ∈ entries.map Prod.fst then entries.map Prod.fst
      else entries.map Prod.fst ++ [key] := by
  induction entries with
  | nil => simp [put]
  | cons entry rest ih =>
    obtain ⟨k, v⟩ := entry
    by_cases h : k = key
    · subst h
      simp [put]
    · have h' : key ≠ k := fun e => h e.symm
      by_cases hmem : key ∈ rest.map Prod.fst
      · rw [if_pos hmem] at ih
        rw [put, if_neg h, List.map_cons, ih, List.map_cons, if_pos (List.mem_cons_of_mem _ hmem)]
      · rw [if_neg hmem] at ih
        rw [put, if_neg h, List.map_cons, ih, List.map_cons, if_neg (by simp [h', hmem])]
        rfl

theorem put_of_not_mem {key : κ} (value : ν) {entries : List (κ × ν)}
    (h : key ∉ entries.map Prod.fst) : put key value entries = entries ++ [(key, value)] := by
  induction entries with
  | nil => rfl
  | cons entry rest ih =>
    obtain ⟨k, v⟩ := entry
    rw [List.map_cons, List.mem_cons, not_or] at h
    rw [put, if_neg (Ne.symm h.1), ih h.2]
    rfl

theorem mem_put {key : κ} {value : ν} {entries : List (κ × ν)} {entry : κ × ν}
    (h : entry ∈ put key value entries) : entry = (key, value) ∨ entry ∈ entries := by
  induction entries with
  | nil => simpa [put] using h
  | cons first rest ih =>
    obtain ⟨k, v⟩ := first
    unfold put at h
    split at h
    · exact (List.mem_cons.mp h).imp id (List.mem_cons_of_mem _)
    · rcases List.mem_cons.mp h with h | h
      · exact .inr (h ▸ List.mem_cons_self)
      · exact (ih h).imp id (List.mem_cons_of_mem _)

theorem nodup_put (key : κ) (value : ν) {entries : List (κ × ν)}
    (h : (entries.map Prod.fst).Nodup) : ((put key value entries).map Prod.fst).Nodup := by
  rw [map_fst_put]
  split
  · exact h
  · next hmem =>
    refine List.nodup_append.2 ⟨h, by simp, ?_⟩
    intro a ha b hb
    rw [List.mem_singleton] at hb
    exact fun e => hmem (hb ▸ e ▸ ha)

theorem find?_put (key other : κ) (value : ν) (entries : List (κ × ν)) :
    find? other (put key value entries) =
      if key = other then some value else find? other entries := by
  induction entries with
  | nil => simp [put, find?]
  | cons entry rest ih =>
    obtain ⟨k, v⟩ := entry
    by_cases h : k = key
    · subst h
      by_cases ho : k = other <;> simp [put, find?, ho]
    · by_cases ho : k = other
      · subst ho
        simp [put, find?, h, Ne.symm h]
      · simp [put, find?, h, ho, ih]

theorem find?_isSome_iff (key : κ) (entries : List (κ × ν)) :
    (find? key entries).isSome ↔ key ∈ entries.map Prod.fst := by
  induction entries with
  | nil => simp [find?]
  | cons entry rest ih =>
    obtain ⟨k, v⟩ := entry
    by_cases h : k = key
    · simp [find?, h]
    · simp only [find?, if_neg h, ih, List.map_cons, List.mem_cons]
      exact ⟨Or.inr, fun e => e.resolve_left fun e => h e.symm⟩

end Entries

structure KeyedList (κ ν : Type) where
  entries : List (κ × ν)
  nodup_keys : (entries.map Prod.fst).Nodup

namespace KeyedList

def empty : KeyedList κ ν := ⟨[], List.nodup_nil⟩

instance : EmptyCollection (KeyedList κ ν) := ⟨empty⟩

instance : Inhabited (KeyedList κ ν) := ⟨empty⟩

def keys (d : KeyedList κ ν) : List κ := d.entries.map Prod.fst

def values (d : KeyedList κ ν) : List ν := d.entries.map Prod.snd

def size (d : KeyedList κ ν) : Nat := d.entries.length

def isEmpty (d : KeyedList κ ν) : Bool := d.entries.isEmpty

theorem length_keys (d : KeyedList κ ν) : d.keys.length = d.size := List.length_map _

variable [DecidableEq κ]

def get? (d : KeyedList κ ν) (key : κ) : Option ν := Entries.find? key d.entries

def contains (d : KeyedList κ ν) (key : κ) : Bool := (d.get? key).isSome

def insert (d : KeyedList κ ν) (key : κ) (value : ν) : KeyedList κ ν :=
  ⟨Entries.put key value d.entries, Entries.nodup_put key value d.nodup_keys⟩

/-- Changes the value of the key, if the key is there. -/
def modify (d : KeyedList κ ν) (key : κ) (f : ν → ν) : KeyedList κ ν :=
  match d.get? key with
  | some value => d.insert key (f value)
  | none => d

def ofList (entries : List (κ × ν)) : KeyedList κ ν :=
  entries.foldl (fun d (k, v) => d.insert k v) empty

theorem get?_insert (d : KeyedList κ ν) (key other : κ) (value : ν) :
    (d.insert key value).get? other = if key = other then some value else d.get? other :=
  Entries.find?_put key other value d.entries

theorem get?_insert_self (d : KeyedList κ ν) (key : κ) (value : ν) :
    (d.insert key value).get? key = some value := by
  rw [get?_insert, if_pos rfl]

theorem get?_insert_of_ne (d : KeyedList κ ν) {key other : κ} (value : ν) (h : key ≠ other) :
    (d.insert key value).get? other = d.get? other := by
  rw [get?_insert, if_neg h]

theorem keys_insert (d : KeyedList κ ν) (key : κ) (value : ν) :
    (d.insert key value).keys = if key ∈ d.keys then d.keys else d.keys ++ [key] :=
  Entries.map_fst_put key value d.entries

theorem isSome_get?_iff (d : KeyedList κ ν) (key : κ) : (d.get? key).isSome ↔ key ∈ d.keys :=
  Entries.find?_isSome_iff key d.entries

theorem keys_modify (d : KeyedList κ ν) (key : κ) (f : ν → ν) : (d.modify key f).keys = d.keys := by
  unfold modify
  cases hvalue : d.get? key with
  | none => rfl
  | some value =>
    have hmem : key ∈ d.keys := (d.isSome_get?_iff key).mp (by rw [hvalue]; rfl)
    dsimp only
    rw [keys_insert, if_pos hmem]

theorem mem_entries_iff (d : KeyedList κ ν) (key : κ) (value : ν) :
    (key, value) ∈ d.entries ↔ d.get? key = some value := by
  obtain ⟨entries, hkeys⟩ := d
  unfold get?
  induction entries with
  | nil => simp [Entries.find?]
  | cons entry rest ih =>
    obtain ⟨k, v⟩ := entry
    rw [List.map_cons, List.nodup_cons] at hkeys
    by_cases hk : k = key
    · subst hk
      have hnot : (k, value) ∉ rest := fun hmem => hkeys.1 (List.mem_map.mpr ⟨_, hmem, rfl⟩)
      simp [Entries.find?, hnot, eq_comm]
    · simp [Entries.find?, hk, Ne.symm hk, ih hkeys.2]

theorem get?_foldl_insert (key : κ) (entries : List (κ × ν)) (d : KeyedList κ ν) :
    (entries.foldl (fun d (k, v) => d.insert k v) d).get? key =
      ((entries.reverse.find? (·.1 = key)).map Prod.snd).or (d.get? key) := by
  induction entries generalizing d with
  | nil => rfl
  | cons entry rest ih =>
    obtain ⟨k, v⟩ := entry
    rw [List.foldl_cons, ih, get?_insert, List.reverse_cons, List.find?_append]
    by_cases hk : k = key
    · cases rest.reverse.find? (·.1 = key) <;> simp [hk]
    · cases rest.reverse.find? (·.1 = key) <;> simp [hk]

/-- Of several values under one key the last one is kept. -/
theorem get?_ofList (key : κ) (entries : List (κ × ν)) :
    (ofList entries).get? key = (entries.reverse.find? (·.1 = key)).map Prod.snd := by
  rw [ofList, get?_foldl_insert]
  exact Option.or_none

theorem entries_foldl_insert {entries : List (κ × ν)} {d : KeyedList κ ν}
    (h : ((d.entries ++ entries).map Prod.fst).Nodup) :
    (entries.foldl (fun d (k, v) => d.insert k v) d).entries = d.entries ++ entries := by
  induction entries generalizing d with
  | nil => simp
  | cons entry rest ih =>
    obtain ⟨k, v⟩ := entry
    have hnew : k ∉ d.entries.map Prod.fst := by
      rw [List.map_append, List.nodup_append] at h
      exact fun hmem => h.2.2 k hmem k (by simp) rfl
    have hentries : (d.insert k v).entries = d.entries ++ [(k, v)] := Entries.put_of_not_mem v hnew
    rw [List.foldl_cons, ih (by rw [hentries]; simpa using h), hentries, List.append_assoc]
    rfl

/-- Entries with one key each stay as they are. -/
theorem entries_ofList {entries : List (κ × ν)} (h : (entries.map Prod.fst).Nodup) :
    (ofList entries).entries = entries := entries_foldl_insert (d := empty) h

theorem ofList_entries (d : KeyedList κ ν) : ofList d.entries = d := by
  obtain ⟨entries, hkeys⟩ := d
  have hentries := entries_ofList hkeys
  generalize ofList entries = other at hentries
  subst hentries
  rfl

end KeyedList

end VisualNovel
