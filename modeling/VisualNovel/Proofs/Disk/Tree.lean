import VisualNovel.Disk.Tree
import Mathlib.Data.List.Induction

/-!
Trees and what is done to them. In a tree that only gets more files and directories a path leads to
the same place, and a file that has been written is read there. To make a directory is to make the
whole way to it; where that fails, a file stands in the way from then on.
-/
namespace VisualNovel.Disk

theorem Path.parts_join {p : Path} (h : p.parts ≠ []) (cwd : Path) :
    (cwd.join p).parts = (cwd.join p.parent).parts ++ [p.name] := by
  have hparts : p.parts = p.parts.dropLast ++ [p.name] := by
    rw [Path.name, List.getLastD_eq_getLast?, List.getLast?_eq_some_getLast h, Option.getD_some,
      List.dropLast_concat_getLast h]
  unfold join parent
  split
  · exact hparts
  · rw [List.append_assoc, ← hparts]

theorem Path.parent_of_nil {p : Path} (h : p.parts = []) : p.parent = p := by
  obtain ⟨isAbsolute, parts⟩ := p
  subst h
  rfl

namespace Tree

/-- Everything in the first tree is in the second. -/
structure Extends (t t' : Tree) : Prop where
  cwd : t'.cwd = t.cwd
  itemAt : ∀ {parts item}, t.itemAt parts = some item → t'.itemAt parts = some item

/-- Every directory of the first tree is one of the second. -/
structure KeepsDirectories (t t' : Tree) : Prop where
  cwd : t'.cwd = t.cwd
  itemAt : ∀ {parts}, t.itemAt parts = some .directory → t'.itemAt parts = some .directory

variable {t t' t'' : Tree} {p : Path} {here parts : List String} {bytes : ByteArray}

theorem Extends.refl (t : Tree) : Extends t t := ⟨rfl, id⟩

theorem Extends.trans (h : Extends t t') (h' : Extends t' t'') : Extends t t'' :=
  ⟨h'.cwd.trans h.cwd, fun hitem => h'.itemAt (h.itemAt hitem)⟩

theorem KeepsDirectories.trans (h : KeepsDirectories t t') (h' : KeepsDirectories t' t'') :
    KeepsDirectories t t'' := ⟨h'.cwd.trans h.cwd, fun hitem => h'.itemAt (h.itemAt hitem)⟩

theorem Extends.keepsDirectories (h : Extends t t') : KeepsDirectories t t' := ⟨h.cwd, h.itemAt⟩

@[simp]
theorem itemAt_nil (t : Tree) : t.itemAt [] = some .directory := rfl

theorem itemAt_insert (t : Tree) {place : List String} (h : place ≠ []) (item : Item)
    (parts : List String) :
    itemAt { t with items := t.items.insert place item } parts =
      if place = parts then some item else t.itemAt parts := by
  cases parts with
  | nil => simp [h]
  | cons part rest => simp [itemAt, KeyedList.get?_insert]

theorem ne_nil_of_itemAt (h : t.itemAt here ≠ some .directory) : here ≠ [] := by
  rintro rfl
  exact h rfl

theorem extends_insert (h : t.itemAt here = none) (item : Item) :
    Extends t { t with items := t.items.insert here item } := by
  refine ⟨rfl, fun {parts other} hother => ?_⟩
  have hhere : here ≠ [] := ne_nil_of_itemAt (t := t) (by simp [h])
  have hne : here ≠ parts := by
    rintro rfl
    rw [h] at hother
    cases hother
  rw [itemAt_insert t hhere, if_neg hne, hother]

theorem walk_append (t : Tree) (here front back : List String) :
    t.walk here (front ++ back) =
      match t.walk here front with
      | .ok parts => t.walk parts.reverse back
      | .error f => .error f := by
  induction front generalizing here with
  | nil => simp [walk]
  | cons part rest ih =>
    simp only [List.cons_append, walk]
    cases t.itemAt here.reverse with
    | none => rfl
    | some item =>
      cases item with
      | file bytes => rfl
      | directory => exact ih _

theorem KeepsDirectories.walk (h : KeepsDirectories t t') {found : List String}
    (hwalk : t.walk here parts = .ok found) : t'.walk here parts = .ok found := by
  induction parts generalizing here with
  | nil => exact hwalk
  | cons part rest ih =>
    simp only [Tree.walk] at hwalk ⊢
    cases hitem : t.itemAt here.reverse with
    | none => simp [hitem] at hwalk
    | some item =>
      cases item with
      | file bytes => simp [hitem] at hwalk
      | directory =>
        rw [hitem] at hwalk
        rw [h.itemAt hitem]
        exact ih hwalk

theorem KeepsDirectories.place (h : KeepsDirectories t t') (hplace : t.place p = .ok parts) :
    t'.place p = .ok parts := by
  unfold Tree.place
  rw [h.cwd]
  exact h.walk hplace

theorem lookup_eq_some_iff {item : Item} :
    t.lookup p = some item ↔ ∃ parts, t.place p = .ok parts ∧ t.itemAt parts = some item := by
  unfold lookup
  cases t.place p with
  | ok parts => simp
  | error f => simp

theorem KeepsDirectories.lookup (h : KeepsDirectories t t')
    (hlookup : t.lookup p = some .directory) : t'.lookup p = some .directory := by
  obtain ⟨parts, hplace, hitem⟩ := lookup_eq_some_iff.mp hlookup
  exact lookup_eq_some_iff.mpr ⟨parts, h.place hplace, h.itemAt hitem⟩

theorem Extends.lookup (h : Extends t t') {item : Item} (hlookup : t.lookup p = some item) :
    t'.lookup p = some item := by
  obtain ⟨parts, hplace, hitem⟩ := lookup_eq_some_iff.mp hlookup
  exact lookup_eq_some_iff.mpr ⟨parts, h.keepsDirectories.place hplace, h.itemAt hitem⟩

theorem read_eq_ok_iff : t.read p = .ok bytes ↔ t.lookup p = some (.file bytes) := by
  unfold read lookup
  cases t.place p with
  | error f => simp
  | ok parts =>
    cases hitem : t.itemAt parts with
    | none => simp [hitem]
    | some item => cases item <;> simp [hitem]

/-- The working directory is there. -/
def Grounded (t : Tree) : Prop := t.lookup ⟨false, []⟩ = some .directory

/-- A path without parts leads to the root or to the working directory. -/
theorem Grounded.lookup_of_nil (h : t.Grounded) (hp : p.parts = []) :
    t.lookup p = some .directory := by
  obtain ⟨isAbsolute, parts⟩ := p
  obtain rfl : parts = [] := hp
  cases isAbsolute with
  | false => exact h
  | true => rfl

theorem KeepsDirectories.grounded (h : KeepsDirectories t t') (ht : t.Grounded) : t'.Grounded :=
  h.lookup ht

theorem Extends.walk_notADirectory (h : Extends t t')
    (hwalk : t.walk here parts = .error .notADirectory) :
    t'.walk here parts = .error .notADirectory := by
  induction parts generalizing here with
  | nil => cases hwalk
  | cons part rest ih =>
    simp only [Tree.walk] at hwalk ⊢
    cases hitem : t.itemAt here.reverse with
    | none => simp [hitem] at hwalk
    | some item =>
      rw [hitem] at hwalk
      rw [h.itemAt hitem]
      cases item with
      | file bytes => rfl
      | directory => exact ih hwalk

/-- A file that stands in the way stays there. -/
theorem Extends.place_notADirectory (h : Extends t t')
    (hplace : t.place p = .error .notADirectory) : t'.place p = .error .notADirectory := by
  unfold Tree.place
  rw [h.cwd]
  exact h.walk_notADirectory hplace

theorem exists_place_of_parent (h : t.lookup p.parent = some .directory) :
    ∃ parts, t.place p = .ok parts := by
  obtain ⟨parent, hparent, hitem⟩ := lookup_eq_some_iff.mp h
  by_cases hp : p.parts = []
  · exact ⟨parent, Path.parent_of_nil hp ▸ hparent⟩
  · unfold place at hparent ⊢
    rw [Path.parts_join hp, walk_append, hparent]
    simp [walk, hitem]

theorem exists_parent_of_place (h : t.place p = .ok parts) (hp : p.parts ≠ []) :
    ∃ parent, t.place p.parent = .ok parent ∧ t.itemAt parent = some .directory ∧
      parts = if p.name = ".." then parent.dropLast else parent ++ [p.name] := by
  unfold place at h
  rw [Path.parts_join hp, walk_append] at h
  cases hparent : t.walk [] (t.cwd.join p.parent).parts with
  | error f => simp [hparent] at h
  | ok parent =>
    refine ⟨parent, hparent, ?_⟩
    simp only [hparent, walk, List.reverse_reverse] at h
    cases hitem : t.itemAt parent with
    | none => simp [hitem] at h
    | some item =>
      cases item with
      | file bytes => simp [hitem] at h
      | directory =>
        simp only [hitem, Except.ok.injEq] at h
        refine ⟨rfl, h.symm.trans ?_⟩
        by_cases hup : p.name = ".."
        · simp [hup]
        · simp [hup]

theorem lookup_parent_of_place (h : t.place p = .ok parts) (hp : p.parts ≠ []) :
    t.lookup p.parent = some .directory := by
  obtain ⟨parent, hparent, hitem, -⟩ := exists_parent_of_place h hp
  exact lookup_eq_some_iff.mpr ⟨parent, hparent, hitem⟩

/-- A place, whose parts come in reverse, and all that lead to it are directories. -/
def Open (t : Tree) (here : List String) : Prop :=
  ∀ up, up <:+ here → t.itemAt up.reverse = some .directory

theorem open_nil (t : Tree) : t.Open [] := fun up hup => by simp [List.suffix_nil.mp hup]

theorem Open.itemAt (h : t.Open here) : t.itemAt here.reverse = some .directory :=
  h here List.suffix_rfl

theorem Open.tail (h : t.Open here) : t.Open here.tail :=
  fun up hup => h up (hup.trans (List.tail_suffix here))

theorem Open.cons {part : String} (h : t.Open here)
    (hitem : t.itemAt (part :: here).reverse = some .directory) : t.Open (part :: here) := by
  intro up hup
  rcases List.suffix_cons_iff.mp hup with rfl | hup
  · exact hitem
  · exact h up hup

theorem Open.mono (hopen : t.Open here) (h : Extends t t') : t'.Open here :=
  fun up hup => h.itemAt (hopen up hup)

theorem makeAlong_extends (p : Path) (made : Bool) (t : Tree) (here parts : List String) :
    Extends t (makeAlong p t made here parts).2 := by
  induction parts generalizing t made here with
  | nil => exact .refl t
  | cons part rest ih =>
    unfold makeAlong
    split
    · exact ih ..
    · split
      · exact ih ..
      · exact .refl t
      · next hitem => exact (extends_insert hitem _).trans (ih ..)

theorem extends_of_makeAlong {made : Bool} {failure : Option Error}
    (h : makeAlong p t made here parts = (failure, t')) : Extends t t' := by
  have hext := makeAlong_extends p made t here parts
  rwa [h] at hext

theorem itemAt_insert_self (t : Tree) (h : here ≠ []) (item : Item) :
    itemAt { t with items := t.items.insert here item } here = some item := by
  rw [itemAt_insert t h, if_pos rfl]

/-- A way that has been made can be followed to a directory. -/
theorem walk_of_makeAlong {made : Bool} (hopen : t.Open here)
    (h : makeAlong p t made here parts = (none, t')) :
    ∃ found, t'.walk here parts = .ok found ∧ t'.itemAt found = some .directory := by
  induction parts generalizing t made here with
  | nil =>
    obtain rfl : t = t' := by simpa [makeAlong] using h
    exact ⟨here.reverse, rfl, hopen.itemAt⟩
  | cons part rest ih =>
    have hext := extends_of_makeAlong h
    unfold makeAlong at h
    simp only [walk, hext.itemAt hopen.itemAt]
    split at h
    · next hup =>
      rw [if_pos hup]
      exact ih hopen.tail h
    · next hdown =>
      rw [if_neg hdown]
      split at h
      · next hitem => exact ih (hopen.cons hitem) h
      · cases h
      · next hitem =>
        have hmade := extends_insert hitem .directory
        exact ih ((hopen.mono hmade).cons (itemAt_insert_self t (by simp) _)) h

/-- A way that could not be made has a file on it, which nothing behind it leads past. -/
theorem walk_of_makeAlong_failed {made : Bool} {e : Error} {more : List String}
    (hopen : t.Open here) (hmore : more ≠ []) (h : makeAlong p t made here parts = (some e, t')) :
    t'.walk here (parts ++ more) = .error .notADirectory := by
  induction parts generalizing t made here with
  | nil => simp [makeAlong] at h
  | cons part rest ih =>
    have hext := extends_of_makeAlong h
    unfold makeAlong at h
    simp only [List.cons_append, walk, hext.itemAt hopen.itemAt]
    split at h
    · next hup =>
      rw [if_pos hup]
      exact ih hopen.tail h
    · next hdown =>
      rw [if_neg hdown]
      split at h
      · next hitem => exact ih (hopen.cons hitem) h
      · next bytes hitem =>
        obtain ⟨next, others, hnext⟩ := List.exists_cons_of_ne_nil
          (List.append_ne_nil_of_right_ne_nil rest hmore)
        rw [hnext, walk, hext.itemAt hitem]
      · next hitem =>
        have hmade := extends_insert hitem .directory
        exact ih ((hopen.mono hmade).cons (itemAt_insert_self t (by simp) _)) h

/-- Nothing is made on a way that is there. -/
theorem makeAlong_of_walk {made : Bool} {found : List String}
    (hwalk : t.walk here parts = .ok found) (hfound : t.itemAt found = some .directory) :
    makeAlong p t made here parts = (none, t) := by
  induction parts generalizing here with
  | nil => rfl
  | cons part rest ih =>
    have hrest : t.walk (if part == ".." then here.tail else part :: here) rest = .ok found := by
      rw [walk] at hwalk
      split at hwalk
      · exact hwalk
      · cases hwalk
      · cases hwalk
    unfold makeAlong
    split
    · next hup =>
      rw [if_pos hup] at hrest
      exact ih hrest
    · next hdown =>
      rw [if_neg hdown] at hrest
      have hitem : t.itemAt (part :: here).reverse = some .directory := by
        cases rest with
        | nil =>
          obtain rfl : (part :: here).reverse = found := Except.ok.inj hrest
          exact hfound
        | cons next others =>
          rw [walk] at hrest
          split at hrest
          · next hnext => exact hnext
          · cases hrest
          · cases hrest
      rw [hitem]
      exact ih hrest

theorem extends_of_makeDirectories {failure : Option Error}
    (h : t.makeDirectories p = (failure, t')) : Extends t t' := extends_of_makeAlong h

theorem lookup_of_makeDirectories (h : t.makeDirectories p = (none, t')) :
    t'.lookup p = some .directory := by
  have hcwd : t'.cwd = t.cwd := (extends_of_makeAlong h).cwd
  obtain ⟨found, hwalk, hfound⟩ := walk_of_makeAlong t.open_nil h
  rw [← hcwd] at hwalk
  exact lookup_eq_some_iff.mpr ⟨found, hwalk, hfound⟩

theorem makeDirectories_of_lookup (h : t.lookup p = some .directory) :
    t.makeDirectories p = (none, t) := by
  obtain ⟨found, hplace, hfound⟩ := lookup_eq_some_iff.mp h
  exact makeAlong_of_walk hplace hfound

/-- Where the directory of a file cannot be made, the file cannot be reached. -/
theorem place_of_makeDirectories_failed {e : Error} (hp : p.parts ≠ [])
    (h : t.makeDirectories p.parent = (some e, t')) : t'.place p = .error .notADirectory := by
  have hcwd : t'.cwd = t.cwd := (extends_of_makeAlong h).cwd
  unfold place
  rw [hcwd, Path.parts_join hp]
  exact walk_of_makeAlong_failed t.open_nil (by simp) h

theorem write_of_lookup (h : t.lookup p = some .directory) (bytes : ByteArray) :
    t.write p bytes = .error ⟨.isADirectory, p⟩ := by
  obtain ⟨parts, hplace, hitem⟩ := lookup_eq_some_iff.mp h
  simp [write, hplace, hitem]

theorem write_of_place (h : t.place p = .ok parts) (hitem : t.itemAt parts ≠ some .directory)
    (bytes : ByteArray) :
    t.write p bytes = .ok { t with items := t.items.insert parts (.file bytes) } := by
  simp [write, h]

theorem keepsDirectories_insert (h : t.itemAt parts ≠ some .directory) (item : Item) :
    KeepsDirectories t { t with items := t.items.insert parts item } := by
  refine ⟨rfl, fun {other} hother => ?_⟩
  have hne : parts ≠ other := by
    rintro rfl
    exact h hother
  rw [itemAt_insert t (ne_nil_of_itemAt h), if_neg hne, hother]

theorem keepsDirectories_of_write (h : t.write p bytes = .ok t') :
    KeepsDirectories t t' ∧ t'.read p = .ok bytes := by
  cases hplace : t.place p with
  | error f => simp [write, hplace] at h
  | ok parts =>
    by_cases hitem : t.itemAt parts = some .directory
    · simp [write, hplace, hitem] at h
    · rw [write_of_place hplace hitem] at h
      obtain rfl := Except.ok.inj h
      have hkeeps := keepsDirectories_insert hitem (.file bytes)
      refine ⟨hkeeps, read_eq_ok_iff.mpr (lookup_eq_some_iff.mpr ⟨parts, hkeeps.place hplace, ?_⟩)⟩
      exact itemAt_insert_self t (ne_nil_of_itemAt hitem) _

theorem create_extends (t : Tree) (p : Path) (bytes : ByteArray) :
    Extends t (t.create p bytes) := by
  unfold create
  split
  · exact .refl t
  · split
    · exact .refl t
    · next hitem => exact extends_insert hitem _

theorem itemAt_create_ne {more : ByteArray} (h : t.itemAt parts ≠ some .directory) :
    (t.create p more).itemAt parts ≠ some .directory := by
  unfold create
  split
  · exact h
  · split
    · exact h
    · next hfree =>
      rw [itemAt_insert t (ne_nil_of_itemAt (t := t) (by simp [hfree]))]
      split
      · exact nofun
      · exact h

-- Trees in which everything stands in a directory.

def WellFormed (t : Tree) : Prop :=
  ∀ parts item, t.itemAt parts = some item → t.itemAt parts.dropLast = some .directory

theorem WellFormed.insert (h : t.WellFormed) (hparent : t.itemAt here.dropLast = some .directory)
    (hhere : t.itemAt here ≠ some .directory) (item : Item) :
    WellFormed { t with items := t.items.insert here item } := by
  have hkeeps := keepsDirectories_insert hhere item
  intro parts other hother
  rw [itemAt_insert t (ne_nil_of_itemAt hhere)] at hother
  split at hother
  · next heq => exact heq ▸ hkeeps.itemAt hparent
  · exact hkeeps.itemAt (h parts other hother)

theorem WellFormed.makeAlong (h : t.WellFormed) (hopen : t.Open here) (p : Path) (made : Bool)
    (parts : List String) : (makeAlong p t made here parts).2.WellFormed := by
  induction parts generalizing t made here with
  | nil => exact h
  | cons part rest ih =>
    unfold Tree.makeAlong
    split
    · exact ih h hopen.tail made
    · split
      · next hitem => exact ih h (hopen.cons hitem) made
      · exact h
      · next hitem =>
        have hmade := extends_insert hitem .directory
        have hparent : t.itemAt (part :: here).reverse.dropLast = some .directory := by
          simpa using hopen.itemAt
        have hfree : t.itemAt (part :: here).reverse ≠ some .directory := by
          rw [hitem]
          simp
        exact ih (h.insert hparent hfree _)
          ((hopen.mono hmade).cons (itemAt_insert_self t (by simp) _)) true

theorem WellFormed.makeDirectories (h : t.WellFormed) {failure : Option Error}
    (hmade : t.makeDirectories p = (failure, t')) : t'.WellFormed := by
  have hafter := h.makeAlong t.open_nil p false (t.cwd.join p).parts
  rwa [show Tree.makeAlong p t false [] (t.cwd.join p).parts = _ from hmade] at hafter

/-- A way leads into a directory, also where it goes up. -/
theorem WellFormed.walk (h : t.WellFormed) {found : List String}
    (hhere : t.itemAt here.reverse.dropLast = some .directory)
    (hwalk : t.walk here parts = .ok found) : t.itemAt found.dropLast = some .directory := by
  induction parts generalizing here with
  | nil =>
    obtain rfl : here.reverse = found := Except.ok.inj hwalk
    exact hhere
  | cons part rest ih =>
    rw [Tree.walk] at hwalk
    split at hwalk
    · next hitem =>
      refine ih ?_ hwalk
      split
      · rw [← List.dropLast_reverse]
        exact h _ _ hhere
      · simpa using hitem
    · cases hwalk
    · cases hwalk

theorem WellFormed.write (h : t.WellFormed) (hwrite : t.write p bytes = .ok t') :
    t'.WellFormed := by
  cases hplace : t.place p with
  | error f => simp [Tree.write, hplace] at hwrite
  | ok parts =>
    by_cases hitem : t.itemAt parts = some .directory
    · simp [Tree.write, hplace, hitem] at hwrite
    · rw [write_of_place hplace hitem] at hwrite
      obtain rfl := Except.ok.inj hwrite
      exact h.insert (h.walk rfl hplace) hitem _

theorem WellFormed.create (h : t.WellFormed) (p : Path) (bytes : ByteArray) :
    (t.create p bytes).WellFormed := by
  unfold Tree.create
  split
  · exact h
  · next hplace =>
    split
    · exact h
    · next hitem => exact h.insert (h.walk rfl hplace) (by simp [hitem]) _

/-- Everything stands in a directory, and the working directory is there. -/
structure Sound (t : Tree) : Prop where
  grounded : t.Grounded
  wellFormed : t.WellFormed

theorem wellFormed_of_empty (cwd : Path) : WellFormed { cwd } := by
  intro parts item hitem
  cases parts with
  | nil => rfl
  | cons part rest => cases hitem

theorem WellFormed.withFile (h : t.WellFormed) (p : Path) (bytes : ByteArray) :
    (t.withFile p bytes).WellFormed := by
  unfold Tree.withFile makeDirectory
  cases hmade : t.makeDirectories (Path.resolve t.cwd p).parent with
  | mk failure made =>
    cases failure with
    | some e => exact h
    | none =>
      have hwf := h.makeDirectories hmade
      cases hwrite : made.write p bytes with
      | error e => simpa [hwrite, Except.toOption] using hwf
      | ok written => simpa [hwrite, Except.toOption] using hwf.write hwrite

/-- All that leads to an item is a directory. -/
theorem WellFormed.itemAt_of_prefix (h : t.WellFormed) {item : Item} {front back : List String}
    (hback : back ≠ []) (hitem : t.itemAt (front ++ back) = some item) :
    t.itemAt front = some .directory := by
  induction back using List.reverseRecOn generalizing item with
  | nil => exact absurd rfl hback
  | append_singleton back part ih =>
    have hparent := h _ _ hitem
    rw [← List.append_assoc, List.dropLast_concat] at hparent
    by_cases hempty : back = []
    · simpa [hempty] using hparent
    · exact ih hempty hparent

/-- Without steps up, the way to an item can be followed. -/
theorem WellFormed.walk_of_itemAt (h : t.WellFormed) {item : Item} (hup : ".." ∉ parts)
    (hitem : t.itemAt (here.reverse ++ parts) = some item) :
    t.walk here parts = .ok (here.reverse ++ parts) := by
  induction parts generalizing here with
  | nil => simp [Tree.walk]
  | cons part rest ih =>
    rw [List.mem_cons, not_or] at hup
    have hpart : (part == "..") = false := by simpa using Ne.symm hup.1
    rw [Tree.walk, h.itemAt_of_prefix (List.cons_ne_nil part rest) hitem]
    simp only [hpart]
    have hrest : t.walk (part :: here) rest = .ok ((part :: here).reverse ++ rest) :=
      ih hup.2 (by simpa using hitem)
    simpa using hrest

theorem eq_of_walk (hup : ".." ∉ parts) {found : List String}
    (hwalk : t.walk here parts = .ok found) : found = here.reverse ++ parts := by
  induction parts generalizing here with
  | nil => simpa using (Except.ok.inj hwalk).symm
  | cons part rest ih =>
    rw [List.mem_cons, not_or] at hup
    have hpart : (part == "..") = false := by simpa using Ne.symm hup.1
    rw [walk] at hwalk
    split at hwalk
    · simp only [hpart] at hwalk
      simpa using ih hup.2 hwalk
    · cases hwalk
    · cases hwalk

theorem itemAt_of_makeAlong {made : Bool} {failure : Option Error}
    (h : makeAlong p t made here parts = (failure, t')) {place : List String}
    (hitem : t'.itemAt place = some (.file bytes)) : t.itemAt place = some (.file bytes) := by
  induction parts generalizing t made here with
  | nil =>
    obtain ⟨-, rfl⟩ := Prod.mk.inj h
    exact hitem
  | cons part rest ih =>
    unfold makeAlong at h
    split at h
    · exact ih h
    · split at h
      · exact ih h
      · obtain ⟨-, rfl⟩ := Prod.mk.inj h
        exact hitem
      · have hmade := ih h
        rw [itemAt_insert t (by simp)] at hmade
        split at hmade
        · cases hmade
        · exact hmade

theorem itemAt_of_create {place : List String} {more : ByteArray}
    (hplace : t.place p ≠ .ok place)
    (hitem : (t.create p more).itemAt place = some (.file bytes)) :
    t.itemAt place = some (.file bytes) := by
  unfold create at hitem
  split at hitem
  · exact hitem
  · next parts hparts =>
    split at hitem
    · exact hitem
    · next hfree =>
      rw [itemAt_insert t (ne_nil_of_itemAt (t := t) (by simp [hfree]))] at hitem
      split at hitem
      · next heq => exact absurd (heq ▸ hparts) hplace
      · exact hitem

/-- Paths of one kind start from one directory, which stays. -/
theorem Grounded.exists_base (h : t.Grounded) (isAbsolute : Bool) :
    ∃ base, ∀ t', KeepsDirectories t t' → ∀ parts,
      t'.place ⟨isAbsolute, parts⟩ = t'.walk base parts := by
  cases isAbsolute with
  | true => exact ⟨[], fun _ _ parts => rfl⟩
  | false =>
    obtain ⟨base, hbase, hitem⟩ := lookup_eq_some_iff.mp h
    refine ⟨base.reverse, fun t' hkeeps parts => ?_⟩
    have hstart : t'.walk [] (t'.cwd.parts ++ []) = .ok base := hkeeps.place hbase
    rw [List.append_nil] at hstart
    have hway : t'.place ⟨false, parts⟩ = t'.walk [] (t'.cwd.parts ++ parts) := rfl
    rw [hway, walk_append, hstart]

/-- A path leads to a directory, or to the last of its parts below one. -/
theorem WellFormed.place_of_file (h : t.WellFormed) (ht : t.Grounded)
    (hplace : t.place p = .ok parts) (hitem : t.itemAt parts = some (.file bytes)) :
    ∃ parent, t.place p.parent = .ok parent ∧ parts = parent ++ [p.name] := by
  by_cases hp : p.parts = []
  · obtain ⟨found, hfound, hdirectory⟩ := lookup_eq_some_iff.mp (ht.lookup_of_nil hp)
    obtain rfl : parts = found := Except.ok.inj (hplace.symm.trans hfound)
    rw [hdirectory] at hitem
    cases hitem
  · obtain ⟨parent, hparent, hdirectory, hparts⟩ := exists_parent_of_place hplace hp
    refine ⟨parent, hparent, ?_⟩
    split at hparts
    · rw [hparts, h _ _ hdirectory] at hitem
      cases hitem
    · exact hparts

/-- A path without steps up leads to all that has its parts. -/
theorem WellFormed.place_of_itemAt (h : t.WellFormed) (ht : t.Grounded) (hext : Extends t t')
    (hup : ".." ∉ p.parts) (hplace : t'.place p = .ok parts) {item : Item}
    (hitem : t.itemAt parts = some item) : t.place p = .ok parts := by
  obtain ⟨base, hbase⟩ := ht.exists_base p.isAbsolute
  have hwalk : t'.walk base p.parts = .ok parts :=
    (hbase t' hext.keepsDirectories p.parts).symm.trans hplace
  have hstays : t.place p = t.walk base p.parts := hbase t (Extends.refl t).keepsDirectories p.parts
  obtain rfl := eq_of_walk hup hwalk
  rw [hstays, h.walk_of_itemAt hup hitem]

end Tree

end VisualNovel.Disk
