import VisualNovel.Save.Store
import VisualNovel.Proofs.Disk.Tree
import VisualNovel.Proofs.Json.Documents

/-!
A store in a file. What is written to the file is read from it as it was, and a write that fails
changes nothing that is read, unless the path goes up through a directory that the write has made.
-/
namespace VisualNovel.Save

open Data
open Text (RawText)

namespace FileStore

/-- The text of a key in the object that a file holds, if the file is read. A file that is missing,
or holds anything else than an object, has none. -/
def Holds (tree : Disk.Tree) (path : Disk.Path) (room : Nat) (key value : RawText) : Prop :=
  ∃ bytes text fields, tree.read path = .ok bytes ∧ Text.Utf8.decodeLines bytes = .ok text ∧
    Json.read? room text = .ok (some (.object fields)) ∧
    Entries.find? key fields = some (.text value)

variable {f after : FileStore} {d d' : Texts} {key value : RawText} {token : String}
  {room more : Nat}

theorem mem_textFields_iff {fields : List (RawText × Json)} :
    (key, value) ∈ textFields (.object fields) ↔ (key, .text value) ∈ fields := by
  simp only [textFields, List.mem_filterMap]
  constructor
  · rintro ⟨⟨k, v⟩, hmem, heq⟩
    cases v with
    | text s =>
      obtain ⟨rfl, rfl⟩ := Prod.mk.inj (Option.some.inj heq)
      exact hmem
    | _ => cases heq
  · exact fun hmem => ⟨_, hmem, rfl⟩

theorem nodup_textFields {fields : List (RawText × Json)} (h : (fields.map Prod.fst).Nodup) :
    ((textFields (.object fields)).map Prod.fst).Nodup := by
  refine h.sublist ?_
  clear h
  induction fields with
  | nil => exact List.Sublist.refl []
  | cons field rest ih =>
    obtain ⟨k, v⟩ := field
    cases v with
    | text s => exact ih.cons_cons k
    | _ => exact ih.cons k

theorem textFields_textObject (texts : List (RawText × RawText)) :
    textFields (Json.textObject texts) = texts := by
  simp [textFields, Json.textObject, List.filterMap_map]

theorem text?_eq_some_iff {text : String} :
    f.text? = some text ↔
      ∃ bytes, f.tree.read f.path = .ok bytes ∧ Text.Utf8.decodeLines bytes = .ok text := by
  have toOption_eq_some_iff : ∀ {ε α : Type} {x : Except ε α} {a : α},
      x.toOption = some a ↔ x = .ok a := by
    intro ε α x a
    cases x <;> simp [Except.toOption]
  simp only [text?, Option.bind_eq_bind, Option.bind_eq_some_iff, toOption_eq_some_iff]

theorem holds_iff :
    Holds f.tree f.path room key value ↔ ∃ text fields, f.text? = some text ∧
      Json.read? room text = .ok (some (.object fields)) ∧
      Entries.find? key fields = some (.text value) := by
  simp only [Holds, text?_eq_some_iff]
  grind

theorem contents_of_text {text : String} {document : Option Json} (htext : f.text? = some text)
    (hread : Json.read? room text = .ok document) :
    f.contents room = .ok (KeyedList.ofList ((document.map textFields).getD [])) := by
  rw [contents, htext]
  simp only [hread]
  rfl

theorem contents_of_no_text (htext : f.text? = none) : f.contents room = .ok ∅ := by
  rw [contents, htext]

theorem text_of_contents (h : f.contents room = .ok d) :
    f.text? = none ∧ d = ∅ ∨ ∃ text document, f.text? = some text ∧
      Json.read? room text = .ok document ∧
      d = KeyedList.ofList ((document.map textFields).getD []) := by
  cases htext : f.text? with
  | none =>
    rw [contents_of_no_text htext] at h
    exact .inl ⟨rfl, (Except.ok.inj h).symm⟩
  | some text =>
    cases hread : Json.read? room text with
    | ok document =>
      rw [contents_of_text htext hread] at h
      exact .inr ⟨text, document, rfl, hread, (Except.ok.inj h).symm⟩
    | error limit =>
      simp [contents, htext, hread, bind, Except.bind] at h

theorem contents_more (hle : room ≤ more) (h : f.contents room = .ok d) :
    f.contents more = .ok d := by
  rcases text_of_contents h with ⟨htext, rfl⟩ | ⟨text, document, htext, hread, rfl⟩
  · exact contents_of_no_text htext
  · exact contents_of_text htext (Json.read?_more hle hread)

/-- What the store takes a file to hold: the texts of the object in it, or nothing. -/
theorem get?_contents_iff (h : f.contents room = .ok d) (key value : RawText) :
    d.get? key = some value ↔ Holds f.tree f.path room key value := by
  rw [holds_iff]
  rcases text_of_contents h with ⟨htext, rfl⟩ | ⟨text, document, htext, hread, rfl⟩
  · simp [htext, KeyedList.get?, show (∅ : Texts).entries = [] from rfl, Entries.find?]
  · simp only [htext, hread, Option.some.injEq, exists_and_left, exists_eq_left', Except.ok.injEq]
    cases document with
    | none => simp [KeyedList.get?_ofList]
    | some v =>
      cases hfits : Json.fits_of_read? hread with
      | @object _ fields hkeys hfields =>
        rw [Option.map_some, Option.getD_some, ← KeyedList.mem_entries_iff,
          KeyedList.entries_ofList (nodup_textFields hkeys), mem_textFields_iff]
        have hfind : (key, Json.text value) ∈ fields ↔
            Entries.find? key fields = some (.text value) :=
          KeyedList.mem_entries_iff ⟨fields, hkeys⟩ key _
        simpa using hfind
      | _ => simp [textFields, KeyedList.get?_ofList]

theorem contents_of_read (h : f.tree.read f.path = .ok (encode d))
    (hencodable : unencodable? d = none) (room : Nat) : f.contents (room + 1) = .ok d := by
  have hquotes : ∀ t ∈ d.entries,
      (Json.quote t.1).surrogates? = none ∧ (Json.quote t.2).surrogates? = none := by
    intro t ht
    have hall := List.findSome?_eq_none_iff.mp hencodable
    exact ⟨hall _ (List.mem_flatMap.mpr ⟨t, ht, by simp⟩),
      hall _ (List.mem_flatMap.mpr ⟨t, ht, by simp⟩)⟩
  obtain ⟨hdecode, hsame⟩ := (Json.clean_textObject Json.indented hquotes).decodeLines
  have hencode : encode d = (String.ofList (document d).characters).toUTF8 := by
    simp [encode, hencodable]
  have htext : f.text? = some (String.ofList (document d).characters) :=
    text?_eq_some_iff.mpr ⟨_, h, hencode ▸ hdecode⟩
  have hread : Json.read? (room + 1) (String.ofList (document d).characters : RawText) =
      .ok (some (Json.textObject d.entries)) := by
    rw [show (String.ofList (document d).characters : RawText) = document d from hsame]
    exact Json.read?_write Json.indented (Json.fits_textObject d.nodup_keys room)
  rw [contents_of_text htext hread, Option.map_some, Option.getD_some, textFields_textObject,
    KeyedList.ofList_entries]

theorem contents_congr
    (h : ∀ bytes, after.tree.read after.path = .ok bytes ↔ f.tree.read f.path = .ok bytes)
    (room : Nat) : after.contents room = f.contents room := by
  have htext : after.text? = f.text? := by
    refine Option.ext fun text => ?_
    simp only [text?_eq_some_iff, h]
  rw [contents, contents, htext]

/-- A directory stands at the path, or a file on the way to it. -/
def Blocked (f : FileStore) : Prop :=
  f.tree.place f.path = .error .notADirectory ∨ f.tree.lookup f.path = some .directory

/-- The path leads to a file, or to a free place in a directory. -/
def HasPlace (f : FileStore) : Prop :=
  ∃ parts, f.tree.place f.path = .ok parts ∧ f.tree.itemAt parts ≠ some .directory

theorem Blocked.read_ne (h : f.Blocked) (bytes : ByteArray) : f.tree.read f.path ≠ .ok bytes := by
  intro hread
  have hfile := Disk.Tree.read_eq_ok_iff.mp hread
  rcases h with hway | hdirectory
  · obtain ⟨parts, hplace, -⟩ := Disk.Tree.lookup_eq_some_iff.mp hfile
    rw [hway] at hplace
    cases hplace
  · rw [hdirectory] at hfile
    cases hfile

theorem hasPlace_of_read {bytes : ByteArray} (h : f.tree.read f.path = .ok bytes) :
    f.HasPlace := by
  obtain ⟨parts, hplace, hitem⟩ := Disk.Tree.lookup_eq_some_iff.mp (Disk.Tree.read_eq_ok_iff.mp h)
  exact ⟨parts, hplace, by simp [hitem]⟩

theorem Blocked.mono (h : f.Blocked) (hext : f.tree.Extends after.tree)
    (hpath : after.path = f.path) : after.Blocked := by
  unfold Blocked
  rw [hpath]
  exact h.imp hext.place_notADirectory hext.lookup

theorem Blocked.write {tree : Disk.Tree} (h : f.Blocked) (hext : f.tree.Extends tree)
    (bytes : ByteArray) : ∃ e, tree.write f.path bytes = .error e := by
  rcases h with hway | hdirectory
  · exact ⟨⟨.notADirectory, f.path⟩, by simp [Disk.Tree.write, hext.place_notADirectory hway]⟩
  · exact ⟨_, Disk.Tree.write_of_lookup (hext.lookup hdirectory) bytes⟩

/-- The parent of a place is there, so no directory is made on the way to it. -/
theorem HasPlace.makeDirectories (h : f.HasPlace) (hf : f.tree.Grounded) :
    f.tree.makeDirectories f.path.parent = (none, f.tree) := by
  obtain ⟨parts, hplace, hitem⟩ := h
  have hpath : f.path.parts ≠ [] := by
    intro hpath
    obtain ⟨found, hfound, hdirectory⟩ := Disk.Tree.lookup_eq_some_iff.mp (hf.lookup_of_nil hpath)
    obtain rfl : found = parts := Except.ok.inj (hfound.symm.trans hplace)
    exact hitem hdirectory
  exact Disk.Tree.makeDirectories_of_lookup (Disk.Tree.lookup_parent_of_place hplace hpath)

/-- A write that went through. -/
structure Stored (f : FileStore) (d : Texts) (after : FileStore) : Prop where
  free : ¬ f.Blocked
  path : after.path = f.path
  keeps : f.tree.KeepsDirectories after.tree
  wellFormed : f.tree.WellFormed → after.tree.WellFormed
  encodable : unencodable? d = none
  read : after.tree.read after.path = .ok (encode d)

/-- What a write that failed leaves behind: directories, and at most the temporary file. -/
structure Left (f : FileStore) (token : String) (after : FileStore) : Prop where
  path : after.path = f.path
  made : ∃ way failure tree, f.tree.makeDirectories way = (failure, tree) ∧
    (after.tree = tree ∨ ∃ bytes, after.tree = tree.create (f.temporary token) bytes)

theorem Stored.sound (h : Stored f d after) (hf : f.tree.Sound) : after.tree.Sound :=
  ⟨h.keeps.grounded hf.grounded, h.wellFormed hf.wellFormed⟩

theorem Left.kept (h : Left f token after) : f.tree.Extends after.tree := by
  obtain ⟨way, failure, tree, hmade, hleft⟩ := h.made
  have hext := Disk.Tree.extends_of_makeDirectories hmade
  rcases hleft with hleft | ⟨bytes, hleft⟩
  · exact hleft ▸ hext
  · exact hleft ▸ hext.trans (tree.create_extends _ _)

theorem Left.sound (h : Left f token after) (hf : f.tree.Sound) : after.tree.Sound := by
  refine ⟨h.kept.keepsDirectories.grounded hf.grounded, ?_⟩
  obtain ⟨way, failure, tree, hmade, hleft⟩ := h.made
  have hwf := hf.wellFormed.makeDirectories hmade
  rcases hleft with hleft | ⟨bytes, hleft⟩
  · exact hleft ▸ hwf
  · exact hleft ▸ hwf.create _ _

theorem Left.read (h : Left f token after) {bytes : ByteArray}
    (hread : f.tree.read f.path = .ok bytes) : after.tree.read after.path = .ok bytes := by
  rw [h.path]
  exact Disk.Tree.read_eq_ok_iff.mpr (h.kept.lookup (Disk.Tree.read_eq_ok_iff.mp hread))

/-- The temporary file has a longer name than the file. -/
theorem length_name_temporary (f : FileStore) (token : String) :
    f.path.name.length + 6 ≤ (f.temporary token).name.length := by
  have hname : (f.temporary token).name = "." ++ f.path.name ++ "." ++ token ++ ".tmp" := by
    simp [temporary, Disk.Path.child, Disk.Path.name]
  have hends : ".".length = 1 ∧ ".tmp".length = 4 := by decide
  rw [hname]
  simp only [String.length_append]
  omega

/-- Where a file is read, no temporary file is written. -/
theorem place_temporary_ne (token : String) {place : List String} {bytes : ByteArray}
    (hf : f.tree.Sound) (hplace : f.tree.place f.path = .ok place)
    (hitem : f.tree.itemAt place = some (.file bytes)) :
    f.tree.place (f.temporary token) ≠ .ok place := by
  intro htemporary
  have hlength := f.length_name_temporary token
  obtain ⟨parent, hparent, rfl⟩ := hf.wellFormed.place_of_file hf.grounded hplace hitem
  obtain ⟨parent', hparent', hparts⟩ := hf.wellFormed.place_of_file hf.grounded htemporary hitem
  have hname : f.path.name = (f.temporary token).name := by
    simpa using congrArg List.getLast? hparts
  rw [hname] at hlength
  omega

/-- The path does not go up, or the directory of its file is there. -/
def Straight (f : FileStore) : Prop :=
  ".." ∉ f.path.parts ∨ f.tree.lookup f.path.parent = some .directory

/-- A file that is read after a failed write was there before. -/
theorem Left.read_before {bytes : ByteArray} (h : Left f token after) (hf : f.tree.Sound)
    (hstraight : f.Straight) (hread : after.tree.read after.path = .ok bytes) :
    f.tree.read f.path = .ok bytes := by
  have hkeeps := h.kept.keepsDirectories
  obtain ⟨way, failure, tree, hmade, hleft⟩ := h.made
  obtain ⟨place, hplace, hitem⟩ :=
    Disk.Tree.lookup_eq_some_iff.mp (Disk.Tree.read_eq_ok_iff.mp hread)
  have hbefore : f.tree.itemAt place = some (.file bytes) := by
    refine Disk.Tree.itemAt_of_makeAlong hmade ?_
    rcases hleft with hleft | ⟨written, hleft⟩
    · rwa [hleft] at hitem
    · have hother : tree.place (f.temporary token) ≠ .ok place := by
        intro htemporary
        have hcreate := tree.create_extends (f.temporary token) written
        rw [← hleft] at hcreate
        have hafter := hcreate.keepsDirectories.place htemporary
        refine place_temporary_ne token (h.sound hf) hplace hitem ?_
        rw [temporary, h.path]
        exact hafter
      rw [hleft] at hitem
      exact Disk.Tree.itemAt_of_create hother hitem
  rw [h.path] at hplace
  refine Disk.Tree.read_eq_ok_iff.mpr (Disk.Tree.lookup_eq_some_iff.mpr ⟨place, ?_, hbefore⟩)
  rcases hstraight with hup | hparent
  · exact hf.wellFormed.place_of_itemAt hf.grounded h.kept hup hplace hbefore
  · obtain ⟨found, hfound⟩ := Disk.Tree.exists_place_of_parent hparent
    rw [← Except.ok.inj ((hkeeps.place hfound).symm.trans hplace)]
    exact hfound

theorem Left.contents (h : Left f token after) (hf : f.tree.Sound) (hstraight : f.Straight)
    (room : Nat) : after.contents room = f.contents room :=
  contents_congr (fun _ => ⟨h.read_before hf hstraight, h.read⟩) room

/-- How a write ends. Without trouble from outside, it fails at what blocks the path, or at a text
that has no bytes. -/
inductive Outcome (f : FileStore) (d : Texts) (token : String) :
    Option Trouble → Option Failure → FileStore → Prop
  | stored {after : FileStore} (hstored : Stored f d after) : Outcome f d token none none after
  | blocked {after : FileStore} (reason : String) (hleft : Left f token after)
      (hblocked : after.Blocked) (hfull : ¬ f.HasPlace) :
      Outcome f d token none (some (f.unwritable reason)) after
  | unencodable {after : FileStore} {u : Text.Unencodable} (hleft : Left f token after)
      (hu : unencodable? d = some u) (hplace : f.HasPlace → after.HasPlace) :
      Outcome f d token none (some (.unencodable u)) after
  | stopped {after : FileStore} (trouble : Trouble) (reason : String)
      (hleft : Left f token after) :
      Outcome f d token (some trouble) (some (f.unwritable reason)) after

theorem outcome_stopped (f : FileStore) (d : Texts) (token : String) (trouble : Trouble) :
    ∃ reason, (f.stopped d token trouble).1 = f.unwritable reason ∧
      Left f token (f.stopped d token trouble).2 := by
  unfold stopped
  cases hmade : f.tree.makeDirectories
      { f.path.parent with parts := f.path.parent.parts.take trouble.parts } with
  | mk failure tree =>
    simp only [hmade]
    cases failure with
    | some e => exact ⟨_, rfl, rfl, _, _, _, hmade, .inl rfl⟩
    | none =>
      refine ⟨_, rfl, rfl, _, _, _, hmade, ?_⟩
      cases trouble.bytes with
      | none => exact .inl rfl
      | some count => exact .inr ⟨_, rfl⟩

theorem blocked_of_makeDirectories {e : Disk.Error} {tree : Disk.Tree} (hf : f.tree.Grounded)
    (hmade : f.tree.makeDirectories f.path.parent = (some e, tree)) :
    Blocked { f with tree } := by
  refine .inl (Disk.Tree.place_of_makeDirectories_failed ?_ hmade)
  intro hpath
  have hlookup := hf.lookup_of_nil hpath
  rw [← Disk.Path.parent_of_nil hpath] at hlookup
  rw [Disk.Tree.makeDirectories_of_lookup hlookup] at hmade
  cases hmade

theorem blocked_of_write {e : Disk.Error} {tree : Disk.Tree} {bytes : ByteArray}
    (hmade : f.tree.makeDirectories f.path.parent = (none, tree))
    (hwrite : tree.write f.path bytes = .error e) : Blocked { f with tree } := by
  obtain ⟨parts, hplace⟩ := Disk.Tree.exists_place_of_parent
    (Disk.Tree.lookup_of_makeDirectories hmade)
  refine .inr (Disk.Tree.lookup_eq_some_iff.mpr ⟨parts, hplace, ?_⟩)
  by_contra hitem
  rw [Disk.Tree.write_of_place hplace hitem] at hwrite
  cases hwrite

theorem stored_of_write {tree written : Disk.Tree} (hencodable : unencodable? d = none)
    (hmade : f.tree.makeDirectories f.path.parent = (none, tree))
    (hwrite : tree.write f.path (encode d) = .ok written) :
    Stored f d { f with tree := written } := by
  have hext := Disk.Tree.extends_of_makeDirectories hmade
  obtain ⟨hkeeps, hread⟩ := Disk.Tree.keepsDirectories_of_write hwrite
  refine ⟨fun hblocked => ?_, rfl, hext.keepsDirectories.trans hkeeps,
    fun hwf => (hwf.makeDirectories hmade).write hwrite, hencodable, hread⟩
  obtain ⟨e, he⟩ := hblocked.write hext (encode d)
  rw [hwrite] at he
  cases he

/-- A place for a file is still one when the temporary file has been made. -/
theorem HasPlace.create {tree : Disk.Tree} (h : f.HasPlace) (hf : f.tree.Grounded)
    (hmade : f.tree.makeDirectories f.path.parent = (none, tree)) (bytes : ByteArray) :
    HasPlace { f with tree := tree.create (f.temporary token) bytes } := by
  obtain rfl : f.tree = tree := (Prod.mk.inj ((h.makeDirectories hf).symm.trans hmade)).2
  obtain ⟨parts, hplace, hitem⟩ := h
  have hkeeps := (f.tree.create_extends (f.temporary token) bytes).keepsDirectories
  exact ⟨parts, hkeeps.place hplace, Disk.Tree.itemAt_create_ne hitem⟩

theorem outcome_replace (hf : f.tree.Grounded) (d : Texts) (token : String)
    (trouble : Option Trouble) :
    Outcome f d token trouble (f.replace d token trouble).1 (f.replace d token trouble).2 := by
  cases trouble with
  | some trouble =>
    obtain ⟨reason, hfailure, hleft⟩ := outcome_stopped f d token trouble
    have hstopped := Outcome.stopped (d := d) trouble reason hleft
    rwa [← hfailure] at hstopped
  | none =>
    unfold replace
    cases hmade : f.tree.makeDirectories f.path.parent with
    | mk failure tree =>
      cases failure with
      | some e =>
        refine .blocked e.message ⟨rfl, _, _, _, hmade, .inl rfl⟩
          (blocked_of_makeDirectories hf hmade) fun h => ?_
        rw [h.makeDirectories hf] at hmade
        cases hmade
      | none =>
        cases hu : unencodable? d with
        | some u =>
          exact .unencodable ⟨rfl, _, _, _, hmade, .inr ⟨_, rfl⟩⟩ hu fun h => h.create hf hmade _
        | none =>
          cases hwrite : tree.write f.path (encode d) with
          | ok written =>
            simp only [hwrite]
            exact .stored (stored_of_write hu hmade hwrite)
          | error e =>
            simp only [hwrite]
            have hext := tree.create_extends (f.temporary token) (encode d)
            refine .blocked _ ⟨rfl, _, _, _, hmade, .inr ⟨_, rfl⟩⟩
              ((blocked_of_write hmade hwrite).mono (f := { f with tree }) hext rfl) fun h => ?_
            obtain rfl : f.tree = tree :=
              (Prod.mk.inj ((h.makeDirectories hf).symm.trans hmade)).2
            obtain ⟨parts, hplace, hitem⟩ := h
            rw [Disk.Tree.write_of_place hplace hitem] at hwrite
            cases hwrite

end FileStore

end VisualNovel.Save
