import VisualNovel.Proofs.Json.Floats
import VisualNovel.Proofs.Json.Limits
import VisualNovel.Proofs.Json.Texts

/-!
What is written of a document within the limits, on a line or indented, is read as the same
document.
-/
namespace VisualNovel.Data.Json

open Text (CodePoint RawText)
open Text.RawText (ofChars characters_ofChars_append)

def IsBlank (p : CodePoint) : Prop := p.char?.any isSpace = true

theorem not_isBlank_char {c : Char} (h : isSpace c = false) : ¬ IsBlank (.char c) := by
  simpa [IsBlank, CodePoint.char?] using h

/-- A value starts at once, and with nothing that closes a list. -/
inductive Starts : RawText → Prop
  | cons {p : CodePoint} {rest : RawText} (hblank : ¬ IsBlank p) (hclosing : p ≠ .char ']') :
      Starts (p :: rest)

theorem starts_of_takeScalar {t : RawText} {r : Json × RawText}
    (h : onCharacters takeScalar t = some r) : Starts t := by
  cases t with
  | nil => cases h
  | cons p rest =>
    cases p with
    | surrogate offset => cases h
    | char c =>
      refine .cons (fun hblank => ?_) ?_
      · rcases (isSpace_iff c).mp hblank with rfl | rfl | rfl | rfl <;> cases h
      · rintro ⟨⟩
        cases h

theorem starts_of_takeValue {fuel room : Nat} {t : RawText} {r : Json × RawText}
    (h : takeValue fuel room t = .ok r) : Starts t := by
  cases fuel with
  | zero => simp [takeValue] at h
  | succ fuel =>
    unfold takeValue at h
    split at h
    · exact .cons (not_isBlank_char rfl) (by decide)
    · exact .cons (not_isBlank_char rfl) (by decide)
    · exact .cons (not_isBlank_char rfl) (by decide)
    · obtain ⟨r', hscalar, -⟩ := bind_eq_ok_iff.mp h
      exact starts_of_takeScalar (of_orMalformed hscalar)

theorem skipSpace_append {blanks : RawText} (h : ∀ p ∈ blanks, IsBlank p) (t : RawText) :
    skipSpace (blanks ++ t) = skipSpace t := List.dropWhile_append_of_pos h

theorem skipSpace_cons {p : CodePoint} (h : ¬ IsBlank p) (t : RawText) :
    skipSpace (p :: t) = p :: t := List.dropWhile_cons_of_neg h

theorem Starts.skipSpace {t : RawText} (h : Starts t) : skipSpace t = t := by
  cases h with
  | cons hblank => exact skipSpace_cons hblank _

/-- Where a number can end. -/
def Ended (t : RawText) : Prop := Delimited t.characters

theorem ended_nil : Ended [] := .nil

theorem ended_cons {c : Char} (h : c = ',' ∨ c = ']' ∨ c = '\x7d') (t : RawText) :
    Ended (.char c :: t) := .cons h

theorem Ended.append {blanks rest : RawText} (hrest : Ended rest)
    (h : ∀ p ∈ blanks, IsBlank p) : Ended (blanks ++ rest) := by
  cases blanks with
  | nil => exact hrest
  | cons p more =>
    have hblank := h p List.mem_cons_self
    cases p with
    | char c => exact .blank hblank
    | surrogate offset => cases hblank

/-- A text is read as a value, whatever follows it. -/
def ReadsAs (room : Nat) (text : RawText) (v : Json) : Prop :=
  ∀ {fuel : Nat} {rest : RawText}, Ended rest → 2 * (text ++ rest).length < fuel →
    takeValue fuel room (text ++ rest) = .ok (v, rest)

theorem ReadsAs.starts {room : Nat} {text rest : RawText} {v : Json} (h : ReadsAs room text v)
    (hrest : Ended rest) : Starts (text ++ rest) :=
  starts_of_takeValue (h hrest (Nat.lt_succ_self _))

theorem ReadsAs.starts_append {room : Nat} {text : RawText} {v : Json} (h : ReadsAs room text v)
    (rest : RawText) : Starts (text ++ rest) := by
  have hstarts : Starts (text ++ []) := h.starts ended_nil
  rw [List.append_nil] at hstarts
  cases hstarts with
  | cons hblank hclosing => exact .cons hblank hclosing

theorem onCharacters_append {α : Type} {take : List Char → Option (α × List Char)}
    {cs : List Char} {rest : RawText} {a : α}
    (h : take (cs ++ rest.characters) = some (a, rest.characters)) :
    onCharacters take (ofChars cs ++ rest) = some (a, rest) := by
  have hdrop : (ofChars cs ++ rest).drop (cs ++ rest.characters).length =
      rest.drop rest.characters.length := by
    rw [List.length_append, ← Text.RawText.length_ofChars cs, List.drop_length_add_append]
  rw [onCharacters, characters_ofChars_append, h, Option.map_some, hdrop]
  exact congrArg (fun t => some (a, t)) (Text.RawText.ofChars_characters_append_drop rest)

/-- Numbers and words are what is left when no quote, bracket or brace stands in front. -/
theorem takeValue_scalar {cs : List Char} {v : Json} {rest : RawText}
    (h : takeScalar (cs ++ rest.characters) = some (v, rest.characters)) (fuel room : Nat) :
    takeValue (fuel + 1) room (ofChars cs ++ rest) =
      (checkDigits v).map fun v => (v, rest) := by
  have hread := onCharacters_append h
  unfold takeValue
  split
  · next heq =>
    rw [heq] at hread
    cases hread
  · next heq =>
    rw [heq] at hread
    cases hread
  · next heq =>
    rw [heq] at hread
    cases hread
  · rw [hread]
    change (checkDigits v >>= fun v => pure (v, rest)) = _
    cases checkDigits v <;> rfl

theorem readsAs_scalar {room : Nat} {cs : List Char} {v : Json} (hcheck : checkDigits v = .ok v)
    (h : ∀ {rest}, Delimited rest → takeScalar (cs ++ rest) = some (v, rest)) :
    ReadsAs room (ofChars cs) v := by
  intro fuel rest hrest hfuel
  obtain ⟨fuel, rfl⟩ : ∃ more, fuel = more + 1 := ⟨fuel - 1, by omega⟩
  rw [takeValue_scalar (h hrest), hcheck]
  rfl

theorem readsAs_word {room : Nat} {word : String} {v : Json} (hcheck : checkDigits v = .ok v)
    (h : (word, v) ∈ words) : ReadsAs room (ofChars word.toList) v := by
  refine readsAs_scalar hcheck fun {rest} _ => ?_
  rw [takeScalar, takeWord_append h]
  rfl

theorem takeScalar_int (n : Int) {rest : List Char} (hrest : Delimited rest) :
    takeScalar ((toString n).toList ++ rest) = some (.int n, rest) := by
  have hword : takeWord ((toString n).toList ++ rest) = none := by
    rw [toString_int]
    unfold signed
    split
    · exact takeWord_signed (leads_toString n.natAbs) true rest
    · exact takeWord_signed (leads_toString n.natAbs) false rest
  rw [takeScalar, hword, takeNumber_int n hrest]
  rfl

theorem readsAs_int {room : Nat} {n : Int} (hshort : isTooLong n = false) :
    ReadsAs room (ofChars (toString n).toList) (.int n) :=
  readsAs_scalar (by simp [checkDigits, hshort]) fun hrest => takeScalar_int n hrest

theorem readsAs_quote (room : Nat) (s : RawText) : ReadsAs room (quote s) (.text s) := by
  intro fuel rest _ hfuel
  obtain ⟨fuel, rfl⟩ : ∃ more, fuel = more + 1 := ⟨fuel - 1, by omega⟩
  have htext : quote s ++ rest = .char '"' :: (s.flatMap escape ++ .char '"' :: rest) := by
    simp [quote]
  rw [htext] at hfuel ⊢
  simp only [List.length_cons, List.length_append] at hfuel
  rw [takeValue, takeText_quoted s rest (by omega)]
  rfl

section Collections
variable {layout : Layout}

theorem blank_lineBreak (layout : Layout) (level : Nat) :
    ∀ p ∈ layout.lineBreak level, IsBlank p := by
  intro p hp
  unfold Layout.lineBreak at hp
  split at hp
  · cases hp
  · rcases List.mem_cons.mp hp with rfl | hspace
    · rfl
    · rw [List.eq_of_mem_replicate hspace]
      rfl

/-- A separator is a comma and blanks. -/
theorem exists_separator (layout : Layout) (level : Nat) :
    ∃ blanks, layout.separator level = .char ',' :: blanks ∧ ∀ p ∈ blanks, IsBlank p := by
  unfold Layout.separator
  split
  · exact ⟨_, rfl, blank_lineBreak layout level⟩
  · refine ⟨[.char ' '], rfl, fun p hp => ?_⟩
    rw [List.mem_singleton.mp hp]
    rfl

variable {room level fuel : Nat} {rest : RawText}

theorem collection_cons (level : Nat) (opening closing : Char) (item : RawText)
    (items : List RawText) :
    layout.collection level opening closing (item :: items) ++ rest =
      .char opening :: (layout.lineBreak (level + 1) ++
        (layout.separated (level + 1) (item :: items) ++
          (layout.lineBreak level ++ .char closing :: rest))) := by
  simp [Layout.collection]

/-- The items from one on, as they stand in a list. -/
def itemsText (layout : Layout) (level : Nat) (first : Json) (more : List Json) : RawText :=
  layout.separated level (writeItems layout level (first :: more))

theorem itemsText_cons (level : Nat) (first next : Json) (more : List Json) :
    itemsText layout level first (next :: more) =
      writeAt layout level first ++
        (layout.separator level ++ itemsText layout level next more) := by
  simp [itemsText, writeItems, Layout.separated]

theorem itemsText_singleton (level : Nat) (first : Json) :
    itemsText layout level first [] = writeAt layout level first := by
  simp [itemsText, writeItems, Layout.separated]

theorem starts_itemsText {first : Json} (more : List Json)
    (h : ReadsAs room (writeAt layout level first) first) (rest : RawText) :
    Starts (itemsText layout level first more ++ rest) := by
  cases more with
  | nil => simpa only [itemsText_singleton] using h.starts_append rest
  | cons next more =>
    rw [itemsText_cons, List.append_assoc]
    exact h.starts_append _

theorem takeItems_itemsText {first : Json} {more : List Json}
    (h : ∀ v ∈ first :: more, ReadsAs room (writeAt layout level v) v) (read : List Json)
    {blanks : RawText} (hblanks : ∀ p ∈ blanks, IsBlank p)
    (hfuel : 2 * (itemsText layout level first more ++ (blanks ++ .char ']' :: rest)).length + 1 <
      fuel) :
    takeItems fuel room read (itemsText layout level first more ++ (blanks ++ .char ']' :: rest)) =
      .ok (.list (read.reverse ++ first :: more), rest) := by
  induction more generalizing first read fuel with
  | nil =>
    obtain ⟨fuel, rfl⟩ : ∃ more, fuel = more + 1 := ⟨fuel - 1, by omega⟩
    simp only [itemsText_singleton] at hfuel ⊢
    have hrest : Ended (blanks ++ .char ']' :: rest) :=
      (ended_cons (by simp) rest).append hblanks
    have hread := h first List.mem_cons_self hrest (show _ < fuel by omega)
    simp [takeItems, hread, bind, Except.bind, pure, Except.pure, skipSpace_append hblanks,
      skipSpace_cons (not_isBlank_char (c := ']') rfl)]
  | cons next more ih =>
    obtain ⟨fuel, rfl⟩ : ∃ more, fuel = more + 1 := ⟨fuel - 1, by omega⟩
    obtain ⟨gap, hgap, hspaces⟩ := exists_separator layout level
    have hnext : ∀ v ∈ next :: more, ReadsAs room (writeAt layout level v) v :=
      fun v hv => h v (List.mem_cons_of_mem first hv)
    rw [itemsText_cons, hgap, List.append_assoc, List.append_assoc, List.cons_append] at hfuel ⊢
    have hcomma : Ended (.char ',' ::
        (gap ++ (itemsText layout level next more ++ (blanks ++ .char ']' :: rest)))) :=
      ended_cons (by simp) _
    have hread := h first List.mem_cons_self hcomma (show _ < fuel by omega)
    have hspace := (starts_itemsText more (hnext next List.mem_cons_self)
      (blanks ++ .char ']' :: rest)).skipSpace
    have hlength : 2 * (itemsText layout level next more ++
        (blanks ++ .char ']' :: rest)).length + 1 < fuel := by
      simp only [List.length_append, List.length_cons] at hfuel ⊢
      omega
    have hrest := ih hnext (first :: read) hlength
    simp [takeItems, hread, bind, Except.bind, skipSpace_cons (not_isBlank_char (c := ',') rfl),
      skipSpace_append hspaces, hspace, hrest]

def fieldText (layout : Layout) (level : Nat) (field : RawText × Json) : RawText :=
  quote field.1 ++ .char ':' :: .char ' ' :: writeAt layout level field.2

theorem fieldText_append (level : Nat) (field : RawText × Json) (rest : RawText) :
    fieldText layout level field ++ rest =
      .char '"' :: (field.1.flatMap escape ++
        .char '"' :: .char ':' :: .char ' ' :: (writeAt layout level field.2 ++ rest)) := by
  simp [fieldText, quote]

def fieldsText (layout : Layout) (level : Nat) (first : RawText × Json)
    (more : List (RawText × Json)) : RawText :=
  layout.separated level (writeFields layout level (first :: more))

theorem fieldsText_singleton (level : Nat) (first : RawText × Json) :
    fieldsText layout level first [] = fieldText layout level first := by
  simp [fieldsText, fieldText, writeFields, Layout.separated]

theorem fieldsText_cons (level : Nat) (first next : RawText × Json)
    (more : List (RawText × Json)) :
    fieldsText layout level first (next :: more) =
      fieldText layout level first ++
        (layout.separator level ++ fieldsText layout level next more) := by
  simp [fieldsText, fieldText, writeFields, Layout.separated]

theorem exists_fieldsText (level : Nat) (first : RawText × Json) (more : List (RawText × Json)) :
    ∃ t, fieldsText layout level first more = .char '"' :: t := by
  cases more with
  | nil =>
    rw [fieldsText_singleton, ← List.append_nil (fieldText layout level first)]
    exact ⟨_, fieldText_append level first []⟩
  | cons next more => exact ⟨_, (fieldsText_cons level first next more).trans (fieldText_append ..)⟩

def afterField (fuel room : Nat) (fields : List (RawText × Json)) :
    RawText → Except ReadFailure (Json × RawText)
  | .char ',' :: rest => takeFields fuel room fields (skipSpace rest)
  | .char '\x7d' :: rest => .ok (.object fields, rest)
  | _ => .error .malformed

/-- One field is read, and put behind those before it; then comes what follows it. -/
theorem takeFields_fieldText {field : RawText × Json}
    (h : ReadsAs room (writeAt layout level field.2) field.2) {read : List (RawText × Json)}
    (hnew : field.1 ∉ read.map Prod.fst) (hrest : Ended rest)
    (hfuel : 2 * (fieldText layout level field ++ rest).length < fuel) :
    takeFields (fuel + 1) room read (fieldText layout level field ++ rest) =
      afterField fuel room (read ++ [field]) (skipSpace rest) := by
  obtain ⟨key, value⟩ := field
  rw [fieldText_append] at hfuel ⊢
  simp only [List.length_append, List.length_cons] at hfuel
  have hkey := takeText_quoted key
    (.char ':' :: .char ' ' :: (writeAt layout level value ++ rest)) (show _ < fuel by omega)
  have hlength : 2 * (writeAt layout level value ++ rest).length < fuel := by
    rw [List.length_append]
    omega
  have hvalue := h hrest hlength
  have hblank : ∀ p ∈ [CodePoint.char ' '], IsBlank p := by
    simp [IsBlank, CodePoint.char?, isSpace]
  have hspace : skipSpace (.char ' ' :: (writeAt layout level value ++ rest)) =
      writeAt layout level value ++ rest :=
    (skipSpace_append hblank _).trans (h.starts hrest).skipSpace
  rw [takeFields]
  simp only [hkey, orMalformed, bind, Except.bind, hspace, hvalue,
    skipSpace_cons (not_isBlank_char (c := ':') rfl), Entries.put_of_not_mem value hnew]
  rfl

theorem not_mem_of_nodup {read more : List (RawText × Json)} {first : RawText × Json}
    (h : ((read ++ first :: more).map Prod.fst).Nodup) : first.1 ∉ read.map Prod.fst := by
  rw [List.map_append, List.nodup_append] at h
  exact fun hmem => h.2.2 _ hmem _ (List.mem_map_of_mem List.mem_cons_self) rfl

theorem takeFields_fieldsText {first : RawText × Json} {more : List (RawText × Json)}
    (h : ∀ f ∈ first :: more, ReadsAs room (writeAt layout level f.2) f.2)
    {read : List (RawText × Json)} (hkeys : ((read ++ first :: more).map Prod.fst).Nodup)
    {blanks : RawText} (hblanks : ∀ p ∈ blanks, IsBlank p)
    (hfuel : 2 * (fieldsText layout level first more ++
      (blanks ++ .char '\x7d' :: rest)).length + 1 < fuel) :
    takeFields fuel room read (fieldsText layout level first more ++
        (blanks ++ .char '\x7d' :: rest)) =
      .ok (.object (read ++ first :: more), rest) := by
  induction more generalizing first read fuel with
  | nil =>
    obtain ⟨fuel, rfl⟩ : ∃ more, fuel = more + 1 := ⟨fuel - 1, by omega⟩
    rw [fieldsText_singleton] at hfuel ⊢
    rw [takeFields_fieldText (h first List.mem_cons_self) (not_mem_of_nodup hkeys)
      ((ended_cons (by simp) rest).append hblanks) (by omega), skipSpace_append hblanks,
      skipSpace_cons (not_isBlank_char (c := '\x7d') rfl)]
    rfl
  | cons next more ih =>
    obtain ⟨fuel, rfl⟩ : ∃ more, fuel = more + 1 := ⟨fuel - 1, by omega⟩
    obtain ⟨t, ht⟩ : ∃ t, fieldsText layout level next more = .char '"' :: t :=
      exists_fieldsText level next more
    obtain ⟨gap, hgap, hspaces⟩ := exists_separator layout level
    rw [fieldsText_cons, hgap, List.append_assoc, List.append_assoc, List.cons_append] at hfuel ⊢
    have hkeys' : ((read ++ [first] ++ next :: more).map Prod.fst).Nodup := by simpa using hkeys
    have hlength : 2 * (fieldsText layout level next more ++
        (blanks ++ .char '\x7d' :: rest)).length + 1 < fuel := by
      simp only [List.length_append, List.length_cons] at hfuel ⊢
      omega
    have hlater := ih (fun f hf => h f (List.mem_cons_of_mem first hf)) hkeys' hlength
    have hspace : skipSpace (fieldsText layout level next more ++
        (blanks ++ .char '\x7d' :: rest)) =
          fieldsText layout level next more ++ (blanks ++ .char '\x7d' :: rest) := by
      rw [ht, List.cons_append, skipSpace_cons (not_isBlank_char (c := '"') rfl)]
    rw [takeFields_fieldText (h first List.mem_cons_self) (not_mem_of_nodup hkeys)
      (ended_cons (by simp) _) (by omega), skipSpace_cons (not_isBlank_char (c := ',') rfl)]
    simp only [afterField, skipSpace_append hspaces, hspace, hlater, List.append_assoc,
      List.singleton_append]

theorem readsAs_list {items : List Json}
    (h : ∀ v ∈ items, ReadsAs room (writeAt layout (level + 1) v) v) :
    ReadsAs (room + 1) (writeAt layout level (.list items)) (.list items) := by
  intro fuel rest _ hfuel
  obtain ⟨fuel, rfl⟩ : ∃ more, fuel = more + 1 := ⟨fuel - 1, by omega⟩
  cases items with
  | nil =>
    simp [writeAt, writeItems, Layout.collection, takeValue,
      skipSpace_cons (not_isBlank_char (c := ']') rfl)]
  | cons first more =>
    have hstarts := starts_itemsText more (h first List.mem_cons_self)
      (layout.lineBreak level ++ .char ']' :: rest)
    have htext : writeAt layout level (.list (first :: more)) ++ rest =
        .char '[' :: (layout.lineBreak (level + 1) ++
          (itemsText layout (level + 1) first more ++
            (layout.lineBreak level ++ .char ']' :: rest))) := by
      rw [writeAt, writeItems, collection_cons]
      rfl
    rw [htext] at hfuel ⊢
    have hlength : 2 * (itemsText layout (level + 1) first more ++
        (layout.lineBreak level ++ .char ']' :: rest)).length + 1 < fuel := by
      rw [List.length_cons, List.length_append] at hfuel
      omega
    have hread := takeItems_itemsText h [] (blank_lineBreak layout level) hlength
    rw [takeValue]
    simp only [skipSpace_append (blank_lineBreak layout (level + 1)), hstarts.skipSpace]
    split
    · next heq =>
      rw [heq] at hstarts
      cases hstarts with
      | cons _ hclosing => exact absurd rfl hclosing
    · rw [hread]
      rfl

theorem readsAs_object {fields : List (RawText × Json)}
    (h : ∀ f ∈ fields, ReadsAs room (writeAt layout (level + 1) f.2) f.2)
    (hkeys : (fields.map Prod.fst).Nodup) :
    ReadsAs (room + 1) (writeAt layout level (.object fields)) (.object fields) := by
  intro fuel rest _ hfuel
  obtain ⟨fuel, rfl⟩ : ∃ more, fuel = more + 1 := ⟨fuel - 1, by omega⟩
  cases fields with
  | nil =>
    simp [writeAt, writeFields, Layout.collection, takeValue,
      skipSpace_cons (not_isBlank_char (c := '\x7d') rfl)]
  | cons first more =>
    obtain ⟨t, ht⟩ : ∃ t, fieldsText layout (level + 1) first more = .char '"' :: t :=
      exists_fieldsText (level + 1) first more
    have htext : writeAt layout level (.object (first :: more)) ++ rest =
        .char '\x7b' :: (layout.lineBreak (level + 1) ++
          (fieldsText layout (level + 1) first more ++
            (layout.lineBreak level ++ .char '\x7d' :: rest))) := by
      rw [writeAt, writeFields, collection_cons]
      rfl
    rw [htext] at hfuel ⊢
    have hkeys' : (([] ++ first :: more).map Prod.fst).Nodup := hkeys
    have hlength : 2 * (fieldsText layout (level + 1) first more ++
        (layout.lineBreak level ++ .char '\x7d' :: rest)).length + 1 < fuel := by
      rw [List.length_cons, List.length_append] at hfuel
      omega
    have hread := takeFields_fieldsText h hkeys' (blank_lineBreak layout level) hlength
    rw [takeValue]
    simp only [skipSpace_append (blank_lineBreak layout (level + 1))]
    rw [ht, List.cons_append] at hread ⊢
    rw [skipSpace_cons (not_isBlank_char (c := '"') rfl)]
    exact hread

end Collections

/-- What is written of a document is read as the same document. -/
theorem readsAs_written {room : Nat} {layout : Layout} {v : Json} (h : Fits room v)
    (level : Nat) : ReadsAs room (writeAt layout level v) v := by
  induction h generalizing level with
  | null => exact readsAs_word rfl (show ("null", null) ∈ words by simp [words])
  | bool b =>
    cases b with
    | false => exact readsAs_word rfl (show ("false", bool false) ∈ words by simp [words])
    | true => exact readsAs_word rfl (show ("true", bool true) ∈ words by simp [words])
  | int hshort => exact readsAs_int hshort
  | float x => exact readsAs_scalar rfl (takeScalar_float x)
  | text s => exact readsAs_quote _ s
  | list _ ih => exact readsAs_list fun v hv => ih v hv _
  | object hkeys _ ih => exact readsAs_object (fun f hf => ih f hf _) hkeys

theorem read_write (layout : Layout) {room : Nat} {v : Json} (h : Fits room v) :
    read room (write layout v) = .ok v := by
  have hreads : ReadsAs room (write layout v) v := readsAs_written h 0
  have hstarts : Starts (write layout v ++ []) := hreads.starts ended_nil
  have hlength : 2 * (write layout v ++ []).length < 2 * (write layout v).length + 2 := by simp
  have hread := hreads ended_nil hlength
  rw [List.append_nil] at hread hstarts
  unfold read
  rw [hstarts.skipSpace, hread]
  rfl

theorem read?_write (layout : Layout) {room : Nat} {v : Json} (h : Fits room v) :
    read? room (write layout v) = .ok (some v) := by
  rw [read?, read_write layout h]

def numberText (n : Int) : RawText := .char '[' :: (ofChars (toString n).toList ++ [.char ']'])

/-- A number that is too long is given up, although nothing is wrong with the text. -/
theorem read?_numberText {n : Int} (hlong : isTooLong n = true) (room : Nat) :
    read? (room + 1) (numberText n) = .error (.digits (toString n.natAbs).length) := by
  have hends : Delimited [']'] := .cons (by simp)
  have hscalar := takeScalar_int n hends
  have hitem : ∀ fuel, takeValue (fuel + 1) room (ofChars (toString n).toList ++ [.char ']']) =
      .error (.beyond (.digits (toString n.natAbs).length)) := by
    intro fuel
    rw [takeValue_scalar hscalar]
    simp [checkDigits, hlong, Except.map]
  have hstarts : Starts (ofChars (toString n).toList ++ [.char ']']) :=
    starts_of_takeScalar (onCharacters_append hscalar)
  have hopened : skipSpace (numberText n) = numberText n := skipSpace_cons (not_isBlank_char rfl) _
  have hread : ∀ fuel, takeValue (fuel + 3) (room + 1) (numberText n) =
      .error (.beyond (.digits (toString n.natAbs).length)) := by
    intro fuel
    rw [numberText, takeValue]
    simp only [hstarts.skipSpace]
    split
    · next heq =>
      rw [heq] at hstarts
      cases hstarts with
      | cons _ hclosing => exact absurd rfl hclosing
    · rw [takeItems, hitem]
      rfl
  obtain ⟨fuel, hfuel⟩ : ∃ fuel, 2 * (numberText n).length + 2 = fuel + 3 :=
    ⟨_, (Nat.sub_add_cancel (by simp only [numberText, List.length_cons]; omega)).symm⟩
  rw [read?, read, hopened, hfuel, hread]
  rfl

theorem isTooLong_pow : isTooLong ((10 : Int) ^ Text.digitLimit) = true := by
  unfold isTooLong
  generalize Text.digitLimit = k
  rw [Int.natAbs_pow]
  exact decide_eq_true (Nat.le_refl _)

end VisualNovel.Data.Json
