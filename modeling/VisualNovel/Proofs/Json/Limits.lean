import VisualNovel.Data.Json.Writer
import VisualNovel.Fault

/-!
Documents within the limits of reading and writing. Whatever is read from a JSON text is such a
document, and nothing keeps such a document from being written. With more room a text is read in the
same way, unless the room was too small before.
-/
namespace VisualNovel.Data.Json

open Text (RawText)

/-- Documents without numbers that are too long, in which at most so many collections are opened
one inside the other, and whose objects have each key once. -/
inductive Fits : Nat → Json → Prop
  | null {room : Nat} : Fits room .null
  | bool {room : Nat} (b : Bool) : Fits room (.bool b)
  | int {room : Nat} {n : Int} (hshort : isTooLong n = false) : Fits room (.int n)
  | float {room : Nat} (x : Float) : Fits room (.float x)
  | text {room : Nat} (s : RawText) : Fits room (.text s)
  | list {room : Nat} {items : List Json} (hitems : ∀ v ∈ items, Fits room v) :
      Fits (room + 1) (.list items)
  | object {room : Nat} {fields : List (RawText × Json)} (hkeys : (fields.map Prod.fst).Nodup)
      (hfields : ∀ f ∈ fields, Fits room f.2) : Fits (room + 1) (.object fields)

theorem Fits.mono {room more : Nat} {v : Json} (h : Fits room v) (hle : room ≤ more) :
    Fits more v := by
  induction h generalizing more with
  | null => exact .null
  | bool b => exact .bool b
  | int hshort => exact .int hshort
  | float x => exact .float x
  | text s => exact .text s
  | list _ ih =>
    obtain ⟨more, rfl⟩ := Nat.exists_eq_add_of_lt hle
    exact .list fun v hv => ih v hv (by omega)
  | object hkeys _ ih =>
    obtain ⟨more, rfl⟩ := Nat.exists_eq_add_of_lt hle
    exact .object hkeys fun f hf => ih f hf (by omega)

theorem fits_takeWord {cs rest : List Char} {v : Json} (h : takeWord cs = some (v, rest))
    (room : Nat) : Fits room v := by
  obtain ⟨⟨word, value⟩, hmem, h⟩ := List.exists_of_findSome?_eq_some h
  obtain ⟨more, hmore, h⟩ := Option.map_eq_some_iff.mp h
  obtain ⟨rfl, -⟩ := Prod.mk.inj h
  simp only [words, List.mem_cons, Prod.mk.injEq, List.not_mem_nil, or_false] at hmem
  rcases hmem with ⟨-, rfl⟩ | ⟨-, rfl⟩ | ⟨-, rfl⟩ | ⟨-, rfl⟩ | ⟨-, rfl⟩ | ⟨-, rfl⟩ <;> constructor

theorem kind_takeNumber {cs rest : List Char} {v : Json} (h : takeNumber cs = some (v, rest)) :
    (∃ n, v = .int n) ∨ ∃ x, v = .float x := by
  simp only [takeNumber, Option.bind_eq_bind, Option.bind_eq_some_iff] at h
  obtain ⟨⟨whole, more⟩, hwhole, h⟩ := h
  split at h
  · exact .inr ⟨_, (Prod.mk.inj (Option.some.inj h)).1.symm⟩
  · split at h
    · exact .inl ⟨_, (Prod.mk.inj (Option.some.inj h)).1.symm⟩
    · exact .inr ⟨_, (Prod.mk.inj (Option.some.inj h)).1.symm⟩

theorem fits_of_checkDigits {cs rest : List Char} {v v' : Json}
    (h : takeScalar cs = some (v, rest)) (hcheck : checkDigits v = .ok v') (room : Nat) :
    Fits room v' := by
  have hword : takeWord cs = some (v, rest) → v' = v := by
    intro hword
    have hfits := fits_takeWord hword 0
    cases hfits with
    | int hshort => simpa [checkDigits, hshort, eq_comm] using hcheck
    | _ => exact (Except.ok.inj hcheck).symm
  rcases Option.or_eq_some_iff.mp (by simpa [takeScalar] using h) with h | ⟨-, h⟩
  · exact hword h ▸ fits_takeWord h room
  · rcases kind_takeNumber h with ⟨n, rfl⟩ | ⟨x, rfl⟩
    · unfold checkDigits at hcheck
      split at hcheck
      · next n' heq =>
        cases heq
        split at hcheck
        · cases hcheck
        · next hshort => exact Except.ok.inj hcheck ▸ .int (by simpa using hshort)
      · next hne => exact absurd rfl (hne n)
    · exact Except.ok.inj hcheck ▸ .float x

theorem of_orMalformed {α : Type} {x : Option α} {a : α} (h : orMalformed x = .ok a) :
    x = some a := by
  cases x with
  | none => cases h
  | some b => exact congrArg some (Except.ok.inj h)

/-- What the three readers return, whatever they are given. -/
structure ReadsFit (fuel : Nat) : Prop where
  value : ∀ {room t rest v}, takeValue fuel room t = .ok (v, rest) → Fits room v
  items : ∀ {room read t rest v}, (∀ x ∈ read, Fits room x) →
    takeItems fuel room read t = .ok (v, rest) → Fits (room + 1) v
  fields : ∀ {room read t rest v}, (read.map Prod.fst).Nodup → (∀ f ∈ read, Fits room f.2) →
    takeFields fuel room read t = .ok (v, rest) → Fits (room + 1) v

theorem ReadsFit.takeValue {fuel room : Nat} {t rest : RawText} {v : Json} (ih : ReadsFit fuel)
    (h : Json.takeValue (fuel + 1) room t = .ok (v, rest)) : Fits room v := by
  unfold Json.takeValue at h
  split at h
  · obtain ⟨⟨s, more⟩, -, h⟩ := bind_eq_ok_iff.mp h
    cases h
    exact .text s
  · split at h
    · cases h
    · split at h
      · cases h
        exact .list (by simp)
      · exact ih.items (by simp) h
  · split at h
    · cases h
    · split at h
      · cases h
        exact .object (by simp) (by simp)
      · exact ih.fields (by simp) (by simp) h
  · obtain ⟨⟨v, more⟩, hscalar, h⟩ := bind_eq_ok_iff.mp h
    obtain ⟨v', hcheck, h⟩ := bind_eq_ok_iff.mp h
    cases h
    obtain ⟨⟨_, _⟩, htake, heq⟩ := Option.map_eq_some_iff.mp (of_orMalformed hscalar)
    obtain ⟨rfl, -⟩ := Prod.mk.inj heq
    exact fits_of_checkDigits htake hcheck room

theorem ReadsFit.takeItems {fuel room : Nat} {read : List Json} {t rest : RawText} {v : Json}
    (ih : ReadsFit fuel) (hread : ∀ x ∈ read, Fits room x)
    (h : Json.takeItems (fuel + 1) room read t = .ok (v, rest)) : Fits (room + 1) v := by
  unfold Json.takeItems at h
  obtain ⟨⟨item, more⟩, hitem, h⟩ := bind_eq_ok_iff.mp h
  have hall : ∀ x ∈ item :: read, Fits room x := by
    intro x hx
    rcases List.mem_cons.mp hx with rfl | hx
    · exact ih.value hitem
    · exact hread x hx
  dsimp only at h
  split at h
  · exact ih.items hall h
  · cases h
    exact .list fun x hx => hall x (List.mem_reverse.mp hx)
  · cases h

theorem ReadsFit.takeFields {fuel room : Nat} {read : List (RawText × Json)} {t rest : RawText}
    {v : Json} (ih : ReadsFit fuel) (hkeys : (read.map Prod.fst).Nodup)
    (hfields : ∀ f ∈ read, Fits room f.2)
    (h : Json.takeFields (fuel + 1) room read t = .ok (v, rest)) : Fits (room + 1) v := by
  unfold Json.takeFields at h
  split at h
  · next hfuel =>
    obtain rfl := Nat.succ.inj hfuel
    obtain ⟨⟨key, afterKey⟩, -, h⟩ := bind_eq_ok_iff.mp h
    dsimp only at h
    split at h
    · obtain ⟨⟨value, afterValue⟩, hvalue, h⟩ := bind_eq_ok_iff.mp h
      have hkeys' := Entries.nodup_put key value hkeys
      have hfields' : ∀ f ∈ Entries.put key value read, Fits room f.2 := by
        intro f hf
        rcases Entries.mem_put hf with rfl | hf
        · exact ih.value hvalue
        · exact hfields f hf
      dsimp only at h
      split at h
      · exact ih.fields hkeys' hfields' h
      · cases h
        exact .object hkeys' hfields'
      · cases h
    · cases h
  · cases h

theorem readsFit (fuel : Nat) : ReadsFit fuel := by
  induction fuel with
  | zero =>
    refine ⟨fun h => ?_, fun _ h => ?_, fun _ _ h => ?_⟩
    · simp [takeValue] at h
    · simp [takeItems] at h
    · simp [takeFields, throw, throwThe, MonadExceptOf.throw] at h
  | succ fuel ih => exact ⟨ih.takeValue, ih.takeItems, ih.takeFields⟩

theorem fits_of_read {room : Nat} {t : RawText} {v : Json} (h : read room t = .ok v) :
    Fits room v := by
  unfold read at h
  obtain ⟨⟨v', rest⟩, hread, h⟩ := bind_eq_ok_iff.mp h
  dsimp only at h
  split at h
  · exact Except.ok.inj h ▸ (readsFit _).value hread
  · cases h

theorem fits_of_read? {room : Nat} {t : RawText} {v : Json} (h : read? room t = .ok (some v)) :
    Fits room v := by
  unfold read? at h
  split at h
  · next hread =>
    cases h
    exact fits_of_read hread
  · cases h
  · cases h

/-- Whether a result does not come from a lack of room. -/
def Settled {α : Type} (x : Except ReadFailure α) : Prop :=
  ∀ kind, x ≠ .error (.beyond (.depth kind))

theorem Settled.of_bind {α β : Type} {x : Except ReadFailure α} {f : α → Except ReadFailure β}
    (h : Settled (x >>= f)) : Settled x := by
  rintro kind rfl
  exact h kind rfl

/-- One step after the other is the same, if each is the same as far as it is settled. -/
theorem Settled.bind_congr {α β : Type} {x y : Except ReadFailure α}
    {f g : α → Except ReadFailure β} (h : Settled (x >>= f)) (hx : Settled x → y = x)
    (hf : ∀ a, x = .ok a → Settled (f a) → g a = f a) : y >>= g = x >>= f := by
  rw [hx h.of_bind]
  cases x with
  | error e => rfl
  | ok a => exact hf a rfl h

/-- What the three readers return with more room, once they have room enough. -/
structure ReadsAlike (fuel : Nat) : Prop where
  value : ∀ {room more t}, room ≤ more → Settled (takeValue fuel room t) →
    takeValue fuel more t = takeValue fuel room t
  items : ∀ {room more read t}, room ≤ more → Settled (takeItems fuel room read t) →
    takeItems fuel more read t = takeItems fuel room read t
  fields : ∀ {room more read t}, room ≤ more → Settled (takeFields fuel room read t) →
    takeFields fuel more read t = takeFields fuel room read t

theorem ReadsAlike.takeValue {fuel room more : Nat} {t : RawText} (ih : ReadsAlike fuel)
    (hle : room ≤ more) (h : Settled (Json.takeValue (fuel + 1) room t)) :
    Json.takeValue (fuel + 1) more t = Json.takeValue (fuel + 1) room t := by
  unfold Json.takeValue at h ⊢
  split at h
  · rfl
  · cases room with
    | zero => exact absurd rfl (h .list)
    | succ room =>
      obtain ⟨more, rfl⟩ := Nat.exists_eq_add_of_lt hle
      dsimp only at h ⊢
      split at h
      · rfl
      · exact ih.items (by omega) h
  · cases room with
    | zero => exact absurd rfl (h .object)
    | succ room =>
      obtain ⟨more, rfl⟩ := Nat.exists_eq_add_of_lt hle
      dsimp only at h ⊢
      split at h
      · rfl
      · exact ih.fields (by omega) h
  · rfl

theorem ReadsAlike.takeItems {fuel room more : Nat} {read : List Json} {t : RawText}
    (ih : ReadsAlike fuel) (hle : room ≤ more)
    (h : Settled (Json.takeItems (fuel + 1) room read t)) :
    Json.takeItems (fuel + 1) more read t = Json.takeItems (fuel + 1) room read t := by
  unfold Json.takeItems at h ⊢
  refine h.bind_congr (ih.value hle) ?_
  rintro ⟨item, rest⟩ - h
  dsimp only at h ⊢
  split at h
  · exact ih.items hle h
  · rfl
  · rfl

theorem ReadsAlike.takeFields {fuel room more : Nat} {read : List (RawText × Json)} {t : RawText}
    (ih : ReadsAlike fuel) (hle : room ≤ more)
    (h : Settled (Json.takeFields (fuel + 1) room read t)) :
    Json.takeFields (fuel + 1) more read t = Json.takeFields (fuel + 1) room read t := by
  unfold Json.takeFields at h ⊢
  split at h
  · next hfuel =>
    obtain rfl := Nat.succ.inj hfuel
    refine h.bind_congr (fun _ => rfl) ?_
    rintro ⟨key, rest⟩ - h
    dsimp only at h ⊢
    split at h
    · refine h.bind_congr (ih.value hle) ?_
      rintro ⟨value, rest⟩ - h
      dsimp only at h ⊢
      split at h
      · exact ih.fields hle h
      · rfl
      · rfl
    · rfl
  · rfl

theorem readsAlike (fuel : Nat) : ReadsAlike fuel := by
  induction fuel with
  | zero =>
    refine ⟨fun _ _ => ?_, fun _ _ => ?_, fun _ _ => ?_⟩
    · rw [takeValue, takeValue]
    · rw [takeItems, takeItems]
    · rfl
  | succ fuel ih => exact ⟨ih.takeValue, ih.takeItems, ih.takeFields⟩

theorem read_more {room more : Nat} {t : RawText} (hle : room ≤ more)
    (h : Settled (read room t)) : read more t = read room t := by
  unfold read at h ⊢
  exact h.bind_congr ((readsAlike _).value hle) fun _ _ _ => rfl

theorem read?_more {room more : Nat} {t : RawText} {document : Option Json} (hle : room ≤ more)
    (h : read? room t = .ok document) : read? more t = .ok document := by
  have hsettled : Settled (read room t) := by
    intro kind hread
    rw [read?, hread] at h
    cases h
  rw [read?, read_more hle hsettled]
  exact h

theorem itemsObstacle?_append (room : Nat) (a b : List Json) :
    itemsObstacle? room (a ++ b) = (itemsObstacle? room a).or (itemsObstacle? room b) := by
  induction a with
  | nil => rfl
  | cons item rest ih => rw [List.cons_append, itemsObstacle?, itemsObstacle?, ih, Option.or_assoc]

theorem itemsObstacle?_eq_none {room : Nat} {items : List Json}
    (h : ∀ v ∈ items, obstacle? room v = none) : itemsObstacle? room items = none := by
  induction items with
  | nil => rfl
  | cons item rest ih =>
    rw [itemsObstacle?, h item List.mem_cons_self, Option.none_or]
    exact ih fun v hv => h v (List.mem_cons_of_mem item hv)

theorem fieldsObstacle?_eq_none {room : Nat} {fields : List (RawText × Json)}
    (h : ∀ f ∈ fields, obstacle? room f.2 = none) : fieldsObstacle? room fields = none := by
  induction fields with
  | nil => rfl
  | cons field rest ih =>
    rw [fieldsObstacle?, h field List.mem_cons_self, Option.none_or]
    exact ih fun f hf => h f (List.mem_cons_of_mem field hf)

theorem obstacle?_of_fits {room : Nat} {v : Json} (h : Fits room v) : obstacle? room v = none := by
  induction h with
  | int hshort => simp [obstacle?, hshort]
  | list _ ih => exact itemsObstacle?_eq_none ih
  | object _ _ ih => exact fieldsObstacle?_eq_none ih
  | _ => rfl

theorem dump_of_fits {room : Nat} {v : Json} (h : Fits room v) :
    dump room v = .ok (write compact v) := by
  rw [dump, obstacle?_of_fits h]

theorem dump_eq_ok {room : Nat} {v : Json} {text : RawText} (h : dump room v = .ok text) :
    obstacle? room v = none ∧ text = write compact v := by
  unfold dump at h
  split at h
  · next hnone => exact ⟨hnone, (Except.ok.inj h).symm⟩
  · cases h

end VisualNovel.Data.Json
