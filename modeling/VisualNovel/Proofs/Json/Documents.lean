import VisualNovel.Proofs.Json.RoundTrip
import VisualNovel.Proofs.Text.Lines

/-!
Objects of texts as documents. The only control characters in a written object are the line breaks
of its layout, so if all its texts have bytes, the bytes of the document are read as the text that
was written, with nothing for the reading of line ends to change.
-/
namespace VisualNovel.Text.Utf8

theorem normaliseLineEnds_of_not_mem {cs : List Char} (h : '\r' ∉ cs) :
    normaliseLineEnds cs = cs := by
  induction cs with
  | nil => rfl
  | cons c rest ih =>
    rw [List.mem_cons, not_or] at h
    simp [normaliseLineEnds, Ne.symm h.1, ih h.2]

/-- A text without carriage returns is read from its own bytes. -/
theorem decodeLines_of_not_mem {s : String} (h : '\r' ∉ s.toList) :
    decodeLines s.toUTF8 = .ok s := by
  rw [decodeLines_toUTF8, normaliseLineEnds_of_not_mem h, String.ofList_toList]

end VisualNovel.Text.Utf8

namespace VisualNovel.Text.RawText

theorem drop_characters (t : RawText) :
    t.drop t.characters.length = [] ∨
      ∃ offset rest, t.drop t.characters.length = .surrogate offset :: rest := by
  induction t with
  | nil => exact .inl rfl
  | cons p rest ih =>
    cases p with
    | char c => simpa using ih
    | surrogate offset => exact .inr ⟨offset, rest, rfl⟩

theorem eq_ofChars_of_surrogates? {t : RawText} (h : t.surrogates? = none) :
    t = ofChars t.characters := by
  have hsplit := ofChars_characters_append_drop t
  rcases t.drop_characters with hdrop | ⟨offset, rest, hdrop⟩
  · rw [hdrop, List.append_nil] at hsplit
    exact hsplit.symm
  · simp [surrogates?, hdrop] at h

/-- Characters alone, and no carriage return among them. -/
def Clean (t : RawText) : Prop := ∃ cs, t = ofChars cs ∧ '\r' ∉ cs

theorem clean_ofChars (cs : List Char) (h : '\r' ∉ cs) : Clean (ofChars cs) := ⟨cs, rfl, h⟩

theorem Clean.append {a b : RawText} (ha : a.Clean) (hb : b.Clean) : Clean (a ++ b) := by
  obtain ⟨as, rfl, ha⟩ := ha
  obtain ⟨bs, rfl, hb⟩ := hb
  exact ⟨as ++ bs, (ofChars_append as bs).symm, fun h => (List.mem_append.mp h).elim ha hb⟩

/-- Its bytes are read as the text itself. -/
theorem Clean.decodeLines {t : RawText} (h : t.Clean) :
    Utf8.decodeLines (String.ofList t.characters).toUTF8 = .ok (String.ofList t.characters) ∧
      (String.ofList t.characters : RawText) = t := by
  obtain ⟨cs, rfl, hcs⟩ := h
  rw [characters_ofChars]
  exact ⟨Utf8.decodeLines_of_not_mem (by rwa [String.toList_ofList]),
    by rw [ofString_eq, String.toList_ofList]⟩

end VisualNovel.Text.RawText

namespace VisualNovel.Data.Json

open Text (RawText)
open Text.RawText (Clean clean_ofChars)

theorem return_not_mem_escape (c : Char) : '\r' ∉ escapeChar c := by
  have hdigits : ∀ n < 32, '\r' ∉ (Text.paddedHex 4 n).toList := by decide
  cases escaped c with
  | letter hunit hd htext =>
    rw [htext]
    simp only [List.mem_cons, List.not_mem_nil, or_false, not_or]
    refine ⟨by decide, ?_⟩
    rintro rfl
    cases hd
  | number hcontrol htext =>
    rw [htext]
    simpa using hdigits _ hcontrol
  | itself hquote hslash hplain htext =>
    rw [htext, List.mem_singleton]
    rintro rfl
    exact hplain (by decide)

theorem return_not_mem_quote (s : RawText) : .char '\r' ∉ quote s := by
  have hescape : ∀ p : Text.CodePoint, .char '\r' ∉ escape p := by
    rintro (c | offset) hmem
    · obtain ⟨d, hd, heq⟩ := List.mem_map.mp hmem
      cases heq
      exact return_not_mem_escape c hd
    · simp [escape] at hmem
  simp [quote, hescape]

theorem clean_quote {s : RawText} (h : (quote s).surrogates? = none) : (quote s).Clean := by
  have hchars := Text.RawText.eq_ofChars_of_surrogates? h
  refine ⟨_, hchars, fun hmem => return_not_mem_quote s ?_⟩
  rw [hchars]
  exact List.mem_map_of_mem hmem

theorem clean_lineBreak (layout : Layout) (level : Nat) : (layout.lineBreak level).Clean := by
  unfold Layout.lineBreak
  split
  · exact clean_ofChars [] (by simp)
  · next width hindent =>
    refine ⟨'\n' :: List.replicate (width * level) ' ', ?_, by simp⟩
    rw [Text.RawText.ofChars_cons, Text.RawText.ofChars, List.map_replicate]

theorem clean_separated (layout : Layout) (level : Nat) {items : List RawText}
    (h : ∀ item ∈ items, item.Clean) : (layout.separated level items).Clean := by
  induction items with
  | nil => exact clean_ofChars [] (by simp)
  | cons item rest ih =>
    have hitem := h item List.mem_cons_self
    have hrest := ih fun other hother => h other (List.mem_cons_of_mem item hother)
    cases rest with
    | nil => exact hitem
    | cons next more =>
      have hseparator : (layout.separator level).Clean := by
        unfold Layout.separator
        split
        · exact (clean_ofChars [','] (by simp)).append (clean_lineBreak layout level)
        · exact clean_ofChars [',', ' '] (by simp)
      exact hitem.append (hseparator.append hrest)

theorem clean_numberText (n : Int) : (numberText n).Clean := by
  have hdigits : '\r' ∉ (toString n).toList := by
    have hplain := (leads_toString n.natAbs).plain
    rw [toString_int]
    unfold signed
    split
    · intro hmem
      rcases List.mem_cons.mp hmem with heq | hmem
      · cases heq
      · exact absurd (hplain _ hmem) (by decide)
    · exact fun hmem => absurd (hplain _ hmem) (by decide)
  exact (clean_ofChars ['['] (by decide)).append
    ((clean_ofChars _ hdigits).append (clean_ofChars [']'] (by decide)))

def textObject (texts : List (RawText × RawText)) : Json :=
  .object (texts.map fun (key, value) => (key, .text value))

theorem fits_textObject {texts : List (RawText × RawText)} (h : (texts.map Prod.fst).Nodup)
    (room : Nat) : Fits (room + 1) (textObject texts) := by
  refine .object ?_ ?_
  · rw [List.map_map]
    exact h
  · intro field hfield
    obtain ⟨text, -, rfl⟩ := List.mem_map.mp hfield
    exact .text text.2

/-- Control characters are escaped, so only the line breaks of the layout remain. -/
theorem clean_textObject (layout : Layout) {texts : List (RawText × RawText)}
    (h : ∀ t ∈ texts, (quote t.1).surrogates? = none ∧ (quote t.2).surrogates? = none) :
    (write layout (textObject texts)).Clean := by
  have hfields : ∀ item ∈ writeFields layout 1 (texts.map fun (key, value) => (key, .text value)),
      item.Clean := by
    induction texts with
    | nil => simp [writeFields]
    | cons text rest ih =>
      intro item hitem
      rw [List.map_cons, writeFields, List.mem_cons] at hitem
      rcases hitem with rfl | hitem
      · have htext := h text List.mem_cons_self
        exact (clean_quote htext.1).append
          ((clean_ofChars [':', ' '] (by simp)).append (clean_quote htext.2))
      · exact ih (fun t ht => h t (List.mem_cons_of_mem text ht)) item hitem
  rw [write, textObject, writeAt, Layout.collection]
  split
  · exact clean_ofChars ['\x7b', '\x7d'] (by decide)
  · exact (clean_ofChars ['\x7b'] (by decide)).append
      ((clean_lineBreak layout 1).append ((clean_separated layout 1 hfields).append
        ((clean_lineBreak layout 0).append (clean_ofChars ['\x7d'] (by decide)))))

end VisualNovel.Data.Json
