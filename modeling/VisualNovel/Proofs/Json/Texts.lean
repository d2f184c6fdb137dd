import VisualNovel.Data.Json.Writer

/-!
Texts in quotes: what is written of a text, code point by code point, is read as the same text. A
half of a surrogate pair stands for itself on both ways.
-/
namespace VisualNovel.Text.RawText

variable {cs : List Char} {t : RawText}

@[simp] theorem ofChars_nil : ofChars [] = [] := rfl

@[simp] theorem ofChars_cons (c : Char) (cs : List Char) :
    ofChars (c :: cs) = .char c :: ofChars cs := rfl

@[simp] theorem ofChars_append (a b : List Char) : ofChars (a ++ b) = ofChars a ++ ofChars b :=
  List.map_append

@[simp] theorem length_ofChars (cs : List Char) : (ofChars cs).length = cs.length :=
  List.length_map _

theorem ofString_eq (s : String) : ofString s = ofChars s.toList := rfl

@[simp] theorem characters_nil : characters [] = [] := rfl

@[simp] theorem characters_char (c : Char) (t : RawText) :
    characters (.char c :: t) = c :: characters t := rfl

theorem characters_ofChars_append (cs : List Char) (t : RawText) :
    characters (ofChars cs ++ t) = cs ++ characters t := by
  induction cs with
  | nil => rfl
  | cons c cs ih => rw [ofChars_cons, List.cons_append, characters_char, ih, List.cons_append]

theorem characters_ofChars (cs : List Char) : characters (ofChars cs) = cs := by
  have h := characters_ofChars_append cs []
  rwa [List.append_nil, characters_nil, List.append_nil] at h

theorem ofChars_characters_append_drop (t : RawText) :
    ofChars t.characters ++ t.drop t.characters.length = t := by
  induction t with
  | nil => rfl
  | cons p rest ih =>
    cases p with
    | char c => simpa using ih
    | surrogate offset => rfl

theorem strict_ofString (s : String) : (s : RawText).strict = .ok s := by
  have hsurrogates : (s : RawText).surrogates? = none := by
    rw [surrogates?, ofString_eq, characters_ofChars, ← length_ofChars, List.drop_length]
  rw [strict, hsurrogates, ofString_eq, characters_ofChars, String.ofList_toList]

theorem mended_ofString (s : String) : (s : RawText).mended = s := by
  rw [mended, ofString_eq, ofChars, List.map_map]
  exact (congrArg String.ofList (List.map_id _)).trans (String.ofList_toList)

end VisualNovel.Text.RawText

namespace VisualNovel.Data.Json

open Text (CodePoint RawText)
open Text.RawText (ofChars ofChars_append characters_ofChars_append ofChars_characters_append_drop)

/-- Every control character has four hexadecimal digits of its own. -/
theorem hexDigits_paddedHex :
    ∀ n < 32, (Text.paddedHex 4 n).toList.length = 4 ∧
      ((Text.paddedHex 4 n).toList.mapM Text.hexDigit?).map
        (fun ds => ds.foldl (fun n d => n * 16 + d) 0) = some n := by decide

theorem mapM_ofChars (f : Char → Option Nat) (cs : List Char) :
    (ofChars cs).mapM (fun p : CodePoint => p.char?.bind f) = cs.mapM f := by
  induction cs with
  | nil => rfl
  | cons c cs ih =>
    rw [Text.RawText.ofChars_cons, List.mapM_cons, List.mapM_cons, ih]
    rfl

theorem takeUnit_paddedHex {n : Nat} (h : n < 32) (rest : RawText) :
    takeUnit (ofChars (Text.paddedHex 4 n).toList ++ rest) = some (n, rest) := by
  obtain ⟨hlength, hvalue⟩ := hexDigits_paddedHex n h
  have hlength' : (ofChars (Text.paddedHex 4 n).toList).length = 4 :=
    (Text.RawText.length_ofChars _).trans hlength
  unfold takeUnit
  simp only [List.take_left' hlength', List.drop_left' hlength', hlength', mapM_ofChars,
    beq_self_eq_true, if_true]
  obtain ⟨ds, hds, hfold⟩ := Option.map_eq_some_iff.mp hvalue
  rw [hds, Option.map_some, hfold]

theorem takeEscaped_paddedHex {c : Char} (h : c.toNat < 32) (rest : RawText) :
    takeEscaped (ofChars (Text.paddedHex 4 c.toNat).toList ++ rest) = some (.char c, rest) := by
  have hhigh : ¬ (0xD800 ≤ c.toNat ∧ c.toNat < 0xDC00) := by omega
  have hunit : CodePoint.ofUnit c.toNat = .char c := by
    have hbelow : ¬ (Text.firstSurrogate ≤ c.toNat ∧ c.toNat - Text.firstSurrogate < 0x800) := by
      unfold Text.firstSurrogate
      omega
    rw [CodePoint.ofUnit, dif_neg hbelow, Char.ofNat_toNat]
  unfold takeEscaped
  rw [takeUnit_paddedHex h]
  simp only [Option.bind_eq_bind, Option.bind_some]
  rw [if_neg hhigh, hunit]

/-- A character stands for itself, or it is escaped: by a letter of its own or by its number. -/
inductive Escaped (c : Char) : Prop
  | letter {d : Char} (hunit : d ≠ 'u') (hd : simpleEscape? d = some c)
      (htext : escapeChar c = ['\\', d])
  | number (hcontrol : c.toNat < 32)
      (htext : escapeChar c = '\\' :: 'u' :: (Text.paddedHex 4 c.toNat).toList)
  | itself (hquote : c ≠ '"') (hslash : c ≠ '\\') (hplain : ¬ c.toNat < 32)
      (htext : escapeChar c = [c])

theorem escaped (c : Char) : Escaped c := by
  have eq_of_toNat : ∀ n, (c.toNat == n) = true → c = Char.ofNat n := by
    intro n h
    rw [← Char.ofNat_toNat c, eq_of_beq h]
  by_cases hquote : c = '"'
  · exact hquote ▸ .letter (d := '"') (by decide) rfl rfl
  · by_cases hslash : c = '\\'
    · exact hslash ▸ .letter (d := '\\') (by decide) rfl rfl
    · by_cases hcontrol : c.toNat < 32
      · by_cases hletter : c = '\n' ∨ c = '\r' ∨ c = '\t' ∨ c = Char.ofNat 8 ∨ c = Char.ofNat 12
        · rcases hletter with rfl | rfl | rfl | rfl | rfl
          · exact .letter (d := 'n') (by decide) rfl rfl
          · exact .letter (d := 'r') (by decide) rfl rfl
          · exact .letter (d := 't') (by decide) rfl rfl
          · exact .letter (d := 'b') (by decide) rfl rfl
          · exact .letter (d := 'f') (by decide) rfl rfl
        · simp only [not_or] at hletter
          obtain ⟨hn, hr, ht, hb, hf⟩ := hletter
          have hbell : (c.toNat == 8) = false := Bool.eq_false_iff.mpr fun h => hb (eq_of_toNat 8 h)
          have hfeed : (c.toNat == 12) = false :=
            Bool.eq_false_iff.mpr fun h => hf (eq_of_toNat 12 h)
          refine .number hcontrol ?_
          simp [escapeChar, hquote, hslash, hn, hr, ht, hbell, hfeed, hcontrol]
      · have hlarge : ∀ d : Char, d.toNat < 32 → c ≠ d := fun d hd hc => hcontrol (hc ▸ hd)
        refine .itself hquote hslash hcontrol ?_
        simp [escapeChar, hquote, hslash, hcontrol, hlarge '\n' (by decide),
          hlarge '\r' (by decide), hlarge '\t' (by decide), show c.toNat ≠ 8 by omega,
          show c.toNat ≠ 12 by omega]

/-- What stands for one code point is read as that code point. -/
theorem takeText_escape (p : CodePoint) (read : RawText) (fuel : Nat) (rest : RawText) :
    takeText read (fuel + 1) (escape p ++ rest) = takeText (p :: read) fuel rest := by
  cases p with
  | surrogate offset => rfl
  | char c =>
    cases escaped c with
    | letter hunit hd htext =>
      -- `hunit` rules out the branch of numbers.
      simp [escape, htext, takeText, hd]
    | number hcontrol htext =>
      simp [escape, htext, takeText, takeEscaped_paddedHex hcontrol]
    | itself hquote hslash hplain htext =>
      simp [escape, htext, takeText, hquote, hslash, hplain]

theorem takeText_escaped (s read : RawText) {fuel : Nat} (hfuel : s.length < fuel)
    (rest : RawText) :
    takeText read fuel (s.flatMap escape ++ .char '"' :: rest) =
      some (read.reverse ++ s, rest) := by
  induction s generalizing read fuel with
  | nil =>
    obtain ⟨fuel, rfl⟩ : ∃ more, fuel = more + 1 := ⟨fuel - 1, by simp at hfuel; omega⟩
    simp [takeText]
  | cons p s ih =>
    rw [List.length_cons] at hfuel
    obtain ⟨fuel, rfl⟩ : ∃ more, fuel = more + 1 := ⟨fuel - 1, by omega⟩
    rw [List.flatMap_cons, List.append_assoc, takeText_escape, ih _ (by omega)]
    simp

theorem length_escape_pos (p : CodePoint) : 0 < (escape p).length := by
  cases p with
  | surrogate offset => exact Nat.one_pos
  | char c =>
    cases escaped c with
    | letter hunit hd htext => simp [escape, htext]
    | number hcontrol htext => simp [escape, htext]
    | itself hquote hslash hplain htext => simp [escape, htext]

theorem length_le_escaped (s : RawText) : s.length ≤ (s.flatMap escape).length := by
  induction s with
  | nil => simp
  | cons p s ih =>
    have hpos := length_escape_pos p
    rw [List.length_cons, List.flatMap_cons, List.length_append]
    omega

/-- A quoted text is read back, whatever follows it. -/
theorem takeText_quoted (s : RawText) {fuel : Nat} (rest : RawText)
    (hfuel : (s.flatMap escape).length < fuel) :
    takeText [] fuel (s.flatMap escape ++ .char '"' :: rest) = some (s, rest) :=
  takeText_escaped s [] (Nat.lt_of_le_of_lt (length_le_escaped s) hfuel) rest

end VisualNovel.Data.Json
