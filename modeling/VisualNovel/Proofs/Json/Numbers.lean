import VisualNovel.Data.Json.Reader
import VisualNovel.Proofs.Text.Numerals

/-!
Numbers in a JSON text. Digits alone are a whole number; with a point or an exponent they are a
float, which is the one nearest to what they spell. A number ends where a delimiter follows.
-/
namespace VisualNovel.Data.Json

open Text

/-- What may follow a value: the end, or a character that no number goes on with. -/
inductive Delimited : List Char → Prop
  | nil : Delimited []
  | cons {c : Char} {rest : List Char} (h : c = ',' ∨ c = ']' ∨ c = '\x7d') :
      Delimited (c :: rest)
  | blank {c : Char} {rest : List Char} (h : isSpace c = true) : Delimited (c :: rest)

theorem isSpace_iff (c : Char) : isSpace c = true ↔ c = ' ' ∨ c = '\t' ∨ c = '\n' ∨ c = '\r' := by
  simp [isSpace, or_assoc]

namespace Delimited

variable {rest : List Char}

theorem head_not_digit (h : Delimited rest) : ∀ c ∈ rest.head?, isAsciiDigit c = false := by
  cases h with
  | nil => simp
  | cons h => rcases h with rfl | rfl | rfl <;> simp <;> decide
  | blank h => rcases (isSpace_iff _).mp h with rfl | rfl | rfl | rfl <;> simp <;> decide

theorem takeFraction (h : Delimited rest) : takeFraction rest = ([], rest) := by
  cases h with
  | nil => rfl
  | cons h => rcases h with rfl | rfl | rfl <;> rfl
  | blank h => rcases (isSpace_iff _).mp h with rfl | rfl | rfl | rfl <;> rfl

theorem takeExponent (h : Delimited rest) : takeExponent rest = none := by
  cases h with
  | nil => rfl
  | cons h => rcases h with rfl | rfl | rfl <;> rfl
  | blank h => rcases (isSpace_iff _).mp h with rfl | rfl | rfl | rfl <;> rfl

end Delimited

/-- Digits before a point: a lone zero, or digits that start with another one. -/
structure Leads (digits : List Char) : Prop where
  plain : ∀ c ∈ digits, isAsciiDigit c = true
  ne_nil : digits ≠ []
  head : digits.head? = some '0' → digits = ['0']

theorem leads_toString (n : Nat) : Leads (toString n).toList where
  plain := (spells_toString n).plain
  ne_nil := toString_ne_nil n
  head := by
    intro hhead
    by_cases hzero : n = 0
    · rw [hzero]
      rfl
    · exact absurd hhead (head?_toString hzero)

theorem Leads.takeWhole {digits rest : List Char} (h : Leads digits)
    (hrest : ∀ c ∈ rest.head?, isAsciiDigit c = false) :
    takeWhole (digits ++ rest) = some (digits, rest) := by
  obtain ⟨c, more, rfl⟩ := List.exists_cons_of_ne_nil h.ne_nil
  by_cases hzero : c = '0'
  · subst hzero
    rw [h.head rfl]
    rfl
  · have hdigit : isAsciiDigit c = true := h.plain c List.mem_cons_self
    have hmore : ∀ d ∈ more, isAsciiDigit d = true := fun d hd =>
      h.plain d (List.mem_cons_of_mem c hd)
    rw [List.cons_append]
    simp [Json.takeWhole, hdigit, takeWhile_digits hmore hrest, dropWhile_digits hmore hrest]

theorem takeFraction_point {digits rest : List Char} (h : ∀ c ∈ digits, isAsciiDigit c = true)
    (hne : digits ≠ []) (hrest : ∀ c ∈ rest.head?, isAsciiDigit c = false) :
    takeFraction ('.' :: (digits ++ rest)) = (digits, rest) := by
  simp [takeFraction, takeWhile_digits h hrest, dropWhile_digits h hrest, hne]

theorem takeExponent_sign {digits rest : List Char} {n : Nat} (h : Spells digits n)
    (hne : digits ≠ []) (hrest : ∀ c ∈ rest.head?, isAsciiDigit c = false) (negative : Bool) :
    takeExponent ('e' :: (if negative then '-' else '+') :: (digits ++ rest)) =
      some (if negative then -(n : Int) else n, rest) := by
  cases negative <;>
    simp [takeExponent, takeWhile_digits h.plain hrest, dropWhile_digits h.plain hrest, hne,
      h.value]

/-- A number after its sign. -/
def takeUnsigned (negative : Bool) (cs : List Char) : Option (Json × List Char) := do
  let (whole, cs) ← takeWhole cs
  let (fraction, cs) := takeFraction cs
  match takeExponent cs with
  | some (exponent, cs) =>
      some (.float (Decimal.toFloat negative (digitsToNat (whole ++ fraction))
        (exponent - fraction.length)), cs)
  | none =>
      if fraction.isEmpty then
        let n : Int := digitsToNat whole
        some (.int (if negative then -n else n), cs)
      else
        some (.float (Decimal.toFloat negative (digitsToNat (whole ++ fraction))
          (-fraction.length)), cs)

def signed (negative : Bool) (cs : List Char) : List Char := if negative then '-' :: cs else cs

theorem takeNumber_signed {digits : List Char} (h : Leads digits) (negative : Bool)
    (rest : List Char) :
    takeNumber (signed negative (digits ++ rest)) = takeUnsigned negative (digits ++ rest) := by
  obtain ⟨c, more, rfl⟩ := List.exists_cons_of_ne_nil h.ne_nil
  cases negative with
  | true => rfl
  | false =>
    have hminus : c ≠ '-' := by
      intro hc
      have hdigit := h.plain c List.mem_cons_self
      rw [hc] at hdigit
      exact absurd hdigit (by decide)
    rw [signed, if_neg (by decide), List.cons_append, takeNumber]
    · rfl
    · exact fun _ hcs => hminus (List.cons.inj hcs).1

theorem skipWord_of_head_ne {word : String} {letter c : Char} (rest : List Char)
    (hword : word.toList.head? = some letter) (h : c ≠ letter) :
    skipWord word (c :: rest) = none := by
  obtain ⟨letters, hletters⟩ : ∃ letters, word.toList = letter :: letters :=
    List.head?_eq_some_iff.mp hword
  simp [skipWord, hletters, List.isPrefixOf, Ne.symm h]

theorem nodup_heads : (words.map fun w => w.1.toList.head?).Nodup := by decide

theorem head_of_words : ∀ w ∈ words.map Prod.fst, w.toList.head?.isSome := by decide

theorem takeWord_append {word : String} {value : Json} (h : (word, value) ∈ words)
    (rest : List Char) : takeWord (word.toList ++ rest) = some (value, rest) := by
  have head : ∀ w ∈ words, ∃ c, w.1.toList.head? = some c := fun w hw =>
    Option.isSome_iff_exists.mp (head_of_words w.1 (List.mem_map_of_mem hw))
  obtain ⟨c, hc⟩ := head _ h
  obtain ⟨letters, hletters⟩ := List.head?_eq_some_iff.mp hc
  obtain ⟨before, after, hwords⟩ := List.append_of_mem h
  have hself : skipWord word (word.toList ++ rest) = some rest := by simp [skipWord]
  have hbefore : ∀ w ∈ before, skipWord w.1 (word.toList ++ rest) = none := by
    intro w hw
    obtain ⟨d, hd⟩ := head w (hwords ▸ List.mem_append_left _ hw)
    have hnodup := nodup_heads
    rw [hwords, List.map_append, List.nodup_append] at hnodup
    have hne := hnodup.2.2 _ (List.mem_map_of_mem hw) _ (List.mem_map_of_mem List.mem_cons_self)
    rw [show word.toList = c :: letters from hletters, List.cons_append]
    refine skipWord_of_head_ne _ hd ?_
    rintro rfl
    exact hne (hd.trans hc.symm)
  rw [takeWord, hwords, List.findSome?_append, List.findSome?_eq_none_iff.mpr]
  · simp [hself]
  · intro w hw
    simp [hbefore w hw]

theorem takeWord_signed {digits : List Char} (h : Leads digits) (negative : Bool)
    (rest : List Char) : takeWord (signed negative (digits ++ rest)) = none := by
  obtain ⟨c, more, rfl⟩ := List.exists_cons_of_ne_nil h.ne_nil
  have hdigit : isAsciiDigit c = true := h.plain c List.mem_cons_self
  have hletter : ∀ d, isAsciiDigit d = false → c ≠ d := by
    rintro d hd rfl
    rw [hdigit] at hd
    cases hd
  have hinfinity : skipWord "-Infinity" ('-' :: c :: (more ++ rest)) = none := by
    have hletters : "-Infinity".toList = '-' :: 'I' :: "nfinity".toList := rfl
    simp [skipWord, hletters, List.isPrefixOf, Ne.symm (hletter 'I' rfl)]
  refine List.findSome?_eq_none_iff.mpr ?_
  intro word hword
  rw [Option.map_eq_none_iff]
  simp only [words, List.mem_cons, List.not_mem_nil, or_false] at hword
  cases negative with
  | true =>
    rcases hword with rfl | rfl | rfl | rfl | rfl | rfl
    case inr.inr.inr.inr.inr => exact hinfinity
    all_goals exact skipWord_of_head_ne _ rfl (by decide)
  | false =>
    rcases hword with rfl | rfl | rfl | rfl | rfl | rfl <;>
      exact skipWord_of_head_ne _ rfl (hletter _ rfl)

theorem takeNumber_whole {digits rest : List Char} {n : Nat} (hleads : Leads digits)
    (hvalue : Spells digits n) (hrest : Delimited rest) (negative : Bool) :
    takeNumber (signed negative (digits ++ rest)) =
      some (.int (if negative then -(n : Int) else n), rest) := by
  rw [takeNumber_signed hleads, takeUnsigned, hleads.takeWhole hrest.head_not_digit]
  simp [hrest.takeFraction, hrest.takeExponent, hvalue.value]

theorem takeNumber_point {whole fraction rest : List Char} {n : Nat} (hleads : Leads whole)
    (hfraction : fraction ≠ []) (hvalue : Spells (whole ++ fraction) n) (hrest : Delimited rest)
    (negative : Bool) :
    takeNumber (signed negative (whole ++ '.' :: (fraction ++ rest))) =
      some (.float (Decimal.toFloat negative n (-fraction.length)), rest) := by
  have hplain : ∀ c ∈ fraction, isAsciiDigit c = true := fun c hc =>
    hvalue.plain c (List.mem_append_right whole hc)
  rw [takeNumber_signed hleads, takeUnsigned, hleads.takeWhole (by simp; decide)]
  simp [takeFraction_point hplain hfraction hrest.head_not_digit, hrest.takeExponent, hfraction,
    hvalue.value]

def pointed (fraction : List Char) : List Char := if fraction.isEmpty then [] else '.' :: fraction

theorem takeNumber_scientific {whole fraction power rest : List Char} {n m : Nat}
    (hleads : Leads whole) (hvalue : Spells (whole ++ fraction) n) (hpower : Spells power m)
    (hne : power ≠ []) (hrest : Delimited rest) (negative down : Bool) :
    takeNumber (signed negative (whole ++ (pointed fraction ++
        'e' :: (if down then '-' else '+') :: (power ++ rest)))) =
      some (.float (Decimal.toFloat negative n
        ((if down then -(m : Int) else m) - fraction.length)), rest) := by
  have hplain : ∀ c ∈ fraction, isAsciiDigit c = true := fun c hc =>
    hvalue.plain c (List.mem_append_right whole hc)
  have hexponent := takeExponent_sign hpower hne hrest.head_not_digit down
  rw [takeNumber_signed hleads, takeUnsigned]
  by_cases hfraction : fraction = []
  · subst hfraction
    rw [List.append_nil] at hvalue
    have hpoint : ∀ cs, takeFraction ('e' :: cs) = ([], 'e' :: cs) := fun _ => rfl
    rw [hleads.takeWhole (by simp [pointed]; decide)]
    simp [pointed, hpoint, hexponent, hvalue.value]
  · have hpointed : pointed fraction = '.' :: fraction := by simp [pointed, hfraction]
    have hletter : ∀ cs : List Char, ∀ c ∈ ('e' :: cs).head?, isAsciiDigit c = false := by
      simp
      decide
    rw [hpointed, hleads.takeWhole (by simp; decide), List.cons_append]
    simp [takeFraction_point hplain hfraction (hletter _), hexponent, hvalue.value]

theorem toString_int (n : Int) :
    (toString n).toList = signed (n < 0) (toString n.natAbs).toList := by
  cases n with
  | ofNat n => simp [signed, toString, Int.repr]
  | negSucc n => simp [signed, toString, Int.repr]

theorem takeNumber_int (n : Int) {rest : List Char} (hrest : Delimited rest) :
    takeNumber ((toString n).toList ++ rest) = some (.int n, rest) := by
  have hread := takeNumber_whole (leads_toString n.natAbs) (spells_toString n.natAbs) hrest
    (decide (n < 0))
  have hsigned : (toString n).toList ++ rest =
      signed (n < 0) ((toString n.natAbs).toList ++ rest) := by
    rw [toString_int]
    unfold signed
    split <;> rfl
  rw [hsigned, hread]
  by_cases hn : n < 0
  · simp only [hn, decide_true, if_true]
    congr 3
    omega
  · simp only [hn, decide_false, Bool.false_eq_true, if_false]
    congr 3
    omega

end VisualNovel.Data.Json
