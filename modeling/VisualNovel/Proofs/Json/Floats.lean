import VisualNovel.Data.Json.Writer
import VisualNovel.Proofs.Decimal.Reading
import VisualNovel.Proofs.Decimal.Shortest
import VisualNovel.Proofs.Json.Numbers

/-!
Floats in a JSON text. The digits are written with a point or with an exponent, and in every form
they are read as the same decimal number. That number rounds to the float it was written for.
-/
namespace VisualNovel.Data.Json

open Decimal Text

/-- A text without a sign that is read as a decimal number. -/
def ReadsDecimal (cs : List Char) (q : ℚ) : Prop :=
  ∀ (negative : Bool) (rest : List Char), Delimited rest →
    takeWord (signed negative (cs ++ rest)) = none ∧
      ∃ (digits : ℕ) (exponent : ℤ), digits * 10 ^ exponent = q ∧
        takeNumber (signed negative (cs ++ rest)) =
          some (.float (toFloat negative digits exponent), rest)

section Forms

variable {whole fraction power : List Char} {n m : ℕ}

theorem readsDecimal_point (hleads : Leads whole) (hne : fraction ≠ [])
    (hvalue : Spells (whole ++ fraction) n) :
    ReadsDecimal (whole ++ '.' :: fraction) (n * 10 ^ (-fraction.length : ℤ)) := by
  intro negative rest hrest
  rw [List.append_assoc, List.cons_append]
  exact ⟨takeWord_signed hleads negative _, n, _, rfl,
    takeNumber_point hleads hne hvalue hrest negative⟩

theorem readsDecimal_scientific (hleads : Leads whole) (hvalue : Spells (whole ++ fraction) n)
    (hpower : Spells power m) (hne : power ≠ []) (down : Bool) :
    ReadsDecimal (whole ++ (pointed fraction ++ 'e' :: (if down then '-' else '+') :: power))
      (n * 10 ^ ((if down then -(m : ℤ) else m) - fraction.length)) := by
  intro negative rest hrest
  rw [List.append_assoc, List.append_assoc, List.cons_append, List.cons_append]
  exact ⟨takeWord_signed hleads negative _, n, _, rfl,
    takeNumber_scientific hleads hvalue hpower hne hrest negative down⟩

end Forms

section Leads

variable {a b : List Char}

theorem Leads.of_append (h : Leads (a ++ b)) (hne : a ≠ []) : Leads a where
  plain := fun c hc => h.plain c (List.mem_append_left b hc)
  ne_nil := hne
  head := by
    intro hhead
    have hwhole := h.head (by rw [List.head?_append, hhead, Option.some_or])
    obtain ⟨c, more, rfl⟩ := List.exists_cons_of_ne_nil hne
    obtain ⟨rfl, hmore⟩ := List.cons.inj hwhole
    rw [(List.append_eq_nil_iff.mp hmore).1]

theorem Leads.append_zeros (h : Leads a) (hhead : a.head? ≠ some '0') (count : ℕ) :
    Leads (a ++ List.replicate count '0') where
  plain := fun c hc => (List.mem_append.mp hc).elim (h.plain c) ((spells_zeros count).plain c)
  ne_nil := List.append_ne_nil_of_left_ne_nil h.ne_nil _
  head := by
    intro hzero
    rw [List.head?_append_of_ne_nil _ h.ne_nil] at hzero
    exact absurd hzero hhead

theorem leads_zero : Leads ['0'] := leads_toString 0

end Leads

section Positional

variable {digits : List Char} {n : ℕ} {places : ℤ}

theorem readsDecimal_small (hleads : Leads digits) (hspells : Spells digits n)
    (hplaces : places ≤ 0) :
    ReadsDecimal ('0' :: '.' :: (List.replicate (-places).toNat '0' ++ digits))
      (n * 10 ^ (places - digits.length)) := by
  have hexponent : places - digits.length =
      -((List.replicate (-places).toNat '0' ++ digits).length : ℤ) := by
    rw [List.length_append, List.length_replicate]
    omega
  rw [hexponent]
  exact readsDecimal_point leads_zero (List.append_ne_nil_of_right_ne_nil _ hleads.ne_nil)
    ((hspells.zeros_append _).zeros_append 1)

theorem readsDecimal_whole {count : ℕ} (hleads : Leads (digits ++ List.replicate count '0'))
    (hspells : Spells digits n) (hcount : places = digits.length + count) :
    ReadsDecimal (digits ++ List.replicate count '0' ++ ['.', '0'])
      (n * 10 ^ (places - digits.length)) := by
  have hspells' : Spells (digits ++ List.replicate count '0' ++ ['0']) (n * 10 ^ (count + 1)) := by
    have hzeros := hspells.append (spells_zeros (count + 1))
    rwa [List.length_replicate, Nat.add_zero, List.replicate_succ', ← List.append_assoc] at hzeros
  have hvalue : ((n * 10 ^ (count + 1) : ℕ) : ℚ) * 10 ^ (-(['0'].length : ℤ)) =
      n * 10 ^ (places - digits.length) := by
    rw [show places - digits.length = (count : ℤ) by omega, zpow_natCast, List.length_singleton]
    push_cast
    rw [zpow_neg, zpow_one, pow_succ]
    ring
  rw [← hvalue]
  exact readsDecimal_point hleads (List.cons_ne_nil _ _) hspells'

/-- The point stands among the digits. -/
theorem readsDecimal_between {count : ℕ} (hleads : Leads digits) (hspells : Spells digits n)
    (hpos : 0 < count) (hcount : count < digits.length) :
    ReadsDecimal (digits.take count ++ '.' :: digits.drop count)
      (n * 10 ^ ((count : ℤ) - digits.length)) := by
  have hsplit := List.take_append_drop count digits
  rw [← hsplit] at hleads hspells
  have hwhole : digits.take count ≠ [] := by
    rw [← List.length_pos_iff, List.length_take]
    omega
  have hfraction : digits.drop count ≠ [] := by
    rw [← List.length_pos_iff, List.length_drop]
    omega
  have hexponent : (count : ℤ) - digits.length = -((digits.drop count).length : ℤ) := by
    rw [List.length_drop]
    omega
  rw [hexponent]
  exact readsDecimal_point (hleads.of_append hwhole) hfraction hspells

end Positional

theorem readsDecimal_positional {n : ℕ} {places : ℤ} (hzero : n = 0 → places ≤ 1) :
    ReadsDecimal (positional (toString n).toList places)
      (n * 10 ^ (places - (toString n).toList.length)) := by
  have hleads := leads_toString n
  have hspells := spells_toString n
  have hlength := List.length_pos_iff.mpr hleads.ne_nil
  unfold positional
  split
  · next hsmall => exact readsDecimal_small hleads hspells hsmall
  · next hlarge =>
    simp only
    split
    · next hwhole =>
      refine readsDecimal_whole ?_ hspells (by omega)
      by_cases hn : n = 0
      · have hplaces := hzero hn
        rw [show places.toNat - (toString n).toList.length = 0 by omega, List.replicate_zero,
          List.append_nil]
        exact hleads
      · exact hleads.append_zeros (head?_toString hn) _
    · next hbetween =>
      have hplaces : places = (places.toNat : ℤ) := by omega
      rw [show places - (toString n).toList.length =
        (places.toNat : ℤ) - (toString n).toList.length by omega]
      exact readsDecimal_between hleads hspells (by omega) (by omega)

/-- One digit stands before the point. -/
theorem readsDecimal_exponent (style : FloatStyle) (n : ℕ) (lead : ℤ) :
    ReadsDecimal (scientific style (toString n).toList lead)
      (n * 10 ^ (lead - ((toString n).toList.length - 1))) := by
  have hleads := leads_toString n
  have hspells := spells_toString n
  generalize (toString n).toList = digits at *
  obtain ⟨d, more, rfl⟩ := List.exists_cons_of_ne_nil hleads.ne_nil
  have htext : scientific style (d :: more) lead =
      [d] ++ (pointed more ++ 'e' :: (if decide (lead < 0) then '-' else '+') ::
        (List.replicate (style.exponentDigits - (toString lead.natAbs).toList.length) '0' ++
          (toString lead.natAbs).toList)) := by
    unfold scientific
    cases more <;> simp [pointed]
  have hexponent : lead - (((d :: more).length : ℤ) - 1) =
      (if decide (lead < 0) then -(lead.natAbs : ℤ) else lead.natAbs) - more.length := by
    rw [List.length_cons]
    by_cases hlead : lead < 0
    · simp only [hlead, decide_true, if_true]
      omega
    · simp only [hlead, decide_false, Bool.false_eq_true, if_false]
      omega
  rw [htext, hexponent]
  exact readsDecimal_scientific (Leads.of_append (b := more) hleads (List.cons_ne_nil d []))
    hspells ((spells_toString _).zeros_append _)
    (List.append_ne_nil_of_right_ne_nil _ (toString_ne_nil _)) _

theorem readsDecimal_text (s : Scaled) (hzero : s.digits = 0 → s.exponent = 0)
    (style : FloatStyle) : ReadsDecimal (s.text style) s.value := by
  have hlength : s.digits = 0 → (toString s.digits).toList.length = 1 := by
    intro h
    rw [h]
    rfl
  unfold Scaled.text Scaled.value
  simp only
  generalize hcount : (toString s.digits).toList.length = count at *
  split
  · have hpositional := @readsDecimal_positional s.digits (s.exponent + count - 1 + 1)
      fun h => by
        have hexponent := hzero h
        have hone := hlength h
        omega
    rwa [hcount, show s.exponent + count - 1 + 1 - (count : ℤ) = s.exponent by omega] at hpositional
  · have hexponent := readsDecimal_exponent style s.digits (s.exponent + count - 1)
    rwa [hcount, show s.exponent + count - 1 - ((count : ℤ) - 1) = s.exponent by omega] at hexponent

theorem takeScalar_word {word : String} {x y : Float} {rest : List Char}
    (h : (word, Json.float y) ∈ words) (hclass : classify x = classify y) :
    takeScalar (word.toList ++ rest) = some (.float x, rest) := by
  rw [takeScalar, takeWord_append h, classify_injective hclass]
  rfl

/-- A float that is written is read as the same float. -/
theorem takeScalar_float (x : Float) {rest : List Char} (hrest : Delimited rest) :
    takeScalar ((Decimal.floatText floatStyle x).toList ++ rest) = some (.float x, rest) := by
  unfold floatText
  cases hx : classify x with
  | notANumber =>
    exact takeScalar_word (List.mem_of_getElem? (i := 3) rfl) (hx.trans (by decide +kernel))
  | infinite negative =>
    cases negative with
    | false =>
      exact takeScalar_word (List.mem_of_getElem? (i := 4) rfl) (hx.trans (by decide +kernel))
    | true =>
      exact takeScalar_word (List.mem_of_getElem? (i := 5) rfl) (hx.trans (by decide +kernel))
  | finite negative b =>
    obtain ⟨hcanonical, hlargest⟩ := canonical_of_classify hx
    have hrounds := roundsTo_shortest hcanonical.fits
    obtain ⟨hword, digits, exponent, hvalue, hnumber⟩ := readsDecimal_text (shortest b)
      (shortest_of_zero hcanonical.fits) floatStyle negative rest hrest
    have hsame : toFloat negative digits exponent = x := by
      rw [← hvalue] at hrounds
      exact classify_injective
        ((classify_toFloat negative hcanonical hlargest hrounds).trans hx.symm)
    have htext : (if negative = true then "-" ++ String.ofList ((shortest b).text floatStyle)
        else String.ofList ((shortest b).text floatStyle)).toList ++ rest =
          signed negative ((shortest b).text floatStyle ++ rest) := by
      cases negative <;> simp [signed]
    simp only [htext, takeScalar, hword, hnumber, hsame]
    rfl

end VisualNovel.Data.Json
