import Mathlib.Algebra.GroupWithZero.Nat
import VisualNovel.Text.Digits

/-!
Numerals: digits that spell a natural number. What is printed as a number spells it, also with
zeros in front, and a reader that takes digits as long as there are any takes exactly these.
-/
namespace VisualNovel.Text

/-- Plain digits that spell a number. -/
structure Spells (digits : List Char) (n : Nat) : Prop where
  plain : ∀ c ∈ digits, isAsciiDigit c = true
  value : digitsToNat digits = n

theorem isAsciiDigit_eq (c : Char) : isAsciiDigit c = c.isDigit := by
  unfold isAsciiDigit asciiDigit?
  by_cases h : '0' ≤ c ∧ c ≤ '9'
  · rw [if_pos h]
    exact (Char.isDigit_iff_toNat.mpr h).symm
  · rw [if_neg h]
    exact (Bool.eq_false_iff.mpr fun hdigit => h (Char.isDigit_iff_toNat.mp hdigit)).symm

theorem digitsToNat_eq (digits : List Char) :
    digitsToNat digits = Nat.ofDigitChars 10 digits 0 := by
  unfold digitsToNat
  rw [Nat.ofDigitChars_eq_foldl]
  congr 1
  funext n c
  rw [Nat.mul_comm]
  rfl

theorem digitsToNat_append (a b : List Char) :
    digitsToNat (a ++ b) = digitsToNat a * 10 ^ b.length + digitsToNat b := by
  simp only [digitsToNat_eq]
  rw [Nat.ofDigitChars_append, Nat.ofDigitChars_eq_ofDigitChars_zero, Nat.mul_comm]

theorem spells_toString (n : Nat) : Spells (toString n).toList n where
  plain := by
    intro c hc
    have hdigit : c ∈ Nat.toDigits 10 n := by simpa using hc
    rw [isAsciiDigit_eq]
    exact Nat.isDigit_of_mem_toDigits (by decide) (by decide) hdigit
  value := by
    rw [digitsToNat_eq]
    simp

theorem spells_zeros (count : Nat) : Spells (List.replicate count '0') 0 where
  plain := by
    intro c hc
    rw [List.eq_of_mem_replicate hc]
    rfl
  value := by
    rw [digitsToNat_eq]
    simp

theorem Spells.append {a b : List Char} {m n : Nat} (ha : Spells a m) (hb : Spells b n) :
    Spells (a ++ b) (m * 10 ^ b.length + n) where
  plain := by
    intro c hc
    exact (List.mem_append.mp hc).elim (ha.plain c) (hb.plain c)
  value := by rw [digitsToNat_append, ha.value, hb.value]

theorem Spells.zeros_append {digits : List Char} {n : Nat} (h : Spells digits n) (count : Nat) :
    Spells (List.replicate count '0' ++ digits) n := by
  simpa using (spells_zeros count).append h

theorem toString_inj {m n : Nat} (h : toString m = toString n) : m = n := by
  rw [← (spells_toString m).value, h, (spells_toString n).value]

theorem toString_ne_nil (n : Nat) : (toString n).toList ≠ [] := by simp

/-- A number starts with a zero only if it is zero. -/
theorem head?_toString {n : Nat} (h : n ≠ 0) : (toString n).toList.head? ≠ some '0' := by
  induction n using Nat.strongRecOn with
  | _ n ih =>
    rw [Nat.toString_eq_repr, Nat.toList_repr, Nat.toDigits_eq_if (by decide)]
    split
    · simpa using h
    · next hbig =>
      have hrest := ih (n / 10) (by omega) (by omega)
      rw [Nat.toString_eq_repr, Nat.toList_repr] at hrest
      rw [List.head?_append, Option.or_of_isSome (by simp)]
      exact hrest

theorem length_toString_le_iff {n k : Nat} (hk : 0 < k) :
    (toString n).length ≤ k ↔ n < 10 ^ k := Nat.length_repr_le_iff hk

theorem length_toString_pos (n : Nat) : 0 < (toString n).length := Nat.length_repr_pos

theorem lt_pow_length_toString (n : Nat) : n < 10 ^ (toString n).length :=
  (length_toString_le_iff (length_toString_pos n)).mp (Nat.le_refl _)

theorem pow_length_toString_le {n : Nat} (hn : n ≠ 0) : 10 ^ ((toString n).length - 1) ≤ n := by
  have hlength := length_toString_pos n
  by_cases hone : (toString n).length = 1
  · rw [hone]
    exact Nat.pos_of_ne_zero hn
  · refine Nat.le_of_not_lt fun hlt => ?_
    have hfits := (length_toString_le_iff (by omega)).mpr hlt
    omega

section Runs
variable {digits rest : List Char}

theorem takeWhile_digits (h : ∀ c ∈ digits, isAsciiDigit c = true)
    (hrest : ∀ c ∈ rest.head?, isAsciiDigit c = false) :
    (digits ++ rest).takeWhile isAsciiDigit = digits := by
  rw [List.takeWhile_append_of_pos h]
  cases rest with
  | nil => simp
  | cons c more => simp [hrest c (by simp)]

theorem dropWhile_digits (h : ∀ c ∈ digits, isAsciiDigit c = true)
    (hrest : ∀ c ∈ rest.head?, isAsciiDigit c = false) :
    (digits ++ rest).dropWhile isAsciiDigit = rest := by
  rw [List.dropWhile_append_of_pos h]
  cases rest with
  | nil => simp
  | cons c more => simp [hrest c (by simp)]

end Runs

theorem spells_padded (width n : Nat) : Spells (padded width n).toList n := by
  unfold padded
  rw [String.toList_append, String.toList_ofList]
  exact (spells_toString n).zeros_append _

theorem length_padded {width n : Nat} (h : n < 10 ^ width) (hwidth : 0 < width) :
    (padded width n).toList.length = width := by
  have hfits := (length_toString_le_iff hwidth).mpr h
  unfold padded
  rw [String.toList_append, String.toList_ofList, List.length_append, List.length_replicate,
    String.length_toList]
  omega

end VisualNovel.Text
