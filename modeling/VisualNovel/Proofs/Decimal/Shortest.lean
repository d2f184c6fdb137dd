import Mathlib.Data.Nat.Cast.Order.Field
import Mathlib.Tactic.FieldSimp
import Mathlib.Tactic.NormNum
import VisualNovel.Decimal.Shortest
import VisualNovel.Proofs.Decimal.Nearest
import VisualNovel.Proofs.Text.Numerals

/-!
The shortest decimal of a fraction rounds to the fraction. Whatever the search finds is in the
interval of the numbers that do, and with seventeen digits it always finds something: a step of the
grid is then smaller than the interval is wide.
-/
namespace VisualNovel.Decimal

open Text

def Scaled.value (s : Scaled) : ℚ := s.digits * 10 ^ s.exponent

def Interval.Holds (i : Interval) (x : ℚ) : Prop :=
  i.low * 2 ^ i.exponent < x ∧ x < i.high * 2 ^ i.exponent ∨
    i.closed = true ∧ (x = i.low * 2 ^ i.exponent ∨ x = i.high * 2 ^ i.exponent)

section Ends

variable (b : Binary)

theorem interval_high :
    (b.interval.high : ℚ) * 2 ^ b.interval.exponent = (b.significand + 1 / 2) * 2 ^ b.exponent := by
  simp only [Binary.interval]
  rw [zpow_sub₀ two_ne_zero]
  push_cast
  ring

theorem interval_value : (b.interval.value : ℚ) * 2 ^ b.interval.exponent = b.value := by
  simp only [Binary.interval, Binary.value]
  rw [zpow_sub₀ two_ne_zero]
  push_cast
  ring

theorem interval_low (hpos : 0 < b.significand) :
    (b.interval.low : ℚ) * 2 ^ b.interval.exponent =
      (b.significand - if b.significand = 2 ^ 52 ∧ b.exponent ≠ -1074 then 1 / 4 else 1 / 2) *
        2 ^ b.exponent := by
  simp only [Binary.interval, Bool.and_eq_true, beq_iff_eq, bne_iff_ne, Nat.pow_eq]
  rw [zpow_sub₀ two_ne_zero]
  split
  · rw [Nat.cast_sub (by omega)]
    push_cast
    ring
  · rw [Nat.cast_sub (by omega)]
    push_cast
    ring

end Ends

theorem roundsTo_of_holds {b : Binary} (hpos : 0 < b.significand) {x : ℚ}
    (h : b.interval.Holds x) : RoundsTo x b := by
  have hunit := two_zpow_pos b.exponent
  have hclosed : b.interval.closed = true ↔ b.significand % 2 = 0 := by
    simp only [Binary.interval, beq_iff_eq]
  unfold Interval.Holds at h
  rw [interval_high, interval_low b hpos, hclosed] at h
  generalize hgap : (if b.significand = 2 ^ 52 ∧ b.exponent ≠ -1074 then (1 / 4 : ℚ) else 1 / 2) =
    gap at h
  have hgap_bounds : 0 < gap ∧ gap ≤ 1 / 2 := by
    rw [← hgap]
    split <;> norm_num
  have hends : ((b.significand : ℚ) - gap) * 2 ^ b.exponent <
      (b.significand + 1 / 2) * 2 ^ b.exponent :=
    mul_lt_mul_of_pos_right (by linarith [hgap_bounds.1]) hunit
  have hlow : ((b.significand : ℚ) - gap) * 2 ^ b.exponent ≤ x := by
    rcases h with ⟨h, -⟩ | ⟨-, rfl | rfl⟩
    exacts [h.le, le_rfl, hends.le]
  have hhigh : x ≤ (b.significand + 1 / 2) * 2 ^ b.exponent := by
    rcases h with ⟨-, h⟩ | ⟨-, rfl | rfl⟩
    exacts [h.le, hends.le, le_rfl]
  refine ⟨?_, hhigh, ?_, ?_⟩
  · exact (mul_le_mul_of_nonneg_right (by linarith [hgap_bounds.2]) hunit.le).trans hlow
  · rintro (hend | hend)
    · by_cases hdense : b.significand = 2 ^ 52 ∧ b.exponent ≠ -1074
      · omega
      · rw [if_neg hdense] at hgap
        rw [← hgap] at h
        exact (h.resolve_left fun hinside => hinside.1.ne' hend).1
    · exact (h.resolve_left fun hinside => hinside.2.ne hend).1
  · intro hsignificand hexponent
    rw [if_pos ⟨hsignificand, hexponent⟩] at hgap
    rwa [← hgap] at hlow

/-- Both units are multiples of one. -/
theorem commonUnits_eq (binaryExponent k : ℤ) :
    ∃ unit : ℚ, 0 < unit ∧ ((commonUnits binaryExponent k).1 : ℚ) = 2 ^ binaryExponent * unit ∧
      ((commonUnits binaryExponent k).2 : ℚ) = 10 ^ k * unit := by
  have hsplit : ∀ {x : ℚ}, x ≠ 0 → ∀ e : ℤ, x ^ e.toNat = x ^ e * x ^ (-e).toNat := by
    intro x hx e
    rw [← zpow_natCast, ← zpow_natCast, ← zpow_add₀ hx]
    congr 1
    omega
  refine ⟨2 ^ (-binaryExponent).toNat * 10 ^ (-k).toNat, by positivity, ?_, ?_⟩
  · unfold commonUnits
    push_cast [Nat.pow_eq]
    rw [hsplit two_ne_zero binaryExponent]
    ring
  · unfold commonUnits
    push_cast [Nat.pow_eq]
    rw [hsplit (by norm_num : (10 : ℚ) ≠ 0) k]
    ring

namespace Interval

variable {i : Interval} {k : ℤ} {n : ℕ}

/-- Whether a multiple of the step is in the interval. -/
def inside (i : Interval) (units : ℕ × ℕ) (n : ℕ) : Bool :=
  (i.low * units.1 < n * units.2 && n * units.2 < i.high * units.1) ||
    (i.closed && (n * units.2 == i.low * units.1 || n * units.2 == i.high * units.1))

/-- The multiple of the step at or below the exact value. -/
def below (i : Interval) (units : ℕ × ℕ) : ℕ := i.value * units.1 / units.2

theorem onGrid_eq (i : Interval) (k : ℤ) :
    i.onGrid k =
      let units := commonUnits i.exponent k
      let n := i.below units
      match i.inside units n && n != 0, i.inside units (n + 1) with
      | true, true =>
          some (if (n + 1) * units.2 - i.value * units.1 < i.value * units.1 - n * units.2
            then n + 1 else n)
      | true, false => some n
      | false, true => some (n + 1)
      | false, false => none :=
  rfl

theorem inside_iff : i.inside (commonUnits i.exponent k) n = true ↔ i.Holds (n * 10 ^ k) := by
  obtain ⟨unit, hunit, hquarter, hstep⟩ := commonUnits_eq i.exponent k
  have hbound : ∀ a : ℕ,
      ((a * (commonUnits i.exponent k).1 : ℕ) : ℚ) = a * 2 ^ i.exponent * unit := by
    intro a
    rw [Nat.cast_mul, hquarter, mul_assoc]
  have hpoint : ((n * (commonUnits i.exponent k).2 : ℕ) : ℚ) = n * 10 ^ k * unit := by
    rw [Nat.cast_mul, hstep, mul_assoc]
  unfold inside Holds
  simp only [Bool.or_eq_true, Bool.and_eq_true, decide_eq_true_eq, beq_iff_eq]
  rw [← Nat.cast_lt (α := ℚ), ← Nat.cast_lt (α := ℚ), ← Nat.cast_inj (R := ℚ),
    ← Nat.cast_inj (R := ℚ), hbound, hbound, hpoint, mul_lt_mul_iff_left₀ hunit,
    mul_lt_mul_iff_left₀ hunit, mul_left_inj' hunit.ne', mul_left_inj' hunit.ne']

theorem holds_of_onGrid (h : i.onGrid k = some n) : i.Holds (n * 10 ^ k) := by
  rw [← inside_iff]
  rw [onGrid_eq] at h
  simp only at h
  split at h
  · next hbelow habove =>
    rw [Bool.and_eq_true] at hbelow
    obtain rfl := Option.some.inj h
    split
    · exact habove
    · exact hbelow.1
  · next hbelow _ =>
    rw [Bool.and_eq_true] at hbelow
    obtain rfl := Option.some.inj h
    exact hbelow.1
  · next _ habove =>
    obtain rfl := Option.some.inj h
    exact habove
  · cases h

theorem below_bounds (i : Interval) (k : ℤ) :
    (i.below (commonUnits i.exponent k) : ℚ) * 10 ^ k ≤ i.value * 2 ^ i.exponent ∧
      i.value * 2 ^ i.exponent < (i.below (commonUnits i.exponent k) + 1) * (10 : ℚ) ^ k := by
  obtain ⟨unit, hunit, hquarter, hstep⟩ := commonUnits_eq i.exponent k
  have hpos : 0 < (commonUnits i.exponent k).2 := by
    rw [← Nat.cast_pos (α := ℚ), hstep]
    positivity
  unfold below
  generalize commonUnits i.exponent k = units at *
  have hlow : ((i.value * units.1 / units.2 * units.2 : ℕ) : ℚ) ≤ (i.value * units.1 : ℕ) := by
    exact_mod_cast Nat.div_mul_le_self _ _
  have hhigh : ((i.value * units.1 : ℕ) : ℚ) <
      ((i.value * units.1 / units.2 + 1) * units.2 : ℕ) := by
    rw [Nat.cast_lt, Nat.mul_comm _ units.2]
    exact Nat.lt_mul_div_succ _ hpos
  rw [Nat.cast_mul, Nat.cast_mul, hquarter, hstep, ← mul_assoc, ← mul_assoc] at hlow
  rw [Nat.cast_mul, Nat.cast_mul, hquarter, hstep, ← mul_assoc, ← mul_assoc] at hhigh
  exact ⟨le_of_mul_le_mul_right hlow hunit,
    lt_of_mul_lt_mul_right (by exact_mod_cast hhigh) hunit.le⟩

/-- One of the two neighbours is in the interval if half a step does not leave it. -/
theorem onGrid_isSome (hstep : (10 : ℚ) ^ k ≤ i.value * 2 ^ i.exponent)
    (hlow : i.low * 2 ^ i.exponent < i.value * 2 ^ i.exponent - (10 : ℚ) ^ k / 2)
    (hhigh : i.value * 2 ^ i.exponent + (10 : ℚ) ^ k / 2 < i.high * 2 ^ i.exponent) :
    (i.onGrid k).isSome := by
  have hpos : (0 : ℚ) < 10 ^ k := zpow_pos (by norm_num) k
  obtain ⟨hbelow, habove⟩ := i.below_bounds k
  rw [onGrid_eq]
  simp only
  generalize hn : i.below (commonUnits i.exponent k) = n at *
  have hnonzero : n ≠ 0 := by
    rintro rfl
    rw [Nat.cast_zero, zero_add, one_mul] at habove
    exact absurd hstep (not_le.mpr habove)
  rw [add_mul, one_mul] at habove
  rcases le_or_gt (i.value * 2 ^ i.exponent - n * (10 : ℚ) ^ k) (10 ^ k / 2) with hnear | hfar
  · have hinside : i.inside (commonUnits i.exponent k) n = true :=
      inside_iff.mpr (Or.inl ⟨by linarith, by linarith⟩)
    have hchosen : (i.inside (commonUnits i.exponent k) n && n != 0) = true := by
      simp [hinside, hnonzero]
    rw [hchosen]
    split <;> simp_all
  · have hinside : i.inside (commonUnits i.exponent k) (n + 1) = true := by
      refine inside_iff.mpr (Or.inl ⟨?_, ?_⟩) <;>
        rw [Nat.cast_add, Nat.cast_one, add_mul, one_mul] <;> linarith
    rw [hinside]
    split <;> simp_all

/-- The search ends in the interval if one of its grids has a number in it. -/
theorem holds_search {lead : ℤ} (left count : ℕ)
    (h : ∃ c, count ≤ c ∧ c < count + left ∧ (i.onGrid (lead - c + 1)).isSome) :
    i.Holds (i.search lead left count).value := by
  induction left generalizing count with
  | zero =>
    obtain ⟨c, hle, hlt, -⟩ := h
    omega
  | succ left ih =>
    obtain ⟨c, hle, hlt, hsome⟩ := h
    unfold search
    simp only
    split
    · next digits hgrid => exact holds_of_onGrid hgrid
    · next hgrid =>
      have hne : c ≠ count := by
        rintro rfl
        rw [hgrid] at hsome
        cases hsome
      exact ih (count + 1) ⟨c, by omega, by omega, hsome⟩

end Interval

theorem normalise_value (fuel : ℕ) (s : Scaled) : (s.normalise fuel).value = s.value := by
  induction fuel generalizing s with
  | zero => rfl
  | succ fuel ih =>
    unfold Scaled.normalise
    split
    · next hzeros =>
      simp only [Bool.and_eq_true, bne_iff_ne, beq_iff_eq] at hzeros
      have hdigits : (s.digits : ℚ) = (s.digits / 10 : ℕ) * 10 := by
        exact_mod_cast (Nat.div_mul_cancel (Nat.dvd_of_mod_eq_zero hzeros.2)).symm
      rw [ih, Scaled.value, Scaled.value, hdigits, zpow_add_one₀ (by norm_num)]
      ring
    · rfl

theorem quotient_value (b : Binary) : (b.quotient.1 : ℚ) / b.quotient.2 = b.value := by
  unfold Binary.quotient Binary.value
  split
  · next hexponent =>
    obtain ⟨e, he⟩ := Int.eq_ofNat_of_zero_le hexponent
    simp only [he, Int.toNat_natCast, zpow_natCast, Nat.pow_eq]
    push_cast
    rw [div_one]
  · next hexponent =>
    obtain ⟨e, he⟩ := Int.eq_ofNat_of_zero_le (neg_nonneg.mpr (not_le.mp hexponent).le)
    obtain he' : b.exponent = -e := by omega
    simp only [he', neg_neg, Int.toNat_natCast, zpow_neg, zpow_natCast, Nat.pow_eq]
    push_cast
    rw [div_eq_mul_inv]

theorem quotient_ne_zero {b : Binary} (hpos : 0 < b.significand) :
    b.quotient.1 ≠ 0 ∧ b.quotient.2 ≠ 0 := by
  unfold Binary.quotient
  simp only [Nat.pow_eq]
  split
  · exact ⟨Nat.mul_ne_zero hpos.ne' (Nat.two_pow_pos _).ne', one_ne_zero⟩
  · exact ⟨hpos.ne', (Nat.two_pow_pos _).ne'⟩

/-- A power of ten that is not above the quotient. -/
theorem pow_leadingExponent_le {numerator denominator : ℕ} (hn : numerator ≠ 0)
    (hd : denominator ≠ 0) :
    (10 : ℚ) ^ leadingExponent numerator denominator ≤ numerator / denominator := by
  have hpos : (0 : ℚ) < denominator := by exact_mod_cast Nat.pos_of_ne_zero hd
  have hdown : ∀ shift : ℕ, denominator ≤ numerator * 10 ^ shift →
      (10 : ℚ) ^ (-(shift : ℤ)) ≤ numerator / denominator := by
    intro shift hshift
    have hcast : (denominator : ℚ) ≤ numerator * 10 ^ shift := by exact_mod_cast hshift
    rw [zpow_neg, zpow_natCast, le_div_iff₀ hpos, inv_mul_le_iff₀ (by positivity), mul_comm]
    exact hcast
  unfold leadingExponent
  simp only [Nat.pow_eq]
  split
  · next hle =>
    have hquotient : numerator / denominator ≠ 0 :=
      (Nat.div_pos hle (Nat.pos_of_ne_zero hd)).ne'
    have hlength := length_toString_pos (numerator / denominator)
    have hlead : ((toString (numerator / denominator)).length : ℤ) - 1 =
        ((toString (numerator / denominator)).length - 1 : ℕ) := by omega
    rw [hlead, zpow_natCast]
    refine le_trans ?_ Nat.cast_div_le
    exact_mod_cast pow_length_toString_le hquotient
  · next hlt =>
    split
    · next hshift => exact hdown _ hshift
    · next hshift =>
      generalize hgap : (toString denominator).length - (toString numerator).length = gap
      rw [show -(gap : ℤ) - 1 = -((gap + 1 : ℕ) : ℤ) by omega]
      have hlength := length_toString_pos numerator
      refine hdown _ ?_
      calc denominator ≤ 10 ^ (toString denominator).length := (lt_pow_length_toString _).le
        _ ≤ 10 ^ ((toString numerator).length - 1 + (gap + 1)) :=
            Nat.pow_le_pow_right (by decide) (by omega)
        _ = 10 ^ ((toString numerator).length - 1) * 10 ^ (gap + 1) := pow_add _ _ _
        _ ≤ numerator * 10 ^ (gap + 1) := Nat.mul_le_mul_right _ (pow_length_toString_le hn)

/-- On a grid of seventeen digits a neighbour is always found. -/
theorem onGrid_seventeen_isSome {b : Binary} (hpos : 0 < b.significand)
    (hfits : b.significand < 2 ^ 53) {lead : ℤ} (hlead : (10 : ℚ) ^ lead ≤ b.value) :
    (b.interval.onGrid (lead - 16)).isSome := by
  have hunit := two_zpow_pos b.exponent
  have hfits : (b.significand : ℚ) < 2 ^ 53 := by exact_mod_cast hfits
  have hstep : (10 : ℚ) ^ (lead - 16) ≤ b.significand / 10 ^ 16 * 2 ^ b.exponent := by
    rw [zpow_sub₀ (by norm_num), div_mul_eq_mul_div]
    exact div_le_div_of_nonneg_right hlead (by positivity)
  have hwithin : ∀ gap : ℚ, b.significand < 2 * 10 ^ 16 * gap →
      (10 : ℚ) ^ (lead - 16) / 2 < gap * 2 ^ b.exponent := by
    intro gap hgap
    have hscaled : (b.significand : ℚ) / 10 ^ 16 / 2 < gap := by
      rw [div_div, div_lt_iff₀ (by positivity)]
      linarith
    have hproduct := mul_lt_mul_of_pos_right hscaled hunit
    linarith
  refine Interval.onGrid_isSome ?_ ?_ ?_
  · rw [interval_value]
    refine le_trans ?_ hlead
    exact zpow_le_zpow_right₀ (by norm_num) (by omega)
  · rw [interval_value, interval_low b hpos, sub_mul]
    refine sub_lt_sub_left (hwithin _ ?_) _
    split
    · next hdense =>
      rw [hdense.1]
      norm_num
    · linarith
  · rw [interval_value, interval_high, add_mul]
    exact add_lt_add_right (hwithin _ (by linarith)) _

/-- The shortest decimal of a fraction rounds to the fraction. -/
theorem roundsTo_shortest {b : Binary} (hfits : b.significand < 2 ^ 53) :
    RoundsTo (shortest b).value b := by
  unfold shortest
  split
  · next hzero =>
    have hzero : b.significand = 0 := by simpa using hzero
    have hunit := two_zpow_pos b.exponent
    constructor <;> simp only [Scaled.value, hzero, Nat.cast_zero, zero_mul]
    · linarith
    · linarith
    · exact fun _ => trivial
    · intro hone
      simp at hone
  · next hne =>
    have hpos : 0 < b.significand := Nat.pos_of_ne_zero (by simpa using hne)
    obtain ⟨hn, hd⟩ := quotient_ne_zero hpos
    have hlead := pow_leadingExponent_le hn hd
    rw [quotient_value] at hlead
    simp only
    rw [normalise_value]
    have hgrid := onGrid_seventeen_isSome hpos hfits hlead
    refine roundsTo_of_holds hpos (Interval.holds_search 17 1 ⟨17, by decide, by decide, ?_⟩)
    rwa [show ∀ lead : ℤ, lead - (17 : ℕ) + 1 = lead - 16 by intro lead; omega]

/-- Only zero is written without other digits. -/
theorem shortest_of_zero {b : Binary} (hfits : b.significand < 2 ^ 53)
    (hdigits : (shortest b).digits = 0) : (shortest b).exponent = 0 := by
  have hlow := (roundsTo_shortest hfits).low
  rw [Scaled.value, hdigits, Nat.cast_zero, zero_mul] at hlow
  have hsmall : (b.significand : ℚ) - 1 / 2 ≤ 0 :=
    nonpos_of_mul_nonpos_left hlow (two_zpow_pos b.exponent)
  have hlt : (b.significand : ℚ) < 1 := by linarith
  have hzero : b.significand = 0 := Nat.lt_one_iff.mp (by exact_mod_cast hlt)
  simp [shortest, hzero]

end VisualNovel.Decimal
