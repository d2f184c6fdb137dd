import Mathlib.Algebra.Order.Field.Power
import Mathlib.Data.Rat.Cast.Order
import Mathlib.Tactic.Linarith
import Mathlib.Tactic.Ring
import VisualNovel.Decimal.Binary

/-!
The numbers that round to a binary fraction: those that are at most half a last place away, where
a number in the middle of two fractions rounds to the one with an even significand. Below a power
of two the fractions lie twice as dense. Every number rounds to one fraction of a double at most.
-/
namespace VisualNovel.Decimal

def Binary.value (b : Binary) : ℚ := b.significand * 2 ^ b.exponent

/-- Written with 53 digits, except for fractions too small for that, which have the least
exponent. -/
structure Binary.Canonical (b : Binary) : Prop where
  fits : b.significand < 2 ^ 53
  least : -1074 ≤ b.exponent
  leading : b.exponent = -1074 ∨ 2 ^ 52 ≤ b.significand

/-- The number is nearest to the fraction. -/
structure RoundsTo (q : ℚ) (b : Binary) : Prop where
  low : (b.significand - 1 / 2) * 2 ^ b.exponent ≤ q
  high : q ≤ (b.significand + 1 / 2) * 2 ^ b.exponent
  even : q = (b.significand - 1 / 2) * 2 ^ b.exponent ∨
    q = (b.significand + 1 / 2) * 2 ^ b.exponent → b.significand % 2 = 0
  dense : b.significand = 2 ^ 52 → b.exponent ≠ -1074 →
    (b.significand - 1 / 4) * 2 ^ b.exponent ≤ q

theorem two_zpow_pos (e : ℤ) : (0 : ℚ) < 2 ^ e := zpow_pos (by decide) e

theorem two_zpow_succ (e : ℤ) : (2 : ℚ) ^ (e + 1) = 2 * 2 ^ e := by
  rw [zpow_add_one₀ (by decide), mul_comm]

theorem roundsTo_value (b : Binary) : RoundsTo b.value b := by
  have hunit := two_zpow_pos b.exponent
  constructor
  · unfold Binary.value
    linarith
  · unfold Binary.value
    linarith
  · unfold Binary.value
    rintro (h | h) <;> linarith
  · intro _ _
    unfold Binary.value
    linarith

namespace RoundsTo

variable {q : ℚ} {b b' : Binary}

/-- The least number that rounds to a fraction with the first digit set. -/
theorem low_of_leading (h : RoundsTo q b) (hleading : 2 ^ 52 ≤ b.significand)
    (hexponent : b.exponent ≠ -1074) : ((2 : ℚ) ^ 52 - 1 / 4) * 2 ^ b.exponent ≤ q := by
  have hunit := two_zpow_pos b.exponent
  rcases Nat.lt_or_eq_of_le hleading with hlt | heq
  · have hcast : ((2 : ℚ) ^ 52 + 1) ≤ b.significand := by exact_mod_cast hlt
    refine le_trans (mul_le_mul_of_nonneg_right ?_ hunit.le) h.low
    linarith
  · have hdense := h.dense heq.symm hexponent
    rw [← heq] at hdense
    exact_mod_cast hdense

theorem significand_le (h : RoundsTo q b) (h' : RoundsTo q b')
    (hexponent : b.exponent = b'.exponent) : b.significand ≤ b'.significand := by
  have hunit := two_zpow_pos b.exponent
  have hlow := h.low
  have hhigh := h'.high
  rw [← hexponent] at hhigh
  have hstep : (b.significand : ℚ) ≤ b'.significand + 1 := by
    have hbounds := le_of_mul_le_mul_right (hlow.trans hhigh) hunit
    linarith
  have hstep : b.significand ≤ b'.significand + 1 := by exact_mod_cast hstep
  rcases Nat.lt_or_eq_of_le hstep with hlt | heq
  · exact Nat.le_of_lt_succ hlt
  · -- the number lies in the middle of two neighbours, and only one of them is even
    have hcast : (b.significand : ℚ) = b'.significand + 1 := by exact_mod_cast heq
    have hmiddle : ((b.significand : ℚ) - 1 / 2) = b'.significand + 1 / 2 := by linarith
    rw [hmiddle] at hlow
    have hq := le_antisymm hhigh hlow
    have heven := h.even (Or.inl (by rw [hmiddle]; exact hq))
    have heven' := h'.even (Or.inr (by rw [← hexponent]; exact hq))
    omega

/-- The numbers that round to fractions with different exponents lie apart. -/
theorem not_exponent_lt (hcanonical : b.Canonical) (hcanonical' : b'.Canonical)
    (h : RoundsTo q b) (h' : RoundsTo q b') : ¬ b.exponent < b'.exponent := by
  intro hlt
  have hexponent : b'.exponent ≠ -1074 := by
    have hleast := hcanonical.least
    omega
  have hunit := two_zpow_pos b.exponent
  have hdouble : 2 * (2 : ℚ) ^ b.exponent ≤ 2 ^ b'.exponent := by
    rw [← two_zpow_succ]
    exact zpow_le_zpow_right₀ (by decide) hlt
  have hfits : (b.significand : ℚ) + 1 ≤ 2 ^ 53 := by exact_mod_cast hcanonical.fits
  have hbelow : q ≤ ((2 : ℚ) ^ 53 - 1 / 2) * 2 ^ b.exponent :=
    h.high.trans (mul_le_mul_of_nonneg_right (by linarith) hunit.le)
  have habove : ((2 : ℚ) ^ 53 - 1 / 2) * 2 ^ b.exponent ≤ q := by
    have hlow := h'.low_of_leading (hcanonical'.leading.resolve_left hexponent) hexponent
    linarith
  -- only the largest significand reaches that far, and it is odd
  have hlast : (2 : ℚ) ^ 53 - 1 / 2 ≤ b.significand + 1 / 2 :=
    le_of_mul_le_mul_right (habove.trans h.high) hunit
  have hlast : (2 : ℚ) ^ 53 ≤ b.significand + 1 := by linarith
  have hsignificand : b.significand + 1 = 2 ^ 53 :=
    le_antisymm hcanonical.fits (by exact_mod_cast hlast)
  have hcast : (b.significand : ℚ) + 1 = 2 ^ 53 := by exact_mod_cast hsignificand
  have hend : (b.significand : ℚ) + 1 / 2 = 2 ^ 53 - 1 / 2 := by linarith
  have heven := h.even (Or.inr (by rw [hend]; exact le_antisymm hbelow habove))
  omega

/-- No number rounds to two fractions. -/
theorem unique (hcanonical : b.Canonical) (hcanonical' : b'.Canonical) (h : RoundsTo q b)
    (h' : RoundsTo q b') : b = b' := by
  have hexponent : b.exponent = b'.exponent :=
    le_antisymm (not_lt.mp (not_exponent_lt hcanonical' hcanonical h' h))
      (not_lt.mp (not_exponent_lt hcanonical hcanonical' h h'))
  have hsignificand : b.significand = b'.significand :=
    le_antisymm (h.significand_le h' hexponent) (h'.significand_le h hexponent.symm)
  cases b
  cases b'
  simp_all

end RoundsTo

end VisualNovel.Decimal
