import Mathlib.Algebra.Order.Floor.Semifield
import Mathlib.Tactic.FieldSimp
import Mathlib.Tactic.NormNum
import VisualNovel.Proofs.Decimal.Nearest

/-!
Arithmetic on doubles rounds to the nearest. An exact result is kept as a whole number of units
with two bits about the rest of it, which is what rounding needs to know.
-/
namespace VisualNovel.Decimal

open Float.Model (Format UnpackedFloat totalExponent)
open Float.Model.UnpackedFloat (Accuracy ExtendedMantissa Sign)

/-- The part of a unit that the first bit after the units stands for. -/
def half (roundBit : Bool) : ℚ := if roundBit then 1 / 2 else 0

theorem half_bounds (roundBit : Bool) : 0 ≤ half roundBit ∧ half roundBit ≤ 1 / 2 := by
  cases roundBit <;> norm_num [half]

/-- The units and bits that are kept of a number. -/
structure Tells (em : ExtendedMantissa) (x : ℚ) : Prop where
  low : em.mantissa + half em.roundBit ≤ x
  high : x < em.mantissa + half em.roundBit + 1 / 2
  sticky : em.stickyBit = false ↔ x = em.mantissa + half em.roundBit

namespace Tells

variable {em : ExtendedMantissa} {x : ℚ}

theorem mantissa_le (h : Tells em x) : em.mantissa ≤ x := by
  linarith [h.low, (half_bounds em.roundBit).1]

theorem lt_mantissa (h : Tells em x) : x < em.mantissa + 1 := by
  linarith [h.high, (half_bounds em.roundBit).2]

/-- The number is a whole number of units if neither bit is set. -/
theorem eq_mantissa_iff (h : Tells em x) :
    x = em.mantissa ↔ em.roundBit = false ∧ em.stickyBit = false := by
  have hlow := h.low
  rw [h.sticky]
  cases hbit : em.roundBit <;>
    simp only [half, hbit, Bool.false_eq_true, if_false, if_true] at hlow ⊢
  · simp
  · simp only [Bool.true_eq_false, false_and, iff_false]
    linarith

/-- Half of a number: the last bit of the units becomes the first bit after them. -/
theorem shiftRightOne (h : Tells em x) : Tells em.shiftRightOne (x / 2) := by
  have hlow := h.mantissa_le
  have hhigh := h.lt_mantissa
  have hdigits : (em.mantissa : ℚ) / 2 = (em.mantissa / 2 : ℕ) + half (em.mantissa % 2 != 0) := by
    have hsum : ((2 * (em.mantissa / 2) + em.mantissa % 2 : ℕ) : ℚ) = em.mantissa :=
      congrArg _ (Nat.div_add_mod em.mantissa 2)
    push_cast at hsum
    rcases Nat.mod_two_eq_zero_or_one em.mantissa with hmod | hmod <;> rw [hmod] at hsum ⊢ <;>
      norm_num [half] at hsum ⊢ <;> linarith
  constructor <;> simp only [ExtendedMantissa.shiftRightOne, ← hdigits]
  · linarith
  · linarith
  · rw [Bool.or_eq_false_iff, ← h.eq_mantissa_iff]
    exact (div_left_inj' two_ne_zero).symm

theorem shiftRight (h : Tells em x) (n : ℕ) : Tells (em >>> n) (x / 2 ^ n) := by
  induction n with
  | zero =>
    rw [pow_zero, div_one]
    exact h
  | succ n ih =>
    rw [pow_succ, ← div_div]
    exact ih.shiftRightOne

end Tells

/-- The whole number nearest to a number, the even one if two are. -/
structure IsNearest (x : ℚ) (n : ℕ) : Prop where
  low : n - 1 / 2 ≤ x
  high : x ≤ n + 1 / 2
  even : x = n - 1 / 2 ∨ x = n + 1 / 2 → n % 2 = 0

theorem isNearest_middle (m : ℕ) : IsNearest (m + 1 / 2) (m + m % 2) := by
  rcases Nat.mod_two_eq_zero_or_one m with hmod | hmod
  · rw [hmod]
    exact ⟨by push_cast; linarith, by push_cast; linarith, fun _ => hmod⟩
  · rw [hmod]
    exact ⟨by push_cast; linarith, by push_cast; linarith, fun _ => by omega⟩

theorem isNearest_of_lt {x : ℚ} {n : ℕ} (hlow : n - 1 / 2 < x) (hhigh : x < n + 1 / 2) :
    IsNearest x n :=
  ⟨hlow.le, hhigh.le, fun h => by rcases h with h | h <;> linarith⟩

/-- The two bits suffice to round. -/
theorem Tells.isNearest {em : ExtendedMantissa} {x : ℚ} (h : Tells em x) :
    IsNearest x em.roundedMantissa := by
  obtain ⟨m, r, s⟩ := em
  obtain ⟨hlow, hhigh, hsticky⟩ := h
  cases r <;> cases s <;> norm_num [half] at hlow hhigh hsticky
  case false.false =>
    change IsNearest x m
    exact isNearest_of_lt (by linarith) (by linarith)
  case false.true =>
    change IsNearest x m
    exact isNearest_of_lt (by linarith) (by linarith)
  case true.false =>
    change IsNearest x (m + m % 2)
    rw [hsticky]
    exact isNearest_middle m
  case true.true =>
    change IsNearest x (m + 1)
    have habove : (m : ℚ) + 1 / 2 < x := lt_of_le_of_ne hlow (Ne.symm hsticky)
    exact isNearest_of_lt (by push_cast; linarith) (by push_cast; linarith)

/-- The mantissa and the accuracy that are kept of an exact result. -/
def Measures (mantissa : ℕ) (accuracy : Accuracy) (x : ℚ) : Prop :=
  Tells (.ofMantissaAndAccuracy mantissa accuracy) x

section Measures

variable {m : ℕ} {x : ℚ}

theorem measures_exact (m : ℕ) : Measures m .exact m := by
  constructor <;> norm_num [ExtendedMantissa.ofMantissaAndAccuracy, half]

theorem measures_less (hlow : m < x) (hhigh : x < m + 1 / 2) : Measures m (.inexact .lt) x := by
  constructor <;> norm_num [ExtendedMantissa.ofMantissaAndAccuracy, half] <;> linarith

theorem measures_middle (m : ℕ) : Measures m (.inexact .eq) (m + 1 / 2) := by
  constructor <;> norm_num [ExtendedMantissa.ofMantissaAndAccuracy, half]

theorem measures_more (hlow : m + 1 / 2 < x) (hhigh : x < m + 1) :
    Measures m (.inexact .gt) x := by
  constructor <;> norm_num [ExtendedMantissa.ofMantissaAndAccuracy, half] <;> linarith

end Measures

theorem measures_fraction (n : ℕ) {d : ℕ} (hd : 0 < d) :
    Measures (n / d) (UnpackedFloat.accuracyOfFraction (n % d) d) (n / d) := by
  have hpos : (0 : ℚ) < d := by exact_mod_cast hd
  have hsum : (n : ℚ) / d = (n / d : ℕ) + (n % d : ℕ) / d := by
    rw [eq_comm, ← mul_right_inj' hpos.ne', mul_add, mul_div_cancel₀ _ hpos.ne',
      mul_div_cancel₀ _ hpos.ne']
    exact_mod_cast Nat.div_add_mod n d
  have hfraction : ((n % d : ℕ) : ℚ) / d < 1 := by
    rw [div_lt_one hpos]
    exact_mod_cast Nat.mod_lt n hd
  unfold UnpackedFloat.accuracyOfFraction
  rw [hsum]
  generalize n / d = q
  generalize n % d = r at hfraction
  split
  · next hzero =>
    rw [hzero, Nat.cast_zero, zero_div, add_zero]
    exact measures_exact q
  · next hne =>
    have hrest : (0 : ℚ) < r / d := div_pos (by exact_mod_cast Nat.pos_of_ne_zero hne) hpos
    cases hcompare : compare (2 * r) d
    case lt =>
      have hless : (2 : ℚ) * r < d := by exact_mod_cast Nat.compare_eq_lt.mp hcompare
      have hhalf : (r : ℚ) / d < 1 / 2 := (div_lt_iff₀ hpos).mpr (by linarith)
      exact measures_less (by linarith) (by linarith)
    case eq =>
      have hequal : (2 : ℚ) * r = d := by exact_mod_cast Nat.compare_eq_eq.mp hcompare
      have hhalf : (r : ℚ) / d = 1 / 2 := (div_eq_iff hpos.ne').mpr (by linarith)
      rw [hhalf]
      exact measures_middle q
    case gt =>
      have hmore : (d : ℚ) < 2 * r := by exact_mod_cast Nat.compare_eq_gt.mp hcompare
      have hhalf : 1 / 2 < (r : ℚ) / d := (lt_div_iff₀ hpos).mpr (by linarith)
      exact measures_more (by linarith) (by linarith)

/-- A fraction as a float, before it is packed into bits. -/
def Binary.unpacked (sign : Sign) (b : Binary) : UnpackedFloat :=
  if h : b.significand = 0 then .zero sign
  else .finite sign b.significand b.exponent (Nat.pos_of_ne_zero h)

/-- The exponent of the last place that is kept of a result. -/
def place (mantissa : ℕ) (exponent : ℤ) : ℤ :=
  Format.binary64.targetExponent (totalExponent mantissa exponent)

theorem place_eq (mantissa : ℕ) (exponent : ℤ) :
    place mantissa exponent = max ((mantissa.log2 : ℤ) + exponent - 52) (-1074) := by
  unfold place Format.targetExponent totalExponent
  rw [show Format.binary64.minExponent = -1074 from rfl,
    show ((Format.binary64.mantissaBits : ℕ) : ℤ) = 53 from rfl]
  congr 1
  ring

theorem shift_eq {mantissa : ℕ} {exponent : ℤ} (accuracy : Accuracy) {n : ℕ}
    (hn : (place mantissa exponent - exponent).toNat = n) :
    UnpackedFloat.shiftToTargetExponent .binary64 mantissa exponent accuracy =
      (ExtendedMantissa.ofMantissaAndAccuracy mantissa accuracy >>> n, exponent + n) := by
  subst hn
  rfl

/-- A result that fits stays as it is. -/
theorem shift_fits {n : ℕ} {e : ℤ} (hn : n < 2 ^ 53) (he : -1074 ≤ e) :
    UnpackedFloat.shiftToTargetExponent .binary64 n e .exact = (⟨n, false, false⟩, e) := by
  have hlog : n.log2 ≤ 52 := by
    rcases Nat.eq_zero_or_pos n with rfl | hpos
    · decide
    · exact Nat.le_of_lt_succ ((Nat.log2_lt hpos.ne').mpr hn)
  have hplace := place_eq n e
  rw [shift_eq .exact (n := 0) (by omega), Nat.cast_zero, add_zero]
  rfl

/-- A result that rounding has made one digit longer is shortened again. -/
theorem shift_carry {e : ℤ} (he : -1074 ≤ e) :
    UnpackedFloat.shiftToTargetExponent .binary64 (2 ^ 53) e .exact =
      (⟨2 ^ 52, false, false⟩, e + 1) := by
  have hplace := place_eq (2 ^ 53) e
  rw [Nat.log2_two_pow] at hplace
  rw [shift_eq .exact (n := 1) (by omega), Nat.cast_one]
  rfl

section Units

variable {mantissa : ℕ} {exponent : ℤ} {accuracy : Accuracy} {x y : ℚ}

theorem Measures.shift (h : Measures mantissa accuracy x)
    (hplace : exponent ≤ place mantissa exponent) :
    ∃ em y, UnpackedFloat.shiftToTargetExponent .binary64 mantissa exponent accuracy =
        (em, place mantissa exponent) ∧ Tells em y ∧
      y * 2 ^ place mantissa exponent = x * 2 ^ exponent := by
  obtain ⟨n, hn⟩ := Int.eq_ofNat_of_zero_le (sub_nonneg.mpr hplace)
  have hplace : place mantissa exponent = exponent + n := by omega
  refine ⟨_, _, ?_, Tells.shiftRight h n, ?_⟩
  · rw [shift_eq accuracy (n := n) (by omega), hplace]
  · rw [hplace, zpow_add₀ two_ne_zero, zpow_natCast, mul_comm (2 ^ exponent), ← mul_assoc,
      div_mul_cancel₀ _ (pow_ne_zero n two_ne_zero)]

theorem Measures.bounds (h : Measures mantissa accuracy x) :
    mantissa ≤ x ∧ x < mantissa + 1 := by
  have hmantissa :
      (ExtendedMantissa.ofMantissaAndAccuracy mantissa accuracy).mantissa = mantissa := by
    unfold ExtendedMantissa.ofMantissaAndAccuracy
    split <;> rfl
  rw [← hmantissa]
  exact ⟨Tells.mantissa_le h, Tells.lt_mantissa h⟩

/-- No more than 53 digits are kept. -/
theorem Measures.lt_of_place (h : Measures mantissa accuracy x)
    (hy : y * 2 ^ place mantissa exponent = x * 2 ^ exponent) : y < 2 ^ 53 := by
  have hlog : (mantissa : ℚ) + 1 ≤ 2 ^ (mantissa.log2 + 1) := by
    exact_mod_cast Nat.lt_log2_self
  have hplace := place_eq mantissa exponent
  have hunits : (2 : ℚ) ^ (mantissa.log2 + 1) * 2 ^ exponent ≤
      2 ^ 53 * 2 ^ place mantissa exponent := by
    rw [← zpow_natCast, ← zpow_add₀ two_ne_zero, ← zpow_natCast, ← zpow_add₀ two_ne_zero]
    refine zpow_le_zpow_right₀ one_le_two ?_
    push_cast
    omega
  refine lt_of_mul_lt_mul_right ?_ (two_zpow_pos (place mantissa exponent)).le
  refine lt_of_lt_of_le ?_ hunits
  rw [hy]
  exact mul_lt_mul_of_pos_right (h.bounds.2.trans_le hlog) (two_zpow_pos exponent)

/-- All 53 digits are kept unless the last place is the least one. -/
theorem Measures.le_of_place (h : Measures mantissa accuracy x)
    (hplace : exponent ≤ place mantissa exponent)
    (hy : y * 2 ^ place mantissa exponent = x * 2 ^ exponent)
    (hleast : place mantissa exponent ≠ -1074) : 2 ^ 52 ≤ y := by
  have hequal := place_eq mantissa exponent
  have hpos : mantissa ≠ 0 := by
    rintro rfl
    rw [Nat.log2_zero] at hequal
    omega
  have hlog : (2 : ℚ) ^ mantissa.log2 ≤ mantissa := by
    exact_mod_cast Nat.log2_self_le hpos
  have hunits : (2 : ℚ) ^ 52 * 2 ^ place mantissa exponent = 2 ^ mantissa.log2 * 2 ^ exponent := by
    rw [← zpow_natCast, ← zpow_add₀ two_ne_zero, ← zpow_natCast, ← zpow_add₀ two_ne_zero]
    congr 1
    push_cast
    omega
  refine le_of_mul_le_mul_right ?_ (two_zpow_pos (place mantissa exponent))
  rw [hunits, hy]
  exact mul_le_mul_of_nonneg_right (hlog.trans h.bounds.1) (two_zpow_pos exponent).le

end Units

theorem roundsTo_of_isNearest {y : ℚ} {n : ℕ} {e : ℤ} (h : IsNearest y n)
    (hdense : n = 2 ^ 52 → e ≠ -1074 → (n : ℚ) - 1 / 4 ≤ y) : RoundsTo (y * 2 ^ e) ⟨n, e⟩ where
  low := mul_le_mul_of_nonneg_right h.low (two_zpow_pos e).le
  high := mul_le_mul_of_nonneg_right h.high (two_zpow_pos e).le
  even := by
    simpa only [mul_left_inj' (two_zpow_pos e).ne'] using h.even
  dense := fun hn he => mul_le_mul_of_nonneg_right (hdense hn he) (two_zpow_pos e).le

/-- Rounding gives the fraction that the exact result rounds to. -/
theorem exists_round (sign : Sign) {mantissa : ℕ} {exponent : ℤ} {accuracy : Accuracy} {x : ℚ}
    (h : Measures mantissa accuracy x) (hplace : exponent ≤ place mantissa exponent) :
    ∃ b : Binary, b.Canonical ∧ RoundsTo (x * 2 ^ exponent) b ∧
      UnpackedFloat.roundWithAccuracy .binary64 sign mantissa exponent accuracy =
        b.unpacked sign := by
  obtain ⟨em, y, hshift, htells, hy⟩ := h.shift hplace
  have hbelow := h.lt_of_place hy
  have hleading := h.le_of_place hplace hy
  have hleast : -1074 ≤ place mantissa exponent := by
    rw [place_eq]
    exact le_max_right _ _
  generalize place mantissa exponent = e at *
  have hnearest := htells.isNearest
  have hround : ∀ {b : Binary},
      UnpackedFloat.shiftToTargetExponent .binary64 em.roundedMantissa e .exact =
        (⟨b.significand, false, false⟩, b.exponent) →
      UnpackedFloat.roundWithAccuracy .binary64 sign mantissa exponent accuracy =
        b.unpacked sign := by
    intro b hagain
    unfold UnpackedFloat.roundWithAccuracy Binary.unpacked
    rw [hshift]
    dsimp only
    rw [hagain]
  rw [← hy]
  generalize em.roundedMantissa = n at *
  have hlast : n ≤ 2 ^ 53 := by
    have hcast : (n : ℚ) < 2 ^ 53 + 1 := by linarith [hnearest.low]
    exact Nat.le_of_lt_succ (by exact_mod_cast hcast)
  rcases Nat.lt_or_eq_of_le hlast with hfits | hcarry
  · refine ⟨⟨n, e⟩, ⟨hfits, hleast, ?_⟩, roundsTo_of_isNearest hnearest ?_,
      hround (shift_fits hfits hleast)⟩
    · by_cases he : e = -1074
      · exact Or.inl he
      · have hcast : (2 : ℚ) ^ 52 < n + 1 := by linarith [hleading he, hnearest.high]
        exact Or.inr (Nat.le_of_lt_succ (by exact_mod_cast hcast))
    · intro hn he
      have hexact : (n : ℚ) = 2 ^ 52 := by exact_mod_cast hn
      linarith [hleading he]
  · subst hcarry
    have hlow : (2 : ℚ) ^ 53 - 1 / 2 ≤ y := by exact_mod_cast hnearest.low
    refine ⟨⟨2 ^ 52, e + 1⟩, ⟨Nat.pow_lt_pow_right (by decide) (by decide), by simp only; omega,
      Or.inr le_rfl⟩, ?_,
      hround (shift_carry hleast)⟩
    have hhalf : y * 2 ^ e = y / 2 * 2 ^ (e + 1) := by
      rw [two_zpow_succ]
      ring
    rw [hhalf]
    refine roundsTo_of_isNearest (isNearest_of_lt ?_ ?_) fun _ _ => ?_ <;> push_cast <;> linarith

theorem exists_mul (s₁ s₂ : Sign) {b₁ b₂ : Binary} (h₁ : b₁.significand ≠ 0)
    (h₂ : b₂.significand ≠ 0) (hdigits : 2 ^ 52 ≤ b₁.significand * b₂.significand) :
    ∃ b : Binary, b.Canonical ∧ RoundsTo (b₁.value * b₂.value) b ∧
      UnpackedFloat.mul .binary64 (b₁.unpacked s₁) (b₂.unpacked s₂) = b.unpacked (s₁ * s₂) := by
  have hplace : b₁.exponent + b₂.exponent ≤
      place (b₁.significand * b₂.significand) (b₁.exponent + b₂.exponent) := by
    have hlog : 52 ≤ (b₁.significand * b₂.significand).log2 :=
      (Nat.le_log2 (Nat.mul_ne_zero h₁ h₂)).mpr hdigits
    rw [place_eq]
    omega
  obtain ⟨b, hcanonical, hrounds, hround⟩ := exists_round (s₁ * s₂)
    (measures_exact (b₁.significand * b₂.significand)) hplace
  have hvalue : ((b₁.significand * b₂.significand : ℕ) : ℚ) * 2 ^ (b₁.exponent + b₂.exponent) =
      b₁.value * b₂.value := by
    unfold Binary.value
    rw [zpow_add₀ two_ne_zero]
    push_cast
    ring
  rw [hvalue] at hrounds
  refine ⟨b, hcanonical, hrounds, ?_⟩
  rw [← hround, Binary.unpacked, dif_neg h₁, Binary.unpacked, dif_neg h₂]
  rfl

/-- A quotient is computed with 53 digits, or up to the least place. -/
theorem exists_divCore {m₁ : ℕ} (h₁ : m₁ ≠ 0) (m₂ : ℕ) (e₁ e₂ : ℤ) :
    ∃ (t : ℤ) (n : ℕ), UnpackedFloat.divCore .binary64 m₁ e₁ m₂ e₂ =
        (m₁ * 2 ^ n / m₂, t, UnpackedFloat.accuracyOfFraction (m₁ * 2 ^ n % m₂) m₂) ∧
      e₁ - e₂ = t + n ∧ (t ≤ -1074 ∨ 2 ^ 52 * m₂ ≤ m₁ * 2 ^ n) := by
  have htarget : ∀ total : ℤ,
      Format.binary64.targetExponent total = max (total - 53) (-1074) := fun _ => rfl
  obtain ⟨t, ht⟩ : ∃ t, t = min (e₁ - e₂)
      (Format.binary64.targetExponent (totalExponent m₁ e₁ - totalExponent m₂ e₂)) := ⟨_, rfl⟩
  obtain ⟨n, hn⟩ : ∃ n, n = (e₁ - e₂ - t).toNat := ⟨_, rfl⟩
  refine ⟨t, n, ?_, by omega, ?_⟩
  · unfold UnpackedFloat.divCore
    simp only [← ht, ← hn, Nat.shiftLeft_eq]
  · rw [htarget, totalExponent, totalExponent] at ht
    by_cases hleast : t ≤ -1074
    · exact Or.inl hleast
    · refine Or.inr ?_
      calc 2 ^ 52 * m₂ ≤ 2 ^ 52 * 2 ^ (m₂.log2 + 1) :=
            Nat.mul_le_mul_left _ (Nat.lt_log2_self).le
        _ = 2 ^ (m₂.log2 + 53) := by rw [← pow_add]; congr 1; omega
        _ ≤ 2 ^ (m₁.log2 + n) := Nat.pow_le_pow_right (by decide) (by omega)
        _ = 2 ^ m₁.log2 * 2 ^ n := pow_add 2 _ _
        _ ≤ m₁ * 2 ^ n := Nat.mul_le_mul_right _ (Nat.log2_self_le h₁)

theorem exists_div (s₁ s₂ : Sign) {b₁ b₂ : Binary} (h₁ : b₁.significand ≠ 0)
    (h₂ : b₂.significand ≠ 0) :
    ∃ b : Binary, b.Canonical ∧ RoundsTo (b₁.value / b₂.value) b ∧
      UnpackedFloat.div .binary64 (b₁.unpacked s₁) (b₂.unpacked s₂) = b.unpacked (s₁ / s₂) := by
  have hpos := Nat.pos_of_ne_zero h₂
  obtain ⟨t, n, hcore, hexponent, hdigits⟩ := exists_divCore h₁ b₂.significand b₁.exponent
    b₂.exponent
  have hplace : t ≤ place (b₁.significand * 2 ^ n / b₂.significand) t := by
    have hequal := place_eq (b₁.significand * 2 ^ n / b₂.significand) t
    rcases hdigits with hleast | hdigits
    · omega
    · have hquotient : 2 ^ 52 ≤ b₁.significand * 2 ^ n / b₂.significand :=
        (Nat.le_div_iff_mul_le hpos).mpr hdigits
      have hne : b₁.significand * 2 ^ n / b₂.significand ≠ 0 :=
        (lt_of_lt_of_le (Nat.two_pow_pos 52) hquotient).ne'
      have hlog := (Nat.le_log2 hne).mpr hquotient
      omega
  obtain ⟨b, hcanonical, hrounds, hround⟩ := exists_round (s₁ / s₂)
    (measures_fraction (b₁.significand * 2 ^ n) hpos) hplace
  have hvalue : ((b₁.significand * 2 ^ n : ℕ) : ℚ) / b₂.significand * 2 ^ t =
      b₁.value / b₂.value := by
    have hshift : b₁.exponent = t + n + b₂.exponent := by omega
    unfold Binary.value
    rw [hshift, zpow_add₀ two_ne_zero, zpow_add₀ two_ne_zero, zpow_natCast, ← mul_assoc,
      mul_div_mul_right _ _ (two_zpow_pos b₂.exponent).ne', Nat.cast_mul, Nat.cast_pow,
      Nat.cast_ofNat]
    ring
  rw [hvalue] at hrounds
  refine ⟨b, hcanonical, hrounds, ?_⟩
  rw [← hround, Binary.unpacked, dif_neg h₁, Binary.unpacked, dif_neg h₂]
  change (match UnpackedFloat.divCore .binary64 b₁.significand b₁.exponent b₂.significand
      b₂.exponent with
    | (m, e, accuracy) => UnpackedFloat.roundWithAccuracy .binary64 (s₁ / s₂) m e accuracy) = _
  rw [hcore]

theorem exists_ofNat {n : ℕ} (hn : n ≠ 0) :
    ∃ b : Binary, b.Canonical ∧ RoundsTo n b ∧
      UnpackedFloat.ofNat .binary64 n = b.unpacked .positive := by
  obtain ⟨k, hk⟩ : ∃ k, k = (-place n 0).toNat := ⟨_, rfl⟩
  have hplace : -(k : ℤ) ≤ place (n * 2 ^ k) (-k) := by
    have hlog : n.log2 + k ≤ (n * 2 ^ k).log2 := by
      rw [Nat.le_log2 (Nat.mul_ne_zero hn (Nat.two_pow_pos k).ne'), pow_add]
      exact Nat.mul_le_mul_right _ (Nat.log2_self_le hn)
    have hequal := place_eq n 0
    rw [place_eq]
    omega
  obtain ⟨b, hcanonical, hrounds, hround⟩ := exists_round .positive (measures_exact (n * 2 ^ k))
    hplace
  have hvalue : ((n * 2 ^ k : ℕ) : ℚ) * 2 ^ (-(k : ℤ)) = n := by
    rw [zpow_neg, zpow_natCast, Nat.cast_mul, Nat.cast_pow, Nat.cast_ofNat,
      mul_inv_cancel_right₀ (pow_ne_zero k two_ne_zero)]
  rw [hvalue] at hrounds
  refine ⟨b, hcanonical, hrounds, ?_⟩
  have hcompare : compare (n : ℤ) 0 = .gt := by
    rw [Int.compare_eq_gt]
    omega
  have hdecrease : UnpackedFloat.decreaseExponent n 0 (place n 0) =
      (n * 2 ^ k, -(k : ℤ)) := by
    unfold UnpackedFloat.decreaseExponent
    simp only [zero_sub, ← hk, Nat.shiftLeft_eq]
  rw [← hround, UnpackedFloat.ofNat, UnpackedFloat.ofInt, UnpackedFloat.normalize, hcompare]
  simp only [Int.toNat_natCast]
  rw [UnpackedFloat.round]
  change (match UnpackedFloat.decreaseExponent n 0 (place n 0) with
    | (m, e) => UnpackedFloat.roundWithAccuracy .binary64 .positive m e .exact) = _
  rw [hdecrease]

end VisualNovel.Decimal
