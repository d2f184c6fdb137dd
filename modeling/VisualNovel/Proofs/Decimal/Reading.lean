import VisualNovel.Decimal.FloatText
import VisualNovel.Proofs.Decimal.Bits
import VisualNovel.Proofs.Text.Numerals

/-!
Reading a decimal number gives the float that is nearest to it. Where both the digits and the power
of ten are floats they are multiplied or divided as such, which rounds once.
-/
namespace VisualNovel.Decimal

open Text
open Float.Model (Format UnpackedFloat)
open Float.Model.UnpackedFloat (Sign)

theorem classify_neg {x : Float} {b : Binary} (h : classify x = .finite false b) :
    classify (-x) = .finite true b := by
  obtain ⟨hcanonical, hlargest⟩ := canonical_of_classify h
  have hneg : x.toModel.unpack.neg = b.unpacked (signOf true) := by
    rw [unpack_of_classify h]
    unfold Binary.unpacked
    split <;> rfl
  change classify (Float.ofModel (Float.Model.pack x.toModel.unpack.neg)) = _
  rw [hneg]
  exact classify_pack true hcanonical hlargest

/-- A whole number with at most 53 digits before the zeros at its end. -/
def Binary.whole (n : ℕ) : Binary := ⟨n * 2 ^ 52 / 2 ^ n.log2, (n.log2 : ℤ) - 52⟩

section Whole

variable {n : ℕ}

theorem whole_value (h : 2 ^ n.log2 ∣ n * 2 ^ 52) : (Binary.whole n).value = n := by
  obtain ⟨c, hc⟩ := h
  have hscaled : (n : ℚ) * 2 ^ 52 = 2 ^ n.log2 * c := by exact_mod_cast hc
  unfold Binary.value Binary.whole
  simp only
  rw [hc, Nat.mul_div_cancel_left _ (Nat.two_pow_pos _), zpow_sub₀ two_ne_zero, zpow_natCast,
    ← mul_div_assoc, mul_comm, ← hscaled]
  exact mul_div_cancel_right₀ _ (by positivity)

theorem le_whole (hn : n ≠ 0) : 2 ^ 52 ≤ (Binary.whole n).significand := by
  unfold Binary.whole
  simp only
  rw [Nat.le_div_iff_mul_le (Nat.two_pow_pos _), Nat.mul_comm]
  exact Nat.mul_le_mul_right _ (Nat.log2_self_le hn)

theorem whole_canonical (hn : n ≠ 0) : (Binary.whole n).Canonical := by
  refine ⟨?_, ?_, Or.inr (le_whole hn)⟩
  · unfold Binary.whole
    simp only
    rw [Nat.div_lt_iff_lt_mul (Nat.two_pow_pos _)]
    have hlog := Nat.lt_log2_self (n := n)
    rw [pow_succ] at hlog
    omega
  · unfold Binary.whole
    simp only
    omega

end Whole

theorem classify_toUInt64_toFloat {n : ℕ} (hn : n ≠ 0) (hfits : n < 2 ^ 53) :
    classify n.toUInt64.toFloat = .finite false (Binary.whole n) := by
  have htoNat : n.toUInt64.toNat = n := UInt64.toNat_ofNat_of_lt' (hfits.trans (by decide))
  have hlog : n.log2 ≤ 52 := Nat.le_of_lt_succ ((Nat.log2_lt hn).mpr hfits)
  obtain ⟨b, hcanonical, hrounds, hfloat⟩ := exists_ofNat hn
  have hwhole : (Binary.whole n).value = n := whole_value
    ((Nat.pow_dvd_pow 2 hlog).trans (Nat.dvd_mul_left _ _))
  have hb : b = Binary.whole n :=
    hrounds.unique hcanonical (whole_canonical hn) (hwhole ▸ roundsTo_value _)
  change classify (Float.ofModel (Float.Model.pack (UnpackedFloat.ofNat .binary64 _))) = _
  rw [htoNat, hfloat, hb]
  refine classify_pack false (whole_canonical hn) ?_
  unfold Binary.whole
  simp only
  omega

theorem classify_power : ∀ e : Fin Float.exactlyRepresentablePowersOfTen.size,
    classify Float.exactlyRepresentablePowersOfTen[e] =
      .finite false (Binary.whole (10 ^ e.val)) := by
  decide +kernel

theorem power_exact : ∀ e : Fin Float.exactlyRepresentablePowersOfTen.size,
    2 ^ (10 ^ e.val).log2 ∣ 10 ^ e.val * 2 ^ 52 := by
  decide +kernel

section Nearest

variable {q : ℚ} {b b₁ b₂ : Binary} {x y : Float}

/-- What an operation rounds to is the fraction nearest to the exact result. -/
theorem classify_of_rounded {u : UnpackedFloat} (hcanonical : b.Canonical)
    (hlargest : b.exponent ≤ 971) (h : RoundsTo q b)
    (hu : ∃ b' : Binary, b'.Canonical ∧ RoundsTo q b' ∧ u = b'.unpacked .positive) :
    classify (Float.ofModel (Float.Model.pack u)) = .finite false b := by
  obtain ⟨b', hcanonical', hrounds, rfl⟩ := hu
  rw [hrounds.unique hcanonical' hcanonical h]
  exact classify_pack false hcanonical hlargest

theorem classify_mul (hcanonical : b.Canonical) (hlargest : b.exponent ≤ 971)
    (hx : classify x = .finite false b₁) (hy : classify y = .finite false b₂)
    (h₁ : 2 ^ 52 ≤ b₁.significand) (h₂ : b₂.significand ≠ 0)
    (h : RoundsTo (b₁.value * b₂.value) b) : classify (x * y) = .finite false b := by
  have hdigits : 2 ^ 52 ≤ b₁.significand * b₂.significand :=
    h₁.trans (Nat.le_mul_of_pos_right _ (Nat.pos_of_ne_zero h₂))
  change classify (Float.ofModel (Float.Model.pack
    (UnpackedFloat.mul .binary64 x.toModel.unpack y.toModel.unpack))) = _
  rw [unpack_of_classify hx, unpack_of_classify hy]
  exact classify_of_rounded hcanonical hlargest h
    (exists_mul .positive .positive (by omega) h₂ hdigits)

theorem classify_div (hcanonical : b.Canonical) (hlargest : b.exponent ≤ 971)
    (hx : classify x = .finite false b₁) (hy : classify y = .finite false b₂)
    (h₁ : b₁.significand ≠ 0) (h₂ : b₂.significand ≠ 0)
    (h : RoundsTo (b₁.value / b₂.value) b) : classify (x / y) = .finite false b := by
  change classify (Float.ofModel (Float.Model.pack
    (UnpackedFloat.div .binary64 x.toModel.unpack y.toModel.unpack))) = _
  rw [unpack_of_classify hx, unpack_of_classify hy]
  exact classify_of_rounded hcanonical hlargest h (exists_div .positive .positive h₁ h₂)

theorem whole_ne_zero {n : ℕ} (hn : n ≠ 0) : (Binary.whole n).significand ≠ 0 :=
  (lt_of_lt_of_le (Nat.two_pow_pos 52) (le_whole hn)).ne'

/-- Few digits and a small power of ten are floats as they are. -/
theorem whole_value_of_lt {n : ℕ} (hn : n ≠ 0) (hfits : n < 2 ^ 53) :
    (Binary.whole n).value = n := by
  have hlog : n.log2 ≤ 52 := Nat.le_of_lt_succ ((Nat.log2_lt hn).mpr hfits)
  exact whole_value ((Nat.pow_dvd_pow 2 hlog).trans (Nat.dvd_mul_left _ _))

theorem ten_pow_ne_zero (e : ℕ) : 10 ^ e ≠ 0 := (Nat.pow_pos (by decide)).ne'

/-- The powers of ten that are formed: only larger ones are refused. -/
theorem ofScientific_eq {digits : ℕ} (hdigits : digits ≠ 0) {e : ℤ} (hmost : e ≤ 2 ^ 11)
    (hleast : -((2 ^ 11 : ℤ) + digits.log2) ≤ e) :
    UnpackedFloat.ofScientific .binary64 digits e =
      if 0 ≤ e then
        UnpackedFloat.mul .binary64 (Binary.unpacked .positive ⟨digits * 2 ^ 53, -53⟩)
          (Binary.unpacked .positive ⟨10 ^ e.toNat, 0⟩)
      else
        UnpackedFloat.div .binary64 (Binary.unpacked .positive ⟨digits, 0⟩)
          (Binary.unpacked .positive ⟨10 ^ (-e).toNat, 0⟩) := by
  have hscaled : digits * 2 ^ 53 ≠ 0 := Nat.mul_ne_zero hdigits (by decide)
  unfold UnpackedFloat.ofScientific Binary.unpacked
  rw [dif_neg hdigits, if_neg (show ¬ e > 2 ^ 11 from not_lt.mpr hmost),
    if_neg (show ¬ e < -((2 ^ 11 : ℤ) + digits.log2) from not_lt.mpr hleast)]
  simp only [dif_neg hscaled, dif_neg hdigits, dif_neg (ten_pow_ne_zero _), Nat.shiftLeft_eq]
  rfl

theorem classify_times (hcanonical : b.Canonical) (hlargest : b.exponent ≤ 971) {digits e : ℕ}
    (hdigits : digits ≠ 0) (hbound : e ≤ 2 ^ 11) (h : RoundsTo (digits * 10 ^ e) b) :
    classify (Float.ofScientific digits false e) = .finite false b := by
  unfold Float.ofScientific
  split
  · next hfast =>
    have he : e < Float.exactlyRepresentablePowersOfTen.size := Nat.lt_succ_of_le hfast.2
    refine classify_mul hcanonical hlargest (classify_toUInt64_toFloat hdigits hfast.1)
      (classify_power ⟨e, he⟩) (le_whole hdigits) (whole_ne_zero (ten_pow_ne_zero e)) ?_
    rw [whole_value_of_lt hdigits hfast.1, whole_value (power_exact ⟨e, he⟩)]
    exact_mod_cast h
  · have hscaled :
        Binary.value ⟨digits * 2 ^ 53, -53⟩ * Binary.value ⟨10 ^ e, 0⟩ = digits * 10 ^ e := by
      norm_num [Binary.value, mul_assoc]
    have hmany : 2 ^ 52 ≤ digits * 2 ^ 53 * 10 ^ e :=
      (show 2 ^ 52 ≤ digits * 2 ^ 53 by omega).trans
        (Nat.le_mul_of_pos_right _ (Nat.pow_pos (by decide)))
    change classify (Float.ofModel (Float.Model.pack
      (UnpackedFloat.ofScientific .binary64 digits (e : ℤ)))) = _
    rw [ofScientific_eq hdigits (by omega) (by omega), if_pos (by omega), Int.toNat_natCast]
    rw [← hscaled] at h
    exact classify_of_rounded hcanonical hlargest h (exists_mul .positive .positive
      (Nat.mul_ne_zero hdigits (by decide)) (ten_pow_ne_zero e) hmany)

theorem classify_over (hcanonical : b.Canonical) (hlargest : b.exponent ≤ 971) {digits e : ℕ}
    (hdigits : digits ≠ 0) (hpos : 0 < e) (hbound : e ≤ 2 ^ 11 + digits.log2)
    (h : RoundsTo (digits / 10 ^ e) b) :
    classify (Float.ofScientific digits true e) = .finite false b := by
  unfold Float.ofScientific
  split
  · next hfast =>
    have he : e < Float.exactlyRepresentablePowersOfTen.size := Nat.lt_succ_of_le hfast.2
    refine classify_div hcanonical hlargest (classify_toUInt64_toFloat hdigits hfast.1)
      (classify_power ⟨e, he⟩) (whole_ne_zero hdigits) (whole_ne_zero (ten_pow_ne_zero e)) ?_
    rw [whole_value_of_lt hdigits hfast.1, whole_value (power_exact ⟨e, he⟩)]
    exact_mod_cast h
  · have hscaled : Binary.value ⟨digits, 0⟩ / Binary.value ⟨10 ^ e, 0⟩ = digits / 10 ^ e := by
      norm_num [Binary.value]
    have hnegative : Int.negOfNat e = -(e : ℤ) := Int.negOfNat_eq
    change classify (Float.ofModel (Float.Model.pack
      (UnpackedFloat.ofScientific .binary64 digits (Int.negOfNat e)))) = _
    rw [hnegative, ofScientific_eq hdigits (by omega) (by omega), if_neg (by omega), neg_neg,
      Int.toNat_natCast]
    rw [← hscaled] at h
    exact classify_of_rounded hcanonical hlargest h (exists_div .positive .positive hdigits
      (ten_pow_ne_zero e))

/-- Numbers so small that they round to zero. -/
theorem eq_zero_of_roundsTo (hcanonical : b.Canonical) (h : RoundsTo q b) (hpos : 0 ≤ q)
    (hsmall : q < 2 ^ (-1075 : ℤ)) : b = ⟨0, -1074⟩ := by
  have hzero : RoundsTo q ⟨0, -1074⟩ := by
    have hhalf : (2 : ℚ) ^ (-1074 : ℤ) = 2 * 2 ^ (-1075 : ℤ) := by
      rw [← two_zpow_succ, show (-1075 + 1 : ℤ) = -1074 from rfl]
    have hunit := two_zpow_pos (-1075)
    constructor
    · simp only [hhalf, Nat.cast_zero]
      linarith
    · simp only [hhalf, Nat.cast_zero]
      linarith
    · intro _
      rfl
    · intro hone
      simp at hone
  exact h.unique hcanonical ⟨by decide, le_rfl, Or.inl rfl⟩ hzero

/-- No number this large rounds to the largest fraction or a smaller one. -/
theorem lt_of_roundsTo (hcanonical : b.Canonical) (hlargest : b.exponent ≤ 971)
    (h : RoundsTo q b) : q < 2 ^ 1024 := by
  have hfits : (b.significand : ℚ) + 1 ≤ 2 ^ 53 := by exact_mod_cast hcanonical.fits
  have hunit : (2 : ℚ) ^ b.exponent ≤ 2 ^ (971 : ℤ) := zpow_le_zpow_right₀ one_le_two hlargest
  calc q ≤ (b.significand + 1 / 2) * 2 ^ b.exponent := h.high
    _ < 2 ^ 53 * 2 ^ b.exponent := mul_lt_mul_of_pos_right (by linarith) (two_zpow_pos _)
    _ ≤ 2 ^ 53 * 2 ^ (971 : ℤ) := mul_le_mul_of_nonneg_left hunit (by positivity)
    _ = 2 ^ 1024 := by rw [← zpow_natCast, ← zpow_add₀ two_ne_zero, ← zpow_natCast]; rfl

/-- The digits of a decimal number tell its magnitude. -/
theorem magnitude_bounds {digits : ℕ} (hdigits : digits ≠ 0) (exponent : ℤ) :
    (10 : ℚ) ^ ((toString digits).length + exponent - 1) ≤ digits * 10 ^ exponent ∧
      digits * 10 ^ exponent < (10 : ℚ) ^ ((toString digits).length + exponent) := by
  have hunit : (0 : ℚ) < 10 ^ exponent := zpow_pos (by decide) exponent
  have hlength := length_toString_pos digits
  have hlow : (10 : ℚ) ^ ((toString digits).length - 1) ≤ digits := by
    exact_mod_cast pow_length_toString_le hdigits
  have hhigh : (digits : ℚ) < 10 ^ (toString digits).length := by
    exact_mod_cast lt_pow_length_toString digits
  have hsplit : ((toString digits).length + exponent - 1 : ℤ) =
      ((toString digits).length - 1 : ℕ) + exponent := by omega
  rw [hsplit, zpow_add₀ (by decide), zpow_add₀ (by decide), zpow_natCast, zpow_natCast]
  exact ⟨mul_le_mul_of_nonneg_right hlow hunit.le, mul_lt_mul_of_pos_right hhigh hunit⟩

theorem two_pow_lt_ten_pow : (2 : ℚ) ^ 1200 < 10 ^ 400 :=
  calc (2 : ℚ) ^ 1200 = (2 ^ 3) ^ 400 := by rw [← pow_mul]
    _ < 10 ^ 400 := pow_lt_pow_left₀ (by norm_num) (by positivity) (by decide)

/-- A number with more than 400 digits before the point is too large for a float. -/
theorem not_roundsTo_large (hcanonical : b.Canonical) (hlargest : b.exponent ≤ 971)
    (hlarge : (10 : ℚ) ^ (400 : ℤ) ≤ q) : ¬ RoundsTo q b := by
  intro h
  have hbound : (2 : ℚ) ^ 1024 ≤ 2 ^ 1200 := pow_le_pow_right₀ one_le_two (by decide)
  rw [zpow_ofNat] at hlarge
  exact lt_irrefl q (((lt_of_roundsTo hcanonical hlargest h).trans_le hbound).trans
    (two_pow_lt_ten_pow.trans_le hlarge))

/-- A number with more than 400 zeros after the point rounds to zero. -/
theorem lt_least {q : ℚ} (hsmall : q < (10 : ℚ) ^ (-400 : ℤ)) : q < 2 ^ (-1075 : ℤ) := by
  have hbound : (2 : ℚ) ^ 1075 ≤ 2 ^ 1200 := pow_le_pow_right₀ one_le_two (by decide)
  have hinverse : ((10 : ℚ) ^ 400)⁻¹ < (2 ^ 1075)⁻¹ :=
    (inv_lt_inv₀ (by positivity) (by positivity)).mpr (hbound.trans_lt two_pow_lt_ten_pow)
  rw [zpow_neg, zpow_ofNat] at hsmall ⊢
  exact hsmall.trans hinverse

/-- A decimal number is read as the float nearest to it. -/
theorem classify_toFloat (negative : Bool) {digits : ℕ} {exponent : ℤ} (hcanonical : b.Canonical)
    (hlargest : b.exponent ≤ 971) (h : RoundsTo (digits * 10 ^ exponent) b) :
    classify (toFloat negative digits exponent) = .finite negative b := by
  have hzero : classify 0.0 = .finite false ⟨0, -1074⟩ := by decide +kernel
  have hpositive : classify (toFloat false digits exponent) = .finite false b := by
    unfold toFloat
    simp only [beq_iff_eq, Bool.false_eq_true, if_false]
    by_cases hdigits : digits = 0
    · rw [hdigits, Nat.cast_zero, zero_mul] at h
      rw [if_pos hdigits, hzero, eq_zero_of_roundsTo hcanonical h le_rfl (two_zpow_pos _)]
    · obtain ⟨hlow, hhigh⟩ := magnitude_bounds hdigits exponent
      have hlength := length_toString_pos digits
      rw [if_neg hdigits]
      split_ifs with hlarge hsmall hwhole
      · refine absurd h (not_roundsTo_large hcanonical hlargest (le_trans ?_ hlow))
        exact zpow_le_zpow_right₀ (by decide) (by omega)
      · have hleast := hhigh.trans_le (zpow_le_zpow_right₀ (by decide) hsmall.le)
        rw [hzero, eq_zero_of_roundsTo hcanonical h (by positivity) (lt_least hleast)]
      · obtain ⟨e, rfl⟩ := Int.eq_ofNat_of_zero_le hwhole
        rw [Int.toNat_natCast]
        exact classify_times hcanonical hlargest hdigits (by omega) (by exact_mod_cast h)
      · obtain ⟨e, he⟩ := Int.eq_ofNat_of_zero_le (neg_nonneg.mpr (not_le.mp hwhole).le)
        obtain rfl : exponent = -e := by omega
        have hlog : (toString digits).length - 1 ≤ digits.log2 := by
          rw [Nat.le_log2 hdigits]
          exact (Nat.pow_le_pow_left (by decide) _).trans (pow_length_toString_le hdigits)
        rw [neg_neg, Int.toNat_natCast]
        refine classify_over hcanonical hlargest hdigits (by omega) (by omega) ?_
        rwa [zpow_neg, zpow_natCast, ← div_eq_mul_inv] at h
  cases negative with
  | false => exact hpositive
  | true => exact classify_neg hpositive

end Nearest

end VisualNovel.Decimal
