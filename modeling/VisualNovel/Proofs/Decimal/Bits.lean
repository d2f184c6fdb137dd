import Mathlib
import VisualNovel.Proofs.Decimal.Rounding

/-!
The bits of a double. A float is unpacked as its class, so floats of one class are equal, and every
fraction that a double can hold is the class of some bits.
-/
namespace VisualNovel.Decimal

open Float.Model (Format UnpackedFloat)
open Float.Model.UnpackedFloat (Sign)

/-- The three fields of the bits. -/
def signField (bits : ℕ) : Bool := bits / 2 ^ 63 % 2 == 1

def exponentField (bits : ℕ) : ℕ := bits / 2 ^ 52 % 2048

def mantissaField (bits : ℕ) : ℕ := bits % 2 ^ 52

/-- The fraction with an exponent and a mantissa as they are stored. -/
def stored (exponent mantissa : ℕ) : Binary :=
  if exponent = 0 then ⟨mantissa, -1074⟩ else ⟨2 ^ 52 + mantissa, (exponent : ℤ) - 1075⟩

theorem classifyBits_eq (bits : ℕ) :
    classifyBits bits =
      if exponentField bits = 2047 then
        if mantissaField bits = 0 then .infinite (signField bits) else .notANumber
      else .finite (signField bits) (stored (exponentField bits) (mantissaField bits)) := by
  unfold classifyBits exponentField mantissaField signField stored
  simp only [Nat.pow_eq, beq_iff_eq]
  split_ifs <;> rfl

theorem fields_of_classifyBits {bits : ℕ} {negative : Bool} {b : Binary}
    (h : classifyBits bits = .finite negative b) :
    exponentField bits < 2047 ∧ b = stored (exponentField bits) (mantissaField bits) := by
  have hexponent : exponentField bits < 2048 := Nat.mod_lt _ (by decide)
  rw [classifyBits_eq] at h
  split_ifs at h with hspecial
  exact ⟨by omega, (FloatClass.finite.inj h).2.symm⟩

section Stored

variable {exponent mantissa : ℕ}

theorem stored_canonical (hmantissa : mantissa < 2 ^ 52) :
    (stored exponent mantissa).Canonical := by
  unfold stored
  split
  · exact ⟨hmantissa.trans (by decide), le_rfl, Or.inl rfl⟩
  · exact ⟨by simp only; omega, by simp only; omega, Or.inr (by simp only; omega)⟩

theorem stored_exponent_le (hexponent : exponent < 2047) :
    (stored exponent mantissa).exponent ≤ 971 := by
  unfold stored
  split <;> simp only <;> omega

theorem exists_stored {b : Binary} (hcanonical : b.Canonical) (hlargest : b.exponent ≤ 971) :
    ∃ exponent mantissa, exponent < 2047 ∧ mantissa < 2 ^ 52 ∧ b = stored exponent mantissa := by
  obtain ⟨significand, exponent⟩ := b
  obtain ⟨hfits, hleast, hleading⟩ := hcanonical
  simp only at hfits hleast hleading hlargest
  by_cases hsmall : significand < 2 ^ 52
  · exact ⟨0, significand, by decide, hsmall, by simp [stored]; omega⟩
  · refine ⟨(exponent + 1075).toNat, significand - 2 ^ 52, by omega, by omega, ?_⟩
    unfold stored
    rw [if_neg (by omega), Binary.mk.injEq]
    omega

theorem exists_bits (negative : Bool) {b : Binary} (hcanonical : b.Canonical)
    (hlargest : b.exponent ≤ 971) :
    ∃ v : BitVec 64, classifyBits v.toNat = .finite negative b := by
  obtain ⟨exponent, mantissa, hexponent, hmantissa, rfl⟩ := exists_stored hcanonical hlargest
  obtain ⟨bits, hbits⟩ : ∃ bits, bits =
      (if negative then 1 else 0) * 2 ^ 63 + exponent * 2 ^ 52 + mantissa := ⟨_, rfl⟩
  have hfits : bits < 2 ^ 64 := by split at hbits <;> omega
  have hsignField : signField bits = negative := by
    unfold signField
    cases negative <;> simp at hbits ⊢ <;> omega
  have hexponentField : exponentField bits = exponent := by
    unfold exponentField
    split at hbits <;> omega
  have hmantissaField : mantissaField bits = mantissa := by
    unfold mantissaField
    split at hbits <;> omega
  refine ⟨BitVec.ofNat 64 bits, ?_⟩
  rw [BitVec.toNat_ofNat, Nat.mod_eq_of_lt hfits, classifyBits_eq, hexponentField,
    if_neg hexponent.ne, hsignField, hmantissaField]

end Stored

section Unpacking

variable (v : BitVec 64)

theorem toNat_unpackMantissa :
    (@UnpackedFloat.unpackMantissa .binary64 v).toNat = mantissaField v.toNat := by
  simp [UnpackedFloat.unpackMantissa, BitVec.extractLsb, mantissaField]

theorem toNat_unpackExponent :
    (@UnpackedFloat.unpackExponent .binary64 v).toNat = exponentField v.toNat := by
  simp [UnpackedFloat.unpackExponent, BitVec.extractLsb, Nat.shiftRight_eq_div_pow, exponentField]

def signOf (negative : Bool) : Sign := if negative then .negative else .positive

theorem ofBitVec_unpackSign :
    Sign.ofBitVec (@UnpackedFloat.unpackSign .binary64 v) = signOf (signField v.toNat) := by
  have hbit : (@UnpackedFloat.unpackSign .binary64 v).toNat = v.toNat / 2 ^ 63 % 2 := by
    simp [UnpackedFloat.unpackSign, BitVec.extractLsb, Nat.shiftRight_eq_div_pow]
  unfold Sign.ofBitVec signOf signField
  rw [← hbit]
  rcases BitVec.eq_zero_or_eq_one (@UnpackedFloat.unpackSign .binary64 v) with h | h <;>
    rw [h] <;> rfl

theorem unpackExponent_eq_iff (n : BitVec 11) :
    @UnpackedFloat.unpackExponent .binary64 v = n ↔ exponentField v.toNat = n.toNat := by
  rw [← toNat_unpackExponent]
  exact BitVec.toNat_inj.symm

theorem unpackMantissa_eq_iff (n : BitVec 52) :
    @UnpackedFloat.unpackMantissa .binary64 v = n ↔ mantissaField v.toNat = n.toNat := by
  rw [← toNat_unpackMantissa]
  exact BitVec.toNat_inj.symm

/-- The first digit is not stored. -/
theorem toNat_append_unpackMantissa :
    (1#1 ++ @UnpackedFloat.unpackMantissa .binary64 v).toNat = 2 ^ 52 + mantissaField v.toNat := by
  rw [BitVec.toNat_append, ← Nat.shiftLeft_add_eq_or_of_lt (BitVec.isLt _), toNat_unpackMantissa]
  rfl

end Unpacking

/-- What is unpacked from bits of a class. -/
def FloatClass.unpacked : FloatClass → UnpackedFloat
  | .finite negative b => b.unpacked (signOf negative)
  | .infinite negative => .infinity (signOf negative)
  | .notANumber => .notANumber

theorem unpack_eq (v : BitVec 64) :
    UnpackedFloat.unpack .binary64 v = (classifyBits v.toNat).unpacked := by
  rw [classifyBits_eq]
  unfold UnpackedFloat.unpack
  dsimp only
  rw [ofBitVec_unpackSign]
  by_cases hspecial : exponentField v.toNat = 2047
  · rw [if_pos ((unpackExponent_eq_iff v (-1#11)).mpr hspecial), if_pos hspecial]
    by_cases hmantissa : mantissaField v.toNat = 0
    · rw [if_pos ((unpackMantissa_eq_iff v 0#52).mpr hmantissa), if_pos hmantissa]
      rfl
    · rw [if_neg (mt (unpackMantissa_eq_iff v 0#52).mp hmantissa), if_neg hmantissa]
      rfl
  · rw [if_neg (mt (unpackExponent_eq_iff v (-1#11)).mp hspecial), if_neg hspecial]
    unfold FloatClass.unpacked Binary.unpacked stored
    by_cases hexponent : exponentField v.toNat = 0
    · rw [if_pos ((unpackExponent_eq_iff v 0#11).mpr hexponent)]
      by_cases hmantissa : mantissaField v.toNat = 0
      · rw [dif_pos ((unpackMantissa_eq_iff v 0#52).mpr hmantissa)]
        simp [hexponent, hmantissa]
      · rw [dif_neg (mt (unpackMantissa_eq_iff v 0#52).mp hmantissa)]
        simp only [hexponent, if_true, dif_neg hmantissa, toNat_unpackMantissa,
          toNat_unpackExponent]
        rfl
    · rw [if_neg (mt (unpackExponent_eq_iff v 0#11).mp hexponent)]
      simp only [hexponent, if_false, toNat_unpackExponent]
      rw [dif_neg (by omega), UnpackedFloat.finite.injEq]
      exact ⟨rfl, toNat_append_unpackMantissa v, rfl⟩

theorem unpack_toModel (x : Float) : x.toModel.unpack = (classify x).unpacked := unpack_eq _

theorem unpack_of_classify {x : Float} {negative : Bool} {b : Binary}
    (h : classify x = .finite negative b) : x.toModel.unpack = b.unpacked (signOf negative) := by
  rw [unpack_toModel, h]
  rfl

theorem classify_injective : Function.Injective classify := by
  intro x y h
  have hunpack : x.toModel.unpack = y.toModel.unpack := by rw [unpack_toModel, unpack_toModel, h]
  have hbits := (UnpackedFloat.unpack_inj_of_valid x.toModel.valid y.toModel.valid).mp hunpack
  exact Float.toBits_inj.mp (UInt64.toBitVec_inj.mp hbits)

theorem canonical_of_classify {x : Float} {negative : Bool} {b : Binary}
    (h : classify x = .finite negative b) : b.Canonical ∧ b.exponent ≤ 971 := by
  obtain ⟨hexponent, rfl⟩ := fields_of_classifyBits h
  exact ⟨stored_canonical (Nat.mod_lt _ (by decide)), stored_exponent_le hexponent⟩

/-- A fraction that a double can hold is packed as a float of its class. -/
theorem classify_pack (negative : Bool) {b : Binary} (hcanonical : b.Canonical)
    (hlargest : b.exponent ≤ 971) :
    classify (Float.ofModel (Float.Model.pack (b.unpacked (signOf negative)))) =
      .finite negative b := by
  obtain ⟨v, hclass⟩ := exists_bits negative hcanonical hlargest
  have hspecial := (fields_of_classifyBits hclass).1.ne
  have hvalid : Format.binary64.Valid v :=
    ⟨fun hexponent _ => absurd ((unpackExponent_eq_iff v (-1#11)).mp hexponent) hspecial⟩
  have hpack : UnpackedFloat.pack .binary64 (b.unpacked (signOf negative)) = v := by
    have hunpack := unpack_eq v
    rw [hclass] at hunpack
    rw [← UnpackedFloat.pack_unpack_of_valid hvalid, hunpack]
    rfl
  change classifyBits (UnpackedFloat.pack .binary64 (b.unpacked (signOf negative))).toNat = _
  rw [hpack, hclass]

end VisualNovel.Decimal
