import Mathlib
import MacroHost.Decimal.Text
import MacroHost.Proofs.Decimal.Nearest

/-!
# Doubles in order

A positive finite double is compared with others by exponent and then by mantissa.  Its pattern holds
both in this order, so that of two doubles the greater one has the greater pattern and stands for the
greater number.
-/

namespace MacroHost
namespace Decimal

open Float.Model

/-! ## The parts of a pattern -/

section Parts

variable (bits : BitVec Format.binary64.numBits)

theorem unpackMantissa_toNat :
    (UnpackedFloat.unpackMantissa bits).toNat = bits.toNat % 2 ^ 52 := by
  simp [UnpackedFloat.unpackMantissa]

theorem unpackExponent_toNat :
    (UnpackedFloat.unpackExponent bits).toNat = bits.toNat / 2 ^ 52 % 2 ^ 11 := by
  simp [UnpackedFloat.unpackExponent, Nat.shiftRight_eq_div_pow]

/-- A normal number has an implicit bit before its fraction. -/
theorem append_unpackMantissa_toNat :
    (1#1 ++ UnpackedFloat.unpackMantissa bits).toNat = 2 ^ 52 + bits.toNat % 2 ^ 52 := by
  have small : (UnpackedFloat.unpackMantissa bits).toNat < 2 ^ 52 := BitVec.isLt _
  rw [BitVec.toNat_append, ← Nat.shiftLeft_add_eq_or_of_lt small, unpackMantissa_toNat]
  rfl

end Parts

theorem float_le_iff (x y : Float) : x ≤ y ↔ x.toModel.unpack.le y.toModel.unpack = true := by
  change decide (x.toModel ≤ y.toModel) = true ↔ _
  exact decide_eq_true_iff

theorem float_lt_iff (x y : Float) : x < y ↔ x.toModel.unpack.lt y.toModel.unpack = true := by
  change decide (x.toModel < y.toModel) = true ↔ _
  exact decide_eq_true_iff

theorem exists_unpack_eq {x : Float} (finite : x.isFinite = true) (positive : ¬x ≤ 0) :
    ∃ mantissa exponent mantissa_pos,
      x.toModel.unpack = .finite .positive mantissa exponent mantissa_pos := by
  have zero_unpack : (0 : Float).toModel.unpack = .zero .positive := rfl
  rw [float_le_iff, zero_unpack] at positive
  change x.toModel.unpack.isFinite = true at finite
  cases unpacked : x.toModel.unpack with
  | infinity | notANumber => simp [unpacked, UnpackedFloat.isFinite] at finite
  | zero => simp [unpacked, UnpackedFloat.le, UnpackedFloat.compare] at positive
  | finite sign mantissa exponent mantissa_pos =>
      cases sign with
      | negative => simp [unpacked, UnpackedFloat.le, UnpackedFloat.compare] at positive
      | positive => exact ⟨mantissa, exponent, mantissa_pos, rfl⟩

/-- What is greater than a positive finite double is positive, and finite or infinite. -/
theorem pos_of_le {x y : Float} (finite : x.isFinite = true) (positive : ¬x ≤ 0) (ordered : x ≤ y) :
    0 < y ∧ ¬y ≤ 0 ∧ (y.isFinite = true ∨ y.isInf = true) := by
  obtain ⟨mantissa, exponent, _, unpacked⟩ := exists_unpack_eq finite positive
  have zero_unpack : (0 : Float).toModel.unpack = .zero .positive := rfl
  rw [float_le_iff, unpacked] at ordered
  rw [float_lt_iff, float_le_iff, zero_unpack]
  change _ ∧ _ ∧ (y.toModel.unpack.isFinite = true ∨ y.toModel.unpack.isInf = true)
  generalize y.toModel.unpack = other at *
  cases other with
  | notANumber | zero => cases ordered
  | infinity sign | finite sign =>
      cases sign with
      | negative => cases ordered
      | positive =>
          exact ⟨rfl, Bool.false_ne_true, by simp [UnpackedFloat.isFinite, UnpackedFloat.isInf]⟩

/-- The mantissa and the exponent of a finite double, as its pattern has them. -/
theorem pattern_of_unpack_eq {x : Float} {sign : UnpackedFloat.Sign} {mantissa : Nat} {exponent : Int}
    {mantissa_pos : 0 < mantissa}
    (unpacked : x.toModel.unpack = .finite sign mantissa exponent mantissa_pos) :
    ∃ steps : Nat, exponent = steps - 1074 ∧ (signed x.toBits).2 = steps * 2 ^ 52 + mantissa ∧
      mantissa < 2 * 2 ^ 52 ∧ (steps = 0 ∨ 2 ^ 52 ≤ mantissa) := by
  have pattern : (signed x.toBits).2 =
      x.toBits.toNat / 2 ^ 52 % 2 ^ 11 * 2 ^ 52 + x.toBits.toNat % 2 ^ 52 := by
    simp only [signed, Nat.shiftLeft_eq]
    omega
  have fraction_lt : x.toBits.toNat % 2 ^ 52 < 2 ^ 52 := Nat.mod_lt _ (Nat.two_pow_pos 52)
  have biased_eq := unpackExponent_toNat x.toBits.toBitVec
  have fraction_eq := unpackMantissa_toNat x.toBits.toBitVec
  have full_eq := append_unpackMantissa_toNat x.toBits.toBitVec
  rw [UInt64.toNat_toBitVec] at biased_eq fraction_eq full_eq
  rw [← biased_eq] at pattern
  change UnpackedFloat.unpack Format.binary64 x.toBits.toBitVec = _ at unpacked
  rw [UnpackedFloat.unpack] at unpacked
  dsimp only at unpacked
  split at unpacked
  · split at unpacked <;> cases unpacked
  · split at unpacked
    · rename_i subnormal
      split at unpacked
      · cases unpacked
      · cases unpacked
        refine ⟨0, ?_, ?_, by omega, .inl rfl⟩
        · rw [subnormal]
          rfl
        · rw [pattern, subnormal, fraction_eq]
          rfl
    · rename_i normal
      obtain ⟨steps, steps_eq⟩ :=
        Nat.exists_eq_succ_of_ne_zero fun zero => normal (BitVec.eq_of_toNat_eq zero)
      cases unpacked
      refine ⟨steps, ?_, ?_, by omega, .inr (by omega)⟩
      · rw [steps_eq]
        simp [Format.exponentBias]
        omega
      · rw [pattern, steps_eq, full_eq, Nat.succ_mul]
        omega

/-- Of two positive finite doubles the greater one has the greater pattern. -/
theorem signed_mono {x y : Float} (finite : x.isFinite = true) (positive : ¬x ≤ 0)
    (otherFinite : y.isFinite = true) (otherPositive : ¬y ≤ 0) (ordered : x ≤ y) :
    (signed x.toBits).2 ≤ (signed y.toBits).2 := by
  obtain ⟨mantissa, exponent, _, unpacked⟩ := exists_unpack_eq finite positive
  obtain ⟨other, otherExponent, _, otherUnpacked⟩ := exists_unpack_eq otherFinite otherPositive
  obtain ⟨steps, rfl, pattern, small, -⟩ := pattern_of_unpack_eq unpacked
  obtain ⟨otherSteps, rfl, otherPattern, -, normal⟩ := pattern_of_unpack_eq otherUnpacked
  have order : steps < otherSteps ∨ steps = otherSteps ∧ mantissa ≤ other := by
    rw [float_le_iff, unpacked, otherUnpacked, UnpackedFloat.le, UnpackedFloat.compare,
      Option.any_some, Ordering.isLE_then_iff_or, compare_lt_iff_lt, compare_eq_iff_eq,
      Nat.isLE_compare] at ordered
    omega
  rw [pattern, otherPattern]
  omega

/-- Of two positive finite doubles the greater one stands for the greater number. -/
theorem amount_mono {x y : Float} (finite : x.isFinite = true) (positive : ¬x ≤ 0)
    (otherFinite : y.isFinite = true) (otherPositive : ¬y ≤ 0) (ordered : x ≤ y) :
    double.amount (signed x.toBits).2 ≤ double.amount (signed y.toBits).2 :=
  double.amount_strictMono.monotone (signed_mono finite positive otherFinite otherPositive ordered)

end Decimal
end MacroHost
