import Mathlib
import StaticReflection.Value.Compare

namespace StaticReflection

/-! Rounded numbers are no NaN, and none but zero among the integers is rounded to zero. Doubles
are compared in a total order apart from NaN. -/

namespace Binary64

open Float.Model (Format UnpackedFloat)
open Float.Model.UnpackedFloat (isNaNBits isNaNBits_packedNaN unpackExponent unpackMantissa)

/-! Words and their fields. -/

theorem toNat_unpackMantissa (word : BitVec Format.binary64.numBits) :
    (unpackMantissa word).toNat = word.toNat % 2 ^ 52 := by
  simp [unpackMantissa, BitVec.extractLsb, BitVec.extractLsb'_toNat]

theorem toNat_unpackExponent (word : BitVec Format.binary64.numBits) :
    (unpackExponent word).toNat = word.toNat / 2 ^ 52 % 2 ^ 11 := by
  simp [unpackExponent, BitVec.extractLsb, BitVec.extractLsb'_toNat, Nat.shiftRight_eq_div_pow]

section Bits

variable {bits : UInt64} (proper : @isNaNBits .binary64 bits.toBitVec = false)
include proper

/-- Only the bits of a NaN change when they become a double. -/
theorem toBits_ofBits : (Float.ofBits bits).toBits = bits := by
  refine UInt64.toBitVec_inj.mp ((@UnpackedFloat.pack_unpack .binary64 _ (by decide)).trans ?_)
  rw [proper]
  rfl

theorem isNaN_ofBits : (Float.ofBits bits).isNaN = false := by
  rw [Float.isNaN_eq_decide_eq_nan, decide_eq_false_iff_not]
  intro same
  have packed : bits = Float.nan.toBits := by rw [← same, toBits_ofBits proper]
  rw [packed] at proper
  exact Bool.false_ne_true (proper.symm.trans isNaNBits_packedNaN)

end Bits

/-! Rounded numbers. -/

theorem nearestBits_le (num den : Nat) : nearestBits num den ≤ infinityBits := by
  unfold nearestBits
  split
  · exact Nat.zero_le _
  · exact Nat.min_le_left _ _

/-- The doubles that are too small for a stored leading bit are below all integers but zero. -/
theorem le_nearestBits {num : Nat} (nonzero : num ≠ 0) : 2 ^ 52 ≤ nearestBits num 1 := by
  have places : -53 ≤ lastPlace num 1 := by
    have one : Nat.log2 1 = 0 := by decide
    unfold lastPlace
    dsimp only
    rw [one]
    split <;> omega
  have above : 2 ^ 52 ≤ (lastPlace num 1 - minExponent).toNat * Nat.pow 2 52 := by
    have more : 1 ≤ (lastPlace num 1 - minExponent).toNat := by
      unfold minExponent
      omega
    exact Nat.le_mul_of_pos_left _ more
  unfold nearestBits
  rw [if_neg nonzero]
  exact Nat.le_min.mpr ⟨by decide, Nat.le_add_right_of_le above⟩

section Ratio

variable (negative : Bool) (num den : Nat)

/-- The word of a rounded ratio: the magnitude, and the sign before it. -/
def ratioBits : UInt64 :=
  UInt64.ofNat (nearestBits num den + if negative then Nat.pow 2 63 else 0)

theorem toNat_ratioBits : (ratioBits negative num den).toNat =
    nearestBits num den + if negative then 2 ^ 63 else 0 := by
  have below := nearestBits_le num den
  unfold infinityBits at below
  change (nearestBits num den + if negative then Nat.pow 2 63 else 0) % 2 ^ 64 = _
  refine Nat.mod_eq_of_lt ?_
  have power : Nat.pow 2 63 = 2 ^ 63 := rfl
  rw [power]
  split <;> omega

theorem isNaNBits_ratioBits :
    @isNaNBits .binary64 (ratioBits negative num den).toBitVec = false := by
  refine decide_eq_false ?_
  rintro ⟨exponent, mantissa⟩
  have high := congrArg BitVec.toNat exponent
  rw [toNat_unpackExponent, UInt64.toNat_toBitVec, toNat_ratioBits] at high
  have below := nearestBits_le num den
  unfold infinityBits at below
  refine mantissa (BitVec.eq_of_toNat_eq ?_)
  rw [toNat_unpackMantissa, UInt64.toNat_toBitVec, toNat_ratioBits]
  change _ = 2 ^ 11 - 1 at high
  change _ = 0
  split at high <;> split <;> omega

theorem toBits_ofRatio : (ofRatio negative num den).toBits = ratioBits negative num den :=
  toBits_ofBits (isNaNBits_ratioBits negative num den)

theorem isNaN_ofRatio : (ofRatio negative num den).isNaN = false :=
  isNaN_ofBits (isNaNBits_ratioBits negative num den)

end Ratio

theorem isNaN_ofDecimal (negative : Bool) (digits : Nat) (exponent : Int) :
    (ofDecimal negative digits exponent).isNaN = false := by
  unfold ofDecimal
  dsimp only
  split
  · exact isNaN_ofRatio _ _ _
  split
  · exact isNaN_ofRatio _ _ _
  split
  · exact isNaN_ofRatio _ _ _
  · exact isNaN_ofRatio _ _ _

/-- No other integer is rounded to zero. -/
theorem ofInt_beq_zero (value : Int) : (ofInt value == 0.0) = decide (value = 0) := by
  by_cases zero : value = 0
  · subst zero
    decide
  · rw [decide_eq_false zero, ← Bool.not_eq_true, Float.beq_iff_ne_nan_and_eq]
    have above : 2 ^ 52 ≤ nearestBits value.natAbs 1 := le_nearestBits (by omega)
    have below := nearestBits_le value.natAbs 1
    unfold infinityBits at below
    have word : (ofInt value).toBits.toNat = _ :=
      (congrArg UInt64.toNat (toBits_ofRatio _ _ _)).trans (toNat_ratioBits _ _ _)
    have zeros : (0.0 : Float).toBits.toNat = 0 ∧ (0 : Float).toBits.toNat = 0 ∧
        (-0 : Float).toBits.toNat = 2 ^ 63 := by decide
    rintro ⟨-, -, same | ⟨same, -⟩ | ⟨same, -⟩⟩ <;> rw [same] at word <;>
      split at word <;> omega

end Binary64

/-! Comparison. -/

section Comparison

open Float.Model (UnpackedFloat)

theorem compare_sign_swap (s t : UnpackedFloat.Sign) : compare t s = (compare s t).swap := by
  cases s <;> cases t <;> rfl

theorem compare_parts_swap (a b : UnpackedFloat) :
    b.compare a = (a.compare b).map Ordering.swap := by
  cases a with
  | notANumber => cases b <;> rfl
  | infinity s =>
      cases b with
      | infinity t => exact congrArg some (compare_sign_swap s t)
      | _ => cases s <;> rfl
  | zero s =>
      cases b with
      | infinity t => cases t <;> rfl
      | finite t n f pos => cases t <;> rfl
      | _ => rfl
  | finite s m e pos =>
      cases b with
      | infinity t => cases t <;> rfl
      | notANumber => rfl
      | zero t => cases s <;> rfl
      | finite t n f pos =>
          cases s <;> cases t <;>
            simp [UnpackedFloat.compare, Ordering.swap_then, ← Std.OrientedCmp.eq_swap]

variable (a b : Float)

theorem lt_iff_compare : a < b ↔ a.toModel.unpack.compare b.toModel.unpack = some .lt := by
  change decide ((a.toModel.unpack.compare b.toModel.unpack == some .lt) = true) = true ↔ _
  rw [decide_eq_true_iff, beq_iff_eq]

theorem beq_iff_compare :
    (a == b) = true ↔ a.toModel.unpack.compare b.toModel.unpack = some .eq := by
  change (a.toModel.unpack.compare b.toModel.unpack == some .eq) = true ↔ _
  rw [beq_iff_eq]

/-- The order of doubles is the order of their parts. -/
theorem compareFloats?_eq :
    compareFloats? a b = a.toModel.unpack.compare b.toModel.unpack := by
  unfold compareFloats?
  simp only [lt_iff_compare, beq_iff_compare]
  rw [compare_parts_swap a.toModel.unpack b.toModel.unpack]
  match a.toModel.unpack.compare b.toModel.unpack with
  | none => rfl
  | some .lt => rfl
  | some .eq => rfl
  | some .gt => rfl

theorem compareFloats?_swap : compareFloats? b a = (compareFloats? a b).map Ordering.swap := by
  rw [compareFloats?_eq, compareFloats?_eq, compare_parts_swap]

theorem compareFloats?_of_beq {a b : Float} (same : (a == b) = true) :
    compareFloats? a b = some .eq := by
  rw [compareFloats?_eq, (beq_iff_compare a b).mp same]

theorem compareFloats?_self {x : Float} (proper : x.isNaN = false) :
    compareFloats? x x = some .eq := by
  rw [Float.isNaN_eq_decide_eq_nan, decide_eq_false_iff_not] at proper
  exact compareFloats?_of_beq (Float.beq_self_iff.mpr proper)

end Comparison

end StaticReflection
