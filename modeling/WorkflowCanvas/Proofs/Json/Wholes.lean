import Mathlib
import WorkflowCanvas.Json.Value

/-!
Whole numbers as floats.

A value holds whole numbers of up to 64 bits, and each of them is taken as the float nearest to it.
Bounds on the mantissa and the exponent are followed through rounding, products and packing. They
are far from sharp, but even so what they allow is far from the end of the range, so no whole number
becomes infinite.
-/

namespace WorkflowCanvas.Json

open Float.Model
open Float.Model.UnpackedFloat (Sign Accuracy ExtendedMantissa shiftToTargetExponent shiftToExponent
  roundWithAccuracy decreaseExponent unpackExponent unpackMantissa)

/-- An unpacked float whose mantissa has no more than these binary digits and whose exponent is not
greater than this one. -/
inductive Within (digits : Nat) (exponent : Int) : UnpackedFloat → Prop
  | zero (sign : Sign) : Within digits exponent (.zero sign)
  | finite (sign : Sign) {m : Nat} {e : Int} (pos : 0 < m) :
      m < 2 ^ digits → e ≤ exponent → Within digits exponent (.finite sign m e pos)

variable {digits digits' : Nat} {exponent exponent' : Int} {x y : UnpackedFloat}

namespace Within

theorem isFinite (h : Within digits exponent x) : x.isFinite = true := by
  cases h <;> rfl

theorem neg (h : Within digits exponent x) : Within digits exponent x.neg := by
  cases h with
  | zero sign => exact .zero _
  | finite sign pos hm he => exact .finite _ pos hm he

theorem mono (h : Within digits exponent x) (hdigits : digits ≤ digits')
    (hexponent : exponent ≤ exponent') : Within digits' exponent' x := by
  cases h with
  | zero sign => exact .zero sign
  | finite sign pos hm he =>
      exact .finite sign pos (Nat.lt_of_lt_of_le hm (Nat.pow_le_pow_right (by decide) hdigits))
        (Int.le_trans he hexponent)

end Within

/-! ### Rounding -/

theorem mantissa_shiftRight_le (em : ExtendedMantissa) (k : Nat) :
    (em >>> k).mantissa ≤ em.mantissa := by
  induction k with
  | zero => exact Nat.le_refl _
  | succ k ih => exact Nat.le_trans (Nat.div_le_self _ 2) ih

theorem roundedMantissa_le (em : ExtendedMantissa) : em.roundedMantissa ≤ em.mantissa + 1 := by
  rw [ExtendedMantissa.roundedMantissa]
  cases em.accuracy with
  | exact => exact Nat.le_succ em.mantissa
  | inexact side => cases side <;> simp only [Accuracy.roundToNearestEven] <;> omega

theorem log2_le_of_lt {m : Nat} (h : m < 2 ^ digits) : m.log2 ≤ digits := by
  by_cases hm : m = 0
  · simp [hm]
  · exact Nat.le_of_lt ((Nat.log2_lt hm).mpr h)

/-- A shift takes digits off the mantissa, and adds no more to the exponent than there were. -/
theorem shiftToTargetExponent_le {m : Nat} {e : Int} (hm : m < 2 ^ digits) (he : e ≤ exponent)
    (hleast : -1074 ≤ exponent) (accuracy : Accuracy) :
    let shifted := shiftToTargetExponent Format.binary64 m e accuracy
    shifted.1.mantissa ≤ m ∧ shifted.2 ≤ exponent + digits := by
  have hlog := log2_le_of_lt hm
  constructor
  · refine Nat.le_trans (mantissa_shiftRight_le _ _) ?_
    cases accuracy with
    | exact => exact Nat.le_refl m
    | inexact side => cases side <;> exact Nat.le_refl m
  · simp only [shiftToTargetExponent, shiftToExponent, Format.targetExponent, totalExponent,
      Format.mantissaBits, Format.minExponent]
    omega

theorem within_roundWithAccuracy {m : Nat} {e : Int} (hm : m < 2 ^ digits) (he : e ≤ exponent)
    (hleast : -1074 ≤ exponent) (sign : Sign) (accuracy : Accuracy) :
    Within (digits + 1) (exponent + digits + (digits + 1))
      (roundWithAccuracy Format.binary64 sign m e accuracy) := by
  obtain ⟨hm₁, he₁⟩ := shiftToTargetExponent_le hm he hleast accuracy
  rw [roundWithAccuracy]
  generalize shiftToTargetExponent Format.binary64 m e accuracy = first at hm₁ he₁ ⊢
  obtain ⟨em₁, e₁⟩ := first
  have hrounded : em₁.roundedMantissa < 2 ^ (digits + 1) := by
    have hle := roundedMantissa_le em₁
    have hpow := Nat.pow_succ (n := 2) (m := digits)
    dsimp only at hm₁
    omega
  obtain ⟨hm₂, he₂⟩ := shiftToTargetExponent_le hrounded he₁ (by omega) .exact
  dsimp only
  split
  · exact .zero sign
  · exact .finite sign _ (Nat.lt_of_le_of_lt hm₂ hrounded) he₂

theorem within_mul (hx : Within digits exponent x) (hy : Within digits' exponent' y)
    (hleast : -1074 ≤ exponent + exponent') :
    Within (digits + digits' + 1)
      (exponent + exponent' + (digits + digits' : Nat) + ((digits + digits' : Nat) + 1))
      (UnpackedFloat.mul Format.binary64 x y) := by
  cases hx with
  | zero => cases hy <;> exact .zero _
  | finite _ _ hm he =>
      cases hy with
      | zero => exact .zero _
      | finite _ _ hm' he' =>
          refine within_roundWithAccuracy ?_ (Int.add_le_add he he') hleast _ .exact
          rw [Nat.pow_add]
          exact Nat.mul_lt_mul'' hm hm'

/-! ### Packing -/

theorem within_unpack {b : BitVec Format.binary64.numBits}
    (hmost : ((unpackExponent b).toNat : Int) < 2047)
    (hexponent : ((unpackExponent b).toNat : Int) ≤ exponent + 1075)
    (hleast : -1074 ≤ exponent) :
    Within 53 exponent (UnpackedFloat.unpack Format.binary64 b) := by
  have hne : unpackExponent b ≠ -1#_ := by
    intro heq
    rw [heq] at hmost
    exact absurd hmost (by decide)
  rw [UnpackedFloat.unpack]
  simp only [if_neg hne]
  split
  · split
    · exact .zero _
    · refine .finite _ _ (Nat.lt_trans (unpackMantissa b).isLt (by decide)) ?_
      simp [Format.exponentBias, *]
  · refine .finite _ _ (1#1 ++ unpackMantissa b).isLt ?_
    simp only [Format.exponentBias]
    omega

theorem within_unpack_pack (h : Within digits exponent x) (hleast : -1074 ≤ exponent)
    (hmost : exponent < 971) : Within 53 exponent (Float.Model.pack x).unpack := by
  change Within 53 exponent
    (UnpackedFloat.unpack Format.binary64 (UnpackedFloat.pack Format.binary64 x))
  cases h with
  | zero sign =>
      rw [UnpackedFloat.pack, UnpackedFloat.unpack_packedZero]
      exact .zero sign
  | @finite sign m e pos hm he =>
      have hbiased : ¬ 2 ^ Format.binary64.exponentBits ≤ (e + Format.binary64.exponentBias +
          Format.binary64.mantissaBitsWithoutImplicit).toNat + 1 := by
        simp [Format.exponentBias]
        omega
      rw [UnpackedFloat.pack]
      simp only [if_neg hbiased]
      split
      · refine within_unpack ?_ ?_ hleast <;> simp [Format.exponentBias] <;> omega
      · refine within_unpack ?_ ?_ hleast <;> simp
        omega

/-! ### Whole numbers -/

theorem within_round {n : Nat} (hn : n < 2 ^ 64) (sign : Sign) :
    Within 117 233 (UnpackedFloat.round Format.binary64 sign n 0) := by
  rw [UnpackedFloat.round, decreaseExponent]
  generalize hk : (0 - Format.binary64.targetExponent (totalExponent n 0)).toNat = k
  have hle : k ≤ 52 := by
    simp only [Format.targetExponent, totalExponent, Format.mantissaBits, Format.minExponent] at hk
    omega
  have hm : n <<< k < 2 ^ 116 := by
    rw [Nat.shiftLeft_eq]
    calc n * 2 ^ k < 2 ^ 64 * 2 ^ 52 :=
          Nat.mul_lt_mul_of_lt_of_le hn (Nat.pow_le_pow_right (by decide) hle) (by decide)
      _ = 2 ^ 116 := by decide
  have he : 0 - (k : Int) ≤ 0 := by omega
  exact within_roundWithAccuracy hm he (by decide) sign .exact

theorem within_ofUInt64 (n : UInt64) : Within 53 233 (Float.Model.ofUInt64 n).unpack := by
  have hwithin : Within 117 233 (UnpackedFloat.ofUInt64 Format.binary64 n) := by
    rw [UnpackedFloat.ofUInt64, UnpackedFloat.ofNat, UnpackedFloat.ofInt, UnpackedFloat.normalize]
    split
    · rename_i hneg
      exact absurd (Int.compare_eq_lt.mp hneg) (by omega)
    · exact .zero _
    · exact within_round n.toNat_lt .positive
  exact within_unpack_pack hwithin (by decide) (by decide)

theorem within_ofScientific {n : Nat} (hn : n < 2 ^ 64) :
    Within 119 446 (UnpackedFloat.ofScientific Format.binary64 n 0) := by
  have hshifted : n <<< 53 < 2 ^ 117 := by
    rw [Nat.shiftLeft_eq]
    omega
  have hdigits : ∀ pos, Within 117 (-53) (.finite .positive (n <<< Format.binary64.mantissaBits)
      (-Format.binary64.mantissaBits) pos) := fun pos => .finite .positive pos hshifted (by decide)
  have hone : ∀ pos, Within 1 0 (.finite .positive (10 ^ (0 : Int).toNat) 0 pos) := fun pos =>
    .finite .positive pos (by decide) (by decide)
  rw [UnpackedFloat.ofScientific]
  split
  · exact .zero _
  · rw [if_neg (by decide), if_neg (by simp), if_pos (by decide)]
    exact (within_mul (hdigits _) (hone _) (by decide)).mono (by decide) (by decide)

theorem within_ofNat {n : Nat} (hn : n < 2 ^ 64) :
    Within 53 446 (Float.ofNat n).toModel.unpack := by
  change Within 53 446 (Float.ofScientific n false 0).toModel.unpack
  rw [Float.ofScientific]
  split
  -- a number of few digits is multiplied by the power of ten, which is one here
  · have hone : Within 53 0 Float.exactlyRepresentablePowersOfTen[0].toModel.unpack :=
      .finite .positive (by decide : 0 < 2 ^ 52) (by decide) (by decide : (-52 : Int) ≤ 0)
    exact within_unpack_pack (within_mul (within_ofUInt64 n.toUInt64) hone (by decide)) (by decide)
      (by decide)
  · exact within_unpack_pack (within_ofScientific hn) (by decide) (by decide)

/-- No whole number that a value holds is beyond the range of the floats. -/
theorem isFinite_toFloat (n : Number) : n.toFloat.isFinite = true := by
  cases n with
  | real x finite => exact finite
  | whole n fits =>
      obtain ⟨hleast, hmost⟩ := fits
      cases n with
      | ofNat n =>
          have hn : n < 2 ^ 64 := by
            rw [Int.ofNat_eq_natCast] at hmost
            omega
          exact (within_ofNat hn).isFinite
      | negSucc n =>
          have hn : n + 1 < 2 ^ 64 := by omega
          exact (within_unpack_pack (within_ofNat hn).neg (by decide) (by decide)).isFinite

end WorkflowCanvas.Json
