import Mathlib
import PriceFormula.Number.Rank

/-!
This file takes doubles apart into their sign and their rank and puts them together again. The
ranks up to that of infinity are those of numbers, and all patterns above stand for what is not a
number.
-/

namespace PriceFormula.Number

open Float.Model (Format)
open Float.Model.UnpackedFloat

/-- The exponent is at its end exactly if all of its eleven bits are set. -/
theorem unpackExponent_eq_iff (bits : BitVec 64) :
    @unpackExponent .binary64 bits = -1#_ ↔ bits.toNat >>> 52 % 2048 = 2047 := by
  rw [unpackExponent_def, ← BitVec.toNat_inj, BitVec.extractLsb'_toNat]
  rfl

/-- The ranks above that of infinity are the ones that belong to no number. -/
theorem isNaNBits_iff (bits : BitVec 64) :
    @isNaNBits .binary64 bits = true ↔ infiniteRank < bits.toNat % 1 <<< 63 := by
  have exponent := unpackExponent_eq_iff bits
  have mantissa : @unpackMantissa .binary64 bits = 0#_ ↔ bits.toNat % 1 <<< 52 = 0 := by
    rw [unpackMantissa_def, ← BitVec.toNat_inj, BitVec.extractLsb'_toNat]
    rfl
  rw [isNaNBits, decide_eq_true_iff, ne_eq, exponent, mantissa, infiniteRank]
  simp only [Nat.shiftRight_eq_div_pow, Nat.reduceShiftLeft, Nat.reducePow]
  omega

theorem isNaN_unpack (bits : BitVec 64) :
    isNaN (unpack Format.binary64 bits) = @isNaNBits .binary64 bits := by
  by_cases special : @unpackExponent .binary64 bits = -1#_
  · by_cases infinite : @unpackMantissa .binary64 bits = 0#_
    · simp [unpack, isNaNBits, special, infinite, isNaN]
    · simp [unpack, isNaNBits, special, infinite, isNaN]
  · simp only [unpack, isNaNBits, special, ↓reduceIte, false_and, decide_false]
    split_ifs <;> rfl

/-- A double is a number exactly if its rank is at most that of infinity. -/
theorem isNaN_eq_false_iff {value : Float} : value.isNaN = false ↔ rank value ≤ infiniteRank := by
  have bits : value.isNaN = @isNaNBits .binary64 value.toBits.toBitVec := isNaN_unpack _
  rw [bits, ← Bool.not_eq_true, isNaNBits_iff, Nat.not_lt]
  rfl

/-- Finite doubles are those whose exponent is not at its end. -/
theorem isFinite_unpack (bits : BitVec 64) :
    isFinite (unpack Format.binary64 bits) = true ↔ @unpackExponent .binary64 bits ≠ -1#_ := by
  by_cases special : @unpackExponent .binary64 bits = -1#_
  · simp only [unpack, special, ↓reduceIte, ne_eq, not_true_eq_false, iff_false]
    split_ifs <;> exact Bool.false_ne_true
  · simp only [unpack, special, ↓reduceIte, ne_eq, not_false_eq_true, iff_true]
    split_ifs <;> rfl

/-- The finite doubles are those below infinity. -/
theorem isFinite_iff {value : Float} : value.isFinite = true ↔ rank value < infiniteRank := by
  have bits : value.isFinite = true ↔ value.toBits.toNat >>> 52 % 2048 ≠ 2047 :=
    (isFinite_unpack _).trans (not_congr (unpackExponent_eq_iff _))
  have size := value.toBits.toNat_lt
  rw [bits, rank, infiniteRank]
  simp only [Nat.shiftRight_eq_div_pow, Nat.reduceShiftLeft, Nat.reducePow]
  omega

/-- The bits of a number are kept. -/
theorem toBits_ofBits {bits : UInt64} (number : bits.toNat % 1 <<< 63 ≤ infiniteRank) :
    (Float.ofBits bits).toBits = bits := by
  have sound : @isNaNBits .binary64 bits.toBitVec = false := by
    rw [← Bool.not_eq_true, isNaNBits_iff]
    exact Nat.not_lt.2 number
  apply UInt64.toBitVec_inj.1
  change pack Format.binary64 (unpack Format.binary64 bits.toBitVec) = bits.toBitVec
  rw [pack_unpack, sound]
  rfl

/-- A double is determined by its sign and its rank. -/
theorem ofRank_rank (value : Float) : ofRank (isNegative value) (rank value) = value := by
  have size := value.toBits.toNat_lt
  have whole : (rank value + if isNegative value then 1 <<< 63 else 0) = value.toBits.toNat := by
    simp only [rank, isNegative, decide_eq_true_iff, Nat.reduceShiftLeft]
    split <;> omega
  rw [ofRank, whole, UInt64.ofNat_toNat, Float.ofBits_toBits]

/-- Every rank up to infinity belongs to a double of either sign. -/
theorem rank_ofRank (negative : Bool) {magnitude : Nat} (number : magnitude ≤ infiniteRank) :
    rank (ofRank negative magnitude) = magnitude := by
  have bound : magnitude < 1 <<< 63 := Nat.lt_of_le_of_lt number (by decide)
  have bits : (UInt64.ofNat (magnitude + if negative then 1 <<< 63 else 0)).toNat % 1 <<< 63 =
      magnitude := by
    rw [UInt64.toNat_ofNat']
    simp only [Nat.reduceShiftLeft] at bound ⊢
    split <;> omega
  rw [rank, ofRank, toBits_ofBits (by rwa [bits]), bits]

/-- Whatever is made of a rank up to that of infinity is a number. -/
theorem isNaN_ofRank (negative : Bool) {magnitude : Nat} (number : magnitude ≤ infiniteRank) :
    (ofRank negative magnitude).isNaN = false := by
  rwa [isNaN_eq_false_iff, rank_ofRank negative number]

end PriceFormula.Number
