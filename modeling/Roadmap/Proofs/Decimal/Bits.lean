import Mathlib
import Roadmap.Decimal.Binary

namespace Roadmap.Decimal

open Float.Model (Format)
open Float.Model.UnpackedFloat

abbrev Word := BitVec Format.binary64.numBits

theorem toBitVec_ofBitVec (bit : BitVec 1) : (Sign.ofBitVec bit).toBitVec = bit := by
  have bound := bit.isLt
  have cases : bit.toNat = 0 ∨ bit.toNat = 1 := by omega
  rcases cases with zero | one
  · have same : bit = 0 := BitVec.eq_of_toNat_eq zero
    subst same; rfl
  · have same : bit = 1 := BitVec.eq_of_toNat_eq one
    subst same; rfl

theorem exponent_toNat (word : Word) :
    (unpackExponent word).toNat = word.toNat / 2 ^ 52 % 2 ^ 11 := by
  simp [unpackExponent, BitVec.extractLsb_toNat, Nat.shiftRight_eq_div_pow]

theorem mantissa_toNat (word : Word) :
    (unpackMantissa word).toNat = word.toNat % 2 ^ 52 := by
  simp [unpackMantissa, BitVec.extractLsb_toNat]

theorem sign_toNat (word : Word) :
    (unpackSign word).toNat = word.toNat / 2 ^ 63 % 2 := by
  simp [unpackSign, BitVec.extractLsb_toNat, Nat.shiftRight_eq_div_pow]

theorem packComponents_unpack (word : Word) :
    packComponents .binary64 (Sign.ofBitVec (unpackSign word)) (unpackExponent word)
      (unpackMantissa word) = word := by
  apply BitVec.eq_of_toNat_eq
  have bound : word.toNat < 2 ^ 64 := word.isLt
  have mantissa : word.toNat % 2 ^ 52 < 2 ^ 52 := Nat.mod_lt _ (by decide)
  have exponent : word.toNat / 2 ^ 52 % 2 ^ 11 < 2 ^ 11 := Nat.mod_lt _ (by decide)
  simp only [packComponents, toBitVec_ofBitVec, BitVec.toNat_append, sign_toNat, exponent_toNat,
    mantissa_toNat]
  rw [← Nat.shiftLeft_add_eq_or_of_lt exponent, ← Nat.shiftLeft_add_eq_or_of_lt mantissa,
    Nat.shiftLeft_eq, Nat.shiftLeft_eq]
  omega

theorem pack_subnormal (sign : Sign) (mantissa : Nat) (positive : 0 < mantissa)
    (small : mantissa < 2 ^ 52) :
    pack .binary64 (.finite sign mantissa (-1074) positive) =
      packComponents .binary64 sign 0#_ (BitVec.ofNat _ mantissa) := by
  have short : ¬ mantissa.log2 + 1 = Format.binary64.mantissaBits := by
    have log := (Nat.log2_lt (Nat.ne_of_gt positive)).2 small
    have width : Format.binary64.mantissaBits = 53 := rfl
    omega
  simp only [pack]
  rw [if_neg (by decide), if_neg short]

theorem pack_normal (sign : Sign) (mantissa exponent : Nat) (positive : 0 < mantissa)
    (lower : 2 ^ 52 ≤ mantissa) (upper : mantissa < 2 ^ 53) (finite : exponent < 2047) :
    pack .binary64 (.finite sign mantissa (exponent - 1075) positive) =
      packComponents .binary64 sign (BitVec.ofNat _ exponent) (BitVec.ofNat _ mantissa) := by
  have long : mantissa.log2 + 1 = Format.binary64.mantissaBits := by
    have below := (Nat.log2_lt (Nat.ne_of_gt positive)).2 upper
    have above := (Nat.le_log2 (Nat.ne_of_gt positive)).2 lower
    have width : Format.binary64.mantissaBits = 53 := rfl
    omega
  have biased : ((exponent : Int) - 1075 + Format.binary64.exponentBias + (52 : Nat)).toNat =
      exponent := by
    have bias : (Format.binary64.exponentBias : Int) = 1023 := rfl
    omega
  simp only [pack]
  rw [if_pos long, biased, if_neg (by omega)]

theorem pack_leading (word : Word) (finite : unpackExponent word ≠ -1#_)
    (positive : 0 < (1#1 ++ unpackMantissa word).toNat) :
    pack .binary64 (.finite (Sign.ofBitVec (unpackSign word)) (1#1 ++ unpackMantissa word).toNat
        ((unpackExponent word).toNat - 1075) positive) =
      packComponents .binary64 (Sign.ofBitVec (unpackSign word)) (unpackExponent word)
        (unpackMantissa word) := by
  have small : (unpackMantissa word).toNat < 2 ^ 52 := (unpackMantissa word).isLt
  -- The leading one is not stored; it is put in front and falls off again with 52 bits.
  have lead : (1#1 ++ unpackMantissa word).toNat = 2 ^ 52 + (unpackMantissa word).toNat := by
    rw [BitVec.toNat_append, ← Nat.shiftLeft_add_eq_or_of_lt (unpackMantissa word).isLt,
      Nat.shiftLeft_eq]
    rfl
  have bounded : (unpackExponent word).toNat < 2047 := by
    have bound : (unpackExponent word).toNat < 2048 := (unpackExponent word).isLt
    have other : (unpackExponent word).toNat ≠ 2047 :=
      fun same => finite (BitVec.eq_of_toNat_eq same)
    omega
  have rest : BitVec.ofNat 52 (1#1 ++ unpackMantissa word).toNat = unpackMantissa word := by
    apply BitVec.eq_of_toNat_eq
    rw [BitVec.toNat_ofNat, lead]
    omega
  have packed := pack_normal (Sign.ofBitVec (unpackSign word)) (1#1 ++ unpackMantissa word).toNat
    (unpackExponent word).toNat positive (by omega) (by omega) bounded
  rwa [rest, BitVec.ofNat_toNat, BitVec.setWidth_eq] at packed

/-- Packing undoes unpacking, except that all words that are not numbers become one. -/
theorem pack_unpack (word : Word)
    (number : unpackExponent word = -1#_ → unpackMantissa word = 0#_) :
    pack .binary64 (unpack .binary64 word) = word := by
  have whole := packComponents_unpack word
  have small : (unpackMantissa word).toNat < 2 ^ 52 := (unpackMantissa word).isLt
  have bias : (Format.binary64.exponentBias : Int) = 1023 := rfl
  simp only [unpack, bias]
  split
  · next infinite =>
    rw [if_pos (number infinite)]
    rw [infinite, number infinite] at whole
    exact whole
  · next finite =>
    split
    · next lowest =>
      rw [lowest] at whole
      split
      · next zero =>
        rw [zero] at whole
        exact whole
      · next nonzero =>
        have low : (unpackExponent word).toNat = 0 := by rw [lowest]; rfl
        have subnormal := pack_subnormal (Sign.ofBitVec (unpackSign word)) _
          (by simpa [BitVec.toNat_pos, BitVec.pos_iff_ne_zero]) small
        rw [BitVec.ofNat_toNat, BitVec.setWidth_eq] at subnormal
        simp only [low]
        exact subnormal.trans whole
    · next normal => exact (pack_leading word finite _).trans whole

theorem number_of_le {word : Word} (bounded : word.toNat % 2 ^ 63 ≤ 2047 * 2 ^ 52) :
    unpackExponent word = -1#_ → unpackMantissa word = 0#_ := by
  intro full
  have exponent := exponent_toNat word
  have mantissa := mantissa_toNat word
  have most : (unpackExponent word).toNat = 2047 := by rw [full]; rfl
  apply BitVec.eq_of_toNat_eq
  rw [mantissa]
  change word.toNat % 2 ^ 52 = 0
  omega

theorem pow2_signBit : pow2 63 = 2 ^ 63 := rfl

theorem infinite_eq : infinite = 2047 * 2 ^ 52 := rfl

theorem toBits_ofBits {bits : UInt64} (bounded : bits.toNat % pow2 63 ≤ infinite) :
    (Float.ofBits bits).toBits = bits :=
  UInt64.toBitVec_inj.1 (pack_unpack bits.toBitVec (number_of_le bounded))

theorem toBits_inj {x y : Float} (same : x.toBits = y.toBits) : x = y := by
  obtain ⟨⟨bits, valid⟩⟩ := x
  obtain ⟨⟨others, valid'⟩⟩ := y
  cases (same : bits = others)
  rfl

theorem toBits_assemble (negative : Bool) {n : Nat} (bounded : n ≤ infinite) :
    (assemble negative n).toBits.toNat = if negative then pow2 63 + n else n := by
  rw [infinite_eq] at bounded
  have word : (UInt64.ofNat (if negative then pow2 63 + n else n)).toNat =
      if negative then pow2 63 + n else n := by
    rw [UInt64.toNat_ofNat', pow2_signBit]
    split <;> omega
  rw [assemble, toBits_ofBits, word]
  rw [word, pow2_signBit, infinite_eq]
  split <;> omega

theorem isNegative_assemble (negative : Bool) {n : Nat} (bounded : n ≤ infinite) :
    isNegative (assemble negative n) = negative := by
  rw [isNegative, toBits_assemble negative bounded, pow2_signBit]
  rw [infinite_eq] at bounded
  cases negative with
  | false =>
    simp
    omega
  | true => simp

theorem assemble_pattern {x : Float} (number : isNumber x = true) :
    assemble (isNegative x) (pattern x) = x := by
  apply toBits_inj
  apply UInt64.toNat_inj.1
  have bounded : pattern x ≤ infinite := by simpa only [isNumber, decide_eq_true_eq] using number
  have bound : x.toBits.toNat < 2 ^ 64 := x.toBits.toNat_lt
  rw [toBits_assemble _ bounded, isNegative, pattern, pow2_signBit]
  by_cases negative : 2 ^ 63 ≤ x.toBits.toNat
  · simp only [negative, decide_true, if_true]
    omega
  · simp only [negative, decide_false, Bool.false_eq_true, if_false]
    omega

end Roadmap.Decimal
