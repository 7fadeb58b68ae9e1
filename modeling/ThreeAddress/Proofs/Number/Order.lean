import ThreeAddress.Number.Binary64
import Mathlib.Algebra.Order.Field.Rat
import Mathlib.Tactic.NormNum
import Mathlib.Tactic.Positivity

/-!
# The order of floats and the order of their words

A float is a sign and a magnitude, and its word, read as a signed number, is not: of two negative
floats the smaller one has the larger word. So the words are ordered like the values as long as at
most one of the two is negative, the other way round if both are, and a negative zero comes before
a positive one.
-/

namespace ThreeAddress

namespace Binary64

/-- The exact value that the fields of a word stand for; it is meant for finite words. -/
def value (x : Binary64) : ℚ :=
  (if x.isNegative then -1 else 1) * x.significand * 2 ^ x.exponent

/-- The magnitude in units of the smallest one that is not zero. -/
def magnitude (x : Binary64) : Nat :=
  x.significand * 2 ^ (max x.exponentField 1 - 1)

/-- The word without its sign bit. -/
def unsigned (x : Binary64) : Nat :=
  x.exponentField * hiddenBit + x.fraction

/-- The word, read as a signed number. -/
def signed (x : Binary64) : Int :=
  x.bits.toBitVec.toInt

/-- The fraction has fifty-two bits. -/
theorem fraction_lt (x : Binary64) : x.fraction < hiddenBit :=
  Nat.mod_lt _ (by decide)

/-- The sign bit is worth half of all words. -/
theorem isNegative_iff (x : Binary64) : x.isNegative = true ↔ 2 ^ 63 ≤ x.bits.toNat := by
  have hlt : x.bits.toNat < 2 ^ 64 := x.bits.toNat_lt
  rw [isNegative, Nat.testBit_eq_decide_div_mod_eq, decide_eq_true_iff]
  omega

/-- A word is its sign bit and the rest. -/
theorem toNat_bits (x : Binary64) :
    x.bits.toNat = (if x.isNegative then 2 ^ 63 else 0) + x.unsigned := by
  have hlt : x.bits.toNat < 2 ^ 64 := x.bits.toNat_lt
  have hfields : x.unsigned = x.bits.toNat % 2 ^ 63 := by
    rw [unsigned, exponentField, fraction, hiddenBit, Nat.shiftRight_eq_div_pow]
    omega
  by_cases hsign : x.isNegative = true
  · have hle := x.isNegative_iff.mp hsign
    rw [if_pos hsign, hfields]
    omega
  · have hle := mt x.isNegative_iff.mpr hsign
    rw [if_neg hsign, hfields]
    omega

/-- The signed word of a float without a sign is the word itself. -/
theorem signed_eq_unsigned {x : Binary64} (h : x.isNegative = false) :
    x.signed = x.unsigned := by
  have hlt := mt x.isNegative_iff.mpr (by simp [h])
  have hbits := x.toNat_bits
  have hword : x.bits.toBitVec.toNat = x.bits.toNat := rfl
  rw [h, if_neg Bool.false_ne_true, Nat.zero_add] at hbits
  rw [signed, BitVec.toInt_eq_toNat_cond, hword, if_pos (by omega), hbits]

/-- The signed word of a float with a sign is the rest of the word, less half of all words. -/
theorem signed_eq_sub {x : Binary64} (h : x.isNegative = true) :
    x.signed = (x.unsigned : Int) - 2 ^ 63 := by
  have hle := x.isNegative_iff.mp h
  have hbits := x.toNat_bits
  have hword : x.bits.toBitVec.toNat = x.bits.toNat := rfl
  rw [h, if_pos rfl] at hbits
  rw [signed, BitVec.toInt_eq_toNat_cond, hword, if_neg (by omega), hbits]
  omega

/-- Without its sign bit a word is below half of all words. -/
theorem unsigned_lt (x : Binary64) : x.unsigned < 2 ^ 63 := by
  have hlt : x.bits.toNat < 2 ^ 64 := x.bits.toNat_lt
  have hbits := x.toNat_bits
  by_cases hsign : x.isNegative = true
  · rw [if_pos hsign] at hbits
    omega
  · have hle := mt x.isNegative_iff.mpr hsign
    rw [if_neg hsign] at hbits
    omega

/-- The value is the magnitude under the sign. -/
theorem value_eq (x : Binary64) :
    x.value = (if x.isNegative then -1 else 1) * (x.magnitude / 2 ^ 1074 : ℚ) := by
  have hexponent : x.exponent = ((max x.exponentField 1 - 1 : Nat) : Int) - (1074 : Nat) := by
    have hpos := Nat.le_max_right x.exponentField 1
    rw [exponent]
    omega
  rw [value, magnitude, hexponent, zpow_sub₀ two_ne_zero, zpow_natCast, zpow_natCast,
    Nat.cast_mul, Nat.cast_pow, Nat.cast_two, mul_assoc, mul_div_assoc]

/-- The word without its sign bit determines the magnitude. -/
theorem magnitude_congr {x y : Binary64} (h : x.unsigned = y.unsigned) :
    x.magnitude = y.magnitude := by
  have hfields : ∀ z : Binary64, z.exponentField = z.unsigned / hiddenBit ∧
      z.fraction = z.unsigned % hiddenBit := by
    intro z
    have hlt := z.fraction_lt
    rw [unsigned, Nat.mul_comm, Nat.mul_add_div (by decide), Nat.mul_add_mod,
      Nat.div_eq_of_lt hlt, Nat.mod_eq_of_lt hlt]
    exact ⟨rfl, rfl⟩
  unfold magnitude significand
  rw [(hfields x).1, (hfields x).2, (hfields y).1, (hfields y).2, h]

/-- A larger word without its sign bit means a larger magnitude. -/
theorem magnitude_lt_of_unsigned_lt {x y : Binary64} (h : x.unsigned < y.unsigned) :
    x.magnitude < y.magnitude := by
  have hx := x.fraction_lt
  have hy := y.fraction_lt
  unfold magnitude significand
  unfold unsigned at h
  generalize x.exponentField = e at h ⊢
  generalize y.exponentField = e' at h ⊢
  rcases Nat.lt_trichotomy e e' with hlt | rfl | hgt
  · -- the significand of the larger exponent is at least the hidden bit
    have hpos : e' ≠ 0 := by omega
    rw [if_neg hpos, Nat.max_eq_left (Nat.one_le_iff_ne_zero.mpr hpos)]
    calc (if e = 0 then x.fraction else hiddenBit + x.fraction) * 2 ^ (max e 1 - 1)
        < hiddenBit * 2 ^ e := by
          by_cases hzero : e = 0
          · subst hzero
            simpa using hx
          · obtain ⟨exponent, rfl⟩ := Nat.exists_eq_succ_of_ne_zero hzero
            rw [if_neg hzero, Nat.max_eq_left (Nat.succ_pos exponent), Nat.succ_sub_one,
              Nat.pow_succ, Nat.mul_comm (2 ^ exponent) 2, ← Nat.mul_assoc]
            exact Nat.mul_lt_mul_of_pos_right (by omega) (Nat.two_pow_pos exponent)
      _ ≤ (hiddenBit + y.fraction) * 2 ^ (e' - 1) :=
          Nat.mul_le_mul (Nat.le_add_right _ _)
            (Nat.pow_le_pow_right (by decide) (by omega))
  · have hfraction : x.fraction < y.fraction := Nat.lt_of_add_lt_add_left h
    refine Nat.mul_lt_mul_of_pos_right ?_ (Nat.two_pow_pos _)
    split
    · exact hfraction
    · exact Nat.add_lt_add_left hfraction hiddenBit
  · have hle : (e' + 1) * hiddenBit ≤ e * hiddenBit := Nat.mul_le_mul_right _ hgt
    rw [Nat.succ_mul] at hle
    omega

/-- Magnitudes are ordered like words without their sign bits. -/
theorem magnitude_lt_iff {x y : Binary64} :
    x.magnitude < y.magnitude ↔ x.unsigned < y.unsigned := by
  constructor
  · intro h
    by_contra hnot
    rcases Nat.lt_or_eq_of_le (Nat.le_of_not_lt hnot) with hlt | heq
    · exact Nat.lt_asymm h (magnitude_lt_of_unsigned_lt hlt)
    · exact absurd (magnitude_congr heq) (Nat.ne_of_gt h)
  · exact magnitude_lt_of_unsigned_lt

/-- Values without a sign are ordered like magnitudes. -/
theorem scaled_lt_iff {x y : Binary64} :
    (x.magnitude / 2 ^ 1074 : ℚ) < y.magnitude / 2 ^ 1074 ↔ x.unsigned < y.unsigned := by
  rw [div_lt_div_iff_of_pos_right (by positivity), Nat.cast_lt, magnitude_lt_iff]

/-- Two floats without a sign are ordered like their words. -/
theorem signed_lt_iff {x y : Binary64} (hx : x.isNegative = false) (hy : y.isNegative = false) :
    x.signed < y.signed ↔ x.value < y.value := by
  rw [value_eq, value_eq, signed_eq_unsigned hx, signed_eq_unsigned hy, Int.ofNat_lt]
  simp only [hx, hy, Bool.false_eq_true, if_false, one_mul]
  exact scaled_lt_iff.symm

/-- Two floats with a sign are ordered against their words. -/
theorem signed_lt_iff_of_isNegative {x y : Binary64} (hx : x.isNegative = true)
    (hy : y.isNegative = true) : x.signed < y.signed ↔ y.value < x.value := by
  rw [value_eq, value_eq, signed_eq_sub hx, signed_eq_sub hy]
  simp only [hx, hy, if_true, neg_one_mul, neg_lt_neg_iff]
  rw [scaled_lt_iff]
  omega

/-- The word of a float with a sign comes before that of one without. -/
theorem signed_lt_of_signs {x y : Binary64} (hx : x.isNegative = true)
    (hy : y.isNegative = false) : x.signed < y.signed := by
  have hlt := x.unsigned_lt
  rw [signed_eq_sub hx, signed_eq_unsigned hy]
  omega

/-- The value of a float with a sign is not positive. -/
theorem value_nonpos {x : Binary64} (h : x.isNegative = true) : x.value ≤ 0 := by
  rw [value_eq, if_pos h, neg_one_mul]
  exact neg_nonpos.mpr (by positivity)

/-- The value of a float without a sign is not negative. -/
theorem value_nonneg {x : Binary64} (h : x.isNegative = false) : 0 ≤ x.value := by
  rw [value_eq, h, if_neg Bool.false_ne_true, one_mul]
  positivity

/-- A float with a sign is less than one without, unless both are zeros. -/
theorem value_lt_of_signs {x y : Binary64} (hx : x.isNegative = true) (hy : y.isNegative = false)
    (hne : ¬ (x.value = 0 ∧ y.value = 0)) : x.value < y.value := by
  have hxle := value_nonpos hx
  have hyle := value_nonneg hy
  refine lt_of_le_of_ne (le_trans hxle hyle) fun heq => hne ⟨?_, ?_⟩
  · exact le_antisymm hxle (heq ▸ hyle)
  · exact le_antisymm (heq ▸ hxle) hyle

/-- The float `-1.0`. -/
def minusOne : Binary64 := ⟨0xBFF0000000000000⟩

/-- The float `-2.0`. -/
def minusTwo : Binary64 := ⟨0xC000000000000000⟩

/-- The float `0.0`. -/
def plusZero : Binary64 := ⟨0⟩

/-- The float `-0.0`. -/
def minusZero : Binary64 := ⟨0x8000000000000000⟩

/-- The value of `-1.0`. -/
theorem value_minusOne : minusOne.value = -1 := by
  have hvalue : minusOne.value = -1 * (4503599627370496 : Nat) * 2 ^ (-52 : Int) := rfl
  rw [hvalue]
  norm_num

/-- The value of `-2.0`. -/
theorem value_minusTwo : minusTwo.value = -2 := by
  have hvalue : minusTwo.value = -1 * (4503599627370496 : Nat) * 2 ^ (-51 : Int) := rfl
  rw [hvalue]
  norm_num

/-- The value of `0.0`. -/
theorem value_plusZero : plusZero.value = 0 := by
  have hvalue : plusZero.value = 1 * (0 : Nat) * 2 ^ (-1074 : Int) := rfl
  rw [hvalue, Nat.cast_zero, mul_zero, zero_mul]

/-- The value of `-0.0`. -/
theorem value_minusZero : minusZero.value = 0 := by
  have hvalue : minusZero.value = -1 * (0 : Nat) * 2 ^ (-1074 : Int) := rfl
  rw [hvalue, Nat.cast_zero, mul_zero, zero_mul]

end Binary64

end ThreeAddress
