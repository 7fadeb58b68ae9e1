import ThreeAddress.Number.Shortest
import ThreeAddress.Proofs.Number.Order
import Mathlib.Tactic.FieldSimp
import Mathlib.Tactic.Linarith
import Mathlib.Tactic.Ring

/-!
# What rounds to a float

A reader takes a number for the float that is nearest to it. So what it takes for a float lies
between the midpoints to the neighbouring floats, and the midpoints themselves belong to the float
whose significand is even. Of two neighbours only one has an even significand, hence no number is
taken for both of two magnitudes. The shortest decimal of a float is taken for it, and therefore
floats with the same shortest decimal have the same magnitude.
-/

namespace ThreeAddress

/-- The number that a decimal stands for. -/
def Decimal.value (d : Decimal) : ℚ := d.coefficient * 10 ^ d.exponent

namespace Binary64

/-- How many times the step between neighbouring magnitudes is twice the smallest one. -/
def place (x : Binary64) : Nat := max x.exponentField 1 - 1

/-- The midpoint to the next smaller magnitude, in quarters of the significand's last digit. -/
def lowerQuarters (x : Binary64) : Nat :=
  4 * x.significand - (if x.isBinadeStart then 1 else 2)

/-- The midpoint to the next smaller magnitude, in quarters of the smallest one that is not zero. -/
def lowerEnd (x : Binary64) : Nat := x.lowerQuarters * 2 ^ x.place

/-- The midpoint to the next larger magnitude, in quarters of the smallest one that is not zero. -/
def upperEnd (x : Binary64) : Nat := (4 * x.significand + 2) * 2 ^ x.place

/-- A quarter of the smallest magnitude that is not zero, a number of times. -/
def quarters (count : Nat) : ℚ := count / 2 ^ 1076

/-- A number is taken for a magnitude. -/
def RoundsTo (x : Binary64) (number : ℚ) : Prop :=
  if x.significand % 2 = 0 then quarters x.lowerEnd ≤ number ∧ number ≤ quarters x.upperEnd
  else quarters x.lowerEnd < number ∧ number < quarters x.upperEnd

section Fields

variable {x y : Binary64}

/-- The significand has fifty-three bits. -/
theorem significand_lt (x : Binary64) : x.significand < 2 * hiddenBit := by
  have hlt := x.fraction_lt
  unfold significand
  split <;> omega

/-- Above the smallest step, the significand has its hidden bit. -/
theorem hiddenBit_le_significand (h : 0 < x.place) : hiddenBit ≤ x.significand := by
  have hne : x.exponentField ≠ 0 := by
    unfold place at h
    omega
  rw [significand, if_neg hne]
  exact Nat.le_add_right _ _

/-- The word without its sign bit counts the magnitudes. -/
theorem unsigned_eq (x : Binary64) : x.unsigned = x.place * hiddenBit + x.significand := by
  rw [unsigned, significand, place]
  split
  · next hzero => simp [hzero]
  · next hne =>
    obtain ⟨exponent, hexponent⟩ := Nat.exists_eq_succ_of_ne_zero hne
    rw [hexponent, Nat.max_eq_left (Nat.succ_pos exponent), Nat.succ_sub_one, Nat.succ_mul,
      Nat.add_assoc]

/-- The next smaller magnitude is half a step away where the significand is the hidden bit alone. -/
theorem isBinadeStart_iff : x.isBinadeStart = true ↔ x.significand = hiddenBit ∧ 0 < x.place := by
  have hlt := x.fraction_lt
  rw [isBinadeStart, decide_eq_true_iff, significand, place]
  split <;> omega

/-- A word is its sign bit and its magnitude. -/
theorem eq_of_unsigned_eq (hsign : x.isNegative = y.isNegative) (h : x.unsigned = y.unsigned) :
    x = y := by
  have hbits : x.bits.toNat = y.bits.toNat := by rw [toNat_bits, toNat_bits, hsign, h]
  cases x
  cases y
  exact congrArg _ (UInt64.toNat_inj.mp hbits)

end Fields

/-- More quarters are a larger number. -/
theorem quarters_strictMono : StrictMono quarters := by
  intro first second h
  unfold quarters
  gcongr

/-- No quarters are zero. -/
theorem quarters_zero : quarters 0 = 0 := by
  rw [quarters, Nat.cast_zero, zero_div]

section Intervals

variable {x y : Binary64} {number : ℚ}

/-- Above the smallest step, the midpoint below a magnitude is at most half a step away from the
smallest one with the same step. -/
theorem le_lowerQuarters (h : 0 < x.place) : 4 * hiddenBit - 1 ≤ x.lowerQuarters := by
  have hle := hiddenBit_le_significand h
  rw [lowerQuarters]
  split
  · omega
  · next hnot =>
    have hne : x.significand ≠ hiddenBit := fun heq => hnot (isBinadeStart_iff.mpr ⟨heq, h⟩)
    omega

/-- What is taken for a magnitude lies below what is taken for a larger one, or they meet in a
midpoint, and then only one of them has an even significand. -/
theorem upperEnd_le_lowerEnd (h : x.unsigned < y.unsigned) :
    x.upperEnd ≤ y.lowerEnd ∧
      (x.upperEnd = y.lowerEnd → x.significand % 2 ≠ y.significand % 2) := by
  have hx := x.significand_lt
  have hy := y.significand_lt
  have hpos : 0 < 2 ^ x.place := Nat.two_pow_pos x.place
  rw [unsigned_eq, unsigned_eq] at h
  rw [upperEnd, lowerEnd]
  rcases Nat.lt_trichotomy x.place y.place with hlt | heq | hgt
  · -- the largest significand of one step meets the smallest one of the next
    obtain ⟨more, hmore⟩ := Nat.exists_eq_add_of_lt hlt
    have hsteps : y.lowerQuarters * 2 ^ y.place =
        y.lowerQuarters * (2 * 2 ^ more) * 2 ^ x.place := by
      rw [hmore, Nat.add_assoc, Nat.pow_add, Nat.pow_succ]
      ring
    have htwice : y.lowerQuarters * 2 ≤ y.lowerQuarters * (2 * 2 ^ more) :=
      Nat.mul_le_mul_left _ (Nat.le_mul_of_pos_right 2 (Nat.two_pow_pos more))
    have hlow := le_lowerQuarters (x := y) (by omega)
    rw [hsteps]
    refine ⟨Nat.mul_le_mul_right _ (by omega), fun heq => ?_⟩
    have hsame := Nat.eq_of_mul_eq_mul_right hpos heq
    have hstart : y.lowerQuarters = 4 * hiddenBit - 1 := by omega
    rw [lowerQuarters] at hstart
    have hhidden : hiddenBit % 2 = 0 := rfl
    split at hstart <;> omega
  · have hlt : x.significand < y.significand := by
      rw [heq] at h
      omega
    rw [← heq, lowerQuarters]
    refine ⟨Nat.mul_le_mul_right _ (by split <;> omega), fun heq => ?_⟩
    have hsame := Nat.eq_of_mul_eq_mul_right hpos heq
    split at hsame <;> omega
  · have hle := Nat.mul_le_mul_right hiddenBit (Nat.succ_le_of_lt hgt)
    have hle' := hiddenBit_le_significand (x := x) (by omega)
    rw [Nat.succ_mul] at hle
    omega

/-- No number is taken for two magnitudes, whichever is the larger. -/
theorem not_roundsTo_of_lt (h : x.unsigned < y.unsigned) (hx : x.RoundsTo number) :
    ¬ y.RoundsTo number := by
  intro hy
  obtain ⟨hle, hparity⟩ := upperEnd_le_lowerEnd h
  have hmeet := quarters_strictMono.monotone hle
  unfold RoundsTo at hx hy
  split at hx <;> split at hy
  · have hends := le_antisymm hmeet (hy.1.trans hx.2)
    exact hparity (quarters_strictMono.injective hends) (by omega)
  all_goals linarith [hx.2, hy.1]

/-- A number is taken for one magnitude at most. -/
theorem unsigned_eq_of_roundsTo (hx : x.RoundsTo number) (hy : y.RoundsTo number) :
    x.unsigned = y.unsigned := by
  rcases Nat.lt_trichotomy x.unsigned y.unsigned with hlt | heq | hgt
  · exact absurd hy (not_roundsTo_of_lt hlt hx)
  · exact heq
  · exact absurd hx (not_roundsTo_of_lt hgt hy)

end Intervals

section Shortest

variable {x y : Binary64} {d : Decimal}

/-- What a scaled number is compared in. -/
def scale (binary decimal : Int) : ℚ := 2 ^ (-binary).toNat * 10 ^ (-decimal).toNat

/-- A scale is positive. -/
theorem scale_pos (binary decimal : Int) : 0 < scale binary decimal := by
  unfold scale
  positivity

/-- A power with an exponent that is cut off at zero. -/
theorem pow_toNat {base : ℚ} (hbase : base ≠ 0) (exponent : Int) :
    base ^ exponent.toNat = base ^ exponent * base ^ (-exponent).toNat := by
  rw [← zpow_natCast, ← zpow_natCast, ← zpow_add₀ hbase]
  congr 1
  omega

/-- A numerator is the number itself on its scale. -/
theorem cast_numerator (number : Nat) (binary decimal : Int) :
    (numerator number binary decimal : ℚ) = number * 2 ^ binary * scale binary decimal := by
  rw [numerator, scale, Nat.shiftLeft_eq, Nat.pow_eq]
  push_cast
  rw [pow_toNat two_ne_zero]
  ring

/-- A multiple of a denominator is a decimal on its scale. -/
theorem cast_mul_denominator (d : Decimal) (binary : Int) :
    ((d.coefficient * denominator binary d.exponent : Nat) : ℚ) =
      d.value * scale binary d.exponent := by
  rw [denominator, scale, Nat.shiftLeft_eq, Nat.pow_eq, Decimal.value]
  push_cast
  rw [pow_toNat (by norm_num : (10 : ℚ) ≠ 0) d.exponent]
  ring

/-- A quarter of the significand's last digit, counted in quarters of the smallest magnitude. -/
theorem mul_quarter (x : Binary64) (number : Nat) :
    (number * 2 ^ (x.exponent - 2) : ℚ) = quarters (number * 2 ^ x.place) := by
  have hexponent : x.exponent - 2 = (x.place : Int) - (1076 : Nat) := by
    have hpos := Nat.le_max_right x.exponentField 1
    rw [exponent, place]
    omega
  rw [hexponent, zpow_sub₀ two_ne_zero, zpow_natCast, zpow_natCast, quarters, Nat.cast_mul,
    Nat.cast_pow, Nat.cast_two, mul_div_assoc]

/-- A decimal reads back as a magnitude if it is taken for it. -/
theorem readsBack_iff : x.readsBack d = true ↔ x.RoundsTo d.value := by
  have hpos := scale_pos (x.exponent - 2) d.exponent
  have hle : ∀ number : Nat,
      (numerator number (x.exponent - 2) d.exponent ≤
          d.coefficient * denominator (x.exponent - 2) d.exponent ↔
        quarters (number * 2 ^ x.place) ≤ d.value) ∧
      (d.coefficient * denominator (x.exponent - 2) d.exponent ≤
          numerator number (x.exponent - 2) d.exponent ↔
        d.value ≤ quarters (number * 2 ^ x.place)) := by
    intro number
    rw [← mul_quarter, ← Nat.cast_le (α := ℚ), ← Nat.cast_le (α := ℚ), cast_numerator,
      cast_mul_denominator]
    exact ⟨mul_le_mul_iff_left₀ hpos, mul_le_mul_iff_left₀ hpos⟩
  unfold readsBack RoundsTo lowerEnd upperEnd lowerQuarters
  simp only
  split
  · rw [decide_eq_true_iff, (hle _).1, (hle _).2]
  · rw [decide_eq_true_iff, ← not_le, ← not_le, (hle _).1, (hle _).2, not_le, not_le]

/-- A positive magnitude is taken for itself, and lies between the midpoints. -/
theorem roundsTo_of_eq {number : ℚ} (hpos : 0 < x.significand)
    (h : number = x.significand * 2 ^ x.exponent) : x.RoundsTo number := by
  have hquarters : number = quarters (4 * x.significand * 2 ^ x.place) := by
    rw [← mul_quarter, h, zpow_sub₀ two_ne_zero]
    push_cast
    ring
  have hplace : 0 < 2 ^ x.place := Nat.two_pow_pos x.place
  have hlow : x.lowerEnd < 4 * x.significand * 2 ^ x.place := by
    refine Nat.mul_lt_mul_of_pos_right ?_ hplace
    rw [lowerQuarters]
    split <;> omega
  have hhigh : 4 * x.significand * 2 ^ x.place < x.upperEnd :=
    Nat.mul_lt_mul_of_pos_right (by omega) hplace
  have hlow' := quarters_strictMono hlow
  have hhigh' := quarters_strictMono hhigh
  rw [RoundsTo, hquarters]
  split
  · exact ⟨hlow'.le, hhigh'.le⟩
  · exact ⟨hlow', hhigh'⟩

/-- Written out in full, a float is its magnitude. -/
theorem value_expansion (x : Binary64) : x.expansion.value = x.significand * 2 ^ x.exponent := by
  unfold expansion
  split
  · next places hexponent =>
    rw [hexponent, Decimal.value, Nat.shiftLeft_eq, Int.ofNat_eq_natCast, zpow_natCast, zpow_zero]
    push_cast
    ring
  · next places hexponent =>
    rw [hexponent, Decimal.value, zpow_negSucc, zpow_negSucc, Nat.pow_eq,
      (by norm_num : (10 : ℚ) = 5 * 2), mul_pow]
    push_cast
    field_simp

/-- What is found on the grids reads back. -/
theorem readsBack_of_firstOnGrids {grids : Nat} {exponent : Int}
    (h : x.firstOnGrids grids exponent = some d) : x.readsBack d = true := by
  induction grids generalizing exponent with
  | zero => contradiction
  | succ grids ih =>
    rw [firstOnGrids] at h
    split at h
    · next hgrid =>
      obtain rfl := Option.some.inj h
      exact readsBack_of_onGrid hgrid
    · exact ih h

/-- The shortest decimal of a positive magnitude is taken for it. -/
theorem roundsTo_shortest (hpos : 0 < x.significand) : x.RoundsTo x.shortest.value := by
  rw [shortest]
  cases hgrids : x.firstOnGrids 20 x.decimalCeiling with
  | none => exact roundsTo_of_eq hpos x.value_expansion
  | some d => exact readsBack_iff.mp (readsBack_of_firstOnGrids hgrids)

/-- The shortest decimal of a positive magnitude is positive. -/
theorem value_shortest_pos (hpos : 0 < x.significand) : 0 < x.shortest.value := by
  have hlow : 0 < x.lowerEnd := by
    refine Nat.mul_pos ?_ (Nat.two_pow_pos _)
    rw [lowerQuarters]
    split <;> omega
  have hlow' := quarters_strictMono hlow
  have hround := roundsTo_shortest hpos
  rw [quarters_zero] at hlow'
  rw [RoundsTo] at hround
  split at hround
  · exact hlow'.trans_le hround.1
  · exact hlow'.trans hround.1

/-- The shortest decimal of a positive magnitude has a digit other than zero. -/
theorem coefficient_shortest_pos (hpos : 0 < x.significand) : 0 < x.shortest.coefficient := by
  have hvalue := value_shortest_pos hpos
  refine Nat.pos_of_ne_zero fun hzero => ?_
  rw [Decimal.value, hzero, Nat.cast_zero, zero_mul] at hvalue
  exact lt_irrefl _ hvalue

/-- Two floats of the same sign are the same if their shortest decimals stand for the same
number. -/
theorem eq_of_shortest_value_eq (hsign : x.isNegative = y.isNegative) (hx : 0 < x.significand)
    (hy : 0 < y.significand) (h : x.shortest.value = y.shortest.value) : x = y := by
  refine eq_of_unsigned_eq hsign (unsigned_eq_of_roundsTo (roundsTo_shortest hx) ?_)
  rw [h]
  exact roundsTo_shortest hy

end Shortest

end Binary64

end ThreeAddress
