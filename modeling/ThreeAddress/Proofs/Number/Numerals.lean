import ThreeAddress.Number.Notation
import ThreeAddress.Proofs.Number.Rounding
import Mathlib.Data.List.TakeWhile

/-!
# Numerals

The number that a numeral stands for can be read from its digits and the place of its point. Source
text spells the shortest decimal of a float out, so that reading the numeral gives the decimal's
number back. A whole decimal has no point, and its numeral is that of the whole number.
-/

namespace ThreeAddress

namespace Numeral

/-- The number that some digits stand for, with a point somewhere between them or without one. -/
def read (numeral : List Char) : ℚ :=
  let behind := (numeral.dropWhile (· ≠ '.')).drop 1
  Nat.ofDigitChars 10 (numeral.takeWhile (· ≠ '.') ++ behind) 0 / 10 ^ behind.length

/-- A text begins with a digit, as all numerals do. -/
def IsNumeral (numeral : List Char) : Prop := ∃ c rest, numeral = c :: rest ∧ c.isDigit = true

/-- A numeral under a sign. -/
def signed (isNegative : Bool) (numeral : List Char) : List Char :=
  if isNegative then '-' :: numeral else numeral

section Digits

variable {whole behind : List Char} {number places : Nat}

/-- There is no point among digits. -/
theorem point_not_mem_toDigits (number : Nat) : '.' ∉ Nat.toDigits 10 number := fun h =>
  absurd (Nat.isDigit_of_mem_toDigits (by decide) (by decide) h) (by decide)

/-- The digits of a number are a numeral, and so are those that are left of them. -/
theorem isNumeral_take_toDigits (number : Nat) {count : Nat} (hcount : 0 < count) :
    IsNumeral ((Nat.toDigits 10 number).take count) := by
  obtain ⟨more, rfl⟩ := Nat.exists_eq_add_of_le' hcount
  obtain ⟨c, rest, hdigits⟩ := List.exists_cons_of_ne_nil (@Nat.toDigits_ne_nil number 10)
  have hc : c ∈ Nat.toDigits 10 number := by
    rw [hdigits]
    exact List.mem_cons_self
  rw [hdigits]
  exact ⟨c, rest.take more, rfl, Nat.isDigit_of_mem_toDigits (by decide) (by decide) hc⟩

/-- The digits of a number are a numeral. -/
theorem isNumeral_toDigits (number : Nat) : IsNumeral (Nat.toDigits 10 number) := by
  have h := isNumeral_take_toDigits number (@Nat.length_toDigits_pos 10 number)
  rwa [List.take_length] at h

/-- A numeral goes on in any way. -/
theorem IsNumeral.append {numeral : List Char} (h : IsNumeral numeral) (more : List Char) :
    IsNumeral (numeral ++ more) := by
  obtain ⟨c, rest, rfl, hdigit⟩ := h
  exact ⟨c, rest ++ more, rfl, hdigit⟩

/-- Reading passes over what is no point. -/
theorem passed_of_not_mem (hwhole : '.' ∉ whole) : ∀ c ∈ whole, decide (c ≠ '.') = true :=
  fun _ hc => decide_eq_true fun heq => hwhole (heq ▸ hc)

/-- A numeral with a point is read by the digits in front of the point and behind it. -/
theorem read_point (hwhole : '.' ∉ whole) :
    read (whole ++ '.' :: behind) =
      Nat.ofDigitChars 10 (whole ++ behind) 0 / 10 ^ behind.length := by
  have hpassed := passed_of_not_mem hwhole
  rw [read, List.takeWhile_append_of_pos hpassed, List.dropWhile_append_of_pos hpassed]
  simp

/-- A numeral without a point is read by its digits. -/
theorem read_whole (hwhole : '.' ∉ whole) : read whole = Nat.ofDigitChars 10 whole 0 := by
  have hpassed := passed_of_not_mem hwhole
  rw [read, List.takeWhile_eq_self_iff.mpr hpassed, List.dropWhile_eq_nil_iff.mpr hpassed]
  simp

/-- Zeros behind the digits of a positive number are a power of ten. -/
theorem toDigits_mul_pow (hpos : 0 < number) :
    Nat.toDigits 10 (number * 10 ^ places) =
      Nat.toDigits 10 number ++ List.replicate places '0' := by
  induction places with
  | zero => simp
  | succ places ih =>
    have hten : number * 10 ^ (places + 1) = 10 * (number * 10 ^ places) + 0 := by ring
    have hpos' : 0 < number * 10 ^ places := by positivity
    rw [hten, ← Nat.toDigits_append_toDigits (by decide) hpos' (by decide), ih,
      List.replicate_succ', List.append_assoc]
    rfl

/-- The digits of a number are read as the number. -/
theorem read_toDigits (number : Nat) : read (Nat.toDigits 10 number) = number := by
  rw [read_whole (point_not_mem_toDigits number), Nat.ofDigitChars_ten_toDigits]

/-- Numbers with the same digits are the same. -/
theorem toDigits_inj {first second : Nat} :
    Nat.toDigits 10 first = Nat.toDigits 10 second ↔ first = second := by
  refine ⟨fun h => ?_, congrArg _⟩
  have hread : (first : ℚ) = second := by rw [← read_toDigits first, h, read_toDigits]
  exact Nat.cast_injective hread

end Digits

section Decimals

variable {d : Decimal}

/-- Digits with a point have digits on both sides of it, as many as they should behind it, and
still are the digits of the same number. -/
theorem exists_parts_pointed (number places : Nat) :
    ∃ whole behind,
      (FloatNotation.pointed (Nat.toDigits 10 number) places).toList = whole ++ '.' :: behind ∧
        IsNumeral whole ∧ '.' ∉ whole ∧ behind.length = places ∧
        Nat.ofDigitChars 10 (whole ++ behind) 0 = number := by
  rw [FloatNotation.pointed]
  split
  · next hlt =>
    refine ⟨(Nat.toDigits 10 number).take ((Nat.toDigits 10 number).length - places),
      (Nat.toDigits 10 number).drop ((Nat.toDigits 10 number).length - places), by simp, ?_, ?_, ?_,
      ?_⟩
    · exact isNumeral_take_toDigits number (Nat.sub_pos_of_lt hlt)
    · exact fun h => point_not_mem_toDigits number (List.mem_of_mem_take h)
    · rw [List.length_drop]
      omega
    · rw [List.take_append_drop, Nat.ofDigitChars_ten_toDigits]
  · next hle =>
    refine ⟨['0'], List.replicate (places - (Nat.toDigits 10 number).length) '0' ++
      Nat.toDigits 10 number, by simp [FloatNotation.zeros], ⟨'0', [], rfl, rfl⟩, by decide, ?_, ?_⟩
    · rw [List.length_append, List.length_replicate]
      omega
    · rw [List.singleton_append, ← List.cons_append, ← List.replicate_succ,
        Nat.ofDigitChars_append, Nat.ofDigitChars_replicate_zero, Nat.mul_zero,
        Nat.ofDigitChars_ten_toDigits]

/-- Source text spells a whole decimal out with zeros. -/
theorem toList_decimal_ofNat {places : Nat} (h : d.exponent = places) :
    (FloatNotation.source.decimal d).toList =
      Nat.toDigits 10 d.coefficient ++ List.replicate places '0' := by
  simp [FloatNotation.decimal, FloatNotation.source, FloatNotation.zeros, h]

/-- Source text spells any other decimal out with a point. -/
theorem decimal_negSucc {places : Nat} (h : d.exponent = .negSucc places) :
    FloatNotation.source.decimal d =
      FloatNotation.pointed (Nat.toDigits 10 d.coefficient) (places + 1) := by
  simp [FloatNotation.decimal, FloatNotation.source, h]

/-- The numeral of a whole decimal is that of a whole number. -/
theorem toList_decimal_of_nonneg (hpos : 0 < d.coefficient) {places : Nat}
    (h : d.exponent = places) :
    (FloatNotation.source.decimal d).toList = Nat.toDigits 10 (d.coefficient * 10 ^ places) := by
  rw [toList_decimal_ofNat h, toDigits_mul_pow hpos]

/-- The numeral of a decimal is read as the number that the decimal stands for. -/
theorem read_decimal (hpos : 0 < d.coefficient) :
    read (FloatNotation.source.decimal d).toList = d.value := by
  rw [Decimal.value]
  cases h : d.exponent with
  | ofNat places =>
    rw [toList_decimal_of_nonneg hpos h, read_toDigits, Int.ofNat_eq_natCast, zpow_natCast]
    push_cast
    rfl
  | negSucc places =>
    obtain ⟨whole, behind, htext, -, hpoint, hlength, hnumber⟩ :=
      exists_parts_pointed d.coefficient (places + 1)
    rw [decimal_negSucc h, htext, read_point hpoint, hnumber, hlength, zpow_negSucc, div_eq_mul_inv]

/-- The numeral of a decimal begins with a digit. -/
theorem isNumeral_decimal (d : Decimal) : IsNumeral (FloatNotation.source.decimal d).toList := by
  cases h : d.exponent with
  | ofNat places =>
    rw [toList_decimal_ofNat h]
    exact (isNumeral_toDigits _).append _
  | negSucc places =>
    obtain ⟨whole, behind, htext, hnumeral, -⟩ := exists_parts_pointed d.coefficient (places + 1)
    rw [decimal_negSucc h, htext]
    exact hnumeral.append _

/-- The numeral of a decimal that is not whole has a point. -/
theorem point_mem_decimal {places : Nat} (h : d.exponent = .negSucc places) :
    '.' ∈ (FloatNotation.source.decimal d).toList := by
  obtain ⟨whole, behind, htext, -⟩ := exists_parts_pointed d.coefficient (places + 1)
  rw [decimal_negSucc h, htext]
  exact List.mem_append_right _ List.mem_cons_self

end Decimals

section Signs

variable {isNegative isNegative' : Bool} {numeral numeral' : List Char}

/-- A sign and what stands under it can be told from each other, if that does not begin with a
sign. -/
theorem signed_inj (h : numeral.head? ≠ some '-') (h' : numeral'.head? ≠ some '-') :
    signed isNegative numeral = signed isNegative' numeral' ↔
      isNegative = isNegative' ∧ numeral = numeral' := by
  refine ⟨fun heq => ?_, by rintro ⟨rfl, rfl⟩; rfl⟩
  cases isNegative <;> cases isNegative'
  · exact ⟨rfl, heq⟩
  · exact absurd (congrArg List.head? heq) h
  · exact absurd (congrArg List.head? heq).symm h'
  · exact ⟨rfl, List.tail_eq_of_cons_eq heq⟩

/-- A numeral begins with nothing but a digit. -/
theorem IsNumeral.head?_ne (h : IsNumeral numeral) {c : Char} (hc : c.isDigit = false) :
    numeral.head? ≠ some c := by
  obtain ⟨d, rest, rfl, hd⟩ := h
  rintro heq
  obtain rfl := Option.some.inj heq
  rw [hd] at hc
  contradiction

end Signs

end Numeral

namespace Binary64

open Numeral

variable {x y : Binary64}

/-- What source text shows of a finite float under its sign. -/
def numeral (x : Binary64) : List Char :=
  if x.significand = 0 then ['0'] else (FloatNotation.source.decimal x.shortest).toList

/-- The whole number under the sign of a finite float, if source text shows one. -/
def wholeShown? (x : Binary64) : Option Nat :=
  if x.significand = 0 then some 0
  else
    match x.shortest.exponent with
    | .ofNat places => some (x.shortest.coefficient * 10 ^ places)
    | .negSucc _ => none

/-- What is shown of a float is a numeral. -/
theorem isNumeral_numeral (x : Binary64) : IsNumeral x.numeral := by
  rw [numeral]
  split
  · exact ⟨'0', [], rfl, rfl⟩
  · exact isNumeral_decimal x.shortest

/-- What is shown of a float is the numeral of a whole number if a whole number is shown. -/
theorem numeral_eq_toDigits_iff {number : Nat} :
    x.numeral = Nat.toDigits 10 number ↔ x.wholeShown? = some number := by
  rw [numeral, wholeShown?]
  split
  · rw [← Nat.toDigits_zero 10, toDigits_inj, Option.some.injEq]
  · next hne =>
    have hpos := coefficient_shortest_pos (Nat.pos_of_ne_zero hne)
    split
    · next places hplaces =>
      rw [toList_decimal_of_nonneg hpos hplaces, toDigits_inj, Option.some.injEq]
    · next places hplaces =>
      refine iff_of_false (fun heq => ?_) (by simp)
      exact point_not_mem_toDigits number (heq ▸ point_mem_decimal hplaces)

/-- A float is zero if its significand is. -/
theorem unsigned_eq_zero (h : x.significand = 0) : x.unsigned = 0 := by
  have hplace : x.place = 0 := by
    by_contra hne
    have hle := hiddenBit_le_significand (Nat.pos_of_ne_zero hne)
    rw [h] at hle
    exact absurd hle (by decide)
  rw [unsigned_eq, hplace, h, Nat.zero_mul]

/-- A float that is shown as zero is zero. -/
theorem significand_eq_zero_of_numeral (h : x.numeral = ['0']) : x.significand = 0 := by
  by_contra hne
  have hpos := Nat.pos_of_ne_zero hne
  have hread := read_decimal (coefficient_shortest_pos hpos)
  have hzero := read_toDigits 0
  rw [numeral, if_neg hne] at h
  rw [Nat.toDigits_zero, ← h, hread, Nat.cast_zero] at hzero
  exact absurd hzero (value_shortest_pos hpos).ne'

/-- Floats of the same sign of which the same is shown are the same. -/
theorem eq_of_numeral_eq (hsign : x.isNegative = y.isNegative) (h : x.numeral = y.numeral) :
    x = y := by
  by_cases hx : x.significand = 0
  · have hy : y.significand = 0 := by
      refine significand_eq_zero_of_numeral ?_
      rw [← h, numeral, if_pos hx]
    exact eq_of_unsigned_eq hsign ((unsigned_eq_zero hx).trans (unsigned_eq_zero hy).symm)
  · have hy : y.significand ≠ 0 := by
      refine fun hy => hx (significand_eq_zero_of_numeral ?_)
      rw [h, numeral, if_pos hy]
    have hx' := Nat.pos_of_ne_zero hx
    have hy' := Nat.pos_of_ne_zero hy
    refine eq_of_shortest_value_eq hsign hx' hy' ?_
    rw [numeral, numeral, if_neg hx, if_neg hy] at h
    rw [← read_decimal (coefficient_shortest_pos hx'), h,
      read_decimal (coefficient_shortest_pos hy')]

/-- Infinities of the same sign are the same. -/
theorem eq_of_isInfinite (hsign : x.isNegative = y.isNegative) (hx : x.isInfinite = true)
    (hy : y.isInfinite = true) : x = y := by
  have hx' := of_decide_eq_true hx
  have hy' := of_decide_eq_true hy
  exact eq_of_unsigned_eq hsign (by rw [unsigned, unsigned, hx'.1, hx'.2, hy'.1, hy'.2])

end Binary64

end ThreeAddress
