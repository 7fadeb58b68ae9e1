import ThreeAddress.Proofs.Number.Numerals
import ThreeAddress.Syntax.Print

/-!
# What printed literals tell

The quotes tell characters and strings from all other literals and from each other, and nothing is
escaped between them. Integers differ from each other in their digits or their sign, and floats in
the number that their digits spell out, which no other float of the same sign is shortest for. What
the text does not tell is whether a literal without a point is an integer or a float: a float that
is a whole number is shown without anything behind its digits.
-/

namespace ThreeAddress

open Numeral

/-- A float is shown by the digits and the sign of an integer. -/
structure Binary64.ShownAs (x : Binary64) (value : Int64) : Prop where
  finite : x.isInfinite = false
  sign : x.isNegative = decide (value.toInt < 0)
  digits : x.wholeShown? = some value.toInt.natAbs

namespace Literal

/-- Whether a literal is not a number. -/
def isNaN : Literal → Bool
  | .float x => x.isNaN
  | _ => false

/-- One literal is an integer and the other a float that is shown by its digits and its sign. -/
inductive Confusable : Literal → Literal → Prop
  | intFloat {value : Int64} {x : Binary64} (h : x.ShownAs value) :
      Confusable (.int value) (.float x)
  | floatInt {value : Int64} {x : Binary64} (h : x.ShownAs value) :
      Confusable (.float x) (.int value)

section Texts

variable {value other : Int64} {x y : Binary64} {quote : Char}

/-- What is shown of a float under its sign. -/
def unsignedText (x : Binary64) : List Char :=
  if x.isInfinite then ['i', 'n', 'f'] else x.numeral

/-- An integer is printed as its digits under its sign. -/
theorem toList_text_int (value : Int64) :
    (Literal.int value).text.toList =
      signed (decide (value.toInt < 0)) (Nat.toDigits 10 value.toInt.natAbs) := by
  have htext : (Literal.int value).text = value.toInt.repr := rfl
  rw [htext, Int.repr_eq_if, signed]
  by_cases hsign : value.toInt < 0
  · have habs : (-value.toInt).toNat = value.toInt.natAbs := by omega
    rw [if_neg (by omega), if_pos (decide_eq_true hsign), habs]
    simp
  · have habs : value.toInt.toNat = value.toInt.natAbs := by omega
    rw [if_pos (by omega), if_neg (by simpa using hsign), habs, Nat.toList_repr]

/-- A float is printed as what is shown of it under its sign. -/
theorem toList_text_float (hnan : x.isNaN = false) :
    (Literal.float x).text.toList = signed x.isNegative (unsignedText x) := by
  rw [Literal.text, FloatNotation.text, hnan, unsignedText, Binary64.numeral]
  cases x.isNegative <;> cases x.isInfinite <;> by_cases hzero : x.significand = 0 <;>
    simp [signed, hzero, FloatNotation.source]

/-- What is shown of a float under its sign begins with a digit or a letter. -/
theorem head?_unsignedText (x : Binary64) {c : Char} (hc : c.isDigit = false) (hne : c ≠ 'i') :
    (unsignedText x).head? ≠ some c := by
  rw [unsignedText]
  split
  · exact fun heq => hne (Option.some.inj heq).symm
  · exact x.isNumeral_numeral.head?_ne hc

/-- The digits of a number do not begin with a sign. -/
theorem head?_toDigits (number : Nat) : (Nat.toDigits 10 number).head? ≠ some '-' :=
  (isNumeral_toDigits number).head?_ne rfl

/-- Two integers are printed alike only if they are the same. -/
theorem text_int_inj : (Literal.int value).text = (Literal.int other).text ↔ value = other := by
  rw [← String.toList_inj, toList_text_int, toList_text_int,
    signed_inj (head?_toDigits _) (head?_toDigits _), toDigits_inj, decide_eq_decide,
    ← Int64.toInt_inj]
  omega

/-- Two floats are printed alike only if they are the same. -/
theorem text_float_inj (hx : x.isNaN = false) (hy : y.isNaN = false) :
    (Literal.float x).text = (Literal.float y).text ↔ x = y := by
  rw [← String.toList_inj, toList_text_float hx, toList_text_float hy,
    signed_inj (head?_unsignedText x rfl (by decide)) (head?_unsignedText y rfl (by decide))]
  refine ⟨fun ⟨hsign, htext⟩ => ?_, by rintro rfl; exact ⟨rfl, rfl⟩⟩
  rw [unsignedText, unsignedText] at htext
  split at htext <;> split at htext
  · next hx' hy' => exact Binary64.eq_of_isInfinite hsign hx' hy'
  · exact absurd (congrArg List.head? htext).symm (y.isNumeral_numeral.head?_ne rfl)
  · exact absurd (congrArg List.head? htext) (x.isNumeral_numeral.head?_ne rfl)
  · exact Binary64.eq_of_numeral_eq hsign htext

/-- An integer and a float are printed alike if the float is shown as the integer. -/
theorem text_int_eq_text_float_iff (hx : x.isNaN = false) :
    (Literal.int value).text = (Literal.float x).text ↔ x.ShownAs value := by
  rw [← String.toList_inj, toList_text_int, toList_text_float hx,
    signed_inj (head?_toDigits _) (head?_unsignedText x rfl (by decide)), unsignedText]
  constructor
  · rintro ⟨hsign, htext⟩
    split at htext
    · exact absurd (congrArg List.head? htext) ((isNumeral_toDigits _).head?_ne rfl)
    · next hfinite =>
      exact ⟨by simpa using hfinite, hsign.symm, Binary64.numeral_eq_toDigits_iff.mp htext.symm⟩
  · rintro ⟨hfinite, hsign, hdigits⟩
    rw [if_neg (by simp [hfinite])]
    exact ⟨hsign.symm, (Binary64.numeral_eq_toDigits_iff.mpr hdigits).symm⟩

/-- A text under a sign does not begin with a quote, if the text does not. -/
theorem head?_signed_ne {isNegative : Bool} {text : List Char} (hquote : quote ≠ '-')
    (h : text.head? ≠ some quote) : (signed isNegative text).head? ≠ some quote := by
  cases isNegative
  · exact h
  · exact fun heq => hquote (Option.some.inj heq).symm

/-- The quote around a literal, if it is a text. -/
def quote? : Literal → Option Char
  | .char _ => some '\''
  | .string _ => some '"'
  | .int _ | .float _ => none

/-- The text of a literal begins with the quote around it, and with none if there is none. -/
theorem head?_text {literal : Literal} (hnan : literal.isNaN = false)
    (hquote : quote = '\'' ∨ quote = '"') :
    literal.text.toList.head? = some quote ↔ literal.quote? = some quote := by
  have hdigit : quote.isDigit = false := by rcases hquote with rfl | rfl <;> rfl
  have hsign : quote ≠ '-' := by rcases hquote with rfl | rfl <;> decide
  have hletter : quote ≠ 'i' := by rcases hquote with rfl | rfl <;> decide
  cases literal with
  | int value =>
    rw [toList_text_int]
    refine iff_of_false (head?_signed_ne hsign ?_) nofun
    exact (isNumeral_toDigits _).head?_ne hdigit
  | float x =>
    rw [toList_text_float hnan]
    exact iff_of_false (head?_signed_ne hsign (head?_unsignedText x hdigit hletter)) nofun
  | char value => simp [text, quote?]
  | string value => simp [text, quote?]

/-- Literals that are printed alike have the same quotes. -/
theorem quote?_eq_of_text_eq {first second : Literal} (hfirst : first.isNaN = false)
    (hsecond : second.isNaN = false) (h : first.text = second.text) :
    first.quote? = second.quote? := by
  have hsame : ∀ quote, quote = '\'' ∨ quote = '"' →
      (first.quote? = some quote ↔ second.quote? = some quote) := by
    intro quote hquote
    rw [← head?_text hfirst hquote, ← head?_text hsecond hquote, h]
  have hchar := hsame '\'' (.inl rfl)
  have hstring := hsame '"' (.inr rfl)
  cases first <;> cases second <;> simp_all [quote?]

end Texts

variable {first second : Literal}

/-- Two literals that are not NaN are printed alike if they are the same, or if one of them is an
integer and the other a float that is shown by its digits and its sign, and only then. -/
theorem text_eq_iff (hfirst : first.isNaN = false) (hsecond : second.isNaN = false) :
    first.text = second.text ↔ first = second ∨ first.Confusable second := by
  constructor
  · intro h
    have hquote := quote?_eq_of_text_eq hfirst hsecond h
    cases first with
    | int value =>
      cases second with
      | int other => exact .inl (congrArg _ (text_int_inj.mp h))
      | float x => exact .inr (.intFloat ((text_int_eq_text_float_iff hsecond).mp h))
      | char | string => simp [quote?] at hquote
    | float x =>
      cases second with
      | int value => exact .inr (.floatInt ((text_int_eq_text_float_iff hfirst).mp h.symm))
      | float y => exact .inl (congrArg _ ((text_float_inj hfirst hsecond).mp h))
      | char | string => simp [quote?] at hquote
    | char value =>
      cases second with
      | char other => exact .inl (congrArg _ (by simpa [text] using h))
      | int | float | string => simp [quote?] at hquote
    | string value =>
      cases second with
      | string other => exact .inl (congrArg _ (by simpa [text] using h))
      | int | float | char => simp [quote?] at hquote
  · rintro (rfl | hconfusable)
    · rfl
    · cases hconfusable with
      | intFloat h => exact (text_int_eq_text_float_iff hsecond).mpr h
      | floatInt h => exact ((text_int_eq_text_float_iff hfirst).mpr h).symm

/-- The float `1.0`. -/
def floatOne : Literal := .float ⟨0x3FF0000000000000⟩

/-- The integer `1`. -/
def intOne : Literal := .int 1

/-- The float `1.0` is shown as the integer `1`, and so both are printed alike. -/
theorem one_printed_alike :
    intOne.isNaN = false ∧ floatOne.isNaN = false ∧ intOne.Confusable floatOne ∧
      intOne.text = floatOne.text := by
  have hconfusable : intOne.Confusable floatOne :=
    .intFloat ⟨by decide, by decide, by decide +kernel⟩
  have hint : intOne.isNaN = false := rfl
  have hfloat : floatOne.isNaN = false := by decide
  exact ⟨hint, hfloat, hconfusable, (text_eq_iff hint hfloat).mpr (.inr hconfusable)⟩

/-- Two different literals, none of which is NaN, are printed alike. -/
theorem one_not_told_apart :
    intOne ≠ floatOne ∧ intOne.isNaN = false ∧ floatOne.isNaN = false ∧ intOne.text = "1" ∧
      floatOne.text = "1" := by
  refine ⟨by decide, rfl, by decide, by decide, by decide +kernel⟩

end Literal

end ThreeAddress
