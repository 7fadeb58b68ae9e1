import ThreeAddress.Number.Shortest

/-!
# Notations for floats

Which digits a float has is settled by `Binary64.shortest`; a `FloatNotation` settles how they
are laid out. There are two: source text always spells a number out, while listings and data
words mark every float as one and write very large and very small magnitudes with an exponent.
-/

namespace ThreeAddress

/-- How the digits of a float are laid out. -/
structure FloatNotation where
  /-- Whether a number whose first digit stands at this power of ten is spelled out. -/
  isSpelledOut : Int → Bool
  /-- Written after a whole number that is spelled out. -/
  wholeMark : String

namespace FloatNotation

/-- Source text has neither exponents nor a mark on whole numbers. -/
def source : FloatNotation :=
  ⟨fun _ => true, ""⟩

/-- Listings and data words spell out `0.0001` up to sixteen whole digits and mark whole
numbers with `.0`. -/
def listing : FloatNotation :=
  ⟨fun leading => decide (-4 ≤ leading ∧ leading < 16), ".0"⟩

/-- A run of zero digits. -/
def zeros (count : Nat) : String :=
  String.ofList (List.replicate count '0')

/-- The digits with a point in front of the last `places` of them. -/
def pointed (digits : List Char) (places : Nat) : String :=
  if places < digits.length then
    String.ofList (digits.take (digits.length - places)) ++ "."
      ++ String.ofList (digits.drop (digits.length - places))
  else
    "0." ++ zeros (places - digits.length) ++ String.ofList digits

/-- The first digit, a point before any others, and the power of ten. -/
def scientific (digits : List Char) (leading : Int) : String :=
  String.ofList (digits.take 1)
    ++ (if digits.length ≤ 1 then "" else "." ++ String.ofList (digits.drop 1))
    ++ "e" ++ toString leading

/-- The text of a decimal. -/
def decimal (layout : FloatNotation) (d : Decimal) : String :=
  let digits := (toString d.coefficient).toList
  let leading := d.exponent + digits.length - 1
  if layout.isSpelledOut leading then
    match d.exponent with
    | .ofNat places => String.ofList digits ++ zeros places ++ layout.wholeMark
    | .negSucc places => pointed digits (places + 1)
  else scientific digits leading

/-- The text of a float; a NaN has no sign, a zero does. -/
def text (layout : FloatNotation) (x : Binary64) : String :=
  if x.isNaN then "NaN"
  else
    let sign := if x.isNegative then "-" else ""
    if x.isInfinite then sign ++ "inf"
    else if x.significand = 0 then sign ++ "0" ++ layout.wholeMark
    else sign ++ layout.decimal x.shortest

end FloatNotation

end ThreeAddress
