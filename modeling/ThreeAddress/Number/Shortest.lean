import ThreeAddress.Number.Binary64

/-!
# The fewest digits that read back

The shortest decimal of a finite float is the number with the fewest digits among those that
read back as the same float, and of these the one nearest to it. A decimal reads back exactly
if it lies between the two midpoints to the neighbouring floats; the midpoints themselves
count when the significand is even, because a reader's ties go to the even significand.

The search walks down the powers of ten. On each grid of multiples only the two neighbours of
the value need a test, and the first grid with a hit has the fewest digits.
-/

namespace ThreeAddress

/-- The number `coefficient * 10 ^ exponent`. -/
structure Decimal where
  /-- The digits, read as one natural number. -/
  coefficient : Nat
  /-- The power of ten of the last digit. -/
  exponent : Int
  deriving DecidableEq

namespace Binary64

/-- The numerator of `value * 2 ^ binary / 10 ^ decimal` over `denominator binary decimal`. -/
def numerator (value : Nat) (binary decimal : Int) : Nat :=
  value <<< binary.toNat * Nat.pow 10 (-decimal).toNat

/-- What `2 ^ binary / 10 ^ decimal` divides by. -/
def denominator (binary decimal : Int) : Nat :=
  1 <<< (-binary).toNat * Nat.pow 10 decimal.toNat

/-- Whether a decimal lies between the midpoints to the neighbours of a positive finite value.
Distances are counted in quarters of the last binary digit, so both midpoints are whole. -/
def readsBack (x : Binary64) (d : Decimal) : Bool :=
  let binary := x.exponent - 2
  let below := 4 * x.significand - (if x.isBinadeStart then 1 else 2)
  let above := 4 * x.significand + 2
  let point := d.coefficient * denominator binary d.exponent
  if x.significand % 2 = 0 then
    decide (numerator below binary d.exponent ≤ point ∧ point ≤ numerator above binary d.exponent)
  else
    decide (numerator below binary d.exponent < point ∧ point < numerator above binary d.exponent)

/-- The multiples of `10 ^ exponent` that a positive finite value lies on or between. -/
def gridNeighbours (x : Binary64) (exponent : Int) : Decimal × Decimal :=
  let quotient := numerator x.significand x.exponent exponent / denominator x.exponent exponent
  (⟨quotient, exponent⟩, ⟨quotient + 1, exponent⟩)

/-- Whether a value is strictly nearer to the lower of its grid neighbours. -/
def isNearerBelow (x : Binary64) (exponent : Int) : Bool :=
  decide (2 * (numerator x.significand x.exponent exponent % denominator x.exponent exponent)
    < denominator x.exponent exponent)

/-- The grid neighbour that reads back; of two the nearer, and the larger in a tie. -/
def onGrid (x : Binary64) (exponent : Int) : Option Decimal :=
  match x.readsBack (x.gridNeighbours exponent).1, x.readsBack (x.gridNeighbours exponent).2 with
  | true, true =>
    if x.isNearerBelow exponent then some (x.gridNeighbours exponent).1
    else some (x.gridNeighbours exponent).2
  | true, false => some (x.gridNeighbours exponent).1
  | false, true => some (x.gridNeighbours exponent).2
  | false, false => none

/-- The first hit on the grids `10 ^ exponent`, `10 ^ (exponent - 1)` and so on. -/
def firstOnGrids (x : Binary64) : Nat → Int → Option Decimal
  | 0, _ => none
  | grids + 1, exponent =>
    match x.onGrid exponent with
    | some d => some d
    | none => firstOnGrids x grids (exponent - 1)

/-- The value of a positive finite float, written out in full. -/
def expansion (x : Binary64) : Decimal :=
  match x.exponent with
  | .ofNat places => ⟨x.significand <<< places, 0⟩
  | .negSucc places => ⟨x.significand * Nat.pow 5 (places + 1), .negSucc places⟩

/-- A power of ten above a positive finite value: one decimal digit is worth a little more than
`100000 / 30103` binary ones. -/
def decimalCeiling (x : Binary64) : Int :=
  (x.significand.log2 + 1 + x.exponent) * 30103 / 100000 + 1

/-- The shortest decimal of a positive finite value. Seventeen digits always suffice, so twenty
grids below the ceiling hold a hit. -/
def shortest (x : Binary64) : Decimal :=
  (x.firstOnGrids 20 x.decimalCeiling).getD x.expansion

/-- A decimal taken from a grid reads back. -/
theorem readsBack_of_onGrid {x : Binary64} {exponent : Int} {d : Decimal}
    (h : x.onGrid exponent = some d) : x.readsBack d = true := by
  unfold onGrid at h
  split at h
  · split at h <;> (injection h with h; subst h; assumption)
  · injection h with h; subst h; assumption
  · injection h with h; subst h; assumption
  · contradiction

end Binary64

end ThreeAddress
