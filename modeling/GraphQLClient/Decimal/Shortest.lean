import GraphQLClient.Binary64

/-!
# The shortest decimal of a floating-point number

A finite number has many decimals that read back as the number itself.  The one written is found
on the coarsest decimal grid that has such a point: one, two, and up to seventeen digits are
tried, and on each grid only the two neighbours of the number need to be looked at, since if any
point of the grid lies in the interval of reals that round to the number, one of them does.

## Main definitions

* `Decimal` : a decimal `digits * 10 ^ exponent`.
* `Decimal.Tie` : which of two equally near decimals is taken.
* `Decimal.shortest` : the shortest decimal of a finite number, and the nearest of those.
-/

namespace GraphQLClient

/-- A decimal number without a sign, `digits * 10 ^ exponent`. -/
structure Decimal where
  digits : Nat
  exponent : Int
  deriving DecidableEq, Repr

namespace Decimal

/-- Which of two equally near decimals is taken. -/
inductive Tie where
  /-- The one whose last digit is even. -/
  | even
  /-- The larger one. -/
  | up
  deriving DecidableEq, Repr

/-- A decimal without zeros at its end; the number of steps bounds the zeros dropped. -/
def dropZeros : Nat → Decimal → Decimal
  | 0, d => d
  | steps + 1, d =>
    if d.digits ≠ 0 ∧ d.digits % 10 = 0 then dropZeros steps ⟨d.digits / 10, d.exponent + 1⟩
    else d

/-- The exponent of ten of the leading digit of a number that is not zero.  The smallest number
exceeds `10 ^ (-340)`, so the integral part of the number times `10 ^ 340` has a leading digit. -/
def leadingExponent (x : Finite64) : Int :=
  let scaled :=
    if 0 ≤ x.power then x.significand * Nat.pow 2 x.power.toNat * Nat.pow 10 340
    else x.significand * Nat.pow 10 340 / Nat.pow 2 (-x.power).toNat
  ((Nat.toDigits 10 scaled).length : Int) - 341

/-- The point of the grid of step `10 ^ grid` that is written for a number, if one of its two
neighbours on the grid reads back as the number.

All comparisons are of quotients with the common denominator removed: the number is
`4 * significand * s / t`, and one step of the grid is `p / q`. -/
def onGrid? (tie : Tie) (x : Finite64) (grid : Int) : Option Decimal :=
  let (p, q) : Nat × Nat :=
    if 0 ≤ grid then (Nat.pow 10 grid.toNat, 1) else (1, Nat.pow 10 (-grid).toNat)
  let shift := x.power - 2
  let (s, t) : Nat × Nat :=
    if 0 ≤ shift then (Nat.pow 2 shift.toNat, 1) else (1, Nat.pow 2 (-shift).toNat)
  let value := 4 * x.significand * s * q
  let low := (4 * x.significand - if x.isBoundary then 1 else 2) * s * q
  let high := (4 * x.significand + 2) * s * q
  let step := p * t
  let below := value / step
  let closed := x.significand % 2 == 0
  let belowFits := if closed then low ≤ below * step else low < below * step
  let aboveFits := if closed then (below + 1) * step ≤ high else (below + 1) * step < high
  if belowFits && aboveFits then
    let twice := 2 * value
    let middle := (2 * below + 1) * step
    let takeBelow :=
      twice < middle || (twice == middle && tie == .even && below % 2 == 0)
    some ⟨if takeBelow then below else below + 1, grid⟩
  else if belowFits then some ⟨below, grid⟩
  else if aboveFits then some ⟨below + 1, grid⟩
  else none

/-- The first of the grids with `n`, `n + 1`, … digits that has a decimal for the number. -/
def searchGrids (tie : Tie) (x : Finite64) (leading : Int) : Nat → Nat → Decimal
  | 0, _ => ⟨0, 0⟩
  | steps + 1, n =>
    match onGrid? tie x (leading - n) with
    | some d => d
    | none => searchGrids tie x leading steps (n + 1)

/-- The shortest decimal that reads back as the magnitude of a finite number, and of those the
nearest; zero has no digits. -/
def shortest (tie : Tie) (x : Finite64) : Decimal :=
  if x.significand = 0 then ⟨0, 0⟩
  else dropZeros 400 (searchGrids tie x (leadingExponent x) 18 0)

end Decimal

end GraphQLClient
