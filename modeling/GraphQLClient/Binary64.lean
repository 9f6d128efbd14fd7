/-!
# Binary floating-point numbers of 64 bits

A finite number is given by its sign, its exponent and its fraction, each in its own range, so
every combination is a number and two numbers are equal exactly when their parts are.  Arithmetic
is exact on natural numbers with one rounding at the end: to the nearest number, a tie going to
the even one.

## Main definitions

* `Finite64`, `Binary64` : the finite numbers, and all numbers.
* `Finite64.significand`, `Finite64.power` : the value of a finite number is
  `significand * 2 ^ power`, up to its sign.
* `Binary64.ofRatio` : the number nearest to a quotient of natural numbers.
* `Binary64.ofInt` : the number nearest to an integer.
-/

namespace GraphQLClient

/-- A finite binary floating-point number of 64 bits. -/
structure Finite64 where
  /-- Whether the number carries a minus sign; zero may carry one too. -/
  negative : Bool
  /-- The exponent, counted from the smallest; zero marks the numbers near zero. -/
  exponent : Fin 2047
  /-- The 52 digits of base two after the leading one. -/
  fraction : Fin 0x10000000000000
  deriving DecidableEq, Repr

/-- A binary floating-point number of 64 bits; all values that are no number are one. -/
inductive Binary64 where
  | finite (x : Finite64)
  | infinite (negative : Bool)
  | nan
  deriving DecidableEq, Repr

namespace Finite64

/-- The integral factor of the value of a number. -/
def significand (x : Finite64) : Nat :=
  if x.exponent.val = 0 then x.fraction.val else 0x10000000000000 + x.fraction.val

/-- The power of two in the value of a number. -/
def power (x : Finite64) : Int :=
  (max x.exponent.val 1 : Nat) - 1075

/-- Zero, with a sign. -/
def zero (negative : Bool) : Finite64 :=
  ⟨negative, ⟨0, by decide⟩, ⟨0, by decide⟩⟩

/-- The number with the other sign. -/
def neg (x : Finite64) : Finite64 :=
  { x with negative := !x.negative }

/-- The smaller neighbour of a power of two is half as far away as the larger one. -/
def isBoundary (x : Finite64) : Bool :=
  x.fraction.val == 0 && 1 < x.exponent.val

end Finite64

/-- A quotient of natural numbers rounded to the nearest natural number, a tie going to the even
one. -/
def roundQuotient (num den : Nat) : Nat :=
  let q := num / den
  let r := num % den
  if 2 * r < den then q
  else if den < 2 * r then q + 1
  else if q % 2 = 0 then q else q + 1

namespace Binary64

/-- The power of two under the last digit of the number nearest to `num / den`. -/
def lastPower (num den : Nat) : Int :=
  let estimate : Int := Nat.log2 num - Nat.log2 den - 53
  let quotient :=
    if 0 ≤ estimate then num / (den * Nat.pow 2 estimate.toNat)
    else num * Nat.pow 2 (-estimate).toNat / den
  max (-1074) (if 0x20000000000000 ≤ quotient then estimate + 1 else estimate)

/-- The number nearest to `num / den`, with a sign; the denominator is not zero. -/
def ofRatio (negative : Bool) (num den : Nat) : Binary64 :=
  if num = 0 then .finite (.zero negative)
  else
    let q := lastPower num den
    let m :=
      if 0 ≤ q then roundQuotient num (den * Nat.pow 2 q.toNat)
      else roundQuotient (num * Nat.pow 2 (-q).toNat) den
    let exponent : Nat :=
      if m < 0x10000000000000 then 0
      else if m < 0x20000000000000 then (q + 1075).toNat
      else (q + 1076).toNat
    if h : exponent < 2047 then
      .finite ⟨negative, ⟨exponent, h⟩, ⟨m % 0x10000000000000, Nat.mod_lt _ (by decide)⟩⟩
    else .infinite negative

/-- The number nearest to `num / den * 2 ^ p`, with a sign. -/
def ofScaledRatio (negative : Bool) (num den : Nat) (p : Int) : Binary64 :=
  if 0 ≤ p then ofRatio negative (num * Nat.pow 2 p.toNat) den
  else ofRatio negative num (den * Nat.pow 2 (-p).toNat)

/-- The number nearest to an integer. -/
def ofInt (i : Int) : Binary64 :=
  ofRatio (i < 0) i.natAbs 1

/-- Whether a number is finite. -/
def finite? : Binary64 → Option Finite64
  | .finite x => some x
  | _ => none

/-- The number with the other sign. -/
def neg : Binary64 → Binary64
  | .finite x => .finite x.neg
  | .infinite negative => .infinite (!negative)
  | .nan => .nan

end Binary64

namespace Finite64

/-- The product of the magnitudes of two numbers, rounded. -/
def mulMagnitude (x y : Finite64) : Binary64 :=
  Binary64.ofScaledRatio false (x.significand * y.significand) 1 (x.power + y.power)

/-- The quotient of the magnitudes of two numbers, rounded; the divisor is not zero. -/
def divMagnitude (x y : Finite64) : Binary64 :=
  Binary64.ofScaledRatio false x.significand y.significand (x.power - y.power)

end Finite64

end GraphQLClient
