import GraphQLClient.Decimal.Shortest

/-!
# Layouts of floating-point numbers

A number is written by its shortest decimal.  Where the decimal point goes, when an exponent is
written and how, is a layout; the library uses three.

## Main definitions

* `Decimal.Layout` : the decisions of a layout.
* `Decimal.Layout.json`, `Decimal.Layout.literal`, `Decimal.Layout.message` : the layouts of JSON
  numbers, of float literals in documents, and of numbers inside messages.
* `Decimal.write`, `Binary64.write` : a number in a layout.
-/

namespace GraphQLClient

namespace Decimal

/-- How floating-point numbers are laid out. -/
structure Layout where
  /-- The exponents of the leading digit that are written without an exponent: from the first up
  to but not including the second; all of them when absent. -/
  positional : Option (Int × Int)
  /-- Whether an integral number written without an exponent ends in `.0`. -/
  pointZero : Bool
  /-- Whether a positive exponent carries a plus sign. -/
  plus : Bool
  /-- Which of two equally near decimals is written. -/
  tie : Tie

/-- A number of a JSON text is positional from `10 ^ (-5)` up to `10 ^ 16`, and a positive
exponent carries its sign. -/
def Layout.json : Layout := ⟨some (-5, 16), true, true, .even⟩

/-- A float literal is positional from `10 ^ (-4)` up to `10 ^ 16`, and a positive exponent has no
sign. -/
def Layout.literal : Layout := ⟨some (-4, 16), true, false, .up⟩

/-- A number inside a message has no exponent and no fraction unless it needs one. -/
def Layout.message : Layout := ⟨none, false, false, .up⟩

/-- A natural number in base ten. -/
def natChars (n : Nat) : List Char :=
  Nat.toDigits 10 n

/-- An integer in base ten. -/
def intChars (i : Int) : List Char :=
  if i < 0 then '-' :: natChars i.natAbs else natChars i.natAbs

/-- Digits with the decimal point after the first `point` of them, zeros added where there are
none. -/
def positionalChars (pointZero : Bool) (digits : List Char) (point : Int) : List Char :=
  if point ≤ 0 then
    ['0', '.'] ++ List.replicate (-point).toNat '0' ++ digits
  else
    let n := point.toNat
    if n < digits.length then digits.take n ++ '.' :: digits.drop n
    else digits ++ List.replicate (n - digits.length) '0' ++ if pointZero then ['.', '0'] else []

/-- Digits with the decimal point after the first, and an exponent. -/
def exponentChars (plus : Bool) (digits : List Char) (exponent : Int) : List Char :=
  digits.take 1 ++ (if digits.length ≤ 1 then [] else '.' :: digits.drop 1) ++ ['e'] ++
    (if plus && 0 ≤ exponent then ['+'] else []) ++ intChars exponent

/-- A decimal that is not zero in a layout. -/
def layOut (layout : Layout) (d : Decimal) : List Char :=
  let digits := natChars d.digits
  let point := d.exponent + digits.length
  let positional :=
    match layout.positional with
    | none => true
    | some (first, stop) => first ≤ point - 1 && point - 1 < stop
  if positional then positionalChars layout.pointZero digits point
  else exponentChars layout.plus digits (point - 1)

/-- A finite number in a layout. -/
def write (layout : Layout) (x : Finite64) : List Char :=
  (if x.negative then ['-'] else []) ++
    if x.significand = 0 then if layout.pointZero then ['0', '.', '0'] else ['0']
    else layOut layout (shortest layout.tie x)

end Decimal

/-- A floating-point number in a layout; the values that are not finite have names. -/
def Binary64.write (layout : Decimal.Layout) : Binary64 → List Char
  | .finite x => Decimal.write layout x
  | .infinite negative => (if negative then ['-'] else []) ++ ['i', 'n', 'f']
  | .nan => ['N', 'a', 'N']

end GraphQLClient
