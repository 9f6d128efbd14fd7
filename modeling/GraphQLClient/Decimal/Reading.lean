import GraphQLClient.Decimal.Layout

/-!
# Reading decimals

Two ways of turning a decimal text into a floating-point number.  Native texts are rounded
correctly, to the nearest number.  A JSON text is read by its leading digits that fit 64 bits,
converted and then scaled by a power of ten that is itself a rounded number: two roundings, which
agree with the correct one as long as the digits and the power are exactly representable.

## Main definitions

* `Decimal.Parts` : the digits and the exponent of a decimal text.
* `Decimal.nearest` : the number nearest to a decimal.
* `Decimal.scaled` : the number reached by scaling leading digits.
* `Binary64.ofText?` : the number denoted by a text.
-/

namespace GraphQLClient

namespace Decimal

/-- The value of a decimal digit. -/
def digitValue (c : Char) : Nat :=
  c.toNat - '0'.toNat

/-- The number written by a sequence of decimal digits. -/
def digitsValue (s : List Char) : Nat :=
  s.foldl (fun n c => 10 * n + digitValue c) 0

/-- The number nearest to `digits * 10 ^ exponent`.  Decimals far out of the range of the numbers
are decided by the position of their leading digit. -/
def nearest (negative : Bool) (d : Decimal) : Binary64 :=
  let places : Int := (natChars d.digits).length + d.exponent
  if d.digits = 0 then .finite (.zero negative)
  else if 400 < places then .infinite negative
  else if places < -400 then .finite (.zero negative)
  else if 0 ≤ d.exponent then Binary64.ofRatio negative (d.digits * Nat.pow 10 d.exponent.toNat) 1
  else Binary64.ofRatio negative d.digits (Nat.pow 10 (-d.exponent).toNat)

/-- The parts of a decimal text: digits before the point, digits after it, exponent. -/
structure Parts where
  whole : List Char
  fraction : List Char
  exponent : Int
  deriving DecidableEq, Repr

/-- The decimal with given parts. -/
def Parts.toDecimal (p : Parts) : Decimal :=
  ⟨digitsValue (p.whole ++ p.fraction), p.exponent - p.fraction.length⟩

/-- The largest number that fits 64 bits. -/
def word64Max : Nat := 0xffffffffffffffff

/-- The leading digits whose number fits 64 bits, and how many of the digits they are. -/
def leadingDigits : List Char → Nat → Nat → Nat × Nat
  | [], n, used => (n, used)
  | c :: rest, n, used =>
    if 10 * n + digitValue c ≤ word64Max then leadingDigits rest (10 * n + digitValue c) (used + 1)
    else (n, used)

/-- Scales a number by a power of ten, `10 ^ 308` at a time as long as the power exceeds it.  The
result is absent when it is too large. -/
def scaleBy : Nat → Finite64 → Int → Option Finite64
  | 0, x, _ => some x
  | steps + 1, x, exponent =>
    if exponent.natAbs ≤ 308 then
      match Binary64.ofRatio false (Nat.pow 10 exponent.natAbs) 1 with
      | .finite power =>
        if 0 ≤ exponent then (x.mulMagnitude power).finite? else (x.divMagnitude power).finite?
      | _ => none
    else if x.significand = 0 then some x
    else if 0 ≤ exponent then none
    else
      match Binary64.ofRatio false (Nat.pow 10 308) 1 with
      | .finite power =>
        match x.divMagnitude power with
        | .finite y => scaleBy steps y (exponent + 308)
        | _ => none
      | _ => none

/-- The number that a decimal of a JSON text denotes: its leading digits that fit 64 bits, scaled.
Digits of the whole part beyond them still count as places; digits of the fraction beyond them are
dropped.  Absent when the number is too large. -/
def scaled (negative : Bool) (p : Parts) : Option Finite64 :=
  let (lead, used) := leadingDigits (p.whole ++ p.fraction) 0 0
  let exponent := p.exponent + p.whole.length - used
  match Binary64.ofRatio false lead 1 with
  | .finite x => (scaleBy 4 x exponent).map fun y => { y with negative := negative }
  | _ => none

/-- Whether a character is a decimal digit. -/
def isDigit (c : Char) : Bool :=
  '0' ≤ c && c ≤ '9'

/-- The digits at the start of a text, and the rest. -/
def takeDigits (s : List Char) : List Char × List Char :=
  s.span isDigit

/-- An exponent, with or without a sign, that ends the text. -/
def exponent? (s : List Char) : Option Int :=
  let (negative, digits) :=
    match s with
    | '-' :: r => (true, r)
    | '+' :: r => (false, r)
    | r => (false, r)
  if digits.isEmpty || !digits.all isDigit then none
  else some (if negative then -(digitsValue digits : Int) else digitsValue digits)

/-- The parts of a text that is a decimal from its first character to its last; one of the two
sequences of digits may be empty. -/
def parts? (s : List Char) : Option Parts :=
  let (whole, r) := takeDigits s
  let (fraction, r) :=
    match r with
    | '.' :: r' => takeDigits r'
    | _ => ([], r)
  if whole.isEmpty && fraction.isEmpty then none
  else
    match r with
    | [] => some ⟨whole, fraction, 0⟩
    | c :: r' => if c = 'e' || c = 'E' then (exponent? r').map (⟨whole, fraction, ·⟩) else none

end Decimal

/-- The number denoted by a text: a decimal with an optional sign, or the name of a value that is
not finite. -/
def Binary64.ofText? (s : String) : Option Binary64 :=
  let (negative, body) :=
    match s.toList with
    | '-' :: r => (true, r)
    | '+' :: r => (false, r)
    | r => (false, r)
  let name := body.map Char.toLower
  if name == "inf".toList || name == "infinity".toList then some (.infinite negative)
  else if name == "nan".toList then some .nan
  else (Decimal.parts? body).map fun p => Decimal.nearest negative p.toDecimal

end GraphQLClient
