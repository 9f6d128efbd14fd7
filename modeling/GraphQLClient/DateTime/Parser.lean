import GraphQLClient.DateTime
import GraphQLClient.Decimal.Reading
import GraphQLClient.Text.Blank

/-!
# Reading date-times

Three forms are read, tried in this order: the date-times of RFC 3339, with exact widths and an
offset; date-times without an offset, in UTC; and dates alone, which stand for midnight in UTC.  In
the last two a number may have fewer digits than its width and blanks before it, and a year with a
sign any number of digits.

## Main definitions

* `DateTime.ofRfc3339?` : the first form.
* `DateTime.ofLocalText?`, `DateTime.ofDateText?` : the second and the third.
* `DateTime.ofText?` : any of the three.
-/

namespace GraphQLClient.DateTime

open Decimal (isDigit digitsValue)

/-- Drops a given character from the front of a text. -/
def expect (c : Char) : List Char → Option (List Char)
  | [] => none
  | d :: rest => if c = d then some rest else none

/-- A number of exactly two digits. -/
def twoDigits? : List Char → Option (Nat × List Char)
  | a :: b :: rest =>
    if isDigit a && isDigit b then some (digitsValue [a, b], rest) else none
  | _ => none

/-- A number of exactly four digits. -/
def fourDigits? : List Char → Option (Nat × List Char)
  | a :: b :: c :: d :: rest =>
    if isDigit a && isDigit b && isDigit c && isDigit d then
      some (digitsValue [a, b, c, d], rest)
    else none
  | _ => none

/-- The nanoseconds of the digits after a decimal point; digits beyond the ninth are dropped. -/
def nanoseconds (digits : List Char) : Nat :=
  let kept := digits.take 9
  digitsValue kept * Nat.pow 10 (9 - kept.length)

/-- A fraction of a second, if one follows. -/
def fraction? : List Char → Option (Nat × List Char)
  | '.' :: rest =>
    let (digits, r) := Decimal.takeDigits rest
    if digits.isEmpty then none else some (nanoseconds digits, r)
  | s => some (0, s)

/-- An offset from UTC that ends the text: `Z`, or a sign, hours and minutes. -/
def offset? : List Char → Option Int
  | ['Z'] => some 0
  | ['z'] => some 0
  | sign :: rest => do
    let negative ← if sign = '+' then some false
      else if sign = '-' || sign = '\u2212' then some true else none
    let (hours, r) ← twoDigits? rest
    let r ← expect ':' r
    let (minutes, r) ← twoDigits? r
    if r.isEmpty && hours < 24 && minutes < 60 then
      let n : Int := hours * 60 + minutes
      some (if negative then -n else n)
    else none
  | [] => none

/-- The date-time with given parts, if there is one. -/
def ofParts? (date : Option Date) (time : Option TimeOfDay) (offset : Int) : Option DateTime :=
  match date, time with
  | some date, some time =>
    if h : offset.natAbs < 1440 then some ⟨date, time, offset, h⟩ else none
  | _, _ => none

/-- A date-time of RFC 3339. -/
def ofRfc3339? (s : List Char) : Option DateTime := do
  let (year, r) ← fourDigits? s
  let r ← expect '-' r
  let (month, r) ← twoDigits? r
  let r ← expect '-' r
  let (day, r) ← twoDigits? r
  let r ← (expect 'T' r).or ((expect 't' r).or (expect ' ' r))
  let (hour, r) ← twoDigits? r
  let r ← expect ':' r
  let (minute, r) ← twoDigits? r
  let r ← expect ':' r
  let (second, r) ← twoDigits? r
  let (nanosecond, r) ← fraction? r
  let offset ← offset? r
  ofParts? (Date.ofParts? year month day) (TimeOfDay.ofParts? hour minute second nanosecond) offset

/-- A number of at least one digit and at most `width` of them, blanks before it dropped. -/
def number? (width : Nat) (s : List Char) : Option (Nat × List Char) :=
  let s := Text.trimLeft s
  let digits := (s.takeWhile isDigit).take width
  if digits.isEmpty then none else some (digitsValue digits, s.drop digits.length)

/-- A year: at most four digits, or a sign and any number of digits. -/
def year? (s : List Char) : Option (Int × List Char) :=
  match Text.trimLeft s with
  | '-' :: r =>
    let (digits, r) := Decimal.takeDigits r
    if digits.isEmpty then none else some (-(digitsValue digits : Int), r)
  | '+' :: r =>
    let (digits, r) := Decimal.takeDigits r
    if digits.isEmpty then none else some ((digitsValue digits : Int), r)
  | r => (number? 4 r).map fun (n, r) => ((n : Int), r)

/-- The parts of a date at the front of a text. -/
def dateParts? (s : List Char) : Option ((Int × Nat × Nat) × List Char) := do
  let (year, r) ← year? s
  let r ← expect '-' r
  let (month, r) ← number? 2 r
  let r ← expect '-' r
  let (day, r) ← number? 2 r
  pure ((year, month, day), r)

/-- A date-time without an offset, read in UTC. -/
def ofLocalText? (s : List Char) : Option DateTime := do
  let ((year, month, day), r) ← dateParts? s
  let r ← expect 'T' r
  let (hour, r) ← number? 2 r
  let r ← expect ':' r
  let (minute, r) ← number? 2 r
  let r ← expect ':' r
  let (second, r) ← number? 2 r
  let (nanosecond, r) ← fraction? r
  if r.isEmpty then
    ofParts? (Date.ofParts? year month day) (TimeOfDay.ofParts? hour minute second nanosecond) 0
  else none

/-- A date, read as midnight in UTC. -/
def ofDateText? (s : List Char) : Option DateTime := do
  let ((year, month, day), r) ← dateParts? s
  if r.isEmpty then ofParts? (Date.ofParts? year month day) (some .midnight) 0 else none

/-- A date-time in any of the three forms. -/
def ofText? (s : String) : Option DateTime :=
  let s := s.toList
  (ofRfc3339? s).or ((ofLocalText? s).or (ofDateText? s))

end GraphQLClient.DateTime
