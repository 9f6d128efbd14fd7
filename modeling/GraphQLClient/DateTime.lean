import GraphQLClient.Decimal.Layout

/-!
# Date-times

A date-time is a calendar date and a time of day at an offset from UTC.  The type holds exactly
the dates of the proleptic Gregorian calendar in the supported years, times with an optional leap
second, and offsets of whole minutes below one day.

## Main definitions

* `Date`, `TimeOfDay`, `DateTime` : dates, times and date-times.
* `Date.ofParts?`, `TimeOfDay.ofParts?` : values with given parts, if there are any.
* `DateTime.toText` : the text of a date-time in the format of RFC 3339, with a sign for years of
  more than four digits.
-/

namespace GraphQLClient

/-- A year with a day at the end of February added. -/
def isLeapYear (year : Int) : Bool :=
  year % 4 == 0 && (year % 100 != 0 || year % 400 == 0)

/-- The number of days of a month; none if there is no such month. -/
def daysInMonth (year : Int) (month : Nat) : Nat :=
  match month with
  | 2 => if isLeapYear year then 29 else 28
  | 4 | 6 | 9 | 11 => 30
  | 1 | 3 | 5 | 7 | 8 | 10 | 12 => 31
  | _ => 0

/-- A date of the calendar, in the supported years. -/
structure Date where
  year : Int
  month : Nat
  day : Nat
  year_mem : -262143 ≤ year ∧ year ≤ 262142
  day_mem : 1 ≤ day ∧ day ≤ daysInMonth year month
  deriving DecidableEq

/-- A time of day, to the nanosecond; the second 60 is a leap second. -/
structure TimeOfDay where
  hour : Fin 24
  minute : Fin 60
  second : Fin 61
  nanosecond : Fin 1000000000
  deriving DecidableEq

/-- A date and a time of day at an offset from UTC, in minutes. -/
structure DateTime where
  date : Date
  time : TimeOfDay
  offset : Int
  offset_lt : offset.natAbs < 1440
  deriving DecidableEq

/-- The date with given parts, if there is one. -/
def Date.ofParts? (year : Int) (month day : Nat) : Option Date :=
  if h : (-262143 ≤ year ∧ year ≤ 262142) ∧ 1 ≤ day ∧ day ≤ daysInMonth year month then
    some ⟨year, month, day, h.1, h.2⟩
  else none

/-- The time with given parts, if there is one. -/
def TimeOfDay.ofParts? (hour minute second nanosecond : Nat) : Option TimeOfDay :=
  if h : hour < 24 ∧ minute < 60 ∧ second < 61 ∧ nanosecond < 1000000000 then
    some ⟨⟨hour, h.1⟩, ⟨minute, h.2.1⟩, ⟨second, h.2.2.1⟩, ⟨nanosecond, h.2.2.2⟩⟩
  else none

/-- The first moment of a day. -/
def TimeOfDay.midnight : TimeOfDay := ⟨0, 0, 0, ⟨0, by decide⟩⟩

namespace DateTime

/-- A date and a time of day in UTC. -/
def utc (date : Date) (time : TimeOfDay) : DateTime :=
  ⟨date, time, 0, by decide⟩

/-- A number in base ten with zeros before it up to a width. -/
def padded (width n : Nat) : List Char :=
  let digits := Decimal.natChars n
  List.replicate (width - digits.length) '0' ++ digits

/-- A year: four digits from 0 to 9999, else a sign and at least four digits. -/
def yearChars (year : Int) : List Char :=
  if 0 ≤ year ∧ year ≤ 9999 then padded 4 year.toNat
  else (if year < 0 then '-' else '+') :: padded 4 year.natAbs

/-- A fraction of a second, in 3, 6 or 9 digits after a point; nothing for zero. -/
def fractionChars (nanosecond : Nat) : List Char :=
  if nanosecond = 0 then []
  else if nanosecond % 1000000 = 0 then '.' :: padded 3 (nanosecond / 1000000)
  else if nanosecond % 1000 = 0 then '.' :: padded 6 (nanosecond / 1000)
  else '.' :: padded 9 nanosecond

/-- An offset: a sign, hours and minutes. -/
def offsetChars (offset : Int) : List Char :=
  (if offset < 0 then '-' else '+') :: padded 2 (offset.natAbs / 60) ++
    ':' :: padded 2 (offset.natAbs % 60)

/-- The characters of the text of a date-time. -/
def toChars (d : DateTime) : List Char :=
  yearChars d.date.year ++ '-' :: padded 2 d.date.month ++ '-' :: padded 2 d.date.day ++
    'T' :: padded 2 d.time.hour ++ ':' :: padded 2 d.time.minute ++ ':' :: padded 2 d.time.second ++
    fractionChars d.time.nanosecond ++ offsetChars d.offset

/-- The text of a date-time. -/
def toText (d : DateTime) : String :=
  String.ofList d.toChars

end DateTime

end GraphQLClient
