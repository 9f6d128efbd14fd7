import GraphQLClient.DateTime
import GraphQLClient.Decimal.Reading
import GraphQLClient.Setting

/-!
# Dates and times of TOML

A word of TOML may write a date, a time of day, or both, and then an offset from universal time as
well.  In a configuration such a value is a table of one text, which writes it in one form.

## Main definitions

* `Toml.Moment` : dates and times.
* `Toml.moment?` : the date or the time that a word writes.
* `Toml.Moment.toText` : its text.
-/

namespace GraphQLClient.Toml

/-- The distance of a time from universal time. -/
inductive Offset where
  | universal
  | minutes (ahead : Int)

/-- A time of day.  A fraction of a second is given by its digits. -/
structure Clock where
  hour : Nat
  minute : Nat
  second : Option Nat
  fraction : Option (List Char)

/-- A date, a time, or both; only both may have an offset. -/
structure Moment where
  date : Option Date
  clock : Option Clock
  offset : Option Offset

/-! ### Reading -/

/-- A number of digits, and the rest of the text. -/
def takeNumber? (count : Nat) (s : List Char) : Option (Nat × List Char) :=
  let digits := s.take count
  if digits.length = count && digits.all Char.isDigit then
    some (Decimal.digitsValue digits, s.drop count)
  else none

/-- The text after a mark. -/
def takeMark? (mark : Char) : List Char → Option (List Char)
  | c :: rest => if c = mark then some rest else none
  | [] => none

/-- A date at the start of a text. -/
def takeDate? (s : List Char) : Option (Date × List Char) := do
  let (year, s) ← takeNumber? 4 s
  let (month, s) ← takeNumber? 2 (← takeMark? '-' s)
  let (day, s) ← takeNumber? 2 (← takeMark? '-' s)
  pure (← Date.ofParts? year month day, s)

/-- The hour and the minute at the start of a text. -/
def takeMinutes? (s : List Char) : Option (Nat × Nat × List Char) := do
  let (hour, s) ← takeNumber? 2 s
  let (minute, s) ← takeNumber? 2 (← takeMark? ':' s)
  if hour ≤ 23 && minute ≤ 59 then pure (hour, minute, s) else none

/-- A time at the start of a text.  Seconds and their fraction may be missing. -/
def takeClock? (s : List Char) : Option (Clock × List Char) := do
  let (hour, minute, s) ← takeMinutes? s
  match s with
  | ':' :: s =>
    let (second, s) ← takeNumber? 2 s
    if second ≤ 60 then
      match s with
      | '.' :: s =>
        let (digits, s) := s.span Char.isDigit
        if digits.isEmpty then none else pure (⟨hour, minute, some second, some digits⟩, s)
      | s => pure (⟨hour, minute, some second, none⟩, s)
    else none
  | s => pure (⟨hour, minute, none, none⟩, s)

/-- The offset that a text writes; none for an empty text. -/
def offset? : List Char → Option (Option Offset)
  | [] => some none
  | ['Z'] => some (some .universal)
  | ['z'] => some (some .universal)
  | '+' :: rest => (distance rest).map fun n => some (.minutes n)
  | '-' :: rest => (distance rest).map fun n => some (.minutes (-n))
  | _ => none
where
  /-- The minutes that hours and minutes make up. -/
  distance (s : List Char) : Option Int :=
    match takeMinutes? s with
    | some (hours, minutes, []) => some (60 * hours + minutes : Nat)
    | _ => none

/-- The date or the time that a word writes. -/
def moment? (s : List Char) : Option Moment :=
  match takeDate? s with
  | some (date, []) => some ⟨some date, none, none⟩
  | some (date, c :: rest) =>
    if c = 'T' || c = 't' || c = ' ' then
      (takeClock? rest).bind fun (clock, rest) =>
        (offset? rest).map fun offset => ⟨some date, some clock, offset⟩
    else none
  | none =>
    match takeClock? s with
    | some (clock, []) => some ⟨none, some clock, none⟩
    | _ => none

/-! ### Writing -/

/-- The characters of a date. -/
def dateChars (d : Date) : List Char :=
  DateTime.yearChars d.year ++ '-' :: DateTime.padded 2 d.month ++ '-' :: DateTime.padded 2 d.day

/-- The digits of a fraction that count: the first nine, without zeros at the end, but not fewer
than one. -/
def fractionDigits (digits : List Char) : List Char :=
  let shown := ((digits.take 9).reverse.dropWhile fun c => c = '0').reverse
  if shown.isEmpty then ['0'] else shown

/-- The characters of a time. -/
def Clock.toChars (t : Clock) : List Char :=
  DateTime.padded 2 t.hour ++ ':' :: DateTime.padded 2 t.minute ++
    (t.second.map fun s => ':' :: DateTime.padded 2 s).getD [] ++
    (t.fraction.map fun digits => '.' :: fractionDigits digits).getD []

/-- The characters of an offset. -/
def Offset.toChars : Offset → List Char
  | .universal => ['Z']
  | .minutes ahead => DateTime.offsetChars ahead

/-- The text of a date or a time; between the two stands a capital letter. -/
def Moment.toText (m : Moment) : String :=
  let date := m.date.map dateChars
  let clock := m.clock.map Clock.toChars
  String.ofList
    (['T'].intercalate (date.toList ++ clock.toList) ++ (m.offset.map Offset.toChars).getD [])

/-- The key under which the text of a date or a time stands. -/
def Moment.key : String := "$__toml_private_datetime"

/-- What a date or a time says. -/
def Moment.toSetting (m : Moment) : Setting :=
  .table [(.string Moment.key, .string m.toText)]

end GraphQLClient.Toml
