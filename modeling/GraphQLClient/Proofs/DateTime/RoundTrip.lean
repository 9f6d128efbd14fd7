import GraphQLClient.Proofs.DateTime.Spelling
import GraphQLClient.Scalar

/-!
# Date-times that come back

A date-time is written in one of the spellings of RFC 3339 if its year has four digits, and then it
is read as it was.  A year before 0 or after 9999 is written with a sign, which RFC 3339 does not
have.  The two other forms read such years, but neither of them reads an offset, and a date-time is
always written with one: so a text with such a year is refused.

Whatever the spelling of a text of RFC 3339, what is written for it is one text, and that text is
kept.

## Main results

* `DateTime.spells_toChars` : the text of a date-time is a spelling of it.
* `DateTime.ofText?_toText` : when the text of a date-time is read.
* `Scalar.parse_dateTime_toText`, `Scalar.canonical_dateTime` : both for the codec of dates.
-/

namespace GraphQLClient

namespace DateTime

open Decimal (isDigit digitsValue)

/-! ### The written form is a spelling -/

/-- The point and the digits of a fraction stand for the nanoseconds that they count. -/
theorem isFraction_padded (width n : Nat) (hwidth : 0 < width) (hle : width ≤ 9)
    (h : n < Nat.pow 10 width) :
    IsFraction (n * Nat.pow 10 (9 - width)) ('.' :: padded width n) := by
  have hlength := length_padded hwidth h
  refine .inr ⟨padded width n, rfl, List.length_pos_iff.mp (by omega), isDigit_of_mem_padded, ?_⟩
  rw [nanoseconds, List.take_of_length_le (by omega), digitsValue_padded, hlength]

/-- Zeros at the end of a fraction are left out three at a time. -/
theorem isFraction_fractionChars {n : Nat} (h : n < 1000000000) :
    IsFraction n (fractionChars n) := by
  unfold fractionChars
  split
  · next hzero => exact .inl ⟨rfl, hzero⟩
  · split
    · next hthree =>
      have hfraction := isFraction_padded 3 (n / 1000000) (by decide) (by decide)
        (show n / 1000000 < 1000 by omega)
      have hn : n / 1000000 * Nat.pow 10 (9 - 3) = n := by
        change n / 1000000 * 1000000 = n
        omega
      rwa [hn] at hfraction
    · split
      · next hsix =>
        have hfraction := isFraction_padded 6 (n / 1000) (by decide) (by decide)
          (show n / 1000 < 1000000 by omega)
        have hn : n / 1000 * Nat.pow 10 (9 - 6) = n := by
          change n / 1000 * 1000 = n
          omega
        rwa [hn] at hfraction
      · have hfraction := isFraction_padded 9 n (by decide) (by decide) h
        have hn : n * Nat.pow 10 (9 - 9) = n := Nat.mul_one n
        rwa [hn] at hfraction

theorem isOffset_offsetChars {offset : Int} (h : offset.natAbs < 1440) :
    IsOffset offset (offsetChars offset) := by
  refine .inr ⟨if offset < 0 then '-' else '+', offset.natAbs / 60, offset.natAbs % 60, ?_, rfl,
    by omega, by omega, ?_⟩
  · split
    · exact .inr (.inl rfl)
    · exact .inl rfl
  · split
    · rw [if_neg (by decide)]
      omega
    · rw [if_pos rfl]
      omega

/-- The text of a date-time, part by part. -/
theorem toChars_eq (d : DateTime) :
    d.toChars = yearChars d.date.year ++ '-' :: (padded 2 d.date.month ++ '-' ::
      (padded 2 d.date.day ++ 'T' :: (padded 2 d.time.hour ++ ':' :: (padded 2 d.time.minute ++
        ':' :: (padded 2 d.time.second ++
          (fractionChars d.time.nanosecond ++ offsetChars d.offset)))))) := by
  simp only [toChars, List.append_assoc, List.cons_append]

/-- **The written form is a spelling.** A date-time whose year has four digits is written in one of
its spellings. -/
theorem spells_toChars {d : DateTime} (h : 0 ≤ d.date.year ∧ d.date.year ≤ 9999) :
    Spells d.toChars d := by
  refine ⟨d.date.year.toNat, 'T', fractionChars d.time.nanosecond, offsetChars d.offset,
    by omega, by omega, List.mem_cons_self, isFraction_fractionChars d.time.nanosecond.isLt,
    isOffset_offsetChars d.offset_lt, ?_⟩
  rw [toChars_eq, yearChars, if_pos h]

/-! ### The forms without an offset -/

theorem isBlank_of_isDigit {c : Char} (h : isDigit c = true) : Text.isBlank c = false := by
  have hc := Decimal.isDigit_iff.mp h
  simp only [Text.isBlank, Bool.or_eq_false_iff, Bool.and_eq_false_iff, decide_eq_false_iff_not,
    beq_eq_false_iff_ne]
  omega

/-- A number at the front of a text has a digit, and no blank before it. -/
theorem isDigit_of_mem_head? (width n : Nat) (r : List Char) :
    ∀ c ∈ (padded width n ++ r).head?, isDigit c = true := by
  intro c hc
  cases hdigits : padded width n with
  | nil => exact absurd hdigits (padded_ne_nil width n)
  | cons d digits =>
    rw [hdigits] at hc
    cases hc
    exact isDigit_of_mem_padded c (by rw [hdigits]; exact List.mem_cons_self)

theorem trimLeft_padded {width n : Nat} (r : List Char) :
    Text.trimLeft (padded width n ++ r) = padded width n ++ r := by
  have hhead := isDigit_of_mem_head? width n r
  cases htext : padded width n ++ r with
  | nil => rfl
  | cons c s =>
    rw [htext] at hhead
    exact Text.trimLeft_cons_of_not_blank (isBlank_of_isDigit (hhead c rfl)) s

/-- A number is read where it is written at its width, whatever follows. -/
theorem number?_padded (width : Nat) {n : Nat} (hwidth : 0 < width) (h : n < Nat.pow 10 width)
    (r : List Char) : number? width (padded width n ++ r) = some (n, r) := by
  have hlength := length_padded hwidth h
  have htake : ((padded width n ++ r).takeWhile isDigit).take width = padded width n := by
    rw [List.takeWhile_append_of_pos isDigit_of_mem_padded]
    exact List.take_left' hlength
  simp only [number?, trimLeft_padded, htake]
  rw [if_neg (by simpa using padded_ne_nil width n), digitsValue_padded, List.drop_left]

theorem year?_minus (s : List Char) :
    year? ('-' :: s) =
      if (Decimal.takeDigits s).1.isEmpty then none
      else some (-(digitsValue (Decimal.takeDigits s).1 : Int), (Decimal.takeDigits s).2) := rfl

theorem year?_plus (s : List Char) :
    year? ('+' :: s) =
      if (Decimal.takeDigits s).1.isEmpty then none
      else some ((digitsValue (Decimal.takeDigits s).1 : Int), (Decimal.takeDigits s).2) := rfl

/-- Four digits are a year without a sign. -/
theorem year?_padded {n : Nat} (h : n < 10000) (r : List Char) :
    year? (padded 4 n ++ r) = some ((n : Int), r) := by
  have hhead := isDigit_of_mem_head? 4 n r
  unfold year?
  rw [trimLeft_padded]
  split
  · next heq =>
    rw [heq] at hhead
    cases hhead '-' rfl
  · next heq =>
    rw [heq] at hhead
    cases hhead '+' rfl
  · rw [number?_padded 4 (by decide) h, Option.map_some]

/-- The year of a date-time is read where it is written. -/
theorem year?_yearChars (year : Int) (r : List Char) :
    year? (yearChars year ++ '-' :: r) = some (year, '-' :: r) := by
  have htake (n : Nat) : Decimal.takeDigits (padded 4 n ++ '-' :: r) = (padded 4 n, '-' :: r) :=
    Decimal.takeDigits_append isDigit_of_mem_padded fun c hc => by cases hc; rfl
  have hne (n : Nat) : (padded 4 n).isEmpty = false :=
    List.isEmpty_eq_false_iff.mpr (padded_ne_nil 4 n)
  unfold yearChars
  split
  · next hyear =>
    rw [year?_padded (by omega), Int.toNat_of_nonneg hyear.1]
  · split
    · have hyear : -((year.natAbs : Nat) : Int) = year := by omega
      rw [List.cons_append, year?_minus, htake, hne, digitsValue_padded, hyear]
      rfl
    · have hyear : ((year.natAbs : Nat) : Int) = year := by omega
      rw [List.cons_append, year?_plus, htake, hne, digitsValue_padded, hyear]
      rfl

theorem dateParts?_append (d : Date) (r : List Char) :
    dateParts? (yearChars d.year ++ '-' :: (padded 2 d.month ++ '-' :: (padded 2 d.day ++ r))) =
      some ((d.year, d.month, d.day), r) := by
  rw [dateParts?, year?_yearChars]
  simp [expect, number?_padded 2 (by decide) d.month_lt,
    number?_padded 2 (by decide) d.day_lt]

/-- A date-time is written with an offset, which is not read in the second form. -/
theorem ofLocalText?_toChars (d : DateTime) : ofLocalText? d.toChars = none := by
  have hoffset := isOffset_offsetChars d.offset_lt
  have hfraction := fraction?_append (isFraction_fractionChars d.time.nanosecond.isLt)
    hoffset.head?_eq
  have hne : offsetChars d.offset ≠ [] := List.cons_ne_nil _ _
  rw [toChars_eq, ofLocalText?, dateParts?_append]
  simp [expect, number?_padded 2 (by decide) (d.time.hour.isLt.trans (by decide)),
    number?_padded 2 (by decide) (d.time.minute.isLt.trans (by decide)),
    number?_padded 2 (by decide) (d.time.second.isLt.trans (by decide)), hfraction, hne]

/-- A date-time is written with a time, which is not read in the third form. -/
theorem ofDateText?_toChars (d : DateTime) : ofDateText? d.toChars = none := by
  rw [toChars_eq, ofDateText?, dateParts?_append]
  rfl

/-! ### When the written form is read -/

/-- A year outside the four digits has a sign before it. -/
theorem ofRfc3339?_toChars_eq_none {d : DateTime} (h : ¬(0 ≤ d.date.year ∧ d.date.year ≤ 9999)) :
    ofRfc3339? d.toChars = none := by
  rw [Option.eq_none_iff_forall_ne_some]
  intro d' hread
  obtain ⟨year, separator, fraction, zone, -, -, -, -, -, hspelled⟩ :=
    ofRfc3339?_eq_some_iff.mp hread
  have hhead : ∀ c ∈ d.toChars.head?, isDigit c = true :=
    hspelled ▸ isDigit_of_mem_head? 4 year _
  rw [toChars_eq, yearChars, if_neg h] at hhead
  split at hhead
  · cases hhead '-' rfl
  · cases hhead '+' rfl

/-- **Reading what was written.** The text of a date-time is read as the date-time if its year has
four digits, and it is refused otherwise. -/
theorem ofText?_toText (d : DateTime) :
    ofText? d.toText =
      if 0 ≤ d.date.year ∧ d.date.year ≤ 9999 then some d else none := by
  rw [ofText?, toText, String.toList_ofList, ofLocalText?_toChars, ofDateText?_toChars]
  simp only [Option.or_none]
  split
  · next h => exact ofRfc3339?_eq_some_iff.mpr (spells_toChars h)
  · next h => exact ofRfc3339?_toChars_eq_none h

/-- A moment of a leap second, west of UTC. -/
def leapMoment : DateTime :=
  ⟨⟨2016, 12, 31, by decide, by decide⟩,
    ⟨⟨15, by decide⟩, ⟨59, by decide⟩, ⟨60, by decide⟩, ⟨123456789, by decide⟩⟩, -480, by decide⟩

/-- Midnight on a day of the year 12345. -/
def farMidnight : DateTime :=
  .utc ⟨12345, 1, 1, by decide, by decide⟩ .midnight

end DateTime

/-! ### The codec of dates -/

namespace Scalar

/-- **Date-times that come back.** The codec of dates reads what it writes for a date-time as that
date-time if its year has four digits, and refuses what it writes otherwise. -/
theorem parse_dateTime_toText (d : DateTime) :
    dateTime.serialize (.dateTime d) = .ok (.string d.toText) ∧
      dateTime.parse (.string d.toText) =
        if 0 ≤ d.date.year ∧ d.date.year ≤ 9999 then .ok (.dateTime d)
        else .error (.wire "DateTime" (.string d.toText)) := by
  refine ⟨rfl, ?_⟩
  rw [parse, DateTime.ofText?_toText]
  by_cases hyear : 0 ≤ d.date.year ∧ d.date.year ≤ 9999
  · rw [if_pos hyear, if_pos hyear]
  · rw [if_neg hyear, if_neg hyear]

/-- A date of the year 12345 is read, and what is written for it is not. -/
theorem parse_farMidnight :
    dateTime.parse (.string "+12345-01-01") = .ok (.dateTime .farMidnight) ∧
      dateTime.serialize (.dateTime .farMidnight) =
        .ok (.string "+12345-01-01T00:00:00+00:00") ∧
      dateTime.parse (.string "+12345-01-01T00:00:00+00:00") =
        .error (.wire "DateTime" (.string "+12345-01-01T00:00:00+00:00")) :=
  ⟨rfl, rfl, rfl⟩

/-- **One text for all spellings.** What the codec of dates writes for a text of RFC 3339 that it
has read is a text of RFC 3339 for the same date-time, so it is written again for what is read from
it.  A text that is given as a string is kept as it is. -/
theorem canonical_dateTime {text : String} {d : DateTime}
    (h : DateTime.ofRfc3339? text.toList = some d) :
    dateTime.parse (.string text) = .ok (.dateTime d) ∧
      dateTime.serialize (.dateTime d) = .ok (.string d.toText) ∧
      DateTime.ofRfc3339? d.toText.toList = some d ∧
      dateTime.parse (.string d.toText) = .ok (.dateTime d) ∧
      dateTime.serialize (.string text) = .ok (.string text) := by
  obtain ⟨year, _, _, _, hyear, hyear', -⟩ := DateTime.ofRfc3339?_eq_some_iff.mp h
  have hfour : 0 ≤ d.date.year ∧ d.date.year ≤ 9999 := by omega
  have hread : DateTime.ofText? text = some d := by
    rw [DateTime.ofText?, h, Option.some_or]
  have hwritten : DateTime.ofRfc3339? d.toText.toList = some d := by
    rw [DateTime.toText, String.toList_ofList]
    exact DateTime.ofRfc3339?_eq_some_iff.mpr (DateTime.spells_toChars hfour)
  refine ⟨by rw [parse, hread], rfl, hwritten, ?_, by rw [serialize, hread]; rfl⟩
  rw [parse, DateTime.ofText?_toText, if_pos hfour]

theorem canonical_leapMoment :
    DateTime.ofRfc3339? "2016-12-31t15:59:60.1234567891\u221208:00".toList =
        some .leapMoment ∧
      dateTime.parse (.string "2016-12-31t15:59:60.1234567891\u221208:00") =
        .ok (.dateTime .leapMoment) ∧
      dateTime.serialize (.dateTime .leapMoment) =
        .ok (.string "2016-12-31T15:59:60.123456789-08:00") ∧
      dateTime.parse (.string "2016-12-31T15:59:60.123456789-08:00") =
        .ok (.dateTime .leapMoment) ∧
      dateTime.serialize (.string "2016-12-31t15:59:60.1234567891\u221208:00") =
        .ok (.string "2016-12-31t15:59:60.1234567891\u221208:00") := by
  have hread : DateTime.ofRfc3339? "2016-12-31t15:59:60.1234567891\u221208:00".toList =
      some .leapMoment := rfl
  have htext : DateTime.leapMoment.toText = "2016-12-31T15:59:60.123456789-08:00" := rfl
  obtain ⟨hparse, hserialize, -, hagain, hkept⟩ := canonical_dateTime hread
  rw [htext] at hserialize hagain
  exact ⟨hread, hparse, hserialize, hagain, hkept⟩

end Scalar

end GraphQLClient
