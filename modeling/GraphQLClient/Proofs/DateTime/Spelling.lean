import GraphQLClient.DateTime.Parser
import GraphQLClient.Proofs.Decimal.Digits

/-!
# The spellings of RFC 3339

A date-time of RFC 3339 has numbers of fixed widths, and leaves open how the date is separated from
the time, how many digits the fraction of a second has, and how the offset is written.  Each choice
is described on its own; a text is read as a date-time exactly if it is one of its spellings.

## Main definitions

* `DateTime.IsFraction`, `DateTime.IsOffset` : the texts of a fraction and of an offset.
* `DateTime.fullDate?`, `DateTime.clock?` : the parts of fixed widths.
* `DateTime.Spells` : the texts of a date-time.

## Main results

* `DateTime.ofRfc3339?_eq_some_iff` : the texts that are read are the spellings.
-/

namespace GraphQLClient

/-! ### Dates and times with given parts -/

theorem daysInMonth_le (year : Int) (month : Nat) : daysInMonth year month ≤ 31 := by
  unfold daysInMonth
  split <;> (try split) <;> decide

theorem le_of_daysInMonth_pos {year : Int} {month : Nat} (h : 0 < daysInMonth year month) :
    month ≤ 12 := by
  unfold daysInMonth at h
  split at h <;> omega

theorem Date.month_lt (d : Date) : d.month < 100 := by
  have hdays := d.day_mem
  have hmonth := le_of_daysInMonth_pos (Nat.lt_of_lt_of_le hdays.1 hdays.2)
  omega

theorem Date.day_lt (d : Date) : d.day < 100 := by
  have hdays := d.day_mem
  have hlast := daysInMonth_le d.year d.month
  omega

theorem Date.ofParts?_eq_some {year : Int} {month day : Nat} {d : Date} :
    Date.ofParts? year month day = some d ↔ d.year = year ∧ d.month = month ∧ d.day = day := by
  obtain ⟨y, m, n, hy, hn⟩ := d
  unfold Date.ofParts?
  constructor
  · intro h
    split at h
    · cases h
      exact ⟨rfl, rfl, rfl⟩
    · cases h
  · rintro ⟨rfl, rfl, rfl⟩
    rw [dif_pos ⟨hy, hn⟩]

theorem TimeOfDay.ofParts?_eq_some {hour minute second nanosecond : Nat} {t : TimeOfDay} :
    TimeOfDay.ofParts? hour minute second nanosecond = some t ↔
      t.hour.val = hour ∧ t.minute.val = minute ∧ t.second.val = second ∧
        t.nanosecond.val = nanosecond := by
  obtain ⟨h, m, s, n⟩ := t
  unfold TimeOfDay.ofParts?
  constructor
  · intro heq
    split at heq
    · cases heq
      exact ⟨rfl, rfl, rfl, rfl⟩
    · cases heq
  · rintro ⟨rfl, rfl, rfl, rfl⟩
    rw [dif_pos ⟨h.isLt, m.isLt, s.isLt, n.isLt⟩]

namespace DateTime

open Decimal (isDigit digitsValue natChars)

theorem ofParts?_eq_some {date : Option Date} {time : Option TimeOfDay} {offset : Int}
    {d : DateTime} :
    ofParts? date time offset = some d ↔
      date = some d.date ∧ time = some d.time ∧ offset = d.offset := by
  obtain ⟨day, moment, minutes, hminutes⟩ := d
  unfold ofParts?
  constructor
  · intro h
    split at h
    · split at h
      · cases h
        exact ⟨rfl, rfl, rfl⟩
      · cases h
    · cases h
  · rintro ⟨rfl, rfl, rfl⟩
    exact dif_pos hminutes

/-! ### Numbers of a fixed width -/

theorem isDigit_of_mem_padded {width n : Nat} : ∀ c ∈ padded width n, isDigit c = true := by
  intro c hc
  rcases List.mem_append.mp hc with hzero | hdigit
  · rw [List.eq_of_mem_replicate hzero]
    rfl
  · exact Decimal.isDigit_of_mem_natChars c hdigit

theorem padded_ne_nil (width n : Nat) : padded width n ≠ [] :=
  fun h => Decimal.natChars_ne_nil n (List.append_eq_nil_iff.mp h).2

theorem digitsValue_padded (width n : Nat) : digitsValue (padded width n) = n := by
  rw [padded, Decimal.digitsValue_replicate_zero, Decimal.digitsValue_natChars]

theorem length_padded {width n : Nat} (hwidth : 0 < width) (h : n < Nat.pow 10 width) :
    (padded width n).length = width := by
  have hlength : (natChars n).length ≤ width :=
    (Nat.length_toDigits_le_iff (by decide) hwidth).mpr h
  rw [padded, List.length_append, List.length_replicate]
  omega

/-- A number has one text of each width that it fits. -/
theorem padded_digitsValue {digits : List Char} (hne : digits ≠ [])
    (h : ∀ c ∈ digits, isDigit c = true) :
    padded digits.length (digitsValue digits) = digits :=
  Decimal.eq_of_digitsValue_eq isDigit_of_mem_padded h
    (length_padded (List.length_pos_iff.mpr hne) (Decimal.digitsValue_lt h))
    (digitsValue_padded _ _)

theorem expect_eq_some {c : Char} {s r : List Char} : expect c s = some r ↔ s = c :: r := by
  cases s with
  | nil => simp [expect]
  | cons d s =>
    rw [expect, List.cons.injEq]
    split
    · simp_all
    · simp_all [eq_comm]

/-- A text starts with a number of a width exactly if so many digits stand at its front. -/
theorem eq_padded_append_iff {width n : Nat} (hwidth : 0 < width) {s r : List Char} :
    (n < Nat.pow 10 width ∧ s = padded width n ++ r) ↔
      ∃ digits, s = digits ++ r ∧ digits.length = width ∧ (∀ c ∈ digits, isDigit c = true) ∧
        digitsValue digits = n := by
  constructor
  · rintro ⟨hn, rfl⟩
    exact ⟨padded width n, rfl, length_padded hwidth hn, isDigit_of_mem_padded,
      digitsValue_padded width n⟩
  · rintro ⟨digits, rfl, rfl, hdigits, rfl⟩
    refine ⟨Decimal.digitsValue_lt hdigits, ?_⟩
    rw [padded_digitsValue (List.length_pos_iff.mp hwidth) hdigits]

theorem twoDigits?_eq_some {s r : List Char} {n : Nat} :
    twoDigits? s = some (n, r) ↔ n < Nat.pow 10 2 ∧ s = padded 2 n ++ r := by
  rw [eq_padded_append_iff (by decide)]
  constructor
  · intro h
    match s, h with
    | a :: b :: s, h =>
      rw [twoDigits?] at h
      split at h
      · next hdigits =>
        cases h
        exact ⟨[a, b], rfl, rfl, by simpa using hdigits, rfl⟩
      · cases h
  · rintro ⟨digits, rfl, hlength, hdigits, rfl⟩
    match digits, hlength with
    | [a, b], _ =>
      rw [List.cons_append, List.cons_append, twoDigits?, if_pos (by simpa using hdigits)]
      rfl

theorem twoDigits?_padded {n : Nat} (h : n < 100) (r : List Char) :
    twoDigits? (padded 2 n ++ r) = some (n, r) :=
  twoDigits?_eq_some.mpr ⟨h, rfl⟩

theorem fourDigits?_eq_some {s r : List Char} {n : Nat} :
    fourDigits? s = some (n, r) ↔ n < Nat.pow 10 4 ∧ s = padded 4 n ++ r := by
  rw [eq_padded_append_iff (by decide)]
  constructor
  · intro h
    match s, h with
    | a :: b :: c :: d :: s, h =>
      rw [fourDigits?] at h
      split at h
      · next hdigits =>
        cases h
        exact ⟨[a, b, c, d], rfl, rfl, by simpa [and_assoc] using hdigits, rfl⟩
      · cases h
  · rintro ⟨digits, rfl, hlength, hdigits, rfl⟩
    match digits, hlength with
    | [a, b, c, d], _ =>
      rw [List.cons_append, List.cons_append, List.cons_append, List.cons_append, fourDigits?,
        if_pos (by simpa [and_assoc] using hdigits)]
      rfl

/-! ### The parts that may be spelled in several ways -/

/-- The texts of a fraction of a second: nothing for none, or a point and digits that stand for so
many nanoseconds. -/
def IsFraction (nanosecond : Nat) (s : List Char) : Prop :=
  (s = [] ∧ nanosecond = 0) ∨
    ∃ digits, s = '.' :: digits ∧ digits ≠ [] ∧ (∀ c ∈ digits, isDigit c = true) ∧
      nanoseconds digits = nanosecond

/-- The signs of an offset; there are two minus signs. -/
def IsSign (c : Char) : Prop :=
  c = '+' ∨ c = '-' ∨ c = '\u2212'

/-- The texts of an offset: a letter for none, or a sign with hours and minutes. -/
def IsOffset (offset : Int) (s : List Char) : Prop :=
  (offset = 0 ∧ (s = ['Z'] ∨ s = ['z'])) ∨
    ∃ sign hours minutes, IsSign sign ∧ s = sign :: (padded 2 hours ++ ':' :: padded 2 minutes) ∧
      hours < 24 ∧ minutes < 60 ∧
      offset = if sign = '+' then (hours * 60 + minutes : Int) else -(hours * 60 + minutes : Int)

/-- An offset does not go on with a fraction. -/
theorem IsOffset.head?_eq {offset : Int} {s : List Char} (h : IsOffset offset s) :
    ∀ c ∈ s.head?, isDigit c = false ∧ c ≠ '.' := by
  obtain ⟨-, rfl | rfl⟩ | ⟨sign, hours, minutes, rfl | rfl | rfl, rfl, -⟩ := h <;>
  · intro c hc
    cases hc
    exact ⟨rfl, by decide⟩

theorem exists_isFraction_of_fraction? {s r : List Char} {nanosecond : Nat}
    (h : fraction? s = some (nanosecond, r)) :
    ∃ fraction, s = fraction ++ r ∧ IsFraction nanosecond fraction := by
  unfold fraction? at h
  split at h
  · next rest =>
    rw [Decimal.takeDigits, List.span_eq_takeWhile_dropWhile] at h
    simp only at h
    split at h
    · cases h
    · next hne =>
      cases h
      refine ⟨'.' :: rest.takeWhile isDigit, ?_, .inr ⟨_, rfl, by simpa using hne, ?_, rfl⟩⟩
      · rw [List.cons_append, List.takeWhile_append_dropWhile]
      · exact List.all_eq_true.mp List.all_takeWhile
  · cases h
    exact ⟨[], rfl, .inl ⟨rfl, rfl⟩⟩

/-- A fraction is read up to a character that goes on with none. -/
theorem fraction?_append {nanosecond : Nat} {fraction r : List Char}
    (h : IsFraction nanosecond fraction) (hr : ∀ c ∈ r.head?, isDigit c = false ∧ c ≠ '.') :
    fraction? (fraction ++ r) = some (nanosecond, r) := by
  obtain ⟨rfl, rfl⟩ | ⟨digits, rfl, hne, hdigits, rfl⟩ := h
  · rw [List.nil_append]
    unfold fraction?
    split
    · exact absurd rfl (hr '.' rfl).2
    · rfl
  · rw [List.cons_append, fraction?, Decimal.takeDigits_append hdigits fun c hc => (hr c hc).1]
    simp [hne]

theorem offset?_cons {sign : Char} (hsign : IsSign sign) (rest : List Char) :
    offset? (sign :: rest) = (do
      let (hours, r) ← twoDigits? rest
      let r ← expect ':' r
      let (minutes, r) ← twoDigits? r
      if r.isEmpty && hours < 24 && minutes < 60 then
        some (if sign = '+' then (hours * 60 + minutes : Int) else -(hours * 60 + minutes : Int))
      else none) := by
  obtain rfl | rfl | rfl := hsign <;> rfl

theorem offset?_cons_eq_some {sign : Char} (hsign : IsSign sign) {rest : List Char}
    {offset : Int} :
    offset? (sign :: rest) = some offset ↔
      ∃ hours minutes, rest = padded 2 hours ++ ':' :: padded 2 minutes ∧
        hours < 24 ∧ minutes < 60 ∧
        offset =
          if sign = '+' then (hours * 60 + minutes : Int) else -(hours * 60 + minutes : Int) := by
  rw [offset?_cons hsign]
  constructor
  · intro h
    obtain ⟨⟨hours, r₁⟩, hhours, h₁⟩ := Option.bind_eq_some_iff.mp h
    obtain ⟨r₂, hcolon, h₂⟩ := Option.bind_eq_some_iff.mp h₁
    obtain ⟨⟨minutes, r₃⟩, hminutes, h₃⟩ := Option.bind_eq_some_iff.mp h₂
    obtain ⟨hrange, hoffset⟩ := Option.ite_none_right_eq_some.mp h₃
    simp only [Bool.and_eq_true, List.isEmpty_iff, decide_eq_true_eq] at hrange
    obtain ⟨⟨rfl, hhour⟩, hminute⟩ := hrange
    obtain ⟨-, rfl⟩ := twoDigits?_eq_some.mp hhours
    obtain rfl := expect_eq_some.mp hcolon
    obtain ⟨-, rfl⟩ := twoDigits?_eq_some.mp hminutes
    exact ⟨hours, minutes, by rw [List.append_nil], hhour, hminute,
      (Option.some.inj hoffset).symm⟩
  · rintro ⟨hours, minutes, rfl, hhours, hminutes, rfl⟩
    have hhours' := twoDigits?_padded (n := hours) (by omega) (':' :: padded 2 minutes)
    have hminutes' := twoDigits?_padded (n := minutes) (by omega) []
    rw [List.append_nil] at hminutes'
    simp [hhours', hminutes', expect, hhours, hminutes]

/-- The offsets that are read are those that are written in one of the ways. -/
theorem offset?_eq_some_iff {s : List Char} {offset : Int} :
    offset? s = some offset ↔ IsOffset offset s := by
  constructor
  · intro h
    match s with
    | [] => cases h
    | sign :: rest =>
      by_cases hsign : IsSign sign
      · obtain ⟨hours, minutes, rfl, hvalue⟩ := (offset?_cons_eq_some hsign).mp h
        exact .inr ⟨sign, hours, minutes, hsign, rfl, hvalue⟩
      · rw [IsSign, not_or, not_or] at hsign
        unfold offset? at h
        split at h
        · next heq =>
          cases heq
          cases h
          exact .inl ⟨rfl, .inl rfl⟩
        · next heq =>
          cases heq
          cases h
          exact .inl ⟨rfl, .inr rfl⟩
        · next heq =>
          cases heq
          simp [hsign] at h
        · cases h
  · rintro (⟨rfl, rfl | rfl⟩ | ⟨sign, hours, minutes, hsign, rfl, h⟩)
    · rfl
    · rfl
    · exact (offset?_cons_eq_some hsign).mpr ⟨hours, minutes, rfl, h⟩

/-- The characters between a date and a time. -/
def separators : List Char :=
  ['T', 't', ' ']

theorem separator_eq_some {s r : List Char} :
    (expect 'T' s).or ((expect 't' s).or (expect ' ' s)) = some r ↔
      ∃ c ∈ separators, s = c :: r := by
  cases s with
  | nil => simp [expect]
  | cons c s =>
    by_cases hc : c ∈ separators
    · have hcases : c = 'T' ∨ c = 't' ∨ c = ' ' := by simpa [separators] using hc
      obtain rfl | rfl | rfl := hcases <;> simp [expect, hc]
    · have hcases : 'T' ≠ c ∧ 't' ≠ c ∧ ' ' ≠ c := by simpa [separators, eq_comm] using hc
      simp [expect, hcases, hc]

/-! ### The parts of fixed widths -/

/-- The numbers of a date with a year of four digits, at the front of a text. -/
def fullDate? (s : List Char) : Option ((Nat × Nat × Nat) × List Char) := do
  let (year, r) ← fourDigits? s
  let r ← expect '-' r
  let (month, r) ← twoDigits? r
  let r ← expect '-' r
  let (day, r) ← twoDigits? r
  return ((year, month, day), r)

/-- The numbers of a time of day, to the second, at the front of a text. -/
def clock? (s : List Char) : Option ((Nat × Nat × Nat) × List Char) := do
  let (hour, r) ← twoDigits? s
  let r ← expect ':' r
  let (minute, r) ← twoDigits? r
  let r ← expect ':' r
  let (second, r) ← twoDigits? r
  return ((hour, minute, second), r)

theorem fullDate?_eq_some {s r : List Char} {year month day : Nat} :
    fullDate? s = some ((year, month, day), r) ↔
      year < Nat.pow 10 4 ∧ month < Nat.pow 10 2 ∧ day < Nat.pow 10 2 ∧
        s = padded 4 year ++ '-' :: (padded 2 month ++ '-' :: (padded 2 day ++ r)) := by
  simp only [fullDate?, Option.bind_eq_bind, Option.bind_eq_some_iff, Prod.exists,
    fourDigits?_eq_some, twoDigits?_eq_some, expect_eq_some, Option.pure_def, Option.some.injEq,
    Prod.mk.injEq]
  constructor
  · rintro ⟨_, _, ⟨hyear, rfl⟩, _, rfl, _, _, ⟨hmonth, rfl⟩, _, rfl, _, _, ⟨hday, rfl⟩,
      ⟨rfl, rfl, rfl⟩, rfl⟩
    exact ⟨hyear, hmonth, hday, rfl⟩
  · rintro ⟨hyear, hmonth, hday, rfl⟩
    exact ⟨_, _, ⟨hyear, rfl⟩, _, rfl, _, _, ⟨hmonth, rfl⟩, _, rfl, _, _, ⟨hday, rfl⟩,
      ⟨rfl, rfl, rfl⟩, rfl⟩

theorem clock?_eq_some {s r : List Char} {hour minute second : Nat} :
    clock? s = some ((hour, minute, second), r) ↔
      hour < Nat.pow 10 2 ∧ minute < Nat.pow 10 2 ∧ second < Nat.pow 10 2 ∧
        s = padded 2 hour ++ ':' :: (padded 2 minute ++ ':' :: (padded 2 second ++ r)) := by
  simp only [clock?, Option.bind_eq_bind, Option.bind_eq_some_iff, Prod.exists,
    twoDigits?_eq_some, expect_eq_some, Option.pure_def, Option.some.injEq, Prod.mk.injEq]
  constructor
  · rintro ⟨_, _, ⟨hhour, rfl⟩, _, rfl, _, _, ⟨hminute, rfl⟩, _, rfl, _, _, ⟨hsecond, rfl⟩,
      ⟨rfl, rfl, rfl⟩, rfl⟩
    exact ⟨hhour, hminute, hsecond, rfl⟩
  · rintro ⟨hhour, hminute, hsecond, rfl⟩
    exact ⟨_, _, ⟨hhour, rfl⟩, _, rfl, _, _, ⟨hminute, rfl⟩, _, rfl, _, _, ⟨hsecond, rfl⟩,
      ⟨rfl, rfl, rfl⟩, rfl⟩

/-! ### Whole texts -/

/-- A date-time of RFC 3339 is a date, a separator, a time with a fraction, and an offset. -/
theorem ofRfc3339?_eq (s : List Char) :
    ofRfc3339? s = (do
      let ((year, month, day), r) ← fullDate? s
      let r ← (expect 'T' r).or ((expect 't' r).or (expect ' ' r))
      let ((hour, minute, second), r) ← clock? r
      let (nanosecond, r) ← fraction? r
      let offset ← offset? r
      ofParts? (Date.ofParts? year month day) (TimeOfDay.ofParts? hour minute second nanosecond)
        offset) := by
  simp only [ofRfc3339?, fullDate?, clock?, bind_assoc, pure_bind]

/-- The texts of RFC 3339 for a date-time.  Its year has four digits. -/
def Spells (s : List Char) (d : DateTime) : Prop :=
  ∃ year separator fraction zone,
    year < 10000 ∧ d.date.year = (year : Nat) ∧ separator ∈ separators ∧
      IsFraction d.time.nanosecond fraction ∧ IsOffset d.offset zone ∧
      s = padded 4 year ++ '-' :: (padded 2 d.date.month ++ '-' :: (padded 2 d.date.day ++
        separator :: (padded 2 d.time.hour ++ ':' :: (padded 2 d.time.minute ++
          ':' :: (padded 2 d.time.second ++ (fraction ++ zone))))))

/-- **The texts of RFC 3339.** A text is read as a date-time exactly if it is one of its
spellings. -/
theorem ofRfc3339?_eq_some_iff {s : List Char} {d : DateTime} :
    ofRfc3339? s = some d ↔ Spells s d := by
  rw [ofRfc3339?_eq]
  constructor
  · intro h
    obtain ⟨⟨⟨year, month, day⟩, r⟩, hdate, h⟩ := Option.bind_eq_some_iff.mp h
    obtain ⟨r', hseparator, h⟩ := Option.bind_eq_some_iff.mp h
    obtain ⟨⟨⟨hour, minute, second⟩, r''⟩, hclock, h⟩ := Option.bind_eq_some_iff.mp h
    obtain ⟨⟨nanosecond, zone⟩, hfraction, h⟩ := Option.bind_eq_some_iff.mp h
    obtain ⟨offset, hoffset, h⟩ := Option.bind_eq_some_iff.mp h
    obtain ⟨hday, htime, rfl⟩ := ofParts?_eq_some.mp h
    obtain ⟨hyear, rfl, rfl⟩ := Date.ofParts?_eq_some.mp hday
    obtain ⟨rfl, rfl, rfl, rfl⟩ := TimeOfDay.ofParts?_eq_some.mp htime
    obtain ⟨hfour, -, -, rfl⟩ := fullDate?_eq_some.mp hdate
    obtain ⟨separator, hmem, rfl⟩ := separator_eq_some.mp hseparator
    obtain ⟨-, -, -, rfl⟩ := clock?_eq_some.mp hclock
    obtain ⟨fraction, rfl, hdigits⟩ := exists_isFraction_of_fraction? hfraction
    exact ⟨year, separator, fraction, zone, hfour, hyear, hmem, hdigits,
      offset?_eq_some_iff.mp hoffset, rfl⟩
  · rintro ⟨year, separator, fraction, zone, hfour, hyear, hmem, hdigits, hoffset, rfl⟩
    have hhour := d.time.hour.isLt.trans (show 24 < 100 by decide)
    have hminute := d.time.minute.isLt.trans (show 60 < 100 by decide)
    have hsecond := d.time.second.isLt.trans (show 61 < 100 by decide)
    have hparts : ofParts? (Date.ofParts? year d.date.month d.date.day)
        (TimeOfDay.ofParts? d.time.hour d.time.minute d.time.second d.time.nanosecond) d.offset =
        some d :=
      ofParts?_eq_some.mpr ⟨Date.ofParts?_eq_some.mpr ⟨hyear, rfl, rfl⟩,
        TimeOfDay.ofParts?_eq_some.mpr ⟨rfl, rfl, rfl, rfl⟩, rfl⟩
    refine Option.bind_eq_some_iff.mpr ⟨_,
      fullDate?_eq_some.mpr ⟨hfour, d.date.month_lt, d.date.day_lt, rfl⟩, ?_⟩
    refine Option.bind_eq_some_iff.mpr ⟨_, separator_eq_some.mpr ⟨separator, hmem, rfl⟩, ?_⟩
    refine Option.bind_eq_some_iff.mpr ⟨_, clock?_eq_some.mpr ⟨hhour, hminute, hsecond, rfl⟩, ?_⟩
    refine Option.bind_eq_some_iff.mpr ⟨_, fraction?_append hdigits hoffset.head?_eq, ?_⟩
    exact Option.bind_eq_some_iff.mpr ⟨_, offset?_eq_some_iff.mpr hoffset, hparts⟩

end DateTime

end GraphQLClient
