import GraphQLClient.Json.Printer
import GraphQLClient.Json.Source
import GraphQLClient.Proofs.Json.Numbers
import GraphQLClient.Proofs.Literal.Echo

/-!
# Reading JSON texts back

The compact text of a JSON value is read as the parts of the value.  Every reader of a part takes
the text of the part and leaves what follows it; a number ends where no digit, point or exponent
follows.  The readers are given one step for each character of the text, and every value has at
least as many characters as it needs steps.

Integers and strings of any characters are read back.  A floating-point number is read through
roundings, so it is read back only if its text denotes it again.

## Main definitions

* `Json.Source.takeNumber?` : the number at the front of a text.
* `Json.Number.IsReadBack` : the numbers that are read back from their texts.

## Main results

* `Json.Source.takeString?_quotedChars` : a string is read back, whatever its characters.
* `Json.Number.isReadBack_of_takeNumber?` : a number is read back if its text alone is read as it.
* `Json.Number.isReadBack_int` : an integer is read back.
* `Json.Source.parse?_compact` : a value whose floating-point numbers are read back is read back.
-/

namespace GraphQLClient.Json

namespace Source

theorem skipSpace_cons {c : Char} (hc : isSpace c = false) (rest : List Char) :
    skipSpace (c :: rest) = c :: rest :=
  List.dropWhile_cons_of_neg (by rw [hc]; exact Bool.false_ne_true)

/-! ### Strings -/

theorem hexUnit?_hexDigit : ∀ n < 32, hexUnit? '0' '0' (hexDigit (n / 16)) (hexDigit (n % 16)) =
    some n := by
  decide

/-- A character is read as its code point, whether it is escaped or stands for itself. -/
theorem takeUnits?_quotedChar (c : Char) (rest : List Char) :
    takeUnits? (quotedChar c ++ rest) =
      (takeUnits? rest).map fun (units, r) => (c.toNat :: units, r) := by
  unfold quotedChar
  split_ifs with hquote hbackslash hb hf hn hr ht hcontrol
  · subst hquote; rfl
  · subst hbackslash; rfl
  · subst hb; rfl
  · subst hf; rfl
  · subst hn; rfl
  · subst hr; rfl
  · subst ht; rfl
  · simp only [List.cons_append, List.nil_append]
    rw [takeUnits?, hexUnit?_hexDigit c.toNat hcontrol]
  · simp only [List.cons_append, List.nil_append]
    rw [takeUnits?, if_neg]
    · simp [hcontrol, hbackslash]
    · exact hquote
    · intro a b c' d rest' h
      exact absurd h hbackslash
    · intro c' rest' h
      exact absurd h hbackslash

theorem takeUnits?_flatMap_quotedChar (s rest : List Char) :
    takeUnits? (s.flatMap quotedChar ++ '"' :: rest) = some (s.map Char.toNat, rest) := by
  induction s with
  | nil => rfl
  | cons c s ih =>
    rw [List.flatMap_cons, List.append_assoc, takeUnits?_quotedChar, ih, Option.map_some,
      List.map_cons]

/-- A code point is no half of a pair of surrogates. -/
theorem toNat_lt_or_le (c : Char) : c.toNat < 0xD800 ∨ 0xE000 ≤ c.toNat := by
  rcases c.valid with h | ⟨h, -⟩
  · exact .inl h
  · exact .inr h

theorem joinUnits?_toNat (s : List Char) : joinUnits? (s.map Char.toNat) = some s := by
  induction s with
  | nil => rfl
  | cons c s ih =>
    have hc := toNat_lt_or_le c
    cases s with
    | nil =>
      rw [List.map_cons, List.map_nil, joinUnits?, if_neg (by omega), Char.ofNat_toNat]
    | cons d s =>
      rw [List.map_cons, List.map_cons, joinUnits?, if_neg (by omega), if_neg (by omega),
        ← List.map_cons, ih, Option.map_some, Char.ofNat_toNat]

/-- A string is read back, whatever its characters. -/
theorem takeString?_quotedChars (s : String) (rest : List Char) :
    takeString? (s.toList.flatMap quotedChar ++ '"' :: rest) = some (some s, rest) := by
  simp only [takeString?, takeUnits?_flatMap_quotedChar, joinUnits?_toNat, Option.map_some,
    String.ofList_toList]

/-! ### Numbers -/

/-- What starts with a minus sign is read as a number. -/
theorem takeValue?_minus (steps : Nat) (rest : List Char) :
    takeValue? (steps + 1) ('-' :: rest) =
      (takeMagnitude? true rest).map fun (value, r) => (.number value.toNumber?, r) :=
  rfl

/-- What starts with a digit is read as a number. -/
theorem takeValue?_of_isDigit {c : Char} (hc : Decimal.isDigit c = true) (steps : Nat)
    (rest : List Char) :
    takeValue? (steps + 1) (c :: rest) =
      (takeMagnitude? false (c :: rest)).map fun (value, r) => (.number value.toNumber?, r) := by
  have hspace : isSpace c = false := by
    rw [← Bool.not_eq_true, isSpace]
    simp only [Bool.or_eq_true, decide_eq_true_eq]
    rintro (((rfl | rfl) | rfl) | rfl) <;> cases hc
  rw [takeValue?, skipSpace_cons hspace]
  -- The other alternatives start with a letter, a mark or a sign.
  split
  case h_8 => rfl
  all_goals
    next h =>
    obtain rfl := (List.cons.inj h).1
    cases hc

/-- A number with its sign, and the rest of the text. -/
def takeNumber? : List Char → Option (Option Number × List Char)
  | '-' :: rest => (takeMagnitude? true rest).map fun (value, r) => (value.toNumber?, r)
  | s => (takeMagnitude? false s).map fun (value, r) => (value.toNumber?, r)

/-- What is read as a number is read as a value that is the number, wherever it ends. -/
theorem takeValue?_of_takeNumber? {s r : List Char} {n : Option Number}
    (h : takeNumber? s = some (n, r)) (steps : Nat) {rest : List Char} (hrest : EndsNumber rest) :
    takeValue? (steps + 1) (s ++ rest) = some (.number n, r ++ rest) := by
  unfold takeNumber? at h
  split at h
  · obtain ⟨⟨value, r'⟩, hvalue, hr⟩ := Option.map_eq_some_iff.mp h
    cases hr
    rw [List.cons_append, takeValue?_minus, (takeMagnitude?_append hvalue).2 rest hrest,
      Option.map_some]
  · obtain ⟨⟨value, r'⟩, hvalue, hr⟩ := Option.map_eq_some_iff.mp h
    cases hr
    obtain ⟨c, t, rfl, hc⟩ := exists_isDigit_of_takeMagnitude? hvalue
    rw [List.cons_append, takeValue?_of_isDigit hc, ← List.cons_append,
      (takeMagnitude?_append hvalue).2 rest hrest, Option.map_some]

end Source

open Source

/-- A number is read back when its text is read as the number wherever it ends. -/
def Number.IsReadBack (n : Number) : Prop :=
  ∀ steps rest, EndsNumber rest →
    takeValue? (steps + 1) (n.chars ++ rest) = some (.number (some n), rest)

/-- A number is read back if its text, alone, is read as the number. -/
theorem Number.isReadBack_of_takeNumber? {n : Number}
    (h : takeNumber? n.chars = some (some n, [])) : n.IsReadBack :=
  fun steps _ hrest => takeValue?_of_takeNumber? h steps hrest

/-! ### Integers -/

theorem takeWhole_natChars (n : Nat) :
    takeWhole (Decimal.natChars n) = (Decimal.natChars n, []) := by
  have hdigits : Decimal.takeDigits (Decimal.natChars n ++ []) = (Decimal.natChars n, []) :=
    Decimal.takeDigits_append Decimal.isDigit_of_mem_natChars fun c hc => by cases hc
  rw [List.append_nil] at hdigits
  rw [takeWhole, hdigits]
  rcases Nat.eq_zero_or_pos n with rfl | hn
  · rfl
  · have hhead := Decimal.head?_natChars_ne_zero (Nat.pos_iff_ne_zero.mp hn)
    simp only
    split
    · next more h => exact absurd (congrArg List.head? h) hhead
    · rfl

/-- The digits of a natural number are read to their end. -/
theorem takeMagnitude?_natChars (negative : Bool) (n : Nat) :
    takeMagnitude? negative (Decimal.natChars n) =
      some (⟨negative, ⟨Decimal.natChars n, [], 0⟩, true⟩, []) := by
  have hdigits : (Decimal.natChars n).isEmpty = false :=
    List.isEmpty_eq_false_iff.mpr (Decimal.natChars_ne_nil n)
  simp [takeMagnitude?, takeWhole_natChars, hdigits, takeFraction?, takeExponent?]

theorem toNumber?_natChars {n : Nat} (hn : n < 0x10000000000000000) :
    NumberText.toNumber? ⟨false, ⟨Decimal.natChars n, [], 0⟩, true⟩ =
      some (.int n ⟨by omega, by omega⟩) := by
  simp [NumberText.toNumber?, Decimal.digitsValue_natChars, hn]

theorem toNumber?_neg_natChars {n : Nat} (hpos : 0 < n) (hn : n ≤ 0x8000000000000000) :
    NumberText.toNumber? ⟨true, ⟨Decimal.natChars n, [], 0⟩, true⟩ =
      some (.int (-n) ⟨by omega, by omega⟩) := by
  simp [NumberText.toNumber?, Decimal.digitsValue_natChars, hpos, hn]

/-- An integer is read back. -/
theorem Number.isReadBack_int (i : Int)
    (fits : -0x8000000000000000 ≤ i ∧ i < 0x10000000000000000) :
    (Number.int i fits).IsReadBack := by
  apply isReadBack_of_takeNumber?
  rw [Number.chars, Decimal.intChars]
  split
  · -- What follows the sign is a natural number, and it is not zero.
    have hi : -(i.natAbs : Int) = i := by omega
    rw [takeNumber?, takeMagnitude?_natChars, Option.map_some]
    simp only [toNumber?_neg_natChars (n := i.natAbs) (by omega) (by omega), hi]
  · have hi : (i.natAbs : Int) = i := by omega
    have hminus (rest : List Char) : Decimal.natChars i.natAbs ≠ '-' :: rest := fun h =>
      absurd (Decimal.isDigit_of_mem_natChars '-' (h ▸ List.mem_cons_self)) (by decide)
    rw [takeNumber?, takeMagnitude?_natChars, Option.map_some]
    · simp only [toNumber?_natChars (n := i.natAbs) (by omega), hi]
    · exact hminus

/-! ### Values -/

namespace Source

theorem endsNumber_compactItems (items : List Json) (rest : List Char) :
    EndsNumber (compactItems items ++ rest) := by
  cases items <;> rintro c ⟨⟩ <;> decide

theorem endsNumber_compactMembers (members : List (String × Json)) (rest : List Char) :
    EndsNumber (compactMembers members ++ rest) := by
  rcases members with _ | ⟨⟨name, value⟩, members⟩ <;> rintro c ⟨⟩ <;> decide

theorem length_compactItems_pos (items : List Json) : 0 < (compactItems items).length := by
  cases items <;> exact Nat.succ_pos _

theorem length_compactMembers_pos (members : List (String × Json)) :
    0 < (compactMembers members).length := by
  rcases members with _ | ⟨⟨name, value⟩, members⟩ <;> exact Nat.succ_pos _

/-- What is read as a value does not start with the end of an array. -/
theorem skipSpace_ne_of_takeValue? {steps : Nat} {s : List Char} {x : Source × List Char}
    (h : takeValue? steps s = some x) (r : List Char) : skipSpace s ≠ ']' :: r := by
  intro hs
  cases steps with
  | zero => cases h
  | succ steps =>
    rw [takeValue?, hs] at h
    cases h

/-- An array whose first item is read is read with that item. -/
theorem takeValue?_array {steps : Nat} {s : List Char} {x : Source × List Char}
    (h : takeValue? steps s = some x) (k : Nat) :
    takeValue? (k + 1) ('[' :: s) = (takeItems? k s).map fun (items, r) => (.array items, r) := by
  rw [takeValue?, skipSpace_cons (by decide)]
  simp only
  split
  · next r hr => exact absurd hr (skipSpace_ne_of_takeValue? h r)
  · rfl

/-- An item is the last one if the array ends behind it. -/
theorem takeItems?_last {k : Nat} {s rest : List Char} {item : Source}
    (hitem : takeValue? k s = some (item, ']' :: rest)) :
    takeItems? (k + 1) s = some ([item], rest) := by
  rw [takeItems?, hitem]
  simp only [skipSpace_cons (show isSpace ']' = false by decide)]

/-- Others follow an item if a comma stands behind it. -/
theorem takeItems?_comma {k : Nat} {s rest : List Char} {item : Source}
    (hitem : takeValue? k s = some (item, ',' :: rest)) :
    takeItems? (k + 1) s = (takeItems? k rest).map fun (items, r) => (item :: items, r) := by
  rw [takeItems?, hitem]
  simp only [skipSpace_cons (show isSpace ',' = false by decide)]

/-- An object is read from the name of its first member on. -/
theorem takeValue?_object (k : Nat) (name : String) (s : List Char) :
    takeValue? (k + 1) ('\x7b' :: (quotedChars name ++ s)) =
      (takeMembers? k (quotedChars name ++ s)).map fun (members, r) => (.object members, r) :=
  rfl

/-- A member is read from its name on, and it is the last one if the object ends behind it. -/
theorem takeMembers?_last {k : Nat} {s rest : List Char} {value : Source} (name : String)
    (hvalue : takeValue? k s = some (value, '\x7d' :: rest)) :
    takeMembers? (k + 1) (quotedChars name ++ ':' :: s) = some ([(some name, value)], rest) := by
  rw [quotedChars, List.append_assoc, List.cons_append, List.singleton_append, takeMembers?,
    skipSpace_cons (by decide)]
  simp only [takeString?_quotedChars, skipSpace_cons (show isSpace ':' = false by decide), hvalue,
    skipSpace_cons (show isSpace '\x7d' = false by decide)]

/-- A member is read from its name on, and others follow if a comma stands behind it. -/
theorem takeMembers?_comma {k : Nat} {s rest : List Char} {value : Source} (name : String)
    (hvalue : takeValue? k s = some (value, ',' :: rest)) :
    takeMembers? (k + 1) (quotedChars name ++ ':' :: s) =
      (takeMembers? k rest).map fun (members, r) => ((some name, value) :: members, r) := by
  rw [quotedChars, List.append_assoc, List.cons_append, List.singleton_append, takeMembers?,
    skipSpace_cons (by decide)]
  simp only [takeString?_quotedChars, skipSpace_cons (show isSpace ':' = false by decide), hvalue,
    skipSpace_cons (show isSpace ',' = false by decide)]

mutual

/-- The text of a value is read as its parts, wherever it stands. -/
theorem takeValue?_compactChars : (j : Json) → (∀ x ∈ j.floats, (Number.float x).IsReadBack) →
    ∀ {steps : Nat} {rest : List Char}, (compactChars j).length < steps → EndsNumber rest →
      takeValue? steps (compactChars j ++ rest) = some (ofJson j, rest)
  | j, hread, 0, _, hlength, _ => absurd hlength (Nat.not_lt_zero _)
  | .null, _, _ + 1, _, _, _ => rfl
  | .bool true, _, _ + 1, _, _, _ => rfl
  | .bool false, _, _ + 1, _, _, _ => rfl
  | .number (.int i fits), _, steps + 1, rest, _, hrest => by
      rw [compactChars, ofJson]
      exact Number.isReadBack_int i fits steps rest hrest
  | .number (.float x), hread, steps + 1, rest, _, hrest => by
      rw [compactChars, ofJson]
      exact hread x (List.mem_singleton.mpr rfl) steps rest hrest
  | .string s, _, steps + 1, rest, _, _ => by
      have hquote (r : List Char) : takeValue? (steps + 1) ('"' :: r) =
          (takeString? r).map fun (value, r) => (.string value, r) := rfl
      rw [compactChars, quotedChars, List.append_assoc, List.cons_append, hquote,
        List.singleton_append, takeString?_quotedChars, Option.map_some, ofJson]
  | .array [], _, _ + 1, _, _, _ => rfl
  | .array (item :: items), hread, steps + 1, rest, hlength, hrest => by
      obtain ⟨hitem, hitems⟩ := List.forall_mem_append.mp hread
      have hpos := length_compactItems_pos items
      rw [compactChars, List.length_append, List.length_cons] at hlength
      obtain ⟨k, rfl⟩ : ∃ k, steps = k + 1 := ⟨steps - 1, by omega⟩
      have hfirst : takeValue? k (compactChars item ++ (compactItems items ++ rest)) =
          some (ofJson item, compactItems items ++ rest) :=
        takeValue?_compactChars item hitem (by omega) (endsNumber_compactItems items rest)
      rw [compactChars, List.cons_append, List.cons_append, List.append_assoc,
        takeValue?_array hfirst, takeItems?_compactItems items hitems (by omega) hfirst,
        Option.map_some, ofJson, ofItems]
  | .object [], _, _ + 1, _, _, _ => rfl
  | .object ((name, value) :: members), hread, steps + 1, rest, hlength, hrest => by
      obtain ⟨hvalue, hmembers⟩ := List.forall_mem_append.mp hread
      have hpos := length_compactMembers_pos members
      simp only [compactChars, List.length_append, List.length_cons] at hlength
      obtain ⟨k, rfl⟩ : ∃ k, steps = k + 1 := ⟨steps - 1, by omega⟩
      have hfirst : takeValue? k (compactChars value ++ (compactMembers members ++ rest)) =
          some (ofJson value, compactMembers members ++ rest) :=
        takeValue?_compactChars value hvalue (by omega) (endsNumber_compactMembers members rest)
      have hall := takeMembers?_compactMembers members hmembers name (by omega) hfirst
      simp only [compactChars, List.cons_append, List.append_assoc]
      rw [takeValue?_object, hall, Option.map_some, ofJson, ofMembers]

/-- Where an item has been read, those after it are read to the end of the array. -/
theorem takeItems?_compactItems : (items : List Json) →
    (∀ x ∈ itemsFloats items, (Number.float x).IsReadBack) →
    ∀ {steps : Nat} {s rest : List Char} {item : Source},
      (compactItems items).length ≤ steps →
      takeValue? steps s = some (item, compactItems items ++ rest) →
      takeItems? (steps + 1) s = some (item :: ofItems items, rest)
  | [], _, _, _, _, _, _, hitem => takeItems?_last hitem
  | next :: items, hread, steps, s, rest, item, hlength, hitem => by
      obtain ⟨hnext, hitems⟩ := List.forall_mem_append.mp hread
      have hpos := length_compactItems_pos items
      rw [compactItems, List.length_append, List.length_cons] at hlength
      obtain ⟨k, rfl⟩ : ∃ k, steps = k + 1 := ⟨steps - 1, by omega⟩
      have hsecond : takeValue? k (compactChars next ++ (compactItems items ++ rest)) =
          some (ofJson next, compactItems items ++ rest) :=
        takeValue?_compactChars next hnext (by omega) (endsNumber_compactItems items rest)
      have hrest := takeItems?_compactItems items hitems (by omega) hsecond
      simp only [compactItems, List.cons_append, List.append_assoc] at hitem
      rw [takeItems?_comma hitem, hrest, Option.map_some, ofItems]

/-- Where the value of a member has been read, the members after it are read to the end of the
object. -/
theorem takeMembers?_compactMembers : (members : List (String × Json)) →
    (∀ x ∈ membersFloats members, (Number.float x).IsReadBack) →
    ∀ {steps : Nat} {s rest : List Char} {value : Source} (name : String),
      (compactMembers members).length ≤ steps →
      takeValue? steps s = some (value, compactMembers members ++ rest) →
      takeMembers? (steps + 1) (quotedChars name ++ ':' :: s) =
        some ((some name, value) :: ofMembers members, rest)
  | [], _, _, _, _, _, name, _, hvalue => takeMembers?_last name hvalue
  | (nextName, next) :: members, hread, steps, s, rest, value, name, hlength, hvalue => by
      obtain ⟨hnext, hmembers⟩ := List.forall_mem_append.mp hread
      have hpos := length_compactMembers_pos members
      simp only [compactMembers, List.length_append, List.length_cons] at hlength
      obtain ⟨k, rfl⟩ : ∃ k, steps = k + 1 := ⟨steps - 1, by omega⟩
      have hsecond : takeValue? k (compactChars next ++ (compactMembers members ++ rest)) =
          some (ofJson next, compactMembers members ++ rest) :=
        takeValue?_compactChars next hnext (by omega) (endsNumber_compactMembers members rest)
      have hrest := takeMembers?_compactMembers members hmembers nextName (by omega) hsecond
      simp only [compactMembers, List.cons_append, List.append_assoc] at hvalue
      rw [takeMembers?_comma name hvalue, hrest, Option.map_some, ofMembers]

end

/-- A value whose floating-point numbers are read back is read back from its compact text. -/
theorem parse?_compact {j : Json} (hread : ∀ x ∈ j.floats, (Number.float x).IsReadBack) :
    parse? j.compact = some (ofJson j) := by
  have hvalue := takeValue?_compactChars j hread (Nat.lt_succ_self _) endsNumber_nil
  rw [List.append_nil] at hvalue
  simp only [parse?, compact, String.toList_ofList, hvalue]
  rfl

end Source

end GraphQLClient.Json
