import GraphQLClient.Decimal.Reading
import GraphQLClient.Json

/-!
# JSON texts

The grammar of JSON texts (RFC 8259).  A text is read in two steps.  The first gives its parts as
they stand in the text, members with repeated names included; a number that is too large and a
string with one half of a surrogate pair are parts without a value.  The second makes a value of the
parts, and refuses those that have none; a reader that passes over a member does without it.

## Main definitions

* `Json.Source` : a JSON text by its parts.
* `Json.Source.parse?` : the parts of a text.
* `Json.Source.toJson?`, `Json.Source.ofJson` : the value of the parts, and the parts of a value.
* `Json.parse?` : the value of a text.
-/

namespace GraphQLClient

namespace Json

/-- A number as it stands in a text. -/
structure NumberText where
  negative : Bool
  parts : Decimal.Parts
  /-- Whether the text has neither a decimal point nor an exponent. -/
  integral : Bool

/-- The value of a number: an integer when it is written as one and fits 64 bits, but never for
`-0`.  Absent when the number is too large. -/
def NumberText.toNumber? (t : NumberText) : Option Number :=
  let n := Decimal.digitsValue t.parts.whole
  if h : t.integral ∧ t.negative = false ∧ n < 0x10000000000000000 then
    some (.int n ⟨by omega, by omega⟩)
  else if h : t.integral ∧ t.negative = true ∧ 0 < n ∧ n ≤ 0x8000000000000000 then
    some (.int (-n) ⟨by omega, by omega⟩)
  else (Decimal.scaled t.negative t.parts).map .float

/-- A JSON text by its parts.  A number is absent when it is too large, a string when it contains
one half of a surrogate pair. -/
inductive Source where
  | null
  | bool (value : Bool)
  | number (value : Option Number)
  | string (value : Option String)
  | array (items : List Source)
  | object (members : List (Option String × Source))

namespace Source

/-! ### Numbers and strings -/

/-- The four blanks of JSON. -/
def isSpace (c : Char) : Bool :=
  c = ' ' || c = '\n' || c = '\t' || c = '\r'

/-- A text without its leading blanks. -/
def skipSpace (s : List Char) : List Char :=
  s.dropWhile isSpace

/-- The digits before the point of a number, and the rest of the text: a single zero, or digits that
do not start with one. -/
def takeWhole (s : List Char) : List Char × List Char :=
  let (digits, r) := Decimal.takeDigits s
  match digits with
  | '0' :: more => (['0'], more ++ r)
  | _ => (digits, r)

/-- The digits after the point of a number, whether there is a point, and the rest of the text. -/
def takeFraction? (s : List Char) : Option (List Char × Bool × List Char) :=
  match s with
  | '.' :: r =>
    let (fraction, r) := Decimal.takeDigits r
    if fraction.isEmpty then none else some (fraction, true, r)
  | _ => some ([], false, s)

/-- Whether there is a minus sign, and the text without its sign. -/
def takeSign : List Char → Bool × List Char
  | '-' :: r => (true, r)
  | '+' :: r => (false, r)
  | r => (false, r)

/-- The exponent that follows the digits of a number, if one does. -/
def takeExponent? (s : List Char) : Option (Option Int × List Char) :=
  match s with
  | c :: r =>
    if c = 'e' || c = 'E' then
      let (negative, r) := takeSign r
      let (digits, r) := Decimal.takeDigits r
      if digits.isEmpty then none
      else
        let n : Int := Decimal.digitsValue digits
        some (some (if negative then -n else n), r)
    else some (none, s)
  | [] => some (none, s)

/-- A number without its sign, and the rest of the text. -/
def takeMagnitude? (negative : Bool) (s : List Char) : Option (NumberText × List Char) :=
  let (whole, r) := takeWhole s
  if whole.isEmpty then none
  else
    match takeFraction? r with
    | none => none
    | some (fraction, pointed, r) =>
      (takeExponent? r).map fun (exponent, r) =>
        (⟨negative, ⟨whole, fraction, exponent.getD 0⟩, !pointed && exponent.isNone⟩, r)

/-- The value of a digit of base sixteen. -/
def hexValue? (c : Char) : Option Nat :=
  if '0' ≤ c && c ≤ '9' then some (c.toNat - 48)
  else if 'a' ≤ c && c ≤ 'f' then some (c.toNat - 87)
  else if 'A' ≤ c && c ≤ 'F' then some (c.toNat - 55)
  else none

/-- The number written by four digits of base sixteen. -/
def hexUnit? (a b c d : Char) : Option Nat := do
  let a ← hexValue? a
  let b ← hexValue? b
  let c ← hexValue? c
  let d ← hexValue? d
  pure (a * 4096 + b * 256 + c * 16 + d)

/-- The character that an escape by a single letter stands for. -/
def escapeLetter? (c : Char) : Option Char :=
  if c = '"' then some '"'
  else if c = '\\' then some '\\'
  else if c = '/' then some '/'
  else if c = 'b' then some '\x08'
  else if c = 'f' then some '\x0c'
  else if c = 'n' then some '\n'
  else if c = 'r' then some '\r'
  else if c = 't' then some '\t'
  else none

/-- The 16-bit units of a string up to its closing quote, and the rest of the text.  A character
that stands for itself counts as one unit, whatever its code point. -/
def takeUnits? : List Char → Option (List Nat × List Char)
  | [] => none
  | '"' :: rest => some ([], rest)
  | '\\' :: 'u' :: a :: b :: c :: d :: rest =>
    match hexUnit? a b c d with
    | none => none
    | some unit => (takeUnits? rest).map fun (units, r) => (unit :: units, r)
  | '\\' :: c :: rest =>
    match escapeLetter? c with
    | none => none
    | some e => (takeUnits? rest).map fun (units, r) => (e.toNat :: units, r)
  | c :: rest =>
    if c.toNat < 32 || c = '\\' then none
    else (takeUnits? rest).map fun (units, r) => (c.toNat :: units, r)

/-- The characters of a sequence of units, pairs of surrogates joined; absent when a half of a
pair stands alone. -/
def joinUnits? : List Nat → Option (List Char)
  | [] => some []
  | [u] => if 0xD800 ≤ u ∧ u < 0xE000 then none else some [Char.ofNat u]
  | u :: v :: rest =>
    if 0xD800 ≤ u ∧ u < 0xDC00 then
      if 0xDC00 ≤ v ∧ v < 0xE000 then
        (joinUnits? rest).map (Char.ofNat (0x10000 + (u - 0xD800) * 1024 + (v - 0xDC00)) :: ·)
      else none
    else if 0xDC00 ≤ u ∧ u < 0xE000 then none
    else (joinUnits? (v :: rest)).map (Char.ofNat u :: ·)

/-- A string after its opening quote, and the rest of the text. -/
def takeString? (s : List Char) : Option (Option String × List Char) :=
  (takeUnits? s).map fun (units, r) => ((joinUnits? units).map String.ofList, r)

/-! ### Values -/

mutual

/-- One value, blanks before it dropped, and the rest of the text.  The number of steps bounds the
calls that follow one another. -/
def takeValue? : Nat → List Char → Option (Source × List Char)
  | 0, _ => none
  | steps + 1, s =>
    match skipSpace s with
    | 'n' :: 'u' :: 'l' :: 'l' :: r => some (.null, r)
    | 't' :: 'r' :: 'u' :: 'e' :: r => some (.bool true, r)
    | 'f' :: 'a' :: 'l' :: 's' :: 'e' :: r => some (.bool false, r)
    | '"' :: r => (takeString? r).map fun (value, r) => (.string value, r)
    | '[' :: r =>
      match skipSpace r with
      | ']' :: r' => some (.array [], r')
      | _ => (takeItems? steps r).map fun (items, r) => (.array items, r)
    | '\x7b' :: r =>
      match skipSpace r with
      | '\x7d' :: r' => some (.object [], r')
      | _ => (takeMembers? steps r).map fun (members, r) => (.object members, r)
    | '-' :: r => (takeMagnitude? true r).map fun (value, r) => (.number value.toNumber?, r)
    | r => (takeMagnitude? false r).map fun (value, r) => (.number value.toNumber?, r)

/-- The items of an array up to its end. -/
def takeItems? : Nat → List Char → Option (List Source × List Char)
  | 0, _ => none
  | steps + 1, s =>
    match takeValue? steps s with
    | none => none
    | some (item, r) =>
      match skipSpace r with
      | ']' :: r' => some ([item], r')
      | ',' :: r' => (takeItems? steps r').map fun (items, r) => (item :: items, r)
      | _ => none

/-- The members of an object up to its end. -/
def takeMembers? : Nat → List Char → Option (List (Option String × Source) × List Char)
  | 0, _ => none
  | steps + 1, s =>
    match skipSpace s with
    | '"' :: r =>
      match takeString? r with
      | none => none
      | some (name, r) =>
        match skipSpace r with
        | ':' :: r =>
          match takeValue? steps r with
          | none => none
          | some (value, r) =>
            match skipSpace r with
            | '\x7d' :: r' => some ([(name, value)], r')
            | ',' :: r' =>
              (takeMembers? steps r').map fun (members, r) => ((name, value) :: members, r)
            | _ => none
        | _ => none
    | _ => none

end

/-- The parts of a text that is one JSON value between blanks. -/
def parse? (text : String) : Option Source :=
  let s := text.toList
  match takeValue? (s.length + 1) s with
  | some (source, r) => if (skipSpace r).isEmpty then some source else none
  | none => none

/-! ### The value of the parts -/

mutual

/-- The value of the parts of a text.  Arrays and objects may be nested `depth` deep. -/
def toJson? : Nat → Source → Option Json
  | _, .null => some .null
  | _, .bool b => some (.bool b)
  | _, .number n => n.map .number
  | _, .string s => s.map .string
  | 0, .array _ => none
  | depth + 1, .array items => (itemsToJson? depth items).map .array
  | 0, .object _ => none
  | depth + 1, .object members =>
    (membersToJson? depth members).map fun members => .object (Entries.ofList members)

/-- The values of the items of an array. -/
def itemsToJson? : Nat → List Source → Option (List Json)
  | _, [] => some []
  | depth, item :: rest =>
    match toJson? depth item with
    | none => none
    | some item => (itemsToJson? depth rest).map (item :: ·)

/-- The names and values of the members of an object. -/
def membersToJson? : Nat → List (Option String × Source) → Option (List (String × Json))
  | _, [] => some []
  | depth, (name, value) :: rest =>
    match name, toJson? depth value with
    | some name, some value => (membersToJson? depth rest).map ((name, value) :: ·)
    | _, _ => none

end

mutual

/-- The parts of a value. -/
def ofJson : Json → Source
  | .null => .null
  | .bool b => .bool b
  | .number n => .number (some n)
  | .string s => .string (some s)
  | .array items => .array (ofItems items)
  | .object members => .object (ofMembers members)

/-- The parts of the items of an array. -/
def ofItems : List Json → List Source
  | [] => []
  | item :: rest => ofJson item :: ofItems rest

/-- The parts of the members of an object. -/
def ofMembers : List (String × Json) → List (Option String × Source)
  | [] => []
  | (name, value) :: rest => (some name, ofJson value) :: ofMembers rest

end

end Source

/-- How deep arrays and objects of a text may be nested. -/
def maxDepth : Nat := 127

/-- The value of a JSON text. -/
def parse? (text : String) : Option Json :=
  (Source.parse? text).bind (Source.toJson? maxDepth)

end Json

end GraphQLClient
