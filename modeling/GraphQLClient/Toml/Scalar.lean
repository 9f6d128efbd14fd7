import GraphQLClient.Toml.Moment

/-!
# Scalars of TOML

The values of TOML that hold no others: strings in four notations, truth values, integers,
floating-point numbers, dates and times.  A configuration has no numbers with a fraction, so only
their form is checked.

## Main definitions

* `Toml.takeString?` : a string, and the rest of the text.
* `Toml.scalar?` : the value of a word without marks.
* `Toml.takeWord` : the characters of such a word, and the rest of the text.
-/

namespace GraphQLClient.Toml

/-! ### Characters -/

/-- The blanks inside a line. -/
def isSpace (c : Char) : Bool := c = ' ' || c = '\t'

/-- Whether a character may stand for itself in a string or a comment. -/
def isText (c : Char) : Bool := c = '\t' || (0x20 ≤ c.toNat && c.toNat ≠ 0x7F)

/-- Whether a character may stand in a key without marks. -/
def isBare (c : Char) : Bool := c.isAlphanum || c = '_' || c = '-'

/-- A text without its leading blanks. -/
def skipSpace (s : List Char) : List Char := s.dropWhile isSpace

/-- What follows the end of a line, if the text starts with one. -/
def takeNewline? : List Char → Option (List Char)
  | '\n' :: rest => some rest
  | '\r' :: '\n' :: rest => some rest
  | _ => none

/-- A text without the blanks, the ends of lines and the comments before its first word. -/
def skipVoid (comment : Bool) : List Char → List Char
  | [] => []
  | '\n' :: rest => skipVoid false rest
  | '\r' :: '\n' :: rest => skipVoid false rest
  | c :: rest =>
    if comment then if isText c then skipVoid true rest else c :: rest
    else if isSpace c then skipVoid false rest
    else if c = '#' then skipVoid true rest
    else c :: rest

/-- The text after the line that it starts in, of which only blanks and a comment may be left. -/
def endLine? (s : List Char) : Option (List Char) :=
  let s := skipSpace s
  let s :=
    match s with
    | '#' :: rest => rest.dropWhile isText
    | _ => s
  match s with
  | [] => some []
  | _ => takeNewline? s

/-! ### Strings -/

/-- The character of a code point, if it is one. -/
def scalarChar? (n : Nat) : Option Char :=
  if n.isValidChar then some (Char.ofNat n) else none

/-- The character of a code point written in base sixteen. -/
def hexChar? (digits : List Char) : Option Char :=
  if digits.contains '_' then none else (Setting.digits? 16 digits).bind scalarChar?

/-- The character that an escape stands for, and the text after it. -/
def takeEscape? : List Char → Option (Char × List Char)
  | 'b' :: rest => some ('\x08', rest)
  | 't' :: rest => some ('\t', rest)
  | 'n' :: rest => some ('\n', rest)
  | 'f' :: rest => some ('\x0c', rest)
  | 'r' :: rest => some ('\r', rest)
  | 'e' :: rest => some ('\x1b', rest)
  | '"' :: rest => some ('"', rest)
  | '\\' :: rest => some ('\\', rest)
  | 'x' :: rest => hex 2 rest
  | 'u' :: rest => hex 4 rest
  | 'U' :: rest => hex 8 rest
  | _ => none
where
  /-- The character written by a number of digits. -/
  hex (count : Nat) (s : List Char) : Option (Char × List Char) :=
    if s.length < count then none
    else (hexChar? (s.take count)).map fun c => (c, s.drop count)

/-- A string with escapes after its opening mark.  The number of steps bounds its characters. -/
def takeBasic? : Nat → List Char → Option (List Char × List Char)
  | 0, _ => none
  | _ + 1, [] => none
  | _ + 1, '"' :: rest => some ([], rest)
  | steps + 1, '\\' :: rest =>
    match takeEscape? rest with
    | none => none
    | some (c, rest) => (takeBasic? steps rest).map fun (s, r) => (c :: s, r)
  | steps + 1, c :: rest =>
    if isText c then (takeBasic? steps rest).map fun (s, r) => (c :: s, r) else none

/-- A string without escapes after its opening mark. -/
def takeLiteral? (s : List Char) : Option (List Char × List Char) :=
  let (content, rest) := s.span fun c => isText c && c != '\''
  match rest with
  | '\'' :: rest => some (content, rest)
  | _ => none

/-- The text after a backslash at the end of a line: the next character that is no blank. -/
def joinLines? (s : List Char) : Option (List Char) :=
  (takeNewline? (skipSpace s)).map fun rest =>
    rest.dropWhile fun c => isSpace c || c = '\n' || c = '\r'

/-- The marks of a kind that end a string of several lines: three close it, and up to two before
them belong to it.  Given are the marks of the string and the text after them. -/
def closing? (mark : Char) (s : List Char) : Option (List Char × List Char) :=
  let (marks, rest) := s.span fun c => c = mark
  if marks.length < 3 then none
  else if marks.length ≤ 5 then some (marks.drop 3, rest)
  else some ([mark, mark], s.drop 5)

/-- A string of several lines after its opening marks.  The number of steps bounds its
characters. -/
def takeLines? (mark : Char) (escapes : Bool) : Nat → List Char → Option (List Char × List Char)
  | 0, _ => none
  | _ + 1, [] => none
  | steps + 1, c :: rest =>
    let go (c : Char) (rest : List Char) :=
      (takeLines? mark escapes steps rest).map fun (s, r) => (c :: s, r)
    if c = mark then
      match closing? mark (c :: rest) with
      | some closed => some closed
      | none => go c rest
    else if c = '\\' && escapes then
      match takeEscape? rest with
      | some (c, rest) => go c rest
      | none => (joinLines? rest).bind (takeLines? mark escapes steps)
    else
      if isText c || (takeNewline? (c :: rest)).isSome then go c rest else none

/-- A string of several lines after its opening marks, without the end of line that may follow
them. -/
def takeMultiline? (mark : Char) (escapes : Bool) (s : List Char) :
    Option (List Char × List Char) :=
  takeLines? mark escapes (s.length + 1) ((takeNewline? s).getD s)

/-- A string in any of its notations, and the rest of the text. -/
def takeString? : List Char → Option (List Char × List Char)
  | '"' :: '"' :: '"' :: rest => takeMultiline? '"' true rest
  | '\'' :: '\'' :: '\'' :: rest => takeMultiline? '\'' false rest
  | '"' :: rest => takeBasic? (rest.length + 1) rest
  | '\'' :: rest => takeLiteral? rest
  | _ => none

/-! ### Numbers -/

/-- Whether digits write a decimal number: no zero stands before others. -/
def decimalDigits : List Char → Bool
  | '0' :: _ :: _ => false
  | s => (Setting.digits? 10 s).isSome

/-- A word without its sign, and whether the sign is a minus. -/
def takeSign : List Char → Option Bool × List Char
  | '-' :: rest => (some true, rest)
  | '+' :: rest => (some false, rest)
  | s => (none, s)

/-- The integer that a word writes. -/
def integer? (s : List Char) : Option Int :=
  let (sign, magnitude) := takeSign s
  let marked (base : Nat) (digits : List Char) : Option Int :=
    if sign.isNone then (Setting.digits? base digits).map Int.ofNat else none
  match magnitude with
  | '0' :: 'x' :: digits => marked 16 digits
  | '0' :: 'o' :: digits => marked 8 digits
  | '0' :: 'b' :: digits => marked 2 digits
  | digits =>
    if decimalDigits digits then
      (Setting.digits? 10 digits).map fun n => if sign = some true then -Int.ofNat n else n
    else none

/-- Whether a word writes a number with a fraction or an exponent, or one that is not finite. -/
def isFloat (s : List Char) : Bool :=
  let magnitude := (takeSign s).2
  let (mantissa, exponent) := magnitude.span fun c => c != 'e' && c != 'E'
  let (whole, fraction) := mantissa.span fun c => c != '.'
  let fractional :=
    match fraction with
    | '.' :: digits => some (Setting.digits? 10 digits).isSome
    | _ => none
  let scaled :=
    match exponent with
    | _ :: digits => some (Setting.digits? 10 (takeSign digits).2).isSome
    | [] => none
  magnitude = "inf".toList || magnitude = "nan".toList ||
    (decimalDigits whole && (fractional.isSome || scaled.isSome) && fractional.getD true &&
      scaled.getD true)

/-! ### Words -/

/-- Whether a character may stand in a word without marks. -/
def isWord (c : Char) : Bool :=
  isBare c || c = '+' || c = '.' || c = ':'

/-- The characters of a word without marks, and the rest of the text.  A blank may divide a date
from a time. -/
def takeWord (s : List Char) : List Char × List Char :=
  let (word, rest) := s.span isWord
  match takeDate? word, rest with
  | some (_, []), ' ' :: next =>
    match takeMinutes? next with
    | some _ =>
      let (time, rest) := next.span isWord
      (word ++ ' ' :: time, rest)
    | none => (word, rest)
  | _, _ => (word, rest)

/-- The value of a word without marks. -/
def scalar? (word : List Char) : Option Setting :=
  if word = "true".toList then some (.bool true)
  else if word = "false".toList then some (.bool false)
  else
    match integer? word with
    | some i => some (.int i)
    | none => if isFloat word then some .other else (moment? word).map Moment.toSetting

end GraphQLClient.Toml
