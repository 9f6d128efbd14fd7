import GraphQLClient.Decimal.Layout
import GraphQLClient.Json

/-!
# JSON texts of values

Two layouts of JSON texts: a compact one without blanks, used on the wire and inside messages, and
one with an item or member on each line.

## Main definitions

* `Json.quotedChars` : a string between quotes.
* `Json.compact` : the compact text of a value.
* `Json.pretty` : the text of a value with indentation.
-/

namespace GraphQLClient.Json

/-- A digit of base sixteen, with small letters. -/
def hexDigit (n : Nat) : Char :=
  if n < 10 then Char.ofNat (48 + n) else Char.ofNat (87 + n)

/-- One character of a string, escaped where JSON asks for it. -/
def quotedChar (c : Char) : List Char :=
  if c = '"' then ['\\', '"']
  else if c = '\\' then ['\\', '\\']
  else if c = '\x08' then ['\\', 'b']
  else if c = '\x0c' then ['\\', 'f']
  else if c = '\n' then ['\\', 'n']
  else if c = '\r' then ['\\', 'r']
  else if c = '\t' then ['\\', 't']
  else if c.toNat < 32 then
    ['\\', 'u', '0', '0', hexDigit (c.toNat / 16), hexDigit (c.toNat % 16)]
  else [c]

/-- A string between quotes. -/
def quotedChars (s : String) : List Char :=
  '"' :: s.toList.flatMap quotedChar ++ ['"']

/-- The text of a number. -/
def Number.chars : Number → List Char
  | .int i _ => Decimal.intChars i
  | .float x => Decimal.write .json x

mutual

/-- The characters of the compact text of a value. -/
def compactChars : Json → List Char
  | .null => ['n', 'u', 'l', 'l']
  | .bool true => ['t', 'r', 'u', 'e']
  | .bool false => ['f', 'a', 'l', 's', 'e']
  | .number n => n.chars
  | .string s => quotedChars s
  | .array [] => ['[', ']']
  | .array (item :: rest) => '[' :: compactChars item ++ compactItems rest
  | .object [] => ['\x7b', '\x7d']
  | .object ((name, value) :: rest) =>
    '\x7b' :: quotedChars name ++ ':' :: compactChars value ++ compactMembers rest

/-- The items after the first, and the end of the array. -/
def compactItems : List Json → List Char
  | [] => [']']
  | item :: rest => ',' :: compactChars item ++ compactItems rest

/-- The members after the first, and the end of the object. -/
def compactMembers : List (String × Json) → List Char
  | [] => ['\x7d']
  | (name, value) :: rest =>
    ',' :: quotedChars name ++ ':' :: compactChars value ++ compactMembers rest

end

/-- The compact text of a value. -/
def compact (j : Json) : String :=
  String.ofList (compactChars j)

/-- A line end and the margin of the next line, two blanks for each level. -/
def newline (level : Nat) : List Char :=
  '\n' :: List.replicate (2 * level) ' '

mutual

/-- The characters of the indented text of a value at a level of nesting. -/
def prettyChars (level : Nat) : Json → List Char
  | .null => ['n', 'u', 'l', 'l']
  | .bool true => ['t', 'r', 'u', 'e']
  | .bool false => ['f', 'a', 'l', 's', 'e']
  | .number n => n.chars
  | .string s => quotedChars s
  | .array [] => ['[', ']']
  | .array (item :: rest) =>
    '[' :: newline (level + 1) ++ prettyChars (level + 1) item ++ prettyItems level rest
  | .object [] => ['\x7b', '\x7d']
  | .object ((name, value) :: rest) =>
    '\x7b' :: newline (level + 1) ++ quotedChars name ++ ':' :: ' ' ::
      prettyChars (level + 1) value ++ prettyMembers level rest

/-- The items after the first, and the end of the array. -/
def prettyItems (level : Nat) : List Json → List Char
  | [] => newline level ++ [']']
  | item :: rest =>
    ',' :: newline (level + 1) ++ prettyChars (level + 1) item ++ prettyItems level rest

/-- The members after the first, and the end of the object. -/
def prettyMembers (level : Nat) : List (String × Json) → List Char
  | [] => newline level ++ ['\x7d']
  | (name, value) :: rest =>
    ',' :: newline (level + 1) ++ quotedChars name ++ ':' :: ' ' ::
      prettyChars (level + 1) value ++ prettyMembers level rest

end

/-- The text of a value with one item or member on each line. -/
def pretty (j : Json) : String :=
  String.ofList (prettyChars 0 j)

end GraphQLClient.Json
