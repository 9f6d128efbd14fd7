import GraphQLClient.Json.Printer

/-!
# Literals

The values that a document writes.  Numbers are kept as their texts; a member of an enumeration
and a reference to a variable are literals of their own.

## Main definitions

* `Literal` : the literals.
* `Literal.toChars`, `Literal.toText` : the text of a literal, on one line.
-/

namespace GraphQLClient

/-- A value as a document writes it. -/
inductive Literal where
  | null
  | boolean (b : Bool)
  | int (text : String)
  | float (text : String)
  | string (s : String)
  | enum (member : String)
  | var (name : String)
  | list (items : List Literal)
  | object (fields : List (String × Literal))

instance : Inhabited Literal := ⟨.null⟩

namespace Literal

/-- A digit of base sixteen, with capital letters. -/
def hexDigit (n : Nat) : Char :=
  if n < 10 then Char.ofNat (48 + n) else Char.ofNat (55 + n)

/-- One character of a string, escaped where a quoted string asks for it; a tab stands for
itself. -/
def quotedChar (c : Char) : List Char :=
  if c = '"' then ['\\', '"']
  else if c = '\\' then ['\\', '\\']
  else if c = '\x08' then ['\\', 'b']
  else if c = '\x0c' then ['\\', 'f']
  else if c = '\n' then ['\\', 'n']
  else if c = '\r' then ['\\', 'r']
  else if c.toNat < 32 && c != '\t' then
    ['\\', 'u', '0', '0', hexDigit (c.toNat / 16), hexDigit (c.toNat % 16)]
  else [c]

/-- A string between quotes. -/
def quotedChars (s : String) : List Char :=
  '"' :: s.toList.flatMap quotedChar ++ ['"']

mutual

/-- The characters of a literal. -/
def toChars : Literal → List Char
  | .null => ['n', 'u', 'l', 'l']
  | .boolean true => ['t', 'r', 'u', 'e']
  | .boolean false => ['f', 'a', 'l', 's', 'e']
  | .int text => text.toList
  | .float text => text.toList
  | .string s => quotedChars s
  | .enum member => member.toList
  | .var name => '$' :: name.toList
  | .list [] => ['[', ']']
  | .list (item :: rest) => '[' :: toChars item ++ itemsToChars rest
  | .object [] => ['\x7b', '\x7d']
  | .object ((name, value) :: rest) =>
    '\x7b' :: name.toList ++ ':' :: ' ' :: toChars value ++ fieldsToChars rest

/-- The items after the first, and the end of the list. -/
def itemsToChars : List Literal → List Char
  | [] => [']']
  | item :: rest => ',' :: ' ' :: toChars item ++ itemsToChars rest

/-- The fields after the first, and the end of the object. -/
def fieldsToChars : List (String × Literal) → List Char
  | [] => ['\x7d']
  | (name, value) :: rest =>
    ',' :: ' ' :: name.toList ++ ':' :: ' ' :: toChars value ++ fieldsToChars rest

end

/-- The text of a literal. -/
def toText (l : Literal) : String :=
  String.ofList (toChars l)

/-- Whether a literal is null. -/
def isNull : Literal → Bool
  | .null => true
  | _ => false

end Literal

end GraphQLClient
