import GraphQLClient.Json.Printer
import GraphQLClient.Text.Quoted
import GraphQLClient.Value

/-!
# Texts of values

Two texts of a value for people: the short one that messages quote, and a detailed one that names
the kind of every part.

## Main definitions

* `Value.toText` : the short text.
* `Value.outline` : the detailed text.
-/

namespace GraphQLClient

namespace Value

/-- A text between quotes, as characters. -/
def quotedChars (s : String) : List Char :=
  (Text.quoted s).toList

mutual

/-- The characters of the short text of a value. -/
def toChars : Value → List Char
  | .null => "null".toList
  | .boolean b => if b then "true".toList else "false".toList
  | .int i => Decimal.intChars i.toInt
  | .float x => x.write .message
  | .string s => quotedChars s
  | .enum s => s.toList
  | .list [] => ['[', ']']
  | .list (item :: rest) => '[' :: toChars item ++ itemsToChars rest
  | .object [] => ['\x7b', '\x7d']
  | .object ((name, value) :: rest) =>
    '\x7b' :: name.toList ++ ':' :: ' ' :: toChars value ++ fieldsToChars rest
  | .var name => '$' :: name.toList
  | .dateTime d => d.toChars
  | .json j => Json.compactChars j

/-- The items after the first, and the end of the list. -/
def itemsToChars : List Value → List Char
  | [] => [']']
  | item :: rest => ',' :: ' ' :: toChars item ++ itemsToChars rest

/-- The fields after the first, and the end of the object. -/
def fieldsToChars : List (String × Value) → List Char
  | [] => ['\x7d']
  | (name, value) :: rest =>
    ',' :: ' ' :: name.toList ++ ':' :: ' ' :: toChars value ++ fieldsToChars rest

end

/-- The short text of a value. -/
def toText (v : Value) : String :=
  String.ofList (toChars v)

end Value

namespace Json

mutual

/-- The characters of the detailed text of a JSON value. -/
def outlineChars : Json → List Char
  | .null => "Null".toList
  | .bool b => if b then "Bool(true)".toList else "Bool(false)".toList
  | .number n => "Number(".toList ++ n.chars ++ [')']
  | .string s => "String(".toList ++ Value.quotedChars s ++ [')']
  | .array [] => "Array []".toList
  | .array (item :: rest) => "Array [".toList ++ outlineChars item ++ outlineItems rest
  | .object [] => "Object \x7b\x7d".toList
  | .object ((name, value) :: rest) =>
    "Object \x7b".toList ++ Value.quotedChars name ++ ':' :: ' ' :: outlineChars value ++
      outlineMembers rest

/-- The items after the first, and the end of the array. -/
def outlineItems : List Json → List Char
  | [] => [']']
  | item :: rest => ',' :: ' ' :: outlineChars item ++ outlineItems rest

/-- The members after the first, and the end of the object. -/
def outlineMembers : List (String × Json) → List Char
  | [] => ['\x7d']
  | (name, value) :: rest =>
    ',' :: ' ' :: Value.quotedChars name ++ ':' :: ' ' :: outlineChars value ++
      outlineMembers rest

end

end Json

namespace Value

mutual

/-- The characters of the detailed text of a value. -/
def outlineChars : Value → List Char
  | .null => "Null".toList
  | .boolean b => if b then "Boolean(true)".toList else "Boolean(false)".toList
  | .int i => "Int(".toList ++ Decimal.intChars i.toInt ++ [')']
  | .float x => "Float(".toList ++ x.write .literal ++ [')']
  | .string s => "String(".toList ++ quotedChars s ++ [')']
  | .enum s => "Enum(".toList ++ quotedChars s ++ [')']
  | .list [] => "List([])".toList
  | .list (item :: rest) => "List([".toList ++ outlineChars item ++ outlineItems rest ++ [')']
  | .object fields => "Object(\x7b".toList ++ outlineFields fields ++ [')']
  | .var name => "Variable(".toList ++ quotedChars name ++ [')']
  | .dateTime d => "DateTime(".toList ++ d.toChars ++ [')']
  | .json j => "Json(".toList ++ Json.outlineChars j ++ [')']

/-- The items after the first, and the end of the list. -/
def outlineItems : List Value → List Char
  | [] => [']']
  | item :: rest => ',' :: ' ' :: outlineChars item ++ outlineItems rest

/-- The fields, and the end of the object. -/
def outlineFields : List (String × Value) → List Char
  | [] => ['\x7d']
  | (name, value) :: rest =>
    quotedChars name ++ ':' :: ' ' :: outlineChars value ++
      (if rest.isEmpty then [] else [',', ' ']) ++ outlineFields rest

end

end Value

end GraphQLClient
