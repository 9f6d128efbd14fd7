import GraphQLClient.Json.Source
import GraphQLClient.Name

/-!
# Tokens of schema documents

A schema document is a sequence of names, numbers, strings and marks.  Blanks, line ends and
comments separate tokens and mean nothing else; a name or number extends as far as it can, and no
name or digit may follow a number at once.  Commas mean nothing either, but they are kept as marks,
since a few places admit none.

The grammar of October 2021 admits the characters of the basic plane, and escapes of four digits.
Two of them write one character where they are the halves of a pair; a half alone, which the grammar
admits, is no character, and the replacement character is read.  Later grammars have full Unicode:
any character, and escapes of any number of digits between braces, but no halves.

## Main definitions

* `Sdl.Token` : the tokens.
* `Sdl.blockValue` : the text that a block string stands for, its common margin dropped.
* `Sdl.Alphabet` : the characters that a document may hold, and the escapes that it may write.
* `Sdl.tokens?` : the tokens of a text in an alphabet.
-/

namespace GraphQLClient.Sdl

/-- A token of a schema document. -/
inductive Token where
  | mark (c : Char)
  | name (s : String)
  | int (text : String)
  | float (text : String)
  | string (s : String)
  deriving DecidableEq, Repr

/-- The characters that a document may hold, and the escapes that it may write. -/
structure Alphabet where
  /-- Whether any character may stand in a document, and be written as digits between braces. -/
  full : Bool
  /-- Whether an escape may be half of a pair alone. -/
  halves : Bool

/-- The characters and escapes of October 2021. -/
def Alphabet.published : Alphabet := ⟨false, true⟩

/-- The characters and escapes that the client reads. -/
def Alphabet.client : Alphabet := ⟨true, false⟩

/-- All characters and escapes. -/
def Alphabet.all : Alphabet := ⟨true, true⟩

/-! ### Separators -/

/-- A character that only separates tokens. -/
def isSeparator (c : Char) : Bool :=
  c = ' ' || c = '\t' || c = '\n' || c = '\r' || c = '\ufeff'

/-- A character that ends a line. -/
def isLineEnd (c : Char) : Bool :=
  c = '\n' || c = '\r'

/-- The marks of schema documents. -/
def marks : List Char :=
  ['!', '&', '(', ')', ':', '=', '@', '[', ']', '\x7b', '|', '\x7d', ',']

/-- A mark. -/
def isMark (c : Char) : Bool :=
  marks.contains c

/-! ### Strings -/

/-- The character of a code point, if it is one. -/
def scalarChar? (n : Nat) : Option Char :=
  if n.isValidChar then some (Char.ofNat n) else none

/-- The character that digits of base sixteen between braces stand for, and the text after them. -/
def takeBraced? (s : List Char) : Option (Char × List Char) :=
  let (digits, rest) := s.span fun c => (Json.Source.hexValue? c).isSome
  let value := digits.foldl (fun n c => 16 * n + (Json.Source.hexValue? c).getD 0) 0
  match rest with
  | '\x7d' :: rest =>
    if digits.isEmpty then none else (scalarChar? value).map fun c => (c, rest)
  | _ => none

/-- The second half of a pair of escapes at the front of a text, and the text after it. -/
def takeHalf? : List Char → Option (Nat × List Char)
  | '\\' :: 'u' :: a :: b :: c :: d :: rest =>
    match Json.Source.hexUnit? a b c d with
    | none => none
    | some n => if 0xDC00 ≤ n && n < 0xE000 then some (n, rest) else none
  | _ => none

/-- The character that four digits of base sixteen stand for, and the text after it.  Two such
escapes together write a character of four bytes. -/
def takeUnits? (halves : Bool) : List Char → Option (Char × List Char)
  | a :: b :: c :: d :: rest =>
    match Json.Source.hexUnit? a b c d with
    | none => none
    | some n =>
      let half := if halves then some ('\ufffd', rest) else none
      if 0xD800 ≤ n && n < 0xDC00 then
        match takeHalf? rest with
        | some (m, rest) =>
          some (Char.ofNat (0x10000 + 0x400 * (n - 0xD800) + (m - 0xDC00)), rest)
        | none => half
      else if 0xDC00 ≤ n && n < 0xE000 then half
      else (scalarChar? n).map fun c => (c, rest)
  | _ => none

/-- The character that an escape stands for, and the text after it. -/
def takeEscape? (alpha : Alphabet) : List Char → Option (Char × List Char)
  | 'u' :: '\x7b' :: rest => if alpha.full then takeBraced? rest else none
  | 'u' :: rest => takeUnits? alpha.halves rest
  | c :: rest => (Json.Source.escapeLetter? c).map fun c => (c, rest)
  | [] => none

/-- The characters of a quoted string up to its closing quote, and the rest of the text.  The number
of steps bounds the characters. -/
def takeQuoted? (alpha : Alphabet) : Nat → List Char → Option (List Char × List Char)
  | 0, _ => none
  | _ + 1, [] => none
  | _ + 1, '"' :: rest => some ([], rest)
  | steps + 1, '\\' :: rest =>
    match takeEscape? alpha rest with
    | none => none
    | some (c, rest) => (takeQuoted? alpha steps rest).map fun (s, r) => (c :: s, r)
  | steps + 1, c :: rest =>
    if isLineEnd c then none else (takeQuoted? alpha steps rest).map fun (s, r) => (c :: s, r)

/-- The characters of a block string up to its closing quotes, and the rest of the text. -/
def takeBlock? : List Char → Option (List Char × List Char)
  | [] => none
  | '"' :: '"' :: '"' :: rest => some ([], rest)
  | '\\' :: '"' :: '"' :: '"' :: rest =>
    (takeBlock? rest).map fun (s, r) => ('"' :: '"' :: '"' :: s, r)
  | c :: rest => (takeBlock? rest).map fun (s, r) => (c :: s, r)

/-- The lines of a text; a carriage return before a line feed belongs to it. -/
def lines : List Char → List (List Char)
  | [] => [[]]
  | '\r' :: '\n' :: rest => [] :: lines rest
  | c :: rest =>
    if isLineEnd c then [] :: lines rest
    else
      match lines rest with
      | [] => [[c]]
      | line :: more => (c :: line) :: more

/-- A blank inside a line. -/
def isInlineBlank (c : Char) : Bool :=
  c = ' ' || c = '\t'

/-- The width of the margin of a line; a line of blanks has none. -/
def margin? (line : List Char) : Option Nat :=
  if line.all isInlineBlank then none else some (line.takeWhile isInlineBlank).length

/-- The smallest margin of lines. -/
def commonMargin (ls : List (List Char)) : Nat :=
  ((ls.filterMap margin?).min?).getD 0

/-- The text that a block string stands for: the common margin of the lines after the first is
dropped, and so are blank lines at the start and the end. -/
def blockValue (raw : List Char) : List Char :=
  match lines raw with
  | [] => []
  | first :: more =>
    let width := commonMargin more
    let ls := first :: more.map (·.drop width)
    let blank (line : List Char) := line.all isInlineBlank
    let ls := ((ls.dropWhile blank).reverse.dropWhile blank).reverse
    ['\n'].intercalate ls

/-! ### Numbers -/

/-- The end of a number: no digit, point or name may follow at once. -/
def endsNumber : List Char → Bool
  | [] => true
  | c :: _ => !(Name.isNameContinue c || c = '.')

/-- A number after its sign, and the rest of the text. -/
def takeNumber? (sign : List Char) (s : List Char) : Option (Token × List Char) :=
  match Json.Source.takeMagnitude? false s with
  | none => none
  | some (number, rest) =>
    let text := String.ofList (sign ++ s.take (s.length - rest.length))
    if endsNumber rest then
      some (if number.integral then .int text else .float text, rest)
    else none

/-! ### Tokens -/

/-- The token of a quoted string after its opening quote, and the rest of the text.  Two more quotes
open a block string. -/
def takeString? (alpha : Alphabet) (s : List Char) : Option (Token × List Char) :=
  match s with
  | '"' :: '"' :: body =>
    (takeBlock? body).map fun (raw, r) => (.string (String.ofList (blockValue raw)), r)
  | _ => (takeQuoted? alpha (s.length + 1) s).map fun (s, r) => (.string (String.ofList s), r)

/-- The token that starts with a character, and the rest of the text after it. -/
def takeToken? (alpha : Alphabet) (c : Char) (rest : List Char) : Option (Token × List Char) :=
  if isMark c then some (.mark c, rest)
  else if Name.isNameStart c then
    some (.name (String.ofList (c :: rest.takeWhile Name.isNameContinue)),
      rest.dropWhile Name.isNameContinue)
  else if c = '"' then takeString? alpha rest
  else if c = '-' then takeNumber? ['-'] rest
  else if Decimal.isDigit c then takeNumber? [] (c :: rest)
  else none

/-- The tokens of a text; the number of steps bounds the characters looked at. -/
def tokensWithin? (alpha : Alphabet) : Nat → List Char → Option (List Token)
  | 0, _ => none
  | _, [] => some []
  | steps + 1, c :: rest =>
    if isSeparator c then tokensWithin? alpha steps rest
    else if c = '#' then tokensWithin? alpha steps (rest.dropWhile fun d => !isLineEnd d)
    else
      match takeToken? alpha c rest with
      | none => none
      | some (token, r) => (tokensWithin? alpha steps r).map (token :: ·)

/-- A character that may stand in a document of October 2021. -/
def isSourceCharacter (c : Char) : Bool :=
  c = '\t' || c = '\n' || c = '\r' || ' ' ≤ c && c ≤ '\uffff'

/-- The tokens of a text, if it consists of tokens and separators and, unless any character may, of
characters that may stand in a document. -/
def tokens? (alpha : Alphabet) (text : String) : Option (List Token) :=
  if alpha.full || text.toList.all isSourceCharacter then
    tokensWithin? alpha (text.toList.length + 1) text.toList
  else none

end GraphQLClient.Sdl
