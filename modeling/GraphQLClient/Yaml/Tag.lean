import GraphQLClient.Json.Source
import GraphQLClient.Yaml.Cursor

/-!
# Tags of YAML

A tag before a node tells what kind of node it is.  It is written in full between angle brackets, or
as a handle and a suffix; a rule of the document tells what the handle stands for.  Some names are
those of the language itself.

## Main definitions

* `Yaml.Tag` : tags as they are written, with `Yaml.Tag.take?`.
* `Yaml.Tag.name?` : the name that a tag stands for.
* `Yaml.Tag.Kind` : what the names of the language say, with `Yaml.Tag.Kind.ofName`.
* `Yaml.Tag.label?` : the name of an alternative in a tag.
-/

namespace GraphQLClient.Yaml

/-- A tag as it is written. -/
structure Tag where
  handle : String
  suffix : String
  deriving DecidableEq, Repr

namespace Tag

/-! ### Characters -/

/-- The characters of a name that is written in full. -/
def isNameChar (c : Char) : Bool :=
  isWordChar c || "#;/?:@&=+$,.!~*'()[]%".toList.contains c

/-- The characters of a suffix. -/
def isSuffixChar (c : Char) : Bool :=
  isNameChar c && !isFlowMark c && c ≠ '!'

/-- The byte that an escape writes, and the text after it. -/
def takeByte? : List Char → Option (Nat × List Char)
  | '%' :: a :: b :: rest => do
    let a ← Json.Source.hexValue? a
    let b ← Json.Source.hexValue? b
    pure (16 * a + b, rest)
  | _ => none

/-- How many bytes follow the first byte of a character. -/
def bytesAfter? (first : Nat) : Option Nat :=
  if first / 128 = 0 then some 0
  else if first / 32 = 6 then some 1
  else if first / 16 = 14 then some 2
  else if first / 8 = 30 then some 3
  else none

/-- A number with further bytes appended to it, and the text after them. -/
def takeBytes? : Nat → Nat → List Char → Option (Nat × List Char)
  | 0, n, s => some (n, s)
  | count + 1, n, s =>
    match takeByte? s with
    | some (b, rest) => if b / 64 = 2 then takeBytes? count (256 * n + b) rest else none
    | none => none

/-- The character that escapes stand for, and their number.  The bytes written by them are taken as
one number, which has to be a code point. -/
def escaped? (s : List Char) : Option (Char × Nat) := do
  let (first, rest) ← takeByte? s
  let more ← bytesAfter? first
  let (n, _) ← takeBytes? more first rest
  if n.isValidChar then some (Char.ofNat n, more + 1) else none

/-- The characters of a class and the escapes at a place, and the place after them.  The number of
steps bounds them. -/
def takeName? (p : Char → Bool) : Nat → Cursor → Option (List Char × Cursor)
  | 0, c => some ([], c)
  | steps + 1, c =>
    match c.rest with
    | [] => some ([], c)
    | '%' :: _ =>
      match escaped? c.rest with
      | none => none
      | some (ch, count) =>
        (takeName? p steps (c.advance (3 * count))).map fun (s, c) => (ch :: s, c)
    | ch :: _ =>
      if p ch then (takeName? p steps c.next).map fun (s, c) => (ch :: s, c) else some ([], c)

/-! ### Tags as they are written -/

/-- A handle, which starts with an exclamation mark and may end with one, and the place after it. -/
def takeHandle? (c : Cursor) : Option (String × Cursor) :=
  (c.drop? '!').map fun c =>
    let (word, c) := c.span isWordChar
    match c.drop? '!' with
    | some c => (String.ofList ('!' :: word ++ ['!']), c)
    | none => (String.ofList ('!' :: word), c)

/-- Whether a handle ends with a mark of its own. -/
def isClosedHandle (handle : String) : Bool :=
  2 ≤ handle.length && handle.toList.getLast? = some '!'

/-- A tag that is written in full after its opening bracket, and the place after it. -/
def takeFull? (steps : Nat) (c : Cursor) : Option (Tag × Cursor) := do
  let (name, c) ← takeName? isNameChar steps c
  let c ← c.drop? '>'
  pure (⟨"", String.ofList name⟩, c)

/-- A tag with a handle, and the place after it. -/
def takeShort? (steps : Nat) (c : Cursor) : Option (Tag × Cursor) := do
  let (handle, c) ← takeHandle? c
  let (suffix, c) ← takeName? isSuffixChar steps c
  if isClosedHandle handle then
    if suffix.isEmpty then none else some (⟨handle, String.ofList suffix⟩, c)
  else
    let suffix := handle.toList.tail ++ suffix
    some (if suffix.isEmpty then ⟨"", "!"⟩ else ⟨"!", String.ofList suffix⟩, c)

/-- A tag, and the place after it.  A blank or the end of the line follows, or in a collection in
one line a mark. -/
def take? (flow : Bool) (steps : Nat) (c : Cursor) : Option (Tag × Cursor) := do
  let (tag, c) ←
    if c.next.startsWith '<' then takeFull? steps (c.advance 2) else takeShort? steps c
  if breaks c.rest || (flow && startsFlowMark c.rest) then some (tag, c) else none

/-! ### What tags say -/

/-- What stands before the names of the language. -/
def languageStem : String := "tag:yaml.org,2002:"

/-- The name that a tag stands for under the rules of a document.  A handle of a single mark needs
no rule, and that of two marks leads to the names of the language unless a rule says otherwise. -/
def name? (rules : Entries String) (t : Tag) : Option String :=
  match rules.get? t.handle with
  | some stem => some (stem ++ t.suffix)
  | none =>
    if t.handle == "!!" then some (languageStem ++ t.suffix)
    else if isClosedHandle t.handle then none
    else some (t.handle ++ t.suffix)

/-- What the tag of a node says about it. -/
inductive Kind where
  /-- Nothing. -/
  | none
  | text
  | bytes
  | null
  | bool
  | int
  | float
  | moment
  | sequence
  | mapping
  /-- Something of its own. -/
  | custom
  deriving DecidableEq, Repr

/-- A name without the stem of the language, which a single mark may stand for. -/
def shortName? (name : String) : Option String :=
  match languageStem.toList.isPrefixOf name.toList, name.toList with
  | true, s => some (String.ofList (s.drop languageStem.length))
  | false, '!' :: rest => some (String.ofList rest)
  | false, _ => none

/-- What a name says. -/
def Kind.ofName (name : String) : Kind :=
  if name == "!" then .none
  else
    match shortName? name with
    | some "str" => .text
    | some "binary" => .bytes
    | some "null" => .null
    | some "bool" => .bool
    | some "int" => .int
    | some "float" => .float
    | some "timestamp" => .moment
    | some "seq" => .sequence
    | some "map" => .mapping
    | _ => .custom

/-- The name of an alternative in the name of a tag that says something of its own. -/
def label? (name : String) : Option String :=
  let word := ((shortName? name).getD name).toList.dropWhile (· = '!')
  if Kind.ofName name ≠ .custom || word.isEmpty || word.contains ':' || word.contains '!' then none
  else some (String.ofList word)

end Tag

end GraphQLClient.Yaml
