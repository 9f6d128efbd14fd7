import GraphQLClient.Entries

/-!
# Places in a YAML text

The structure of a YAML text depends on the lines and columns in which its parts begin.  A cursor is
a place in a text that knows both, and whether anything but blanks stands before it in its line.

## Main definitions

* `Yaml.Cursor` : places.
* `Yaml.Cursor.skipLine?`, `Yaml.Cursor.skipVoid?` : the next part of the line, and the next part of
  the text.
* `Yaml.Cursor.gapFrom?`, `Yaml.Cursor.joint` : what stands between two parts of a scalar, and what
  it means.
-/

namespace GraphQLClient.Yaml

/-! ### Characters -/

/-- The blanks inside a line. -/
def isBlank (c : Char) : Bool := c = ' ' || c = '\t'

/-- The marks of collections in one line. -/
def isFlowMark (c : Char) : Bool := [',', '[', ']', '\x7b', '\x7d'].contains c

/-- The letters of the names that the language itself gives. -/
def isWordChar (c : Char) : Bool := c.isAlphanum || c = '_' || c = '-'

/-- Whether the end of the line or of the text comes first. -/
def endsLine : List Char → Bool
  | [] => true
  | c :: _ => c = '\n'

/-- Whether a blank, the end of the line or the end of the text comes first. -/
def breaks : List Char → Bool
  | [] => true
  | c :: _ => isBlank c || c = '\n'

/-- Whether the mark of a collection comes first. -/
def startsFlowMark : List Char → Bool
  | [] => false
  | c :: _ => isFlowMark c

/-- Whether a line has nothing but blanks and a comment. -/
def isVoidLine (s : List Char) : Bool :=
  match s.dropWhile isBlank with
  | [] => true
  | c :: _ => c = '\n' || c = '#'

/-- A text whose lines all end the same way, up to its end: a null character ends it. -/
def uniformLines : List Char → List Char
  | '\r' :: '\n' :: rest => '\n' :: uniformLines rest
  | c :: rest =>
    if c = '\x00' then []
    else if c = '\r' then '\n' :: uniformLines rest
    else c :: uniformLines rest
  | [] => []

/-! ### Places -/

/-- A place in a text. -/
structure Cursor where
  rest : List Char
  index : Nat
  line : Nat
  column : Nat
  /-- Whether only blanks stand before the place in its line. -/
  fresh : Bool

namespace Cursor

/-- The start of a text.  A mark of the order of bytes may stand before it. -/
def ofText (text : String) : Cursor :=
  let s :=
    match text.toList with
    | '\ufeff' :: rest => rest
    | s => s
  ⟨uniformLines s, 0, 0, 0, true⟩

/-- The place after the next character. -/
def next (c : Cursor) : Cursor :=
  match c.rest with
  | [] => c
  | '\n' :: rest => ⟨rest, c.index + 1, c.line + 1, 0, true⟩
  | ch :: rest => ⟨rest, c.index + 1, c.line, c.column + 1, c.fresh && isBlank ch⟩

/-- The place after a number of characters. -/
def advance : Nat → Cursor → Cursor
  | 0, c => c
  | count + 1, c => advance count c.next

/-- The place after the characters of a class. -/
def dropWhile (p : Char → Bool) (c : Cursor) : Cursor :=
  c.advance (c.rest.takeWhile p).length

/-- The characters of a class, and the place after them. -/
def span (p : Char → Bool) (c : Cursor) : List Char × Cursor :=
  (c.rest.takeWhile p, c.dropWhile p)

/-- Whether a given character comes next. -/
def startsWith (c : Cursor) (ch : Char) : Bool := c.rest.head? = some ch

/-- The place after a given character, if it comes next. -/
def drop? (c : Cursor) (ch : Char) : Option Cursor :=
  if c.startsWith ch then some c.next else none

/-- Whether three equal characters and then a blank make up a sign between documents here. -/
def atSign (c : Cursor) (ch : Char) : Bool :=
  c.column = 0 && [ch, ch, ch].isPrefixOf c.rest && breaks (c.rest.drop 3)

/-- Whether a document ends or begins here. -/
def atDocument (c : Cursor) : Bool := c.atSign '-' || c.atSign '.'

/-- The next part of the line.  A comment is passed over, but it has to follow a blank. -/
def skipLine? (c : Cursor) : Option Cursor :=
  let after := c.dropWhile isBlank
  if after.startsWith '#' then
    if after.index = c.index then none else some (after.dropWhile (· ≠ '\n'))
  else some after

/-- The next part of the text after the characters of a place, and whether a line ended before it.
No tab stands left of the column `least` where a line begins, unless the line is void. -/
def skipFrom? (least : Int) (comment ended : Bool) :
    List Char → Cursor → Option (Bool × Cursor)
  | [], c => some (ended, c)
  | ch :: rest, c =>
    if ch = '\n' then skipFrom? least false true rest c.next
    else if comment then skipFrom? least true ended rest c.next
    else if ch = '#' then skipFrom? least true ended rest c.next
    else if isBlank ch then
      if ch = '\t' && c.fresh && c.column < least && !isVoidLine rest then none
      else skipFrom? least false ended rest c.next
    else some (ended, c)

/-- The next part of the text, and whether a line ended before it. -/
def skipVoid? (least : Int) (c : Cursor) : Option (Bool × Cursor) :=
  skipFrom? least false false c.rest c

/-- The next part of the text after the characters of a place, tabs not passed over. -/
def skipSpaces (comment : Bool) : List Char → Cursor → Cursor
  | [], c => c
  | ch :: rest, c =>
    if ch = '\n' then skipSpaces false rest c.next
    else if comment || ch = '#' then skipSpaces true rest c.next
    else if ch = ' ' then skipSpaces false rest c.next
    else c

/-! ### Lines of scalars -/

/-- The number of lines that end between two parts of a scalar, and the place of the second part.
After the end of a line, told by `ended`, no tab stands left of the column `least`; if `lenient`, it
may if nothing but a comment follows in its line, and then the line is `void`. -/
def gapFrom? (least : Int) (lenient ended void : Bool) (count : Nat) :
    List Char → Cursor → Option (Nat × Cursor)
  | [], c => some (count, c)
  | ch :: rest, c =>
    if ch = '\n' then gapFrom? least lenient true false (count + 1) rest c.next
    else if void then gapFrom? least lenient ended true count rest c.next
    else if isBlank ch then
      if ch = '\t' && ended && c.column < least then
        if lenient && isVoidLine rest then gapFrom? least lenient ended true count rest c.next
        else none
      else gapFrom? least lenient ended false count rest c.next
    else some (count, c)

/-- What stands between two parts of a scalar in place of the ends of lines between them, the first
of which is a blank unless others follow. -/
def joint (count : Nat) : List Char :=
  if count ≤ 1 then List.replicate count ' ' else List.replicate (count - 1) '\n'

end Cursor

end GraphQLClient.Yaml
