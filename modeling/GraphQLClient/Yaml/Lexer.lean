import GraphQLClient.Yaml.Block
import GraphQLClient.Yaml.Plain
import GraphQLClient.Yaml.Quoted
import GraphQLClient.Yaml.Token

/-!
# From YAML texts to tokens

The tokens of a text are found one after another.  The columns where blocks begin are kept to tell
where they end.  What may turn out to be a key is kept until a colon follows or cannot follow any
more; until then no token from there on is certain, since a colon puts tokens before the key.  If
the text is faulty somewhere, the tokens that are certain up to that place are still tokens of it.

## Main definitions

* `Yaml.Lexer` : what is known at a place of a text.
* `Yaml.tokens` : the tokens of a text, the last of which is `Token.stop` if none is missing.
-/

namespace GraphQLClient.Yaml

/-- A place where a key may begin. -/
structure PossibleKey where
  /-- The number of tokens before it. -/
  token : Nat
  index : Nat
  line : Nat
  column : Nat
  /-- Whether nothing but a key may begin there. -/
  required : Bool

/-- A level of indentation. -/
structure Level where
  /-- The indentation outside it. -/
  outer : Int
  /-- Whether it is that of a block, and not only that of the parts of an entry. -/
  block : Bool

/-- What is known at a place of a text. -/
structure Lexer where
  cursor : Cursor
  /-- A bound for the number of characters of a part of the text. -/
  bound : Nat
  /-- The tokens so far, the last one first. -/
  tokens : List Token
  /-- How many tokens there are. -/
  count : Nat
  /-- How many of the tokens are certain. -/
  certain : Nat
  /-- The column where the innermost level begins. -/
  indent : Int
  levels : List Level
  /-- Whether a key may begin here. -/
  keyAllowed : Bool
  /-- The last place where a key may begin in the innermost collection. -/
  key : Option PossibleKey
  /-- Those of the collections in one line around the place. -/
  outerKeys : List (Option PossibleKey)
  /-- The place where a colon ends a key although no blank follows. -/
  colonAt : Option Nat
  /-- Whether a mapping in one line has begun since the last pair of a sequence ended. -/
  mappingOpen : Bool
  /-- For each sequence in one line around the place, how many collections are around the pair of
  it that is open. -/
  pairs : List (Option Nat)

/-- How many collections in one line may lie in one another. -/
def flowLimit : Nat := 255

/-- How many characters a key in a block may have. -/
def keyLimit : Nat := 1024

namespace Lexer

/-- The start of a text. -/
def ofText (text : String) : Lexer where
  cursor := Cursor.ofText text
  bound := text.length + 1
  tokens := []
  count := 0
  certain := 0
  indent := -1
  levels := []
  keyAllowed := true
  key := none
  outerKeys := []
  colonAt := none
  mappingOpen := false
  pairs := []

/-- How many collections in one line are around the place. -/
def depth (s : Lexer) : Nat := s.outerKeys.length

/-- Whether the place is in a collection in one line. -/
def inFlow (s : Lexer) : Bool := !s.outerKeys.isEmpty

/-- Adds a token. -/
def push (s : Lexer) (t : Token) : Lexer :=
  { s with tokens := t :: s.tokens, count := s.count + 1 }

/-- Puts a token after a number of tokens. -/
def insert (s : Lexer) (n : Nat) (t : Token) : Lexer :=
  let (later, earlier) := s.tokens.splitAt (s.count - n)
  { s with tokens := later ++ t :: earlier, count := s.count + 1 }

/-- Moves on to a later place. -/
def moveTo (s : Lexer) (c : Cursor) : Lexer := { s with cursor := c }

/-! ### Keys -/

/-- Whether the innermost level is that of a block. -/
def inBlockLevel (s : Lexer) : Bool := s.levels.head?.any Level.block

/-- Remembers the place as one where a key may begin, if it is allowed. -/
def saveKey (s : Lexer) : Lexer :=
  if s.keyAllowed then
    let c := s.cursor
    let required := !s.inFlow && s.indent = c.column && s.inBlockLevel
    { s with key := some ⟨s.count, c.index, c.line, c.column, required⟩ }
  else s

/-- Forgets the last place where a key may begin, unless a key had to begin there. -/
def dropKey? (s : Lexer) : Option Lexer :=
  if s.key.any PossibleKey.required then none else some { s with key := none }

/-- Forgets the last place where a key may begin in a block, if it lies in an earlier line or too
far back. -/
def dropOldKey? (s : Lexer) : Option Lexer :=
  match s.key with
  | some k =>
    if !s.inFlow && (k.line < s.cursor.line || k.index + keyLimit < s.cursor.index) then s.dropKey?
    else some s
  | none => some s

/-- Makes tokens certain, up to the first that may belong to a key. -/
def settle (s : Lexer) : Lexer :=
  let possible := ((s.key :: s.outerKeys).filterMap id).map PossibleKey.token
  { s with certain := (possible.min?).getD s.count }

/-! ### Levels -/

/-- The indentation and the levels left of a column, and the number of blocks that end there. -/
def levelsAt (column : Int) : Int → List Level → Int × List Level × Nat
  | indent, [] => (indent, [], 0)
  | indent, level :: levels =>
    if column < indent then
      let (indent, levels, ends) := levelsAt column level.outer levels
      (indent, levels, ends + if level.block then 1 else 0)
    else (indent, level :: levels, 0)

/-- Ends the blocks that begin right of a column. -/
def endBlocks (s : Lexer) (column : Int) : Lexer :=
  if s.inFlow then s
  else
    let (indent, levels, ends) := levelsAt column s.indent s.levels
    let tokens := List.replicate ends .blockEnd ++ s.tokens
    { s with indent, levels, tokens, count := s.count + ends }

/-- Begins a block in a column, unless it has begun.  Its token comes after a number of tokens. -/
def beginBlock (s : Lexer) (column : Int) (n : Nat) (start : Token) : Lexer :=
  if s.inFlow then s
  else
    let s :=
      match s.levels with
      | ⟨outer, false⟩ :: levels =>
        if s.indent ≤ column then { s with indent := outer, levels } else s
      | _ => s
    if s.indent < column then
      { s with levels := ⟨s.indent, true⟩ :: s.levels, indent := column }.insert n start
    else s

/-- Begins a level for the parts of an entry of a block, one column to the right. -/
def indentEntry (s : Lexer) : Lexer :=
  if !s.inFlow && s.inBlockLevel then
    { s with levels := ⟨s.indent, false⟩ :: s.levels, indent := s.indent + 1 }
  else s

/-- The indentation and the levels up to the innermost block. -/
def blockLevels : Int → List Level → Int × List Level
  | _, ⟨outer, false⟩ :: levels => blockLevels outer levels
  | indent, levels => (indent, levels)

/-- Ends the levels inside the innermost block. -/
def endEntries (s : Lexer) : Lexer :=
  let (indent, levels) := blockLevels s.indent s.levels
  { s with indent, levels }

/-! ### Documents -/

/-- Ends what a document has open. -/
def endDocument? (s : Lexer) : Option Lexer :=
  (s.endBlocks (-1)).dropKey?.map fun s => { s with keyAllowed := false }

/-- The sign of the start or the end of a document.  Nothing but a comment may follow the end. -/
def takeSign? (s : Lexer) (t : Token) : Option Lexer := do
  let s ← s.endDocument?
  let after := s.cursor.advance 3
  if t = .documentEnd then
    let after ← after.skipLine?
    if endsLine after.rest then some ((s.push t).moveTo after) else none
  else some ((s.push t).moveTo after)

/-- A number of at most nine digits, and the place after it. -/
def takeVersionPart? (c : Cursor) : Option Cursor :=
  let (digits, after) := c.span Char.isDigit
  if digits.isEmpty || 9 < digits.length then none else some after

/-- What an instruction with a name says, and the place after it. -/
def takeInstruction? (size : Nat) (name : String) (c : Cursor) : Option (Token × Cursor) :=
  let start := c.dropWhile isBlank
  match name with
  | "YAML" => do
    let c ← takeVersionPart? start
    let c ← c.drop? '.'
    let c ← takeVersionPart? c
    pure (.version, c)
  | "TAG" => do
    let (handle, c) ← Tag.takeHandle? start
    if handle ≠ "!" && !Tag.isClosedHandle handle then none
    let c := c.dropWhile isBlank
    let startsWell :=
      match c.rest with
      | ch :: _ => ch = '!' || Tag.isSuffixChar ch
      | [] => false
    if !startsWell then none
    let (stem, c) ← Tag.takeName? Tag.isNameChar size c
    if breaks c.rest then some (.tagRule handle (String.ofList stem), c) else none
  | _ => some (.instruction, c.dropWhile (· ≠ '\n'))

/-- A line before a document that tells something about it. -/
def takeRule? (s : Lexer) : Option Lexer := do
  let s ← s.endDocument?
  let (name, c) := s.cursor.next.span isWordChar
  if name.isEmpty || !breaks c.rest then none
  let (t, c) ← takeInstruction? s.bound (String.ofList name) c
  let c ← c.skipLine?
  if endsLine c.rest then some ((s.push t).moveTo c.next) else none

/-- The end of the text. -/
def finish? (s : Lexer) : Option Lexer :=
  if (s.key :: s.outerKeys).any (·.any PossibleKey.required) then none
  else
    let s := { s with key := none, outerKeys := s.outerKeys.map fun _ => none }
    some ((s.endBlocks (-1)).push .stop)

/-! ### Collections in one line -/

/-- The start of a collection in one line. -/
def beginFlow? (s : Lexer) (t : Token) : Option Lexer := do
  let s := s.saveKey.indentEntry
  let s := { s with outerKeys := s.key :: s.outerKeys, key := none, keyAllowed := true }
  if flowLimit < s.depth then none
  let s :=
    if t = .flowMapping then { s with mappingOpen := true }
    else { s with pairs := none :: s.pairs }
  let c ← s.cursor.next.skipLine?
  pure ((s.push t).moveTo c)

/-- Ends a pair of a sequence in one line, if it is open here. -/
def endPair (s : Lexer) : Lexer :=
  match s.pairs with
  | some depth :: pairs =>
    if depth = s.depth then
      { s with mappingOpen := false, pairs := none :: pairs }.push .flowMappingEnd
    else s
  | _ => s

/-- The end of a collection in one line. -/
def endFlow? (s : Lexer) (t : Token) : Option Lexer := do
  let s ← s.dropKey?
  let s :=
    if t = .flowSequenceEnd then
      let s := s.endPair
      { s with pairs := s.pairs.tail }
    else s
  match s.outerKeys with
  | [] => none
  | key :: outerKeys =>
    let s := { s with key, outerKeys, keyAllowed := false }
    let c ← s.cursor.next.skipLine?
    let s := if s.inFlow then { s with colonAt := some c.index } else s
    pure ((s.push t).moveTo c)

/-- A comma. -/
def takeComma? (s : Lexer) : Option Lexer := do
  let s ← s.dropKey?
  let s := { s with keyAllowed := true }.endPair
  let c ← s.cursor.next.skipLine?
  pure ((s.push .comma).moveTo c)

/-! ### Indicators of blocks -/

/-- The dash before an item. -/
def takeItem? (s : Lexer) : Option Lexer := do
  if s.inFlow || !s.keyAllowed then none
  let start := s.cursor
  let s := s.beginBlock start.column s.count .blockSequence
  let blanks := start.next.rest.takeWhile isBlank
  let c ← start.next.skipLine?
  if blanks.contains '\t' && c.startsWith '-' && breaks (c.rest.drop 1) then none
  let s := if c.startsWith '\n' || startsFlowMark c.rest then s.indentEntry else s
  let s ← s.dropKey?
  pure (({ s with keyAllowed := true }.push .item).moveTo c)

/-- The question mark before a key. -/
def takeKey? (s : Lexer) : Option Lexer := do
  if !s.inFlow && !s.keyAllowed then none
  let start := s.cursor
  let s :=
    if s.inFlow then { s with mappingOpen := true }
    else s.beginBlock start.column s.count .blockMapping
  let s ← s.dropKey?
  let c := start.next
  if !(c.startsWith ' ' || c.startsWith '\n') then none
  let c := Cursor.skipSpaces false c.rest c
  if c.startsWith '\t' then none
  pure (({ s with keyAllowed := !s.inFlow }.push .key).moveTo c)

/-- The place after a colon and the blanks after it.  If all of them are tabs, nothing that looks
like a word follows. -/
def afterColon? (c : Cursor) : Option Cursor :=
  if c.startsWith '\t' then
    let (blanks, after) := c.span isBlank
    if !blanks.contains ' ' && after.rest.head?.any isWordChar then none else c.skipLine?
  else some c

/-- The colon before a value.  What began at the last place where a key may begin is the key; else
the key is one that a question mark stands before, or is empty. -/
def takeValue? (s : Lexer) : Option Lexer := do
  let start := s.cursor
  let pair := !s.pairs.isEmpty && !s.mappingOpen
  let s := if pair then { s with pairs := some s.depth :: s.pairs.tail } else s
  let c ← afterColon? start.next
  let s := s.moveTo c
  match s.key with
  | some k =>
    if pair && k.line < start.line then none
    let s := s.insert k.token .key
    let s := if pair then s.insert k.token .flowMapping else s
    let s := (s.beginBlock k.column k.token .blockMapping).indentEntry
    pure ({ s with key := none, keyAllowed := false }.push .value)
  | none =>
    if !s.inFlow && !s.keyAllowed then none
    let s := if pair then s.push .flowMapping else s
    let s := (s.beginBlock start.column s.count .blockMapping).indentEntry
    pure ({ s with keyAllowed := !s.inFlow }.push .value)

/-- A colon before a value in a collection in one line that no blank follows. -/
def takeCloseValue? (s : Lexer) : Option Lexer :=
  let next := s.cursor.next
  if s.colonAt ≠ some s.cursor.index && (next.startsWith '[' || next.startsWith '\x7b') then none
  else s.takeValue?

/-! ### Nodes -/

/-- The characters of the name of a node. -/
def isNodeNameChar (c : Char) : Bool :=
  !isBlank c && !isFlowMark c && c ≠ '\n' && c ≠ '\ufeff'

/-- The name of a node after its mark. -/
def takeName? (s : Lexer) (t : String → Token) : Option Lexer :=
  let s := { s.saveKey with keyAllowed := false }
  let (name, c) := s.cursor.next.span isNodeNameChar
  if name.isEmpty then none else some ((s.push (t (String.ofList name))).moveTo c)

/-- A tag. -/
def takeTag? (s : Lexer) : Option Lexer :=
  let s := { s.saveKey with keyAllowed := false }
  (Tag.take? s.inFlow s.bound s.cursor).map fun (t, c) => (s.push (.tag t)).moveTo c

/-- A block of lines. -/
def takeBlock? (s : Lexer) : Option Lexer :=
  let s := { s.saveKey with keyAllowed := true }.endEntries
  (Yaml.takeBlock? s.indent s.bound s.cursor).map fun (text, c) =>
    (s.push (.scalar text .block)).moveTo c

/-- Whether something that may follow a text between marks follows one that began in a line. -/
def endsQuoted (s : Lexer) (line : Nat) (c : Cursor) : Bool :=
  match c.rest with
  | [] => true
  | ch :: _ =>
    ch = '\n' || (s.inFlow && [',', '\x7d', ']', ':'].contains ch) ||
      (!s.inFlow && ch = ':' && line = c.line)

/-- A text between marks.  A colon may follow it at once, or in a collection in one line later. -/
def takeQuoted? (s : Lexer) : Option Lexer := do
  let start := s.cursor
  let s := { s.saveKey with keyAllowed := false }
  let (text, c) ← Yaml.takeQuoted? s.indent s.bound start
  let c ← c.skipLine?
  if !s.endsQuoted start.line c then none
  let (ended, c) ← c.skipVoid? s.indent
  let s := { s with keyAllowed := ended && !s.inFlow, colonAt := some c.index }
  pure ((s.push (.scalar text .quoted)).moveTo c)

/-- A plain text. -/
def takePlain? (s : Lexer) : Option Lexer :=
  let s := { s.saveKey with keyAllowed := false }.endEntries
  (Yaml.takePlain? s.inFlow (s.indent + 1) s.bound s.cursor).map fun (text, c) =>
    ({ s with keyAllowed := c.fresh }.push (.scalar text .plain)).moveTo c

/-! ### All tokens -/

/-- The next tokens, where a character comes next. -/
def takeFrom? (s : Lexer) (ch : Char) (rest : List Char) : Option Lexer :=
  if s.cursor.column = 0 && ch = '%' then s.takeRule?
  else if s.cursor.atSign '-' then s.takeSign? .documentStart
  else if s.cursor.atSign '.' then s.takeSign? .documentEnd
  else if s.cursor.column < s.indent && !(s.inFlow && [',', ']', '\x7d'].contains ch) then none
  else if ch = '[' then s.beginFlow? .flowSequence
  else if ch = '\x7b' then s.beginFlow? .flowMapping
  else if ch = ']' then s.endFlow? .flowSequenceEnd
  else if ch = '\x7d' then s.endFlow? .flowMappingEnd
  else if ch = ',' then s.takeComma?
  else if ch = '-' && breaks rest then s.takeItem?
  else if ch = '?' && breaks rest then s.takeKey?
  else if ch = ':' && breaks rest then s.takeValue?
  else if ch = ':' && s.inFlow && (startsFlowMark rest || s.colonAt = some s.cursor.index) then
    s.takeCloseValue?
  else if ch = '*' then s.takeName? .mention
  else if ch = '&' then s.takeName? .name
  else if ch = '!' then s.takeTag?
  else if (ch = '|' || ch = '>') && !s.inFlow then s.takeBlock?
  else if ch = '\'' || ch = '"' then s.takeQuoted?
  else if ch = '%' || ch = '@' || ch = '\x60' then none
  else s.takePlain?

/-- The next tokens. -/
def next? (s : Lexer) : Option Lexer := do
  let (ended, cursor) ← s.cursor.skipVoid? s.indent
  let s := { s with cursor, keyAllowed := s.keyAllowed || (ended && !s.inFlow) }
  let s ← s.dropOldKey?
  let s := s.endBlocks cursor.column
  match cursor.rest with
  | [] => s.finish?
  | ch :: rest => s.takeFrom? ch rest

/-- What is known at the end of a text, or where it is faulty.  The number of steps bounds the
tokens. -/
def run : Nat → Lexer → Lexer
  | 0, s => s
  | steps + 1, s =>
    match s.next?.bind dropOldKey? with
    | none => s
    | some next =>
      let next := next.settle
      if next.tokens.head? = some .stop then next else run steps next

end Lexer

/-- The tokens of a text up to the first place where it is faulty. -/
def tokens (text : String) : List Token :=
  let s := Lexer.run (text.length + 2) (Lexer.ofText text)
  (s.tokens.drop (s.count - s.certain)).reverse

end GraphQLClient.Yaml
