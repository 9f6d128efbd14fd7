import GraphQLClient.Text.Uppercase

/-!
# Names

A schema writes the names of its fields in one word with inner capitals, their *wire* names; a
caller reads and requests them in small letters with underscores between the words, their
*accessor* names.  Both conversions are defined for every text, keep leading underscores and leave
the reserved names, which start with two underscores, as they are.

## Main definitions

* `Name.toWire`, `Name.toAccessor` : the two conversions.
* `Name.isReserved` : the names that no conversion touches.
* `Name.isName` : the texts that are names in a document.
-/

namespace GraphQLClient.Name

/-! ### Names of documents -/

/-- The characters a name may start with: an underscore or a letter of ASCII. -/
def isNameStart (c : Char) : Bool :=
  c = '_' || ('A' ≤ c && c ≤ 'Z') || ('a' ≤ c && c ≤ 'z')

/-- The characters a name may go on with: an underscore, or a letter or digit of ASCII. -/
def isNameContinue (c : Char) : Bool :=
  isNameStart c || ('0' ≤ c && c ≤ '9')

/-- Whether a sequence of characters is a name. -/
def isNameChars : List Char → Bool
  | [] => false
  | c :: rest => isNameStart c && rest.all isNameContinue

/-- Whether a text is a name. -/
def isName (s : String) : Bool :=
  isNameChars s.toList

/-- Whether a sequence of characters starts with two underscores. -/
def isReservedChars : List Char → Bool
  | '_' :: '_' :: _ => true
  | _ => false

/-- Whether a name is reserved for introspection. -/
def isReserved (s : String) : Bool :=
  isReservedChars s.toList

/-! ### Wire names -/

/-- Characters after the leading underscores, the next one starting a word after the first
(`true`) or going on with a word (`false`).  A word that has no characters leaves an underscore. -/
def wireWords : Bool → List Char → List Char
  | true, [] => ['_']
  | false, [] => []
  | true, '_' :: rest => '_' :: wireWords true rest
  | false, '_' :: rest => wireWords true rest
  | true, c :: rest => Text.uppercase c ++ wireWords false rest
  | false, c :: rest => c :: wireWords false rest

/-- The wire form of a sequence of characters. -/
def toWireChars (s : List Char) : List Char :=
  if isReservedChars s then s
  else s.takeWhile (· = '_') ++ wireWords false (s.dropWhile (· = '_'))

/-- The wire name of an accessor name: its words joined, each but the first starting with a
capital. -/
def toWire (accessor : String) : String :=
  String.ofList (toWireChars accessor.toList)

/-! ### Accessor names -/

/-- A capital letter of ASCII. -/
def isCapital (c : Char) : Bool :=
  'A' ≤ c && c ≤ 'Z'

/-- A small letter of ASCII. -/
def isSmall (c : Char) : Bool :=
  'a' ≤ c && c ≤ 'z'

/-- A digit of ASCII. -/
def isDigit (c : Char) : Bool :=
  '0' ≤ c && c ≤ '9'

/-- Whether a word starts at a character, given the characters around it: at a capital after a
small letter or a digit, and at the last capital of a run that a small letter follows. -/
def startsWord (before : Option Char) (c : Char) (after : Option Char) : Bool :=
  match before with
  | none => false
  | some b =>
    isCapital c && (isSmall b || isDigit b || (isCapital b && after.any isSmall))

/-- Characters after the leading underscores and after the character `before`: an underscore before
every word but the first, and small letters for capitals. -/
def accessorWords (before : Option Char) : List Char → List Char
  | [] => []
  | c :: rest =>
    if startsWord before c rest.head? then '_' :: c.toLower :: accessorWords (some c) rest
    else c.toLower :: accessorWords (some c) rest

/-- The accessor form of a sequence of characters. -/
def toAccessorChars (s : List Char) : List Char :=
  if isReservedChars s then s
  else s.takeWhile (· = '_') ++ accessorWords none (s.dropWhile (· = '_'))

/-- The accessor name of a wire name: its words in small letters, with underscores between. -/
def toAccessor (wire : String) : String :=
  String.ofList (toAccessorChars wire.toList)

@[simp]
theorem toList_toWire (s : String) : (toWire s).toList = toWireChars s.toList := by
  simp [toWire]

@[simp]
theorem toList_toAccessor (s : String) : (toAccessor s).toList = toAccessorChars s.toList := by
  simp [toAccessor]

end GraphQLClient.Name
