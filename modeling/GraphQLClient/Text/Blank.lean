/-!
# White space

Two sets of blank characters are used by the formats of this library: the Unicode property
`White_Space`, which decides what a configuration setting looks like once its margins are
dropped, and the four blanks of JSON.

## Main definitions

* `Text.isBlank` : membership in the Unicode property `White_Space`.
* `Text.trim` : a text without its leading and trailing blanks.
* `Text.startsWith` : the test for an initial piece of a text.
-/

namespace GraphQLClient.Text

/-- The characters with the Unicode property `White_Space`. -/
def isBlank (c : Char) : Bool :=
  let n := c.toNat
  (9 ≤ n && n ≤ 13) || n == 0x20 || n == 0x85 || n == 0xA0 || n == 0x1680 ||
    (0x2000 ≤ n && n ≤ 0x200A) || n == 0x2028 || n == 0x2029 || n == 0x202F || n == 0x205F ||
    n == 0x3000

/-- A sequence of characters without its leading blanks. -/
def trimLeft (s : List Char) : List Char :=
  s.dropWhile isBlank

/-- A sequence of characters without its leading and trailing blanks. -/
def trimChars (s : List Char) : List Char :=
  (trimLeft (trimLeft s).reverse).reverse

/-- A text without its leading and trailing blanks. -/
def trim (s : String) : String :=
  String.ofList (trimChars s.toList)

/-- A text is blank when nothing is left of it once its margins are dropped. -/
def isBlankText (s : String) : Bool :=
  (trimLeft s.toList).isEmpty

/-- Whether the characters of `start` are the first characters of `s`. -/
def startsWith (start s : List Char) : Bool :=
  start.isPrefixOf s

theorem trimLeft_cons_of_not_blank {c : Char} (h : isBlank c = false) (s : List Char) :
    trimLeft (c :: s) = c :: s := by
  simp [trimLeft, List.dropWhile, h]

end GraphQLClient.Text
