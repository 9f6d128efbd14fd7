import GraphQLClient.Json.Source
import GraphQLClient.Yaml.Cursor

/-!
# Texts of YAML between marks

A text between single marks stands for itself, a mark inside being written twice; between double
marks a backslash starts an escape.  The ends of lines are joined, except that an escape may take
one away.

## Main definitions

* `Yaml.takeQuoted?` : a text between marks, and the place after it.
-/

namespace GraphQLClient.Yaml

/-! ### Escapes -/

/-- The character that an escape by a single character stands for. -/
def escapeLetter? (c : Char) : Option Char :=
  [('0', '\x00'), ('a', '\x07'), ('b', '\x08'), ('t', '\t'), ('\t', '\t'), ('n', '\n'),
    ('v', '\x0b'), ('f', '\x0c'), ('r', '\r'), ('e', '\x1b'), (' ', ' '), ('"', '"'), ('/', '/'),
    ('\\', '\\'), ('N', '\u0085'), ('_', '\u00a0'), ('L', '\u2028'), ('P', '\u2029')].lookup c

/-- How many digits of base sixteen an escape has. -/
def escapeDigits? (c : Char) : Option Nat :=
  [('x', 2), ('u', 4), ('U', 8)].lookup c

/-- The number that a number of digits of base sixteen write. -/
def hexNumber? (count : Nat) (s : List Char) : Option Nat :=
  let digits := s.take count
  if digits.length < count then none
  else digits.foldlM (fun n c => (Json.Source.hexValue? c).map fun d => 16 * n + d) 0

/-- The character that a code of four digits and what follows it stand for, and the number of
characters after the code that belong to it: a second code may follow the first. -/
def pairedChar? (first : Nat) (s : List Char) : Option (Char × Nat) :=
  if 0xD800 ≤ first ∧ first < 0xDC00 then
    match s with
    | '\\' :: 'u' :: rest =>
      match hexNumber? 4 rest with
      | none => none
      | some second =>
        if 0xDC00 ≤ second ∧ second < 0xE000 then
          some (Char.ofNat (0x10000 + 0x400 * (first - 0xD800) + (second - 0xDC00)), 6)
        else none
    | _ => none
  else if first.isValidChar then some (Char.ofNat first, 0)
  else none

/-- The character that an escape after its backslash stands for, and the length of the escape. -/
def escaped? (s : List Char) : Option (Char × Nat) :=
  match s with
  | [] => none
  | c :: rest =>
    match escapeDigits? c with
    | none => (escapeLetter? c).map fun e => (e, 1)
    | some count =>
      match hexNumber? count rest with
      | none => none
      | some n =>
        if count = 4 then
          (pairedChar? n (rest.drop 4)).map fun (e, more) => (e, 5 + more)
        else if n.isValidChar then some (Char.ofNat n, count + 1)
        else none

/-! ### Words between marks -/

/-- The characters of a word between single marks, and its length. -/
def singleWord : List Char → List Char × Nat
  | '\'' :: '\'' :: rest =>
    let (word, length) := singleWord rest
    ('\'' :: word, length + 2)
  | c :: rest =>
    if c = '\'' || isBlank c || c = '\n' then ([], 0)
    else
      let (word, length) := singleWord rest
      (c :: word, length + 1)
  | [] => ([], 0)

/-- The characters of a word between double marks, and its length.  The number of steps bounds the
characters. -/
def doubleWord? : Nat → List Char → Option (List Char × Nat)
  | 0, _ => some ([], 0)
  | _ + 1, [] => some ([], 0)
  | steps + 1, c :: rest =>
    if c = '"' || isBlank c || c = '\n' then some ([], 0)
    else if c = '\\' then
      if rest.head? = some '\n' then some ([], 0)
      else
        match escaped? rest with
        | none => none
        | some (e, length) =>
          (doubleWord? steps (rest.drop length)).map fun (word, n) =>
            (e :: word, n + length + 1)
    else (doubleWord? steps rest).map fun (word, n) => (c :: word, n + 1)

/-- The parts of a text between marks from a place on, and the place after the last of them.  None
begins left of the column `least`.  The number of steps bounds the parts. -/
def quotedParts? (single : Bool) (least : Int) (size : Nat) :
    Nat → Cursor → Option (List Char × Cursor)
  | 0, _ => none
  | steps + 1, c =>
    if c.atDocument || c.rest.isEmpty || c.column < least then none
    else
      match if single then some (singleWord c.rest) else doubleWord? size c.rest with
      | none => none
      | some (word, length) =>
        let after := c.advance length
        let joined := after.startsWith '\\'
        let after := if joined then after.advance 2 else after
        if after.startsWith (if single then '\'' else '"') then some (word, after.next)
        else
          match Cursor.gapFrom? least false joined false 0 after.rest after with
          | none => none
          | some (count, next) =>
            let gap :=
              if joined then List.replicate count '\n'
              else if count = 0 then after.rest.takeWhile isBlank
              else Cursor.joint count
            (quotedParts? single least size steps next).map fun (more, last) =>
              (word ++ gap ++ more, last)

/-- A text between marks, and the place after it. -/
def takeQuoted? (least : Int) (steps : Nat) (c : Cursor) : Option (String × Cursor) :=
  (quotedParts? (c.startsWith '\'') least steps steps c.next).map fun (text, after) =>
    (String.ofList text, after)

end GraphQLClient.Yaml
