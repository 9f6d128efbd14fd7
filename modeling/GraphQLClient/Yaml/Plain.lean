import GraphQLClient.Yaml.Cursor

/-!
# Plain texts of YAML

A plain text stands in no marks.  It ends before a colon that a blank follows, before a comment, and
in a collection in one line before a mark.  It may go on in further lines that are indented.

## Main definitions

* `Yaml.takePlain?` : a plain text, and the place after it.
-/

namespace GraphQLClient.Yaml

/-- Whether a colon before a text ends a key: a blank follows, or in a collection in one line a
mark. -/
def endsKey (flow : Bool) (s : List Char) : Bool :=
  breaks s || (flow && startsFlowMark s)

/-- The characters of a word of a plain text. -/
def plainWord (flow : Bool) : List Char → List Char
  | [] => []
  | c :: rest =>
    if isBlank c || c = '\n' || (c = ':' && endsKey flow rest) || (flow && isFlowMark c) then []
    else c :: plainWord flow rest

/-- The parts of a plain text from a place on, and the place after them.  In a collection in one
line no part is a dash before a mark.  The number of steps bounds the parts. -/
def plainParts? (flow : Bool) (least : Int) : Nat → Cursor → Option (List Char × Cursor)
  | 0, c => some ([], c)
  | steps + 1, c =>
    if c.atDocument || c.startsWith '#' then some ([], c)
    else if flow && c.startsWith '-' && startsFlowMark (c.rest.drop 1) then none
    else
      let word := plainWord flow c.rest
      let after := c.advance word.length
      if !breaks after.rest || after.rest.isEmpty then some (word, after)
      else
        match Cursor.gapFrom? least true false false 0 after.rest after with
        | none => none
        | some (count, next) =>
          if !flow && next.column < least then some (word, next)
          else
            (plainParts? flow least steps next).map fun (more, last) =>
              let gap := if count = 0 then after.rest.takeWhile isBlank else Cursor.joint count
              (if more.isEmpty then word else word ++ gap ++ more, last)

/-- A plain text whose further lines begin in the column `least` or right of it, and the place after
it. -/
def takePlain? (flow : Bool) (least : Int) (steps : Nat) (c : Cursor) :
    Option (String × Cursor) :=
  if flow && c.column < least then none
  else
    match plainParts? flow least steps c with
    | some (text, after) => if text.isEmpty then none else some (String.ofList text, after)
    | none => none

end GraphQLClient.Yaml
