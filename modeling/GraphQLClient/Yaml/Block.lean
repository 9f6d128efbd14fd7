import GraphQLClient.Yaml.Cursor

/-!
# Blocks of lines of YAML

A text may be written as a block of lines below an indicator, without the blanks by which the block
is indented.  The indicator tells whether lines are joined, what becomes of the ends of lines at the
end of the block, and perhaps how far the block is indented.

## Main definitions

* `Yaml.takeBlock?` : a block of lines, and the place after it.
-/

namespace GraphQLClient.Yaml

/-! ### Heads -/

/-- What becomes of the ends of lines at the end of a block. -/
inductive Chomp where
  | strip
  | clip
  | keep
  deriving DecidableEq, Repr

/-- What becomes of the last ends of lines under a sign. -/
def Chomp.ofSign? (c : Char) : Option Chomp :=
  if c = '+' then some .keep else if c = '-' then some .strip else none

/-- What the signs after the indicator of a block say. -/
structure BlockHead where
  chomp : Chomp
  /-- How far the block is indented, if it is told. -/
  indent : Option Nat

/-- The indentation that a digit tells, which is not zero. -/
def blockIndent? (c : Char) : Option Nat :=
  if '1' ≤ c ∧ c ≤ '9' then some (c.toNat - '0'.toNat) else none

/-- The head of a block in a line, and the number of signs in it. -/
def BlockHead.ofLine? (s : List Char) : Option (BlockHead × Nat) :=
  match s.head?.bind Chomp.ofSign? with
  | some chomp =>
    match (s.drop 1).head?.filter Char.isDigit with
    | some digit => (blockIndent? digit).map fun n => (⟨chomp, some n⟩, 2)
    | none => some (⟨chomp, none⟩, 1)
  | none =>
    match s.head?.filter Char.isDigit with
    | none => some (⟨.clip, none⟩, 0)
    | some digit =>
      match (s.drop 1).head?.bind Chomp.ofSign? with
      | some chomp => (blockIndent? digit).map fun n => (⟨chomp, some n⟩, 2)
      | none => (blockIndent? digit).map fun n => (⟨.clip, some n⟩, 1)

/-! ### Lines -/

/-- The number of empty lines from a place on, the largest number of blanks that one of them or the
line after them starts with, and the place after these blanks. -/
def measureBlock (widest count : Nat) : List Char → Cursor → Nat × Nat × Cursor
  | ' ' :: rest, c => measureBlock widest count rest c.next
  | '\n' :: rest, c => measureBlock (max widest c.column) (count + 1) rest c.next
  | _, c => (max widest c.column, count, c)

/-- The number of empty lines from a place on, and the place after the blanks by which the line
after them is indented. -/
def skipIndent (indent count : Nat) : List Char → Cursor → Nat × Cursor
  | '\n' :: rest, c => skipIndent indent (count + 1) rest c.next
  | ' ' :: rest, c => if c.column < indent then skipIndent indent count rest c.next else (count, c)
  | _, c => (count, c)

/-- The end of a block: whether a line ended before it, the number of empty lines after that, and
the place. -/
structure BlockEnd where
  ended : Bool
  empty : Nat
  cursor : Cursor

/-- The text of the lines of a block from a place on, and its end.  Before the place stand the end
of a line, if `ended`, which started with a blank, if `deep`, and a number of empty lines.  In a
folded block lines are joined unless they start with a blank.  The steps bound the lines. -/
def blockLines (folded : Bool) (indent : Nat) :
    Nat → Bool → Bool → Nat → Cursor → List Char × BlockEnd
  | 0, ended, _, empty, c => ([], ⟨ended, empty, c⟩)
  | steps + 1, ended, deep, empty, c =>
    if c.column ≠ indent || c.rest.isEmpty || c.atDocument then ([], ⟨ended, empty, c⟩)
    else
      let nowDeep := c.rest.head?.any isBlank
      let gap :=
        if folded && ended && !deep && !nowDeep then Cursor.joint (empty + 1)
        else List.replicate (empty + if ended then 1 else 0) '\n'
      let (line, after) := c.span (· ≠ '\n')
      if after.rest.isEmpty then (gap ++ line, ⟨false, 0, after⟩)
      else
        let next := after.next
        let (empty, next) := skipIndent indent 0 next.rest next
        let (more, last) := blockLines folded indent steps true nowDeep empty next
        (gap ++ line ++ more, last)

/-! ### Blocks -/

/-- The ends of lines at the end of a block of lines. -/
def blockTail (chomp : Chomp) (indent : Nat) (last : BlockEnd) : List Char :=
  let unfinished := last.cursor.rest.isEmpty && max indent 1 ≤ last.cursor.column
  let one (b : Bool) : Nat := if b then 1 else 0
  match chomp with
  | .strip => []
  | .clip => List.replicate (one last.ended + one unfinished) '\n'
  | .keep => List.replicate (one last.ended + one unfinished + last.empty) '\n'

/-- The text of a block that ends the text before its first line, after a number of empty lines.
Told is whether the line of the indicator ended. -/
def emptyBlock (chomp : Chomp) (ended : Bool) (empty : Nat) : List Char :=
  if !ended then []
  else
    match chomp with
    | .strip => []
    | .clip => ['\n']
    | .keep => List.replicate (max empty 1) '\n'

/-- A block of lines, and the place after it.  It stands in a part of the text that is indented by
`outer` columns, or is not if that is negative. -/
def takeBlock? (outer : Int) (steps : Nat) (c : Cursor) : Option (String × Cursor) := do
  let folded := c.startsWith '>'
  let (head, length) ← BlockHead.ofLine? c.next.rest
  let c ← (c.next.advance length).skipLine?
  if !endsLine c.rest then none
  let ended := !c.rest.isEmpty
  let c := c.next
  if c.startsWith '\t' then none
  let (indent, empty, c) :=
    match head.indent with
    | some n =>
      let indent := (max outer 0).toNat + n
      let (empty, c) := skipIndent indent 0 c.rest c
      (indent, empty, c)
    | none =>
      let (widest, empty, c) := measureBlock 0 0 c.rest c
      (max widest (outer + 1).toNat, empty, c)
  if c.rest.isEmpty then some (String.ofList (emptyBlock head.chomp ended empty), c)
  else if c.column < indent && outer < c.column then none
  else
    let (text, last) := blockLines folded indent steps false false empty c
    some (String.ofList (text ++ blockTail head.chomp indent last), last.cursor)

end GraphQLClient.Yaml
