import GraphQLClient.Literal
import GraphQLClient.Namespace

/-!
# Documents

A document holds one operation: its name, the variables it declares, and a tree of selections.

## Main definitions

* `Document.Selection`, `Document` : selections and documents.
* `Document.toText`, `Document.Selection.toText` : their texts, one selection on each line.
-/

namespace GraphQLClient

/-- A selection in a document. -/
inductive Document.Selection where
  | field (alias? : Option String) (name : String) (arguments : List (String × Literal))
      (selections : List Document.Selection)

/-- A document with one operation. -/
structure Document where
  kind : OperationKind
  name : Option String
  parameters : List (String × TypeExpr)
  selections : List Document.Selection

namespace Document

/-- The margin of a line, two blanks for each level. -/
def margin (level : Nat) : List Char :=
  List.replicate (2 * level) ' '

/-- Arguments between parentheses; nothing when there are none. -/
def argumentsChars (arguments : List (String × Literal)) : List Char :=
  if arguments.isEmpty then []
  else
    '(' :: [',', ' '].intercalate
      (arguments.map fun (name, value) => name.toList ++ ':' :: ' ' :: value.toChars) ++ [')']

/-- The line of a field before what is selected below it. -/
def headChars (alias? : Option String) (name : String) (arguments : List (String × Literal)) :
    List Char :=
  (match alias? with
    | none => []
    | some key => key.toList ++ [':', ' ']) ++
    name.toList ++ argumentsChars arguments

mutual

/-- The characters of a selection whose first line is at a level. -/
def Selection.toChars (level : Nat) : Selection → List Char
  | .field alias? name arguments [] => headChars alias? name arguments
  | .field alias? name arguments (s :: rest) =>
    headChars alias? name arguments ++ ' ' :: '\x7b' :: '\n' :: margin (level + 1) ++
      Selection.toChars (level + 1) s ++ Selection.restToChars level rest

/-- The selections after the first, and the end of the block they stand in. -/
def Selection.restToChars (level : Nat) : List Selection → List Char
  | [] => '\n' :: margin level ++ ['\x7d']
  | s :: rest =>
    '\n' :: margin (level + 1) ++ Selection.toChars (level + 1) s ++
      Selection.restToChars level rest

end

/-- The text of a selection. -/
def Selection.toText (s : Selection) : String :=
  String.ofList (s.toChars 0)

/-- The declarations of variables; nothing when there are none. -/
def parametersChars (parameters : List (String × TypeExpr)) : List Char :=
  if parameters.isEmpty then []
  else
    '(' :: [',', ' '].intercalate
      (parameters.map fun (name, type) => '$' :: name.toList ++ ':' :: ' ' :: type.toChars) ++ [')']

/-- The words before the selections of an operation.  A query without a name and without variables
has none. -/
def openingChars (d : Document) : List Char :=
  if d.kind = .query && d.name.isNone && d.parameters.isEmpty then []
  else
    d.kind.word.toList ++
      (match d.name with
        | none => []
        | some name => ' ' :: name.toList) ++
      parametersChars d.parameters ++ [' ']

/-- The characters of a document. -/
def toChars (d : Document) : List Char :=
  match d.selections with
  | [] => d.openingChars ++ ['\x7b', '\x7d']
  | s :: rest =>
    d.openingChars ++ '\x7b' :: '\n' :: margin 1 ++ s.toChars 1 ++ Selection.restToChars 0 rest

/-- The text of a document. -/
def toText (d : Document) : String :=
  String.ofList d.toChars

end Document

end GraphQLClient
