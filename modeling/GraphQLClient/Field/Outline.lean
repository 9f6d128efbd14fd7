import GraphQLClient.Field
import GraphQLClient.Value.Text

/-!
# Outlines of fields

A detailed text of a field for people, with all that was set on it and below it.

## Main definitions

* `Field.outline` : the text.
-/

namespace GraphQLClient.Field

/-- The part of an outline before the children. -/
def headOutline (h : FieldHead) : List Char :=
  "Field \x7b parent: ".toList ++ Value.quotedChars h.parent ++ ", name: ".toList ++
    Value.quotedChars h.definition.name ++ ", alias: ".toList ++
    (match h.alias? with
      | none => "None".toList
      | some key => "Some(".toList ++ Value.quotedChars key ++ [')']) ++
    ", accessor: ".toList ++ Value.quotedChars h.accessor ++ ", arguments: \x7b".toList ++
    Value.outlineFields h.arguments ++ ", children: [".toList

/-- The end of an outline. -/
def endOutline : List Char := "] \x7d".toList

mutual

/-- The characters of the outline of a field. -/
def outlineChars : Field → List Char
  | .leaf h => headOutline h ++ endOutline
  | .composite h children => headOutline h ++ outlineChildren children ++ endOutline

/-- The outlines of fields, with separators between. -/
def outlineChildren : List Field → List Char
  | [] => []
  | f :: rest =>
    outlineChars f ++ (if rest.isEmpty then [] else [',', ' ']) ++ outlineChildren rest

end

/-- The outline of a field. -/
def outline (f : Field) : String :=
  String.ofList (outlineChars f)

end GraphQLClient.Field
