/-!
# Type expressions

The declared type of a field, an argument or a variable: the name of a type under lists and marks
that exclude null.  A mark stands at a name or at a list, never at another mark, so every value of
the type has one text.

## Main definitions

* `TypeExpr` : type expressions.
* `TypeExpr.base` : the name under all lists.
* `TypeExpr.toText` : the text of a type expression.
-/

namespace GraphQLClient

/-- The type of a value: a named type or a list, with or without null. -/
inductive TypeExpr where
  | named (name : String) (required : Bool)
  | list (item : TypeExpr) (required : Bool)
  deriving DecidableEq, Repr

namespace TypeExpr

/-- Whether null is excluded. -/
def isRequired : TypeExpr → Bool
  | .named _ required => required
  | .list _ required => required

/-- The type with null. -/
def nullable : TypeExpr → TypeExpr
  | .named name _ => .named name false
  | .list item _ => .list item false

/-- The name under all lists. -/
def base : TypeExpr → String
  | .named name _ => name
  | .list item _ => base item

/-- The characters of a type expression. -/
def toChars : TypeExpr → List Char
  | .named name required => name.toList ++ if required then ['!'] else []
  | .list item required => '[' :: toChars item ++ ']' :: if required then ['!'] else []

/-- The text of a type expression, as a document writes it. -/
def toText (t : TypeExpr) : String :=
  String.ofList t.toChars

/-- The layers of a type expression from the outside: the item type of each list, then the name. -/
def layers : TypeExpr → List TypeExpr × String
  | .named name _ => ([], name)
  | .list item _ => (item :: (layers item).1, (layers item).2)

end TypeExpr

end GraphQLClient
