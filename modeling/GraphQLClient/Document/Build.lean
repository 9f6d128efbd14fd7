import GraphQLClient.Codec
import GraphQLClient.Document
import GraphQLClient.Operation

/-!
# Documents of operations

The document of an operation declares every variable that its arguments refer to.  Arguments are
matched with the declared ones by name, exactly or as accessor names, and written as literals of
the declared types.

## Main definitions

* `BuildError` : why an operation has no document, with `BuildError.message`.
* `Catalog.selectionOf` : the selection of a field, with the variables met so far.
* `Catalog.documentOf` : the document of an operation.
-/

namespace GraphQLClient

/-- Why an argument cannot be written. -/
inductive ArgumentError where
  /-- The field declares no argument of the name. -/
  | undeclared
  /-- The value is refused. -/
  | codec (e : CodecError)

/-- Why an operation has no document. -/
inductive BuildError where
  /-- Nothing is selected below a field, or in the operation itself. -/
  | emptySelection (field : String)
  | invalidName (name : String)
  | argument (field argument : String) (reason : ArgumentError)

/-- The text of the reason why an operation has no document. -/
def BuildError.message : BuildError → String
  | .emptySelection field =>
    "Field " ++ field ++ " has a composite type but no sub-fields were selected"
  | .invalidName name => "Invalid GraphQL name: " ++ name
  | .argument field name reason =>
    "Invalid argument " ++ name ++ " on field " ++ field ++ ": " ++
      match reason with
      | .undeclared => field ++ " has no argument " ++ name
      | .codec e => e.message

/-- A name as it is, if it is one. -/
def checkName : Option String → Except BuildError (Option String)
  | none => .ok none
  | some name => if Name.isName name then .ok (some name) else .error (.invalidName name)

/-- The declared argument that a name stands for, exactly or as an accessor name. -/
def FieldHead.argument? (h : FieldHead) (name : String) : Option Sdl.InputValue :=
  (h.definition.args.find? fun a => a.name == name).or
    (h.definition.args.find? fun a => a.name == Name.toWire name)

/-- The selection that asks for the type of an object. -/
def Document.Selection.typename : Document.Selection :=
  .field none "__typename" [] []

namespace Catalog

/-- The arguments of a field as literals, under their declared names. -/
def argumentsOf (c : Catalog) (h : FieldHead) (arguments : Entries Value) (table : Variables) :
    Except BuildError (List (String × Literal) × Variables) :=
  match arguments with
  | [] => .ok ([], table)
  | (name, value) :: rest =>
    match h.argument? name with
    | none => .error (.argument h.qualifiedName name .undeclared)
    | some definition =>
      match c.serialize definition.type value table with
      | (.error e, _) => .error (.argument h.qualifiedName name (.codec e))
      | (.ok l, table) =>
        match argumentsOf c h rest table with
        | .error e => .error e
        | .ok (ls, table) => .ok ((definition.name, l) :: ls, table)

mutual

/-- The selection of a field.  Its arguments come before what is selected below it, so variables
are met in the order of the document. -/
def selectionOf (c : Catalog) (typename : Bool) (f : Field) (table : Variables) :
    Except BuildError (Document.Selection × Variables) :=
  match f with
  | .leaf h =>
    match checkName h.alias? with
    | .error e => .error e
    | .ok alias? =>
      match c.argumentsOf h h.arguments table with
      | .error e => .error e
      | .ok (arguments, table) => .ok (.field alias? h.definition.name arguments [], table)
  | .composite h children =>
    match checkName h.alias? with
    | .error e => .error e
    | .ok alias? =>
      match c.argumentsOf h h.arguments table with
      | .error e => .error e
      | .ok (arguments, table) =>
        if children.isEmpty then .error (.emptySelection h.qualifiedName)
        else
          match selectionsOf c typename children table with
          | .error e => .error e
          | .ok (selections, table) =>
            let selections := if typename then .typename :: selections else selections
            .ok (.field alias? h.definition.name arguments selections, table)

/-- The selections of fields. -/
def selectionsOf (c : Catalog) (typename : Bool) (fields : List Field) (table : Variables) :
    Except BuildError (List Document.Selection × Variables) :=
  match fields with
  | [] => .ok ([], table)
  | f :: rest =>
    match selectionOf c typename f table with
    | .error e => .error e
    | .ok (s, table) =>
      match selectionsOf c typename rest table with
      | .error e => .error e
      | .ok (ss, table) => .ok (s :: ss, table)

end

/-- The document of an operation. -/
def documentOf (c : Catalog) (o : Operation) : Except BuildError Document :=
  if o.selections.isEmpty then .error (.emptySelection o.rootType)
  else
    match checkName o.name with
    | .error e => .error e
    | .ok name =>
      match c.selectionsOf o.typename o.selections [] with
      | .error e => .error e
      | .ok (selections, table) => .ok ⟨o.kind, name, table, selections⟩

/-- The selection of a field on its own. -/
def selectionAlone (c : Catalog) (f : Field) : Except BuildError Document.Selection :=
  (c.selectionOf false f []).map Prod.fst

/-- The text of an operation. -/
def render (c : Catalog) (o : Operation) : Except BuildError String :=
  (c.documentOf o).map Document.toText

/-- The text of a field. -/
def renderField (c : Catalog) (f : Field) : Except BuildError String :=
  (c.selectionAlone f).map Document.Selection.toText

end Catalog

/-- A text, or the reason why there is none as a comment. -/
def shown : Except BuildError String → String
  | .ok text => text
  | .error e => "# " ++ e.message

end GraphQLClient
