import GraphQLClient.Catalog
import GraphQLClient.Literal
import GraphQLClient.Value.Text

/-!
# Values and the wire

Native values become literals of a declared type, and JSON values of a declared type become native
values.  Both directions go through the lists of the type down to the name, and neither looks at
the marks that exclude null.

A variable in place of a value becomes a reference, and the type declared at its place is recorded
under its name; a variable has one type in a whole operation.

## Main definitions

* `CodecError` : why a value cannot cross, with `CodecError.message`.
* `Variables` : the types of the variables that were met, in order of the first meeting.
* `Catalog.serialize` : the literal of a value.
* `Catalog.deserialize` : the native value of a JSON value.
* `Literal.ofJson` : the literal of a JSON value.
-/

namespace GraphQLClient

/-- Why a value cannot cross between the library and the wire. -/
inductive CodecError where
  | notList (type : TypeExpr) (v : Value)
  | notMember (enumeration : String) (v : Value)
  | notObject (input : String) (v : Value)
  | unknownField (key input : String)
  | notInput (typeName : String)
  | unknownType (typeName : String)
  | scalar (e : Scalar.Error)
  | notListJson (type : TypeExpr) (j : Json)
  | notMemberJson (enumeration : String) (j : Json)
  | variableName (name : String)
  | variableTypes (name : String) (known new : TypeExpr)
  | objectKey (key : String)

/-- The text of the reason why a value cannot cross. -/
def CodecError.message : CodecError → String
  | .notList type v =>
    "expected a list for " ++ type.toText ++ ", got " ++ v.kind ++ " " ++ v.toText
  | .notMember enumeration v => v.toText ++ " is not a member of enum " ++ enumeration
  | .notObject input v =>
    "expected an object for input " ++ input ++ ", got " ++ v.kind ++ " " ++ v.toText
  | .unknownField key input => "field " ++ key ++ " doesn't exist in input " ++ input
  | .notInput typeName => typeName ++ " is not an input type"
  | .unknownType typeName => "type " ++ typeName ++ " doesn't exist in the schema"
  | .scalar e => e.message
  | .notListJson type j => "expected a list for " ++ type.toText ++ ", got " ++ j.compact
  | .notMemberJson enumeration j =>
    "expected an enum value for " ++ enumeration ++ ", got " ++ j.compact
  | .variableName name => "invalid variable name " ++ name
  | .variableTypes name known new =>
    "variable $" ++ name ++ " is used as both " ++ known.toText ++ " and " ++ new.toText
  | .objectKey key => "invalid object key " ++ key

/-- The types of variables, in order of the first meeting. -/
abbrev Variables := Entries TypeExpr

namespace Literal

mutual

/-- The literal of a JSON value.  The members of objects need names. -/
def ofJson : Json → Except CodecError Literal
  | .null => .ok .null
  | .bool b => .ok (.boolean b)
  | .number (.int i _) => .ok (.int (String.ofList (Decimal.intChars i)))
  | .number (.float x) => .ok (.float (String.ofList (Decimal.write .literal x)))
  | .string s => .ok (.string s)
  | .array items => (ofJsonItems items).map .list
  | .object members => (ofJsonMembers members).map .object

/-- The literals of the items of an array. -/
def ofJsonItems : List Json → Except CodecError (List Literal)
  | [] => .ok []
  | item :: rest =>
    match ofJson item with
    | .error e => .error e
    | .ok item => (ofJsonItems rest).map (item :: ·)

/-- The literals of the members of an object. -/
def ofJsonMembers : List (String × Json) → Except CodecError (List (String × Literal))
  | [] => .ok []
  | (name, value) :: rest =>
    if Name.isName name then
      match ofJson value with
      | .error e => .error e
      | .ok value => (ofJsonMembers rest).map ((name, value) :: ·)
    else .error (.objectKey name)

end

end Literal

/-- Records a variable at a place of a declared type, and refers to it. -/
def Variables.record (table : Variables) (name : String) (type : TypeExpr) :
    Except CodecError Literal × Variables :=
  if Name.isName name then
    match table.get? name with
    | some known =>
      if known = type then (.ok (.var name), table)
      else (.error (.variableTypes name known type), table)
    | none => (.ok (.var name), table ++ [(name, type)])
  else (.error (.variableName name), table)

namespace Catalog

/-- The field of an input object that a key names, exactly or as an accessor name. -/
def inputField? (fields : List Sdl.InputValue) (key : String) : Option Sdl.InputValue :=
  (fields.find? fun f => f.name == key).or (fields.find? fun f => f.name == Name.toWire key)

/-- The literal of a value at a place of a named type, without regard to the parts of the value. -/
def serializeWhole (c : Catalog) (typeName : String) (v : Value) : Except CodecError Literal :=
  match c.schema.body? typeName with
  | some (.enum members) =>
    match v.text? with
    | some member =>
      if members.any fun m => m.name == member then .ok (.enum member)
      else .error (.notMember typeName v)
    | none => .error (.notMember typeName v)
  | some (.input _) => .error (.notObject typeName v)
  | some .scalar =>
    match (c.scalars.get typeName).serialize v with
    | .error e => .error (.scalar e)
    | .ok j => Literal.ofJson j
  | some _ => .error (.notInput typeName)
  | none => .error (.unknownType typeName)

/-- The literal of a value that stands for itself: no null, variable, list or object. -/
def serializeSingle (c : Catalog) (type : TypeExpr) (v : Value) : Except CodecError Literal :=
  match type with
  | .list _ _ => .error (.notList type v)
  | .named typeName _ => c.serializeWhole typeName v

mutual

/-- The literal of a value at a place of a declared type.  Null may stand at any place, and so may
a variable, whose type is recorded even if a later part of the value is refused. -/
def serialize (c : Catalog) (type : TypeExpr) (v : Value) (table : Variables) :
    Except CodecError Literal × Variables :=
  match v with
  | .null => (.ok .null, table)
  | .var name => table.record name type
  | .list items =>
    match type with
    | .list item _ =>
      match serializeItems c item items table with
      | (.ok items, table) => (.ok (.list items), table)
      | (.error e, table) => (.error e, table)
    | .named typeName _ => (c.serializeWhole typeName (.list items), table)
  | .object fields =>
    match type with
    | .list _ _ => (.error (.notList type (.object fields)), table)
    | .named typeName _ =>
      match c.schema.inputFieldsOf? typeName with
      | some definitions =>
        match serializeFields c typeName definitions fields table with
        | (.ok fields, table) => (.ok (.object fields), table)
        | (.error e, table) => (.error e, table)
      | none => (c.serializeWhole typeName (.object fields), table)
  | .boolean b => (c.serializeSingle type (.boolean b), table)
  | .int i => (c.serializeSingle type (.int i), table)
  | .float x => (c.serializeSingle type (.float x), table)
  | .string s => (c.serializeSingle type (.string s), table)
  | .enum s => (c.serializeSingle type (.enum s), table)
  | .dateTime d => (c.serializeSingle type (.dateTime d), table)
  | .json j => (c.serializeSingle type (.json j), table)

/-- The literals of the items of a list. -/
def serializeItems (c : Catalog) (type : TypeExpr) (items : List Value) (table : Variables) :
    Except CodecError (List Literal) × Variables :=
  match items with
  | [] => (.ok [], table)
  | item :: rest =>
    match serialize c type item table with
    | (.error e, table) => (.error e, table)
    | (.ok l, table) =>
      match serializeItems c type rest table with
      | (.error e, table) => (.error e, table)
      | (.ok ls, table) => (.ok (l :: ls), table)

/-- The literals of the fields of an input object, under their declared names. -/
def serializeFields (c : Catalog) (typeName : String) (definitions : List Sdl.InputValue)
    (fields : List (String × Value)) (table : Variables) :
    Except CodecError (List (String × Literal)) × Variables :=
  match fields with
  | [] => (.ok [], table)
  | (key, value) :: rest =>
    match inputField? definitions key with
    | none => (.error (.unknownField key typeName), table)
    | some definition =>
      match serialize c definition.type value table with
      | (.error e, table) => (.error e, table)
      | (.ok l, table) =>
        match serializeFields c typeName definitions rest table with
        | (.error e, table) => (.error e, table)
        | (.ok ls, table) => (.ok ((definition.name, l) :: ls), table)

end

/-- The native value of a JSON value other than null at a place of a named type.  What is neither a
scalar nor a member of an enumeration is kept as JSON. -/
def deserializeNamed (c : Catalog) (typeName : String) (j : Json) : Except CodecError Value :=
  match c.schema.classOf? typeName with
  | some .enum =>
    match j with
    | .string member => .ok (.enum member)
    | _ => .error (.notMemberJson typeName j)
  | some .scalar =>
    match (c.scalars.get typeName).parse j with
    | .ok v => .ok v
    | .error e => .error (.scalar e)
  | _ => .ok (.json j)

/-- The native value of a JSON value that is neither null nor an array. -/
def deserializeSingle (c : Catalog) (type : TypeExpr) (j : Json) : Except CodecError Value :=
  match type with
  | .list _ _ => .error (.notListJson type j)
  | .named typeName _ => c.deserializeNamed typeName j

mutual

/-- The native value of a JSON value of a declared type.  Null may stand at any place. -/
def deserialize (c : Catalog) (type : TypeExpr) (j : Json) : Except CodecError Value :=
  match j with
  | .null => .ok .null
  | .array items =>
    match type with
    | .list item _ => (deserializeItems c item items).map .list
    | .named typeName _ => c.deserializeNamed typeName (.array items)
  | .bool b => c.deserializeSingle type (.bool b)
  | .number n => c.deserializeSingle type (.number n)
  | .string s => c.deserializeSingle type (.string s)
  | .object members => c.deserializeSingle type (.object members)

/-- The native values of the items of an array. -/
def deserializeItems (c : Catalog) (type : TypeExpr) (items : List Json) :
    Except CodecError (List Value) :=
  match items with
  | [] => .ok []
  | item :: rest =>
    match deserialize c type item with
    | .error e => .error e
    | .ok v => (deserializeItems c type rest).map (v :: ·)

end

/-! ### Values without parts -/

section

variable {c : Catalog} {table : Variables}

theorem serialize_null (type : TypeExpr) :
    c.serialize type .null table = (.ok .null, table) := by
  rw [serialize]

theorem serializeItems_nil (type : TypeExpr) :
    c.serializeItems type [] table = (.ok [], table) := by
  rw [serializeItems]

theorem serializeFields_nil (typeName : String) (definitions : List Sdl.InputValue) :
    c.serializeFields typeName definitions [] table = (.ok [], table) := by
  rw [serializeFields]

end

end Catalog

end GraphQLClient
