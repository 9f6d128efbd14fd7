import GraphQLClient.Schema.Merge

/-!
# Valid schemas

A schema is valid when every name in it stands for what its place asks for, every type has parts,
types implement what they claim, directives are applied where and as they may be, and no input
object needs itself.

## Main definitions

* `Schema.literalFits` : whether a constant is a value of a type.
* `Schema.isSubtype` : whether a value of one type may stand where one of another is declared.
* `Schema.isValid` : whether a schema is valid.
* `Schema.parse?` : the schema of a document, if it is valid.
-/

namespace GraphQLClient.Schema

open Sdl

/-! ### Types by use -/

/-- Whether a name is that of a type whose values can be passed in. -/
def isInputType (s : Schema) (name : String) : Bool :=
  match s.classOf? name with
  | some .scalar => true
  | some .enum => true
  | some .input => true
  | _ => false

/-- Whether a name is that of a type whose values can come back. -/
def isOutputType (s : Schema) (name : String) : Bool :=
  match s.classOf? name with
  | some .input => false
  | some _ => true
  | none => false

/-- Whether a name is that of an object. -/
def isObject (s : Schema) (name : String) : Bool :=
  match s.body? name with
  | some (.object _ _) => true
  | _ => false

/-- Whether a name is that of an interface. -/
def isInterface (s : Schema) (name : String) : Bool :=
  match s.body? name with
  | some (.interface _ _) => true
  | _ => false

/-- Whether a name is that of a scalar that the document defines. -/
def isCustomScalar (s : Schema) (name : String) : Bool :=
  s.classOf? name == some .scalar && !builtinScalars.contains name

/-! ### Constants -/

/-- Whether an argument or a field of an input object has to be given. -/
def mustBeGiven (v : InputValue) : Bool :=
  v.type.isRequired && v.default.isNone

/-- Whether an argument or a field is among those given, and not null, if it has to be. -/
def isGiven (v : InputValue) (given : List (String × Literal)) : Bool :=
  let values := (given.filter fun (name, _) => name == v.name).map Prod.snd
  !mustBeGiven v || (!values.isEmpty && values.all fun value => !value.isNull)

/-- Whether the integer that a literal writes fits 32 bits. -/
def fitsInt (text : String) : Bool :=
  match text.toInt? with
  | some i => -0x80000000 ≤ i && i < 0x80000000
  | none => false

/-- Whether the number that a literal writes is finite. -/
def fitsFloat (text : String) : Bool :=
  match Binary64.ofText? text with
  | some (.finite _) => true
  | _ => false

/-- The item type of a list; a type that is no list is its own. -/
def itemType : TypeExpr → TypeExpr
  | .list item _ => item
  | t => t

/-- Whether a type expression is a list. -/
def isList : TypeExpr → Bool
  | .list _ _ => true
  | .named _ _ => false

mutual

/-- Whether a constant is a value of a type.  A value that is no list may stand for a list of one,
and a scalar that the document defines takes any value. -/
def literalFits (s : Schema) (t : TypeExpr) : Literal → Bool
  | .null => !t.isRequired
  | .var _ => false
  | .int text =>
    s.isCustomScalar t.base || t.base == "ID" || (t.base == "Int" && fitsInt text) ||
      (t.base == "Float" && fitsFloat text)
  | .float text => s.isCustomScalar t.base || (t.base == "Float" && fitsFloat text)
  | .string _ => s.isCustomScalar t.base || t.base == "ID" || t.base == "String"
  | .boolean _ => s.isCustomScalar t.base || t.base == "Boolean"
  | .enum member =>
    s.isCustomScalar t.base ||
      match s.body? t.base with
      | some (.enum members) => members.any fun m => m.name == member
      | _ => false
  | .list items =>
    (isList t || s.isCustomScalar t.base) && s.isInputType t.base &&
      itemsFit s (itemType t) items
  | .object fields =>
    s.isCustomScalar t.base ||
      match s.inputFieldsOf? t.base with
      | some definitions =>
        fieldsFit s definitions [] fields && definitions.all fun d => isGiven d fields
      | none => false

/-- Whether all constants are values of a type. -/
def itemsFit (s : Schema) (t : TypeExpr) : List Literal → Bool
  | [] => true
  | item :: rest => literalFits s t item && itemsFit s t rest

/-- Whether all fields are declared, and the first of each name has a value of its type; the names
met before are given. -/
def fieldsFit (s : Schema) (definitions : List InputValue) (met : List String) :
    List (String × Literal) → Bool
  | [] => true
  | (name, value) :: rest =>
    (match definitions.find? fun d => d.name == name with
      | some d => met.contains name || literalFits s d.type value
      | none => false) &&
      fieldsFit s definitions (name :: met) rest

end

/-! ### Directives -/

/-- Whether the arguments of an applied directive are those that its definition asks for. -/
def argumentsFit (s : Schema) (definitions : List InputValue) (args : List (String × Literal)) :
    Bool :=
  decide (args.map Prod.fst).Nodup && fieldsFit s definitions [] args &&
    definitions.all fun d => isGiven d args

/-- Whether directives may be applied, together, at a location. -/
def directivesFit (s : Schema) (location : String) (ds : List Directive) : Bool :=
  ds.all fun d =>
    match s.directives.get? d.name with
    | none => false
    | some definition =>
      definition.locations.contains location && argumentsFit s definition.args d.args &&
        (definition.repeatable || ds.countP (fun d' => d'.name == d.name) ≤ 1)

/-! ### Members of types -/

/-- Whether a name is free for use in documents. -/
def isFreeName (name : String) : Bool :=
  !Name.isReserved name

/-- Whether an argument, or a field of an input object, is well formed. -/
def inputValueFits (s : Schema) (location : String) (v : InputValue) : Bool :=
  isFreeName v.name && s.isInputType v.type.base && directivesFit s location v.directives

/-- Whether the arguments of a field or a directive are well formed. -/
def argumentsAreValid (s : Schema) (args : List InputValue) : Bool :=
  decide (args.map InputValue.name).Nodup &&
    args.all fun a => inputValueFits s "ARGUMENT_DEFINITION" a

/-- Whether a field is well formed. -/
def fieldIsValid (s : Schema) (f : FieldDefinition) : Bool :=
  isFreeName f.name && s.isOutputType f.type.base && argumentsAreValid s f.args &&
    directivesFit s "FIELD_DEFINITION" f.directives

/-! ### Interfaces -/

/-- Whether a value of one type may stand where one of another is declared. -/
def isSubtype (s : Schema) : TypeExpr → TypeExpr → Bool
  | .named a ra, .named b rb =>
    (ra || !rb) &&
      (a == b ||
        match s.body? b with
        | some (.union members) => members.contains a && s.isObject a
        | some (.interface _ _) => (s.interfacesOf a).contains b
        | _ => false)
  | .list a ra, .list b rb => (ra || !rb) && isSubtype s a b
  | _, _ => false

/-- Whether a field does what a field of an interface promises: it takes the same arguments, asks
for no others, and has a value of the type. -/
def fieldImplements (s : Schema) (field promised : FieldDefinition) : Bool :=
  s.isSubtype field.type promised.type &&
    (promised.args.all fun p => field.args.any fun a => a.name == p.name && a.type == p.type) &&
    field.args.all fun a => !mustBeGiven a || promised.args.any fun p => p.name == a.name

/-- Whether a type implements the interfaces that it declares. -/
def implementsAll (s : Schema) (name : String) (interfaces : List String)
    (fields : List FieldDefinition) : Bool :=
  interfaces.all fun i =>
    i != name && s.isInterface i &&
      ((s.interfacesOf i).all fun j => interfaces.contains j) &&
      ((s.fieldsOf? i).getD []).all fun promised =>
        match fields.find? fun f => f.name == promised.name with
        | some field => s.fieldImplements field promised
        | none => false

/-! ### Types -/

/-- Whether a type is well formed.  One that belongs to every schema may have a reserved name, but
an extension of it has to be as well formed as any; a scalar that does may carry any directives. -/
def typeIsValid (s : Schema) (t : TypeDefinition) : Bool :=
  (isBuiltin t.name || isFreeName t.name) &&
    match t.body with
    | .scalar => builtinScalars.contains t.name || directivesFit s "SCALAR" t.directives
    | .object interfaces fields =>
      directivesFit s "OBJECT" t.directives && !fields.isEmpty && fields.all s.fieldIsValid &&
        s.implementsAll t.name interfaces fields
    | .interface interfaces fields =>
      directivesFit s "INTERFACE" t.directives && !fields.isEmpty &&
        fields.all s.fieldIsValid && s.implementsAll t.name interfaces fields
    | .union members =>
      directivesFit s "UNION" t.directives && !members.isEmpty && members.all s.isObject
    | .enum members =>
      directivesFit s "ENUM" t.directives && !members.isEmpty &&
        members.all fun m => isFreeName m.name && directivesFit s "ENUM_VALUE" m.directives
    | .input fields =>
      directivesFit s "INPUT_OBJECT" t.directives && !fields.isEmpty &&
        fields.all fun f => inputValueFits s "INPUT_FIELD_DEFINITION" f

/-! ### Definitions that depend on themselves -/

/-- How many names may lie on a way from one definition to others that it depends on. -/
def wayLimit : Nat := 32

/-- Whether no way of dependences from a place is too long or closes.  Of the names passed on a way
none is passed again; a place whose name was passed may close the way.  Places without dependences
of their own are not passed. -/
def staysOpen {α : Type} (dependences : α → Option (List α)) (name : α → String)
    (closes : α → Bool) : Nat → List String → α → Bool
  | room, passed, a =>
    if passed.contains (name a) then !closes a
    else
      match dependences a with
      | none => true
      | some next =>
        match room with
        | 0 => false
        | room + 1 => next.all (staysOpen dependences name closes room (name a :: passed))

/-- The input objects that a value of an input object cannot do without. -/
def neededInputs? (s : Schema) (name : String) : Option (List String) :=
  match s.body? name with
  | some (.input fields) =>
    some (fields.filterMap fun f =>
      match f.type with
      | .named name true => some name
      | _ => none)
  | _ => none

/-- Whether a value of an input object needs no value of the same one. -/
def inputIsFinite (s : Schema) (root : String) : Bool :=
  ((s.neededInputs? root).getD []).all
    (staysOpen s.neededInputs? id (· == root) (wayLimit - 1) [root])

/-- What the definition of a directive, or of a type that its arguments use, refers to: directives
(`true`) and types (`false`) by name. -/
def references? (s : Schema) : Bool × String → Option (List (Bool × String))
  | (true, name) => (s.directives.get? name).map fun d => d.args.flatMap ofInput
  | (false, name) =>
    if isBuiltin name then none
    else
      (s.type? name).map fun t =>
        t.directives.map ofDirective ++
          match t.body with
          | .enum members => members.flatMap fun m => m.directives.map ofDirective
          | .input fields => fields.flatMap ofInput
          | _ => []
where
  /-- A directive that is applied. -/
  ofDirective (d : Directive) : Bool × String := (true, d.name)
  /-- The directives on an argument or an input field, and its type. -/
  ofInput (v : InputValue) : List (Bool × String) :=
    v.directives.map ofDirective ++ [(false, v.type.base)]

/-- Whether the definition of a directive does not depend on the directive itself. -/
def isGrounded (s : Schema) (d : DirectiveDefinition) : Bool :=
  ((s.references? (true, d.name)).getD []).all
    (staysOpen s.references? Prod.snd (· == (true, d.name)) (wayLimit - 1) [d.name])

/-- Whether the definition of a directive is well formed. -/
def directiveIsValid (s : Schema) (d : DirectiveDefinition) : Bool :=
  isFreeName d.name && argumentsAreValid s d.args && s.isGrounded d

/-! ### Schemas -/

/-- Whether a schema is valid. -/
def isValid (s : Schema) : Bool :=
  (s.root? .query).isSome && (s.roots.all fun (_, name) => s.isObject name) &&
    directivesFit s "SCHEMA" s.applied &&
    (s.directives.all fun (_, d) => s.directiveIsValid d) &&
    (s.types.all fun (_, t) => s.typeIsValid t) && s.types.all fun (name, _) => s.inputIsFinite name

/-- The names of types that fields, arguments and input fields refer to. -/
def usedTypes (s : Schema) : List String :=
  (s.types.flatMap fun (_, t) =>
    match t.body with
    | .object _ fields => fields.flatMap ofField
    | .interface _ fields => fields.flatMap ofField
    | .input fields => fields.map ofInput
    | _ => []) ++
    s.directives.flatMap fun (_, d) => d.args.map ofInput
where
  /-- The type of an argument or an input field. -/
  ofInput (v : InputValue) : String := v.type.base
  /-- The types of a field and of its arguments. -/
  ofField (f : FieldDefinition) : List String := f.type.base :: f.args.map ofInput

/-- A schema without the built-in scalars that nothing refers to. -/
def prune (s : Schema) : Schema :=
  let used := s.usedTypes
  { s with types := s.types.filter fun (name, _) =>
      !builtinScalars.contains name || used.contains name }

/-- The schema of a document, if it is valid. -/
def parse? (text : String) : Option Schema := do
  let ds ← Sdl.parse? text
  let s ← merge? ds
  if s.isValid then some s.prune else none

/-- The names of the types that the document of a schema defines, in order of the names. -/
def definedTypes (s : Schema) : List String :=
  ((s.types.map Prod.fst).filter fun name => !isBuiltin name).mergeSort fun a b => a ≤ b

end GraphQLClient.Schema
