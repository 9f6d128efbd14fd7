import GraphQLClient.Introspection

/-!
# Introspected schemas as documents

An introspected schema is written as a document of the schema definition language.  Built-in
scalars, reserved types and built-in directives are left out, since every schema has them, and the
root types are written only when one of them has a name other than the usual one.

## Main definitions

* `Introspection.toSdl` : the document of a description.
* `Introspection.descriptionChars` : a description above a definition.
* `Introspection.deprecationChars` : the mark of something deprecated.
-/

namespace GraphQLClient.Introspection

/-- The scalars that every schema has. -/
def builtinScalars : List String := ["Int", "Float", "String", "Boolean", "ID"]

/-- The directives that are not written. -/
def builtinDirectives : List String := ["skip", "include", "deprecated", "specifiedBy", "oneOf"]

/-- Texts joined with a separator between them. -/
def joined (separator : List Char) (parts : List (List Char)) : List Char :=
  separator.intercalate parts

/-- A text as it stands between the quotes of a quoted string. -/
def escapedChars (s : List Char) : List Char :=
  s.flatMap fun c =>
    if c = '\\' then ['\\', '\\']
    else if c = '"' then ['\\', '"']
    else if c = '\n' then ['\\', 'n']
    else [c]

/-- A text as it stands between the quotes of a block string: a backslash before each run of three
quotes. -/
def blockChars : List Char → List Char
  | '"' :: '"' :: '"' :: rest => '\\' :: '"' :: '"' :: '"' :: blockChars rest
  | c :: rest => c :: blockChars rest
  | [] => []

/-- A description on the lines before what it describes: a block when it has several lines, else a
quoted string. -/
def descriptionChars (indent : List Char) : Option String → List Char
  | none => []
  | some s =>
    if s.toList.contains '\n' then
      indent ++ ['"', '"', '"', '\n'] ++ blockChars s.toList ++ '\n' :: indent ++
        ['"', '"', '"', '\n']
    else indent ++ '"' :: escapedChars s.toList ++ ['"', '\n']

/-- The mark of something deprecated, with the reason if there is one. -/
def deprecationChars (isDeprecated : Bool) (reason : Option String) : List Char :=
  match isDeprecated, reason with
  | false, _ => []
  | true, none => " @deprecated".toList
  | true, some s => " @deprecated(reason: \"".toList ++ escapedChars s.toList ++ ['"', ')']

/-- A default value after its mark, if there is one. -/
def defaultChars : Option String → List Char
  | none => []
  | some s => ' ' :: '=' :: ' ' :: s.toList

/-- An argument or a field of an input object. -/
def inputChars (i : InputInfo) : List Char :=
  i.name.toList ++ ':' :: ' ' :: i.type.toChars ++ defaultChars i.defaultValue

/-- Arguments between parentheses; nothing when there are none. -/
def argumentsChars (args : List InputInfo) : List Char :=
  if args.isEmpty then [] else '(' :: joined [',', ' '] (args.map inputChars) ++ [')']

/-- The line of a field, its description before it. -/
def fieldChars (f : FieldInfo) : List Char :=
  descriptionChars [' ', ' '] f.description ++ ' ' :: ' ' :: f.name.toList ++
    argumentsChars f.args ++ ':' :: ' ' :: f.type.toChars ++
    deprecationChars f.isDeprecated f.deprecationReason ++ ['\n']

/-- The line of a field of an input object, its description before it. -/
def inputFieldChars (i : InputInfo) : List Char :=
  descriptionChars [' ', ' '] i.description ++ ' ' :: ' ' :: inputChars i ++ ['\n']

/-- The line of a member of an enumeration, its description before it. -/
def enumValueChars (v : EnumValueInfo) : List Char :=
  descriptionChars [' ', ' '] v.description ++ ' ' :: ' ' :: v.name.toList ++
    deprecationChars v.isDeprecated v.deprecationReason ++ ['\n']

/-- Lines between braces; nothing when there are none. -/
def bodyChars (lines : List (List Char)) : List Char :=
  if lines.flatten.isEmpty then []
  else ' ' :: '\x7b' :: '\n' :: lines.flatten ++ ['\x7d']

/-- The interfaces of a type; nothing when there are none. -/
def implementsChars (interfaces : List String) : List Char :=
  if interfaces.isEmpty then []
  else " implements ".toList ++ joined [' ', '&', ' '] (interfaces.map String.toList)

/-- The definition of a type; there is none for a kind that wraps a type. -/
def typeChars? (t : TypeInfo) : Option (List Char) :=
  let head := descriptionChars [] t.description
  let fields := (t.fields.getD []).map fieldChars
  let interfaces := implementsChars (t.interfaces.getD [])
  match t.kind with
  | .scalar => some (head ++ "scalar ".toList ++ t.name.toList)
  | .object => some (head ++ "type ".toList ++ t.name.toList ++ interfaces ++ bodyChars fields)
  | .interface =>
    some (head ++ "interface ".toList ++ t.name.toList ++ interfaces ++ bodyChars fields)
  | .union =>
    some (head ++ "union ".toList ++ t.name.toList ++ ' ' :: '=' :: ' ' ::
      joined [' ', '|', ' '] ((t.possibleTypes.getD []).map String.toList))
  | .enum =>
    some (head ++ "enum ".toList ++ t.name.toList ++
      bodyChars ((t.enumValues.getD []).map enumValueChars))
  | .inputObject =>
    some (head ++ "input ".toList ++ t.name.toList ++
      bodyChars ((t.inputFields.getD []).map inputFieldChars))
  | .list => none
  | .nonNull => none

/-- The definition of a directive. -/
def directiveChars (d : DirectiveInfo) : List Char :=
  descriptionChars [] d.description ++ "directive @".toList ++ d.name.toList ++
    argumentsChars d.args ++ " on ".toList ++
    joined [' ', '|', ' '] (d.locations.map String.toList)

/-- The line of a root type; nothing when there is none. -/
def rootChars : String × Option String → List Char
  | (_, none) => []
  | (operation, some name) =>
    ' ' :: ' ' :: operation.toList ++ ':' :: ' ' :: name.toList ++ ['\n']

/-- The block of the root types. -/
def rootsChars (roots : List (String × Option String)) : List Char :=
  "schema \x7b\n".toList ++ roots.flatMap rootChars ++ ['\x7d']

/-- Whether a directive is written. -/
def isWrittenDirective (d : DirectiveInfo) : Bool :=
  !builtinDirectives.contains d.name

/-- Whether a type is written. -/
def isWrittenType (t : TypeInfo) : Bool :=
  !(['_', '_'].isPrefixOf t.name.toList) && !builtinScalars.contains t.name

/-- The definitions of a schema, in order. -/
def sdlBlocks (s : Introspection) : List (List Char) :=
  (match s.customRoots with
    | none => []
    | some roots => [rootsChars roots]) ++
    (s.directives.filter isWrittenDirective).map directiveChars ++
    (s.types.filter isWrittenType).filterMap typeChars?

/-- The document of an introspected schema, an empty line between its definitions. -/
def toSdl (s : Introspection) : String :=
  String.ofList (joined ['\n', '\n'] s.sdlBlocks)

end GraphQLClient.Introspection
