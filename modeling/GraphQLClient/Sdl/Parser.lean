import GraphQLClient.Sdl.Definition
import GraphQLClient.Sdl.Token

/-!
# Reading schema documents

The type-system grammar of GraphQL (October 2021).  Operations and fragments are no part of a
schema document.

The client reads a dialect of the grammar, in another alphabet.  Three parts may be left out
although the grammar asks for them, and then say nothing: the value of an argument of a directive,
that of a field of an object constant, and the type of a root.  A document may have no definition.
Types and constants are nested at most five hundred times.  No comma may follow the description of a
definition, and no other name the name of an object.

## Main definitions

* `Sdl.Dialect` : the points in which a reader departs from the grammar, or does not.
* `Sdl.Reader` : readers of a part of a document, on its tokens.
* `Sdl.typeExpr`, `Sdl.constant`, `Sdl.definition` : type expressions, constant values and
  definitions.
* `Sdl.parseAs?`, `Sdl.parse?` : the definitions of a document, in a dialect and for the client.
* `TypeExpr.parseAs?`, `TypeExpr.parse?` : the type expression of a text, likewise.
-/

namespace GraphQLClient

namespace Sdl

/-- The points in which readers of schema documents differ. -/
structure Dialect where
  alphabet : Alphabet
  /-- How often types and constants may be nested, if there is a bound. -/
  nesting? : Option Nat
  /-- Whether the value of an argument, that of a field of an object constant and the type of a root
  may be left out. -/
  omissions : Bool
  /-- Whether a document may have no definition. -/
  blankDocuments : Bool
  /-- Whether a comma may stand between any two tokens. -/
  commas : Bool
  /-- Whether another name may follow the name of an object. -/
  bareObjects : Bool

/-- The grammar as it is published. -/
def Dialect.published : Dialect where
  alphabet := .published
  nesting? := none
  omissions := false
  blankDocuments := false
  commas := true
  bareObjects := true

/-- The documents that the client reads. -/
def Dialect.client : Dialect where
  alphabet := .client
  nesting? := some 500
  omissions := true
  blankDocuments := true
  commas := false
  bareObjects := false

/-- A reader of the tokens at the front of a document, with the rest of the tokens. -/
abbrev Reader (α : Type) := StateT (List Token) Option α

/-! ### Single tokens -/

/-- Tokens without the commas in front, which mean nothing. -/
def afterCommas (ts : List Token) : List Token :=
  ts.dropWhile fun t => t = .mark ','

/-- Tokens without any comma among them. -/
def withoutCommas (ts : List Token) : List Token :=
  ts.filter (· ≠ .mark ',')

/-- Nothing, where no comma may stand. -/
def noComma : Reader Unit := fun ts =>
  if ts.head? = some (.mark ',') then none else some ((), ts)

/-- Drops the next token if it is a given one, and tells whether it was. -/
def accept (t : Token) : Reader Bool := fun ts =>
  match afterCommas ts with
  | t' :: rest => some (if t' = t then (true, rest) else (false, t' :: rest))
  | [] => some (false, [])

/-- A given token. -/
def expect (t : Token) : Reader Unit := fun ts =>
  match afterCommas ts with
  | t' :: rest => if t' = t then some ((), rest) else none
  | [] => none

/-- A mark. -/
def mark (c : Char) : Reader Unit := expect (.mark c)

/-- A name with a fixed meaning. -/
def keyword (s : String) : Reader Unit := expect (.name s)

/-- A name, if one comes next. -/
def name? : Reader (Option String) := fun ts =>
  match afterCommas ts with
  | .name s :: rest => some (some s, rest)
  | ts => some (none, ts)

/-- Nothing, where no name may stand. -/
def noName : Reader Unit := fun ts =>
  match afterCommas ts with
  | .name _ :: _ => none
  | ts => some ((), ts)

/-- Any name. -/
def name : Reader String := do
  match ← name? with
  | some s => pure s
  | none => failure

/-- The names that stand for other values than members of enumerations. -/
def isValueKeyword (s : String) : Bool :=
  s == "true" || s == "false" || s == "null"

/-- A string before a definition. -/
def description : Reader (Option String) := fun ts =>
  match afterCommas ts with
  | .string s :: rest => some (some s, rest)
  | ts => some (none, ts)

/-! ### Repetition -/

/-- Parts up to a mark that ends them; the number of steps bounds their number. -/
def untilWithin {α : Type} (part : Reader α) (stop : Char) : Nat → Reader (List α)
  | 0 => failure
  | steps + 1 => do
    if ← accept (.mark stop) then pure []
    else
      let a ← part
      let rest ← untilWithin part stop steps
      pure (a :: rest)

/-- Parts up to a mark that ends them. -/
def upTo {α : Type} (part : Reader α) (stop : Char) : Reader (List α) := fun ts =>
  untilWithin part stop ts.length ts

/-- At least one part between two marks; nothing if the first mark does not follow. -/
def optionalGroup {α : Type} (start : Char) (part : Reader α) (stop : Char) :
    Reader (List α) := do
  if ← accept (.mark start) then
    let a ← part
    let rest ← upTo part stop
    pure (a :: rest)
  else pure []

/-- More parts, each after a mark; the number of steps bounds their number. -/
def moreWithin {α : Type} (separator : Char) (part : Reader α) : Nat → Reader (List α)
  | 0 => pure []
  | steps + 1 => do
    if ← accept (.mark separator) then
      let a ← part
      let rest ← moreWithin separator part steps
      pure (a :: rest)
    else pure []

/-- At least one part, with a mark between each two of them, and perhaps one before the first. -/
def separated {α : Type} (separator : Char) (part : Reader α) : Reader (List α) := do
  let _ ← accept (.mark separator)
  let a ← part
  let rest ← fun ts => moreWithin separator part ts.length ts
  pure (a :: rest)

/-! ### Types and values -/

/-- A bound for the nesting in tokens: that of a dialect, or the number of the tokens. -/
def Dialect.depth (d : Dialect) (ts : List Token) : Nat :=
  d.nesting?.getD ts.length + 1

/-- A type expression with less than the given number of lists. -/
def typeExprWithin : Nat → Reader TypeExpr
  | 0 => failure
  | depth + 1 => do
    if ← accept (.mark '[') then
      let item ← typeExprWithin depth
      mark ']'
      pure (.list item (← accept (.mark '!')))
    else
      let n ← name
      pure (.named n (← accept (.mark '!')))

/-- A type expression. -/
def typeExpr (d : Dialect) : Reader TypeExpr := fun ts => typeExprWithin (d.depth ts) ts

/-- A value after its name and a colon; where a dialect admits that, the colon and the value may be
missing. -/
def valueOf (d : Dialect) (value : Reader Literal) : Reader (List (String × Literal)) := do
  let n ← name
  if ← accept (.mark ':') then
    let v ← value
    pure [(n, v)]
  else if d.omissions then pure []
  else failure

/-- A constant value nested less than the given number of times. -/
def constantWithin (d : Dialect) : Nat → Reader Literal
  | 0 => failure
  | depth + 1 => do
    match afterCommas (← get) with
    | .int s :: rest => set rest; pure (.int s)
    | .float s :: rest => set rest; pure (.float s)
    | .string s :: rest => set rest; pure (.string s)
    | .name s :: rest =>
      set rest
      pure (if s = "true" then .boolean true
        else if s = "false" then .boolean false
        else if s = "null" then .null
        else .enum s)
    | .mark c :: rest =>
      set rest
      if c = '[' then
        let items ← upTo (constantWithin d depth) ']'
        pure (.list items)
      else if c = '\x7b' then
        let fields ← upTo (valueOf d (constantWithin d depth)) '\x7d'
        pure (.object fields.flatten)
      else failure
    | [] => failure

/-- A constant value. -/
def constant (d : Dialect) : Reader Literal := fun ts => constantWithin d (d.depth ts) ts

/-- Directives at the front; the number of steps bounds their number. -/
def directivesWithin (d : Dialect) : Nat → Reader (List Directive)
  | 0 => pure []
  | steps + 1 => do
    if ← accept (.mark '@') then
      let n ← name
      let args ← optionalGroup '(' (valueOf d (constant d)) ')'
      let rest ← directivesWithin d steps
      pure (⟨n, args.flatten⟩ :: rest)
    else pure []

/-- Directives at the front. -/
def directives (d : Dialect) : Reader (List Directive) := fun ts => directivesWithin d ts.length ts

/-! ### Definitions -/

/-- A default value after its mark, if there is one. -/
def defaultValue (d : Dialect) : Reader (Option Literal) := do
  if ← accept (.mark '=') then
    let c ← constant d
    pure (some c)
  else pure none

/-- An argument, or a field of an input object. -/
def inputValue (d : Dialect) : Reader InputValue := do
  let text ← description
  let n ← name
  mark ':'
  let t ← typeExpr d
  let default ← defaultValue d
  pure ⟨text, n, t, default, ← directives d⟩

/-- The definitions of arguments, if there are any. -/
def argumentDefinitions (d : Dialect) : Reader (List InputValue) :=
  optionalGroup '(' (inputValue d) ')'

/-- A field of an object or an interface. -/
def fieldDefinition (d : Dialect) : Reader FieldDefinition := do
  let text ← description
  let n ← name
  let args ← argumentDefinitions d
  mark ':'
  let t ← typeExpr d
  pure ⟨text, n, args, t, ← directives d⟩

/-- A member of an enumeration. -/
def enumMember (d : Dialect) : Reader EnumMember := do
  let text ← description
  let n ← name
  if isValueKeyword n then failure
  else pure ⟨text, n, ← directives d⟩

/-- The interfaces of a type, if there are any. -/
def interfaces : Reader (List String) := do
  if ← accept (.name "implements") then separated '&' name else pure []

/-- The members of a union, if there are any. -/
def unionMembers : Reader (List String) := do
  if ← accept (.mark '=') then separated '|' name else pure []

/-- A root type of a schema; where a dialect admits that, its name may be missing. -/
def root (d : Dialect) : Reader (List (RootKind × String)) := do
  let kind ← match ← name with
    | "query" => pure RootKind.query
    | "mutation" => pure .mutation
    | "subscription" => pure .subscription
    | _ => failure
  mark ':'
  match ← name? with
  | some n => pure [(kind, n)]
  | none => if d.omissions then pure [] else failure

/-- The location of a directive. -/
def location : Reader String := do
  let n ← name
  if locations.contains n then pure n else failure

/-- The definition of a type after its description, or an extension after its keyword.  Unless a
dialect admits that, the name of an object that is defined is not followed by another name. -/
def typeDefinition (d : Dialect) (extension : Bool) (text : Option String) :
    Reader TypeDefinition := do
  let kind ← name
  let n ← name
  match kind with
  | "scalar" => pure ⟨text, n, ← directives d, .scalar⟩
  | "type" =>
    let is ← interfaces
    if !extension && is.isEmpty && !d.bareObjects then noName
    let ds ← directives d
    pure ⟨text, n, ds, .object is (← optionalGroup '\x7b' (fieldDefinition d) '\x7d')⟩
  | "interface" =>
    let is ← interfaces
    let ds ← directives d
    pure ⟨text, n, ds, .interface is (← optionalGroup '\x7b' (fieldDefinition d) '\x7d')⟩
  | "union" =>
    let ds ← directives d
    pure ⟨text, n, ds, .union (← unionMembers)⟩
  | "enum" =>
    let ds ← directives d
    pure ⟨text, n, ds, .enum (← optionalGroup '\x7b' (enumMember d) '\x7d')⟩
  | "input" =>
    let ds ← directives d
    pure ⟨text, n, ds, .input (← optionalGroup '\x7b' (inputValue d) '\x7d')⟩
  | _ => failure

/-- Whether an extension of a type adds anything. -/
def TypeDefinition.addsAnything (t : TypeDefinition) : Bool :=
  !t.directives.isEmpty ||
    match t.body with
    | .scalar => false
    | .object is fields => !is.isEmpty || !fields.isEmpty
    | .interface is fields => !is.isEmpty || !fields.isEmpty
    | .union members => !members.isEmpty
    | .enum members => !members.isEmpty
    | .input fields => !fields.isEmpty

/-- The definition of a directive after its keyword. -/
def directiveDefinition (d : Dialect) (text : Option String) : Reader DirectiveDefinition := do
  mark '@'
  let n ← name
  let args ← argumentDefinitions d
  let repeatable ← accept (.name "repeatable")
  keyword "on"
  pure ⟨text, n, args, repeatable, ← separated '|' location⟩

/-- An extension after its keyword, which no comma may follow. -/
def extension (d : Dialect) : Reader Definition := do
  noComma
  if ← accept (.name "schema") then
    let ds ← directives d
    let roots ← optionalGroup '\x7b' (root d) '\x7d'
    if ds.isEmpty && roots.isEmpty then failure
    else pure (.schemaExtension ⟨none, ds, roots.flatten⟩)
  else
    let t ← typeDefinition d true none
    if t.addsAnything then pure (.typeExtension t) else failure

/-- A definition after its description. -/
def described (d : Dialect) (text : Option String) : Reader Definition := do
  if ← accept (.name "schema") then
    let ds ← directives d
    mark '\x7b'
    let first ← root d
    let more ← upTo (root d) '\x7d'
    pure (.schema ⟨text, ds, first ++ more.flatten⟩)
  else if ← accept (.name "directive") then
    pure (.directive (← directiveDefinition d text))
  else pure (.type (← typeDefinition d false text))

/-- A definition.  An extension has no description, and no comma may follow one. -/
def definition (d : Dialect) : Reader Definition := do
  if ← accept (.name "extend") then extension d
  else
    let text ← description
    if text.isSome then noComma
    described d text

/-- Definitions up to the end of the tokens; the number of steps bounds their number. -/
def definitionsWithin? (d : Dialect) : Nat → List Token → Option (List Definition)
  | 0, ts => if ts.isEmpty then some [] else none
  | steps + 1, ts =>
    if ts.isEmpty then some []
    else
      match (definition d).run ts with
      | none => none
      | some (first, rest) =>
        (definitionsWithin? d steps (afterCommas rest)).map (first :: ·)

/-- The tokens that a dialect reads; where commas may stand anywhere, they are none. -/
def Dialect.significant (d : Dialect) (ts : List Token) : List Token :=
  if d.commas then withoutCommas ts else ts

/-- The definitions of a document in a dialect. -/
def parseAs? (d : Dialect) (text : String) : Option (List Definition) :=
  (tokens? d.alphabet text).bind fun ts =>
    (definitionsWithin? d (d.significant ts).length (afterCommas (d.significant ts))).filter
      fun ds => d.blankDocuments || !ds.isEmpty

/-- The definitions of a document, as the client reads it. -/
def parse? (text : String) : Option (List Definition) :=
  parseAs? .client text

end Sdl

/-- The type expression that a text consists of, in a dialect. -/
def TypeExpr.parseAs? (d : Sdl.Dialect) (text : String) : Option TypeExpr :=
  match (Sdl.tokens? d.alphabet text).bind fun ts => (Sdl.typeExpr d).run (d.significant ts) with
  | some (t, rest) => if (Sdl.afterCommas rest).isEmpty then some t else none
  | none => none

/-- The type expression that a text consists of, as the client reads it. -/
def TypeExpr.parse? (text : String) : Option TypeExpr :=
  parseAs? .client text

end GraphQLClient
