import GraphQLClient.Introspection.Printer
import GraphQLClient.Proofs.Sdl.Constant
import GraphQLClient.Sdl.Definition
import Mathlib.Tactic.MkIffOfInductiveProp

/-!
# The definitions of an introspected schema

What a document says that is written for an introspected schema: the roots when one of them has a
name of its own, then the directives and the types that are not built in, in order.  A payload is
well formed if all its names are names of documents, its references are chains of wrappers around a
name, its default values are constants in an alphabet, and its texts have no carriage returns.

Two things of a payload are not in the document.  Arguments are written without their descriptions,
and a description of several lines is a block, of which the common margin and the blank lines at
both ends are no part.

## Main definitions

* `Introspection.definitions` : the definitions that a payload describes.
* `Introspection.WellFormed` : the payloads that can be written.
-/

namespace GraphQLClient

/-- The type without null. -/
def TypeExpr.required : TypeExpr → TypeExpr
  | .named name _ => .named name true
  | .list item _ => .list item true

namespace Introspection

/-! ### What a payload describes -/

/-- The type expression of a reference. -/
def TypeRef.toType : TypeRef → TypeExpr
  | .mk .nonNull _ (some inner) => (toType inner).required
  | .mk .list _ (some inner) => .list (toType inner) false
  | .mk _ name _ => .named (name.getD "") false

/-- The text of a description in a document.  A description of several lines is a block. -/
def descriptionText (s : String) : String :=
  if s.toList.contains '\n' then String.ofList (Sdl.blockValue ('\n' :: s.toList)) else s

/-- The directives of something that may be deprecated. -/
def deprecation (isDeprecated : Bool) (reason : Option String) : List Sdl.Directive :=
  match isDeprecated, reason with
  | false, _ => []
  | true, none => [⟨"deprecated", []⟩]
  | true, some s => [⟨"deprecated", [("reason", .string s)]⟩]

/-- An argument, which has no description in a document. -/
def InputInfo.argument (i : InputInfo) : Sdl.InputValue :=
  ⟨none, i.name, i.type.toType, i.defaultValue.bind (Sdl.literal? .all), []⟩

/-- A field of an input object. -/
def InputInfo.inputField (i : InputInfo) : Sdl.InputValue :=
  { i.argument with description := i.description.map descriptionText }

/-- A field of an object or an interface. -/
def FieldInfo.definition (f : FieldInfo) : Sdl.FieldDefinition :=
  ⟨f.description.map descriptionText, f.name, f.args.map InputInfo.argument, f.type.toType,
    deprecation f.isDeprecated f.deprecationReason⟩

/-- A member of an enumeration. -/
def EnumValueInfo.member (v : EnumValueInfo) : Sdl.EnumMember :=
  ⟨v.description.map descriptionText, v.name, deprecation v.isDeprecated v.deprecationReason⟩

/-- What a type consists of; there is nothing for a kind that wraps a type. -/
def TypeInfo.body? (t : TypeInfo) : Option Sdl.TypeBody :=
  match t.kind with
  | .scalar => some .scalar
  | .object =>
    some (.object (t.interfaces.getD []) ((t.fields.getD []).map FieldInfo.definition))
  | .interface =>
    some (.interface (t.interfaces.getD []) ((t.fields.getD []).map FieldInfo.definition))
  | .union => some (.union (t.possibleTypes.getD []))
  | .enum => some (.enum ((t.enumValues.getD []).map EnumValueInfo.member))
  | .inputObject => some (.input ((t.inputFields.getD []).map InputInfo.inputField))
  | .list => none
  | .nonNull => none

/-- The definition of a type. -/
def TypeInfo.definition? (t : TypeInfo) : Option Sdl.Definition :=
  t.body?.map fun body => .type ⟨t.description.map descriptionText, t.name, [], body⟩

/-- The definition of a directive. -/
def DirectiveInfo.definition (d : DirectiveInfo) : Sdl.Definition :=
  .directive ⟨d.description.map descriptionText, d.name, d.args.map InputInfo.argument, false,
    d.locations⟩

/-- The root types that are there, by operation. -/
def rootTypes (s : Introspection) : List (RootKind × String) :=
  (s.queryType.map (RootKind.query, ·)).toList ++
    (s.mutationType.map (RootKind.mutation, ·)).toList ++
    (s.subscriptionType.map (RootKind.subscription, ·)).toList

/-- The definitions that a payload describes, in order. -/
def definitions (s : Introspection) : List Sdl.Definition :=
  (if s.customRoots.isSome then [.schema ⟨none, [], s.rootTypes⟩] else []) ++
    (s.directives.filter isWrittenDirective).map DirectiveInfo.definition ++
    (s.types.filter isWrittenType).filterMap TypeInfo.definition?

/-! ### Well-formed payloads -/

/-- Whether the outermost wrapper of a reference excludes null. -/
def TypeRef.isNonNull : TypeRef → Bool
  | .mk kind _ _ => kind = .nonNull

/-- Whether a reference is a chain of wrappers that ends in a name, none of which excludes null
twice. -/
def TypeRef.isChain : TypeRef → Bool
  | .mk .nonNull _ (some inner) => !inner.isNonNull && isChain inner
  | .mk .list _ (some inner) => isChain inner
  | .mk _ (some name) none => Name.isName name
  | _ => false

/-- A text, if there is one, without carriage returns. -/
def Legible (text : Option String) : Prop :=
  ∀ s ∈ text, '\r' ∉ s.toList

/-- An argument or a field of an input object that can be written. -/
@[mk_iff]
structure InputInfo.WellFormed (alpha : Sdl.Alphabet) (i : InputInfo) : Prop where
  name : Name.isName i.name = true
  description : Legible i.description
  type : i.type.isChain = true
  default : ∀ s ∈ i.defaultValue, (Sdl.literal? alpha s).isSome = true

/-- A field that can be written. -/
@[mk_iff]
structure FieldInfo.WellFormed (alpha : Sdl.Alphabet) (f : FieldInfo) : Prop where
  name : Name.isName f.name = true
  description : Legible f.description
  args : ∀ i ∈ f.args, i.WellFormed alpha
  type : f.type.isChain = true
  reason : Legible f.deprecationReason

/-- A member of an enumeration that can be written: its name is that of no other value. -/
@[mk_iff]
structure EnumValueInfo.WellFormed (v : EnumValueInfo) : Prop where
  name : Name.isName v.name = true
  value : Sdl.isValueKeyword v.name = false
  description : Legible v.description
  reason : Legible v.deprecationReason

/-- A type that can be written: a union has members. -/
@[mk_iff]
structure TypeInfo.WellFormed (alpha : Sdl.Alphabet) (t : TypeInfo) : Prop where
  name : Name.isName t.name = true
  description : Legible t.description
  fields : ∀ f ∈ t.fields.getD [], f.WellFormed alpha
  inputFields : ∀ i ∈ t.inputFields.getD [], i.WellFormed alpha
  interfaces : ∀ n ∈ t.interfaces.getD [], Name.isName n = true
  enumValues : ∀ v ∈ t.enumValues.getD [], v.WellFormed
  possibleTypes : ∀ n ∈ t.possibleTypes.getD [], Name.isName n = true
  members : t.kind = .union → t.possibleTypes.getD [] ≠ []

/-- A directive that can be written: it has locations. -/
@[mk_iff]
structure DirectiveInfo.WellFormed (alpha : Sdl.Alphabet) (d : DirectiveInfo) : Prop where
  name : Name.isName d.name = true
  description : Legible d.description
  locations : d.locations ≠ [] ∧ ∀ l ∈ d.locations, l ∈ Sdl.locations
  args : ∀ i ∈ d.args, i.WellFormed alpha

/-- A payload that can be written. -/
@[mk_iff]
structure WellFormed (alpha : Sdl.Alphabet) (s : Introspection) : Prop where
  query : ∀ n ∈ s.queryType, Name.isName n = true
  mutation : ∀ n ∈ s.mutationType, Name.isName n = true
  subscription : ∀ n ∈ s.subscriptionType, Name.isName n = true
  types : ∀ t ∈ s.types, t.WellFormed alpha
  directives : ∀ d ∈ s.directives, d.WellFormed alpha

instance (text : Option String) : Decidable (Legible text) :=
  inferInstanceAs (Decidable (∀ s ∈ text, '\r' ∉ s.toList))

instance (alpha : Sdl.Alphabet) (i : InputInfo) : Decidable (i.WellFormed alpha) :=
  decidable_of_iff _ (InputInfo.wellFormed_iff alpha i).symm

instance (alpha : Sdl.Alphabet) (f : FieldInfo) : Decidable (f.WellFormed alpha) :=
  decidable_of_iff _ (FieldInfo.wellFormed_iff alpha f).symm

instance (v : EnumValueInfo) : Decidable v.WellFormed :=
  decidable_of_iff _ (EnumValueInfo.wellFormed_iff v).symm

instance (alpha : Sdl.Alphabet) (t : TypeInfo) : Decidable (t.WellFormed alpha) :=
  decidable_of_iff _ (TypeInfo.wellFormed_iff alpha t).symm

instance (alpha : Sdl.Alphabet) (d : DirectiveInfo) : Decidable (d.WellFormed alpha) :=
  decidable_of_iff _ (DirectiveInfo.wellFormed_iff alpha d).symm

instance (alpha : Sdl.Alphabet) (s : Introspection) : Decidable (s.WellFormed alpha) :=
  decidable_of_iff _ (wellFormed_iff alpha s).symm

end Introspection

end GraphQLClient
