import GraphQLClient.Introspection.Payload
import GraphQLClient.Introspection.Printer
import GraphQLClient.Schema.Validity
import GraphQLClient.Transport

/-!
# Fetching a schema

A server is asked to describe its schema; the description is written as a document, and the schema
of that document is used if it is valid.

## Main definitions

* `Introspection.request` : the request for the description.
* `Introspection.FetchError` : why no schema comes back, with `Introspection.FetchError.message?`.
* `Introspection.conclude` : the description in a reply.
* `Introspection.schemaOf` : the schema of a description.
-/

namespace GraphQLClient.Introspection

/-- The query for the description of a schema.  References to types are followed through seven
wrappers. -/
def query : String :=
  "\n".intercalate
   ["query IntrospectionQuery \x7b",
    "  __schema \x7b",
    "    queryType \x7b name \x7d",
    "    mutationType \x7b name \x7d",
    "    subscriptionType \x7b name \x7d",
    "    types \x7b ...FullType \x7d",
    "    directives \x7b",
    "      name",
    "      description",
    "      locations",
    "      args \x7b ...InputValue \x7d",
    "    \x7d",
    "  \x7d",
    "\x7d",
    "",
    "fragment FullType on __Type \x7b",
    "  kind",
    "  name",
    "  description",
    "  fields(includeDeprecated: true) \x7b",
    "    name",
    "    description",
    "    args \x7b ...InputValue \x7d",
    "    type \x7b ...TypeRef \x7d",
    "    isDeprecated",
    "    deprecationReason",
    "  \x7d",
    "  inputFields \x7b ...InputValue \x7d",
    "  interfaces \x7b ...TypeRef \x7d",
    "  enumValues(includeDeprecated: true) \x7b",
    "    name",
    "    description",
    "    isDeprecated",
    "    deprecationReason",
    "  \x7d",
    "  possibleTypes \x7b ...TypeRef \x7d",
    "\x7d",
    "",
    "fragment InputValue on __InputValue \x7b",
    "  name",
    "  description",
    "  type \x7b ...TypeRef \x7d",
    "  defaultValue",
    "\x7d",
    "",
    "fragment TypeRef on __Type \x7b",
    "  kind",
    "  name",
    "  ofType \x7b",
    "    kind",
    "    name",
    "    ofType \x7b",
    "      kind",
    "      name",
    "      ofType \x7b",
    "        kind",
    "        name",
    "        ofType \x7b",
    "          kind",
    "          name",
    "          ofType \x7b",
    "            kind",
    "            name",
    "            ofType \x7b",
    "              kind",
    "              name",
    "              ofType \x7b kind name \x7d",
    "            \x7d",
    "          \x7d",
    "        \x7d",
    "      \x7d",
    "    \x7d",
    "  \x7d",
    "\x7d",
    ""]

/-- The request for the description of a schema. -/
def request : Request :=
  ⟨query, some "IntrospectionQuery", none⟩

/-- Why no schema comes back. -/
inductive FetchError where
  | transport (e : TransportError)
  /-- The payload holds errors. -/
  | server (errors : List Response.Error)
  | noData
  /-- The data is no description of a schema. -/
  | malformed
  /-- The schema that is described is not valid. -/
  | schema

/-- The text of a failure, for those that have one of their own. -/
def FetchError.message? : FetchError → Option String
  | .transport e => some e.message
  | .server errors =>
    some ("Introspection query failed: " ++
      "; ".intercalate (errors.map Response.Error.message))
  | .noData => some "Invalid introspection response: response has no data"
  | .malformed => none
  | .schema => none

/-- The description in a reply. -/
def conclude : Reply → Except FetchError Introspection
  | .error e => .error (.transport e)
  | .ok r =>
    if r.errors.isEmpty then
      match r.data with
      | none => .error .noData
      | some data =>
        match ofJson? data with
        | some s => .ok s
        | none => .error .malformed
    else .error (.server r.errors)

/-- The schema of a description. -/
def schemaOf (s : Introspection) : Except FetchError Schema :=
  match Schema.parse? s.toSdl with
  | some schema => .ok schema
  | none => .error .schema

/-- The schema that a reply describes. -/
def fetch (reply : Reply) : Except FetchError Schema :=
  (conclude reply).bind schemaOf

end GraphQLClient.Introspection
