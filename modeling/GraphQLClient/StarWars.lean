import GraphQLClient.Catalog
import GraphQLClient.Schema.Validity

/-!
# The Star Wars example

A small schema with an interface, an enumeration, an input object and a custom scalar, and data of
two of its characters.

## Main definitions

* `StarWars.sdl` : the document of the schema.
* `StarWars.catalog?` : the schema with a codec for its scalar.
* `StarWars.hero`, `StarWars.luke` : data in the shape of a response.
-/

namespace GraphQLClient.StarWars

/-- The document of the schema. -/
def sdl : String :=
  "\n".intercalate
   ["",
    "\"\"\"One of the films in the Star Wars Trilogy\"\"\"",
    "enum Episode \x7b",
    "  NEWHOPE",
    "  EMPIRE",
    "  JEDI",
    "\x7d",
    "",
    "scalar DateTime",
    "",
    "interface Character \x7b",
    "  id: String!",
    "  name: String",
    "  friends: [Character]",
    "  appearsIn: [Episode]",
    "\x7d",
    "",
    "type Human implements Character \x7b",
    "  id: String!",
    "  name: String",
    "  friends: [Character]",
    "  appearsIn: [Episode]",
    "  homePlanet: String",
    "\x7d",
    "",
    "type Droid implements Character \x7b",
    "  id: String!",
    "  name: String",
    "  friends: [Character]",
    "  appearsIn: [Episode]",
    "  primaryFunction: String",
    "\x7d",
    "",
    "type Review \x7b",
    "  episode: Episode",
    "  stars: Int!",
    "  commentary: String",
    "\x7d",
    "",
    "input ReviewInput \x7b",
    "  stars: Int!",
    "  commentary: String",
    "\x7d",
    "",
    "type Query \x7b",
    "  hero(episode: Episode): Character",
    "  human(id: String!): Human",
    "  droid(id: String!): Droid",
    "  humans(ids: [String!]!): [Human]",
    "  date(date: DateTime): DateTime",
    "\x7d",
    "",
    "type Mutation \x7b",
    "  createReview(episode: Episode, review: ReviewInput!): Review",
    "\x7d",
    ""]

/-- The schema with a codec for its scalar. -/
def catalog? : Option Catalog :=
  (Schema.parse? sdl).map fun s => (Catalog.ofSchema s).withScalar "DateTime" .dateTime

/-- An object of strings. -/
def record (members : List (String × String)) : Json :=
  .ofMembers (members.map fun (name, value) => (name, .string value))

/-- The hero of the story, as data of a query. -/
def hero : Json :=
  .ofMembers [("hero", record [("__typename", "Droid"), ("name", "R2-D2")])]

/-- A human with all of their fields. -/
def luke : Json :=
  .ofMembers [("__typename", .string "Human"), ("id", .string "1000"),
    ("name", .string "Luke Skywalker"), ("homePlanet", .string "Tatooine"),
    ("appearsIn", .array [.string "NEWHOPE", .string "EMPIRE", .string "JEDI"]),
    ("friends", .array [
      record [("__typename", "Human"), ("name", "Han Solo")],
      record [("__typename", "Human"), ("name", "Leia Organa")],
      record [("__typename", "Droid"), ("name", "C-3PO")],
      record [("__typename", "Droid"), ("name", "R2-D2")]])]

end GraphQLClient.StarWars
