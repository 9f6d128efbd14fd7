import GraphQLClient.Yaml.Tag

/-!
# Tokens of YAML

The tokens of a YAML text tell its structure whatever notation is used: blocks, which are known by
the columns in which they begin, have tokens at their ends, and a key has a token before it although
only the colon after it shows that it is one.

## Main definitions

* `Yaml.Style` : the notations of texts.
* `Yaml.Token` : tokens.
-/

namespace GraphQLClient.Yaml

/-- How a text is written. -/
inductive Style where
  | plain
  /-- Between marks of one of two kinds. -/
  | quoted
  /-- As a block of lines. -/
  | block
  deriving DecidableEq, Repr

/-- A token of a YAML text. -/
inductive Token where
  /-- The version of the language, told before a document. -/
  | version
  /-- What a handle of tags stands for, told before a document. -/
  | tagRule (handle stem : String)
  /-- Something else that is told before a document. -/
  | instruction
  | documentStart
  | documentEnd
  | blockSequence
  | blockMapping
  | blockEnd
  | flowSequence
  | flowSequenceEnd
  | flowMapping
  | flowMappingEnd
  /-- The dash before an item of a block. -/
  | item
  | comma
  | key
  | value
  /-- The name of the node that follows. -/
  | name (name : String)
  /-- The name of a node that stands for the node. -/
  | mention (name : String)
  | tag (t : Tag)
  | scalar (text : String) (style : Style)
  /-- The end of the text. -/
  | stop
  deriving DecidableEq, Repr

end GraphQLClient.Yaml
