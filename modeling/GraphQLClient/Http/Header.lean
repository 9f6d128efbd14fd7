import GraphQLClient.Config
import GraphQLClient.Transport

/-!
# Headers of HTTP

A header has a name, in which capitals make no difference, and a value.  A name is a token of the
protocol; a value has no control characters but tabs.

## Main definitions

* `Http.Headers` : values by name in small letters, with `Http.Headers.add?`.
* `Http.Headers.ofConfigured` : the headers of every request to a configured address.
-/

namespace GraphQLClient.Http

/-- Whether a character may stand in the name of a header. -/
def isTokenChar (c : Char) : Bool :=
  c.isAlphanum || "!#$%&'*+-.^_\x60|~".toList.contains c

/-- Whether a text is the name of a header. -/
def isHeaderName (name : String) : Bool :=
  !name.isEmpty && name.toList.all isTokenChar

/-- Whether a text is the value of a header. -/
def isHeaderValue (value : String) : Bool :=
  value.toList.all fun c => c = '\t' || (0x20 ≤ c.toNat && c.toNat ≠ 0x7F)

/-- Why a header cannot be sent. -/
inductive HeaderError where
  | badName (name : String)
  | badValue (name : String)
  deriving DecidableEq, Repr

/-- The text of the reason why a header cannot be sent. -/
def HeaderError.message : HeaderError → String
  | .badName name => "header name '" ++ name ++ "': invalid HTTP header name"
  | .badValue name => "header value for '" ++ name ++ "': failed to parse header value"

/-- Values by the name of their header in small letters. -/
abbrev Headers := Entries String

namespace Headers

/-- Writes a header over one of the same name. -/
def add? (h : Headers) (name value : String) : Except HeaderError Headers :=
  if isHeaderName name then
    if isHeaderValue value then .ok (h.put name.toLower value) else .error (.badValue name.toLower)
  else .error (.badName name)

/-- Writes headers one after the other. -/
def addAll? (h : Headers) : Entries String → Except HeaderError Headers
  | [] => .ok h
  | (name, value) :: rest => (h.add? name value).bind fun h => addAll? h rest

/-- The content of every request is JSON. -/
def jsonContent : String × String := ("content-type", "application/json")

/-- The headers of every request to a configured address. -/
def ofConfigured (configured : Entries String) : Except HeaderError Headers :=
  addAll? [jsonContent] configured

/-- The headers that a request is sent with: any content is accepted unless told otherwise, and the
content that is sent is always JSON. -/
def sent (h : Headers) : Headers :=
  (Entries.putAll [("accept", "*/*")] h).put jsonContent.1 jsonContent.2

end Headers

end GraphQLClient.Http
