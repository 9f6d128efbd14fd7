import GraphQLClient.Binary64
import GraphQLClient.Catalog
import GraphQLClient.Client
import GraphQLClient.Codec
import GraphQLClient.Config
import GraphQLClient.Config.Discovery
import GraphQLClient.Config.Load
import GraphQLClient.Config.Validity
import GraphQLClient.Connection
import GraphQLClient.DateTime
import GraphQLClient.DateTime.Parser
import GraphQLClient.Decimal.Layout
import GraphQLClient.Decimal.Reading
import GraphQLClient.Decimal.Shortest
import GraphQLClient.Document
import GraphQLClient.Document.Build
import GraphQLClient.Entries
import GraphQLClient.Field
import GraphQLClient.Field.Outline
import GraphQLClient.FilePath
import GraphQLClient.FileSystem
import GraphQLClient.Fragment
import GraphQLClient.Fragment.Inflate
import GraphQLClient.Http.Header
import GraphQLClient.Http.Server
import GraphQLClient.Http.Transport
import GraphQLClient.Introspection
import GraphQLClient.Introspection.Fetch
import GraphQLClient.Introspection.Payload
import GraphQLClient.Introspection.Printer
import GraphQLClient.Json
import GraphQLClient.Json.Printer
import GraphQLClient.Json.Source
import GraphQLClient.Literal
import GraphQLClient.Name
import GraphQLClient.Namespace
import GraphQLClient.Operation
import GraphQLClient.Proofs.Catalog.Agreement
import GraphQLClient.Proofs.Client.Sessions
import GraphQLClient.Proofs.Codec.Acceptance
import GraphQLClient.Proofs.Codec.InputKeys
import GraphQLClient.Proofs.Codec.Payload
import GraphQLClient.Proofs.Codec.RoundTrip
import GraphQLClient.Proofs.Codec.Success
import GraphQLClient.Proofs.Codec.Typing
import GraphQLClient.Proofs.Config.Order
import GraphQLClient.Proofs.Config.RoundTrip
import GraphQLClient.Proofs.Config.Usability
import GraphQLClient.Proofs.DateTime.RoundTrip
import GraphQLClient.Proofs.DateTime.Spelling
import GraphQLClient.Proofs.Decimal.Digits
import GraphQLClient.Proofs.Document.Acceptance
import GraphQLClient.Proofs.Document.ArgumentNames
import GraphQLClient.Proofs.Document.Mirror
import GraphQLClient.Proofs.Document.Parameters
import GraphQLClient.Proofs.Document.Places
import GraphQLClient.Proofs.Document.References
import GraphQLClient.Proofs.Document.Spellings
import GraphQLClient.Proofs.Document.Success
import GraphQLClient.Proofs.Document.Typename
import GraphQLClient.Proofs.Entries
import GraphQLClient.Proofs.Entries.Mentions
import GraphQLClient.Proofs.Field.Building
import GraphQLClient.Proofs.Field.SelectionSets
import GraphQLClient.Proofs.FilePath.Ancestors
import GraphQLClient.Proofs.FileSystem.Files
import GraphQLClient.Proofs.FileSystem.Nearest
import GraphQLClient.Proofs.Fragment.Agreement
import GraphQLClient.Proofs.Fragment.Complete
import GraphQLClient.Proofs.Fragment.Mismatch
import GraphQLClient.Proofs.Fragment.Projection
import GraphQLClient.Proofs.Fragment.Repeated
import GraphQLClient.Proofs.Fragment.Written
import GraphQLClient.Proofs.Http.Attempts
import GraphQLClient.Proofs.Http.Headers
import GraphQLClient.Proofs.Introspection.Characters
import GraphQLClient.Proofs.Introspection.Definitions
import GraphQLClient.Proofs.Introspection.Payload
import GraphQLClient.Proofs.Introspection.References
import GraphQLClient.Proofs.Introspection.Roots
import GraphQLClient.Proofs.Introspection.RoundTrip
import GraphQLClient.Proofs.Introspection.Strings
import GraphQLClient.Proofs.Introspection.Tokens
import GraphQLClient.Proofs.Json.Numbers
import GraphQLClient.Proofs.Json.Parts
import GraphQLClient.Proofs.Json.Reading
import GraphQLClient.Proofs.Literal.Echo
import GraphQLClient.Proofs.Literal.Faithful
import GraphQLClient.Proofs.Literal.Numerals
import GraphQLClient.Proofs.Name.AccessorForm
import GraphQLClient.Proofs.Name.Conversion
import GraphQLClient.Proofs.Name.Respelling
import GraphQLClient.Proofs.Name.WireForm
import GraphQLClient.Proofs.Name.Words
import GraphQLClient.Proofs.Namespace.Accessors
import GraphQLClient.Proofs.Namespace.Renames
import GraphQLClient.Proofs.Namespace.Spellings
import GraphQLClient.Proofs.Record
import GraphQLClient.Proofs.Response.RoundTrip
import GraphQLClient.Proofs.Scalar.WriteBack
import GraphQLClient.Proofs.Schema.Merge
import GraphQLClient.Proofs.Sdl.Constant
import GraphQLClient.Proofs.Sdl.Dialects
import GraphQLClient.Proofs.Sdl.Reading
import GraphQLClient.Proofs.Sdl.Scanning
import GraphQLClient.Proofs.Sdl.Source
import GraphQLClient.Proofs.Sdl.Spelling
import GraphQLClient.Proofs.Sdl.TypeText
import GraphQLClient.Proofs.Value.Structure
import GraphQLClient.Proofs.Writes
import GraphQLClient.Record
import GraphQLClient.Response
import GraphQLClient.Scalar
import GraphQLClient.Schema
import GraphQLClient.Schema.Builtin
import GraphQLClient.Schema.Merge
import GraphQLClient.Schema.Validity
import GraphQLClient.Sdl.Definition
import GraphQLClient.Sdl.Parser
import GraphQLClient.Sdl.Token
import GraphQLClient.Setting
import GraphQLClient.StarWars
import GraphQLClient.Text.Base64
import GraphQLClient.Text.Blank
import GraphQLClient.Text.Quoted
import GraphQLClient.Text.Uppercase
import GraphQLClient.Toml.Document
import GraphQLClient.Toml.Moment
import GraphQLClient.Toml.Scalar
import GraphQLClient.Toml.Table
import GraphQLClient.Transport
import GraphQLClient.TypeExpr
import GraphQLClient.Value
import GraphQLClient.Value.Text
import GraphQLClient.Yaml.Block
import GraphQLClient.Yaml.Cursor
import GraphQLClient.Yaml.Document
import GraphQLClient.Yaml.Lexer
import GraphQLClient.Yaml.Node
import GraphQLClient.Yaml.Plain
import GraphQLClient.Yaml.Quoted
import GraphQLClient.Yaml.Setting
import GraphQLClient.Yaml.Tag
import GraphQLClient.Yaml.Token
