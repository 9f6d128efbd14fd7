import GraphQLClient.Yaml.Lexer
import GraphQLClient.Yaml.Node

/-!
# YAML documents

The only document of a text is read from its tokens.  A node may be given a name, and later mentions
of the name stand for the node as it was when the name was given last.  Collections are nested, and
mentions are used, within limits.  What follows the document need not be well formed, but it may not
be another document, and the tokens have to be well formed up to the first that follows.

## Main definitions

* `Yaml.Reader` : readers of a part of a document, on its tokens.
* `Yaml.node` : nodes.
* `Yaml.document?` : the only document of a text.
-/

namespace GraphQLClient.Yaml

/-! ### Limits -/

/-- How many collections may lie in one another. -/
def nestingLimit : Nat := 2000

/-- How many parts all mentions together may stand for. -/
def mentionedLimit : Nat := 1000000

/-- How many mentions there may be however few names are given. -/
def mentionsAtLeast : Nat := 100

/-- How many mentions there may be for each name that is given. -/
def mentionsPerName : Nat := 10

/-! ### Readers -/

/-- What is left of a document, and what is known from the part before. -/
structure Progress where
  tokens : List Token
  /-- What the handles of tags stand for. -/
  rules : Entries String
  /-- For each name, how many names had been given before it was given last. -/
  names : Entries Nat
  /-- How many names have been given. -/
  given : Nat
  /-- The nodes with names that are complete. -/
  nodes : List (Nat × Node)
  /-- How many mentions there have been, and how many parts they stand for. -/
  mentions : Nat
  mentioned : Nat

/-- A reader of the tokens at the front of a document. -/
abbrev Reader (α : Type) := StateT Progress Option α

/-- The next token. -/
def peek : Reader Token := do
  match (← get).tokens with
  | t :: _ => pure t
  | [] => failure

/-- Drops the next token. -/
def skip : Reader Unit :=
  modify fun p => { p with tokens := p.tokens.tail }

/-- Drops the next token if it is a given one, and tells whether it was. -/
def accept (t : Token) : Reader Bool := do
  if (← peek) = t then
    skip
    pure true
  else pure false

/-! ### Names and tags -/

/-- What is written before a node. -/
structure Properties where
  /-- How many names had been given before its own. -/
  name : Option Nat
  /-- The name that its tag stands for. -/
  tag : Option String

/-- The name of a node, if one comes next.  Until the node is complete it stands for nothing. -/
def givenName : Reader (Option Nat) := do
  match ← peek with
  | .name n =>
    let p ← get
    set { p with tokens := p.tokens.tail, names := p.names.put n p.given, given := p.given + 1 }
    pure (some p.given)
  | _ => pure none

/-- The tag of a node, if one comes next. -/
def givenTag : Reader (Option String) := do
  match ← peek with
  | .tag t =>
    skip
    match t.name? (← get).rules with
    | some name => pure (some name)
    | none => failure
  | _ => pure none

/-- The properties of a node: a name and a tag in any order. -/
def properties : Reader Properties := do
  match ← givenName with
  | some n => pure ⟨some n, ← givenTag⟩
  | none =>
    match ← givenTag with
    | some tag => pure ⟨← givenName, some tag⟩
    | none => pure ⟨none, none⟩

/-- Whether there are any properties. -/
def Properties.any (p : Properties) : Bool := p.name.isSome || p.tag.isSome

/-- The scalar of a text with properties.  An empty text between marks that has a name counts as a
plain one. -/
def Properties.scalar (p : Properties) (text : String) (style : Style) : Node :=
  let style := if text.isEmpty && p.name.isSome && style = .quoted then .plain else style
  .scalar ⟨text, style, p.tag.elim .none Tag.Kind.ofName, p.tag.bind Tag.label?⟩

/-- The node of properties that nothing follows. -/
def Properties.alone (p : Properties) : Reader Node :=
  if p.any then pure (p.scalar "" .plain) else failure

/-- A node that is complete. -/
def Properties.complete (p : Properties) (n : Node) : Reader Node := do
  match p.name with
  | some number => modify fun q => { q with nodes := (number, n) :: q.nodes }
  | none => pure ()
  pure n

/-- The node that a mention of a name stands for. -/
def mention (name : String) : Reader Node := do
  let p ← get
  match (p.names.get? name).bind fun number => p.nodes.lookup number with
  | none => failure
  | some n =>
    let mentions := p.mentions + 1
    let mentioned := p.mentioned + n.events
    if mentionedLimit < mentioned then failure
    else if mentionsAtLeast ≤ mentions && mentionsPerName * p.given < mentions then failure
    else
      set { p with tokens := p.tokens.tail, mentions, mentioned }
      pure n

/-! ### Nodes -/

/-- Whether a token stands after a part of an entry of a block that is empty. -/
def endsPart (t : Token) : Bool := t = .key || t = .value || t = .blockEnd

/-- Whether a token stands after a part of an entry of a mapping in one line that is empty. -/
def endsFlowPart (t : Token) : Bool := t = .value || t = .comma || t = .flowMappingEnd

mutual

/-- A node in at most `room` more collections.  Only in a block may it be a block, and only in an
entry may it be a sequence that is not indented.  The number of steps bounds the calls that follow
one another. -/
def node : Nat → Nat → Bool → Bool → Reader Node
  | 0, _, _, _ => failure
  | steps + 1, room, block, entry => do
    match ← peek with
    | .mention name => mention name
    | _ =>
      let p ← properties
      let n ← content steps room block entry p
      p.complete n

/-- A node after its properties. -/
def content : Nat → Nat → Bool → Bool → Properties → Reader Node
  | 0, _, _, _, _ => failure
  | steps + 1, room, block, entry, p => do
    match ← peek with
    | .scalar text style =>
      skip
      pure (p.scalar text style)
    | .flowSequence =>
      skip
      collection steps room .flowSequence
    | .flowMapping =>
      skip
      collection steps room .flowMapping
    | .blockSequence =>
      if block then
        skip
        collection steps room .blockSequence
      else p.alone
    | .blockMapping =>
      if block then
        skip
        collection steps room .blockMapping
      else p.alone
    | .item => if entry then collection steps room .item else p.alone
    | _ => p.alone

/-- A collection after its first token, which tells its kind. -/
def collection : Nat → Nat → Token → Reader Node
  | 0, _, _ => failure
  | _ + 1, 0, _ => failure
  | steps + 1, room + 1, t =>
    match t with
    | .flowSequence => Node.sequence <$> flowItems steps room true
    | .flowMapping => Node.mapping <$> flowEntries steps room true
    | .blockSequence => Node.sequence <$> blockItems steps room
    | .item => Node.sequence <$> entryItems steps room
    | _ => Node.mapping <$> blockEntries steps room

/-- The items of a sequence in one line, up to its end. -/
def flowItems : Nat → Nat → Bool → Reader (List Node)
  | 0, _, _ => failure
  | steps + 1, room, first => do
    if ← accept .flowSequenceEnd then pure []
    else
      if !first then
        if !(← accept .comma) then failure
      if ← accept .flowSequenceEnd then pure []
      else
        let item ← if ← accept .key then flowPair steps room else node steps room false false
        let rest ← flowItems steps room false
        pure (item :: rest)

/-- A pair in a sequence in one line, which is a mapping of one entry. -/
def flowPair : Nat → Nat → Reader Node
  | 0, _ => failure
  | _ + 1, 0 => failure
  | steps + 1, room + 1 => do
    let ends (t : Token) : Bool := t = .comma || t = .flowSequenceEnd
    let next ← peek
    let key ← if ends next || next = .value then pure Node.empty else node steps room false false
    if ← accept .value then
      let value ← if ends (← peek) then pure Node.empty else node steps room false false
      pure (.mapping [(key, value)])
    else pure (.mapping [(key, Node.empty)])

/-- The entries of a mapping in one line, up to its end. -/
def flowEntries : Nat → Nat → Bool → Reader (List (Node × Node))
  | 0, _, _ => failure
  | steps + 1, room, first => do
    if ← accept .flowMappingEnd then pure []
    else
      if !first then
        if !(← accept .comma) then failure
      if ← accept .flowMappingEnd then pure []
      else
        let entry ←
          if ← accept .key then
            let key ← if endsFlowPart (← peek) then pure Node.empty else node steps room false false
            let value ← flowValue steps room
            pure (key, value)
          else if (← peek) = .value then
            let value ← flowValue steps room
            pure (Node.empty, value)
          else
            let key ← node steps room false false
            pure (key, Node.empty)
        let rest ← flowEntries steps room false
        pure (entry :: rest)

/-- The value of an entry of a mapping in one line, if there is one. -/
def flowValue : Nat → Nat → Reader Node
  | 0, _ => failure
  | steps + 1, room => do
    if ← accept .value then
      let next ← peek
      if next = .comma || next = .flowMappingEnd then pure Node.empty
      else node steps room false false
    else pure Node.empty

/-- The items of a block, up to its end. -/
def blockItems : Nat → Nat → Reader (List Node)
  | 0, _ => failure
  | steps + 1, room => do
    if ← accept .blockEnd then pure []
    else if ← accept .item then
      let next ← peek
      let item ←
        if next = .item || next = .blockEnd then pure Node.empty else node steps room true false
      let rest ← blockItems steps room
      pure (item :: rest)
    else failure

/-- The items of a sequence in an entry of a block that is not indented. -/
def entryItems : Nat → Nat → Reader (List Node)
  | 0, _ => failure
  | steps + 1, room => do
    if ← accept .item then
      let next ← peek
      let item ←
        if next = .item || endsPart next then pure Node.empty else node steps room true false
      let rest ← entryItems steps room
      pure (item :: rest)
    else pure []

/-- The entries of a block, up to its end. -/
def blockEntries : Nat → Nat → Reader (List (Node × Node))
  | 0, _ => failure
  | steps + 1, room => do
    if ← accept .blockEnd then pure []
    else
      let key ←
        if ← accept .key then blockPart steps room
        else if (← peek) = .value then pure Node.empty
        else failure
      let value ← if ← accept .value then blockPart steps room else pure Node.empty
      let rest ← blockEntries steps room
      pure ((key, value) :: rest)

/-- A key or a value of a block. -/
def blockPart : Nat → Nat → Reader Node
  | 0, _ => failure
  | steps + 1, room => do
    if endsPart (← peek) then pure Node.empty else node steps room true true

end

/-! ### Documents -/

/-- Whether a token tells something about the document that follows. -/
def isRule : Token → Bool
  | .version => true
  | .tagRule _ _ => true
  | .instruction => true
  | _ => false

/-- Drops what is told about a document and the sign of its start.  The version is told at most
once, and so is what a handle stands for. -/
def documentRules : Nat → Bool → Reader Unit
  | 0, _ => failure
  | steps + 1, versioned => do
    match ← peek with
    | .version =>
      if versioned then failure
      else
        skip
        documentRules steps true
    | .tagRule handle stem =>
      let p ← get
      if p.rules.contains handle then failure
      else
        set { p with tokens := p.tokens.tail, rules := p.rules.put handle stem }
        documentRules steps versioned
    | .instruction =>
      skip
      documentRules steps versioned
    | .documentStart => skip
    | _ => failure

/-- Whether nothing is written in a document that a token follows. -/
def endsDocument (t : Token) : Bool :=
  isRule t || t = .documentStart || t = .documentEnd || t = .stop

/-- A document whose start may have a sign. -/
def document (steps : Nat) : Reader Node := do
  let next ← peek
  if next = .stop then pure Node.empty
  else if isRule next || next = .documentStart then
    documentRules steps false
    if endsDocument (← peek) then pure Node.empty else node steps nestingLimit true false
  else node steps nestingLimit true false

/-- Whether a token may begin a node of a document. -/
def beginsNode : Token → Bool
  | .scalar _ _ => true
  | .flowSequence => true
  | .flowMapping => true
  | .blockSequence => true
  | .blockMapping => true
  | .name _ => true
  | .tag _ => true
  | _ => false

/-- Whether tokens after a document begin another one.  One whose start has no sign may follow only
a sign of the end. -/
def beginsDocument (signed : Bool) (ts : List Token) : Bool :=
  match ts with
  | [] => false
  | t :: _ =>
    if isRule t || t = .documentStart then
      match ts.dropWhile isRule with
      | .documentStart :: t :: _ => endsDocument t || beginsNode t
      | _ => false
    else !signed && beginsNode t

/-- Whether tokens may follow the only document. -/
def mayFollow : List Token → Bool
  | [] => false
  | .documentEnd :: ts => !beginsDocument false (ts.dropWhile (· = .documentEnd))
  | t :: ts => !isRule t && !beginsDocument true (t :: ts)

/-- The only document of a text. -/
def document? (text : String) : Option Node :=
  let ts := (tokens text).dropWhile (· = .documentEnd)
  match (document (6 * ts.length + 6)).run ⟨ts, [], [], 0, [], 0, 0⟩ with
  | some (n, p) => if mayFollow p.tokens then some n else none
  | none => none

end GraphQLClient.Yaml
