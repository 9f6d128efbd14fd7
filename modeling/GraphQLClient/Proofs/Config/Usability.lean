import GraphQLClient.Proofs.Config.Order

/-!
# The texts of a configuration

A configuration is checked when it is read.  The address is checked without its margins, and a type
in the table of accessor names only together with a field; so the texts of a configuration are what
its readers expect exactly if no margin stands before the address and no type without fields has a
name that is none.

## Main definitions

* `Config.IsChecked` : what the checks of a configuration ask for.
* `Config.IsUsable` : what the readers of its texts expect.

## Main results

* `Config.fault?_eq_none_iff` : a configuration without a fault is a checked one.
* `Config.parse_eq_ok_iff` : the configurations that are read.
* `Config.isUsable_iff_of_parse` : when the texts of a configuration are what its readers expect.
-/

namespace GraphQLClient

/-! ### Margins -/

namespace Text

theorem trimChars_prefix (s : List Char) : trimChars s <+: trimLeft s := by
  rw [trimChars, ← List.reverse_suffix, List.reverse_reverse]
  exact List.dropWhile_suffix _

/-- A text that starts with no blank keeps its start. -/
theorem trimLeft_eq_self {s : List Char} (h : ∀ c ∈ s.head?, isBlank c = false) :
    trimLeft s = s := by
  cases s with
  | nil => rfl
  | cons c rest => exact trimLeft_cons_of_not_blank (h c rfl) rest

theorem startsWith_iff {start s : List Char} : startsWith start s = true ↔ start <+: s :=
  List.isPrefixOf_iff_prefix

end Text

namespace Config

/-- A text that is an address of the web without its margins is one with them exactly if it starts
with no blank. -/
theorem isWebUrl_iff_of_trim {url : String} (h : isWebUrl (Text.trim url) = true) :
    isWebUrl url = true ↔ ∀ c ∈ url.toList.head?, Text.isBlank c = false := by
  simp only [isWebUrl, Bool.or_eq_true, Text.startsWith_iff, Text.trim, String.toList_ofList] at h ⊢
  constructor
  · have hblank : Text.isBlank 'h' = false := by decide
    rintro (⟨rest, hrest⟩ | ⟨rest, hrest⟩) c hc <;>
    · rw [← hrest] at hc
      exact Option.some.inj hc ▸ hblank
  · intro hblank
    have hfront := Text.trimChars_prefix url.toList
    rw [Text.trimLeft_eq_self hblank] at hfront
    exact h.imp (·.trans hfront) (·.trans hfront)

/-! ### Checks -/

variable {c : Config}

/-- What the checks of a configuration ask for. -/
structure IsChecked (c : Config) : Prop where
  url : isWebUrl (Text.trim c.endpoint.url) = true
  schemaPath : ∀ path, c.schema = .document path → Text.isBlankText path = false
  scalars : ∀ name ∈ c.scalars.keys, Name.isName name = true
  renames : ∀ typeName field accessor, (typeName, field, accessor) ∈ c.renameTriples →
    Name.isName typeName = true ∧ Name.isName field = true ∧ Name.isName accessor = true

/-- What the readers of the texts of a configuration expect: an address of the web, a path of the
schema that is not blank, and names wherever a table has names. -/
structure IsUsable (c : Config) : Prop where
  url : isWebUrl c.endpoint.url = true
  schemaPath : ∀ path, c.schema = .document path → Text.isBlankText path = false
  scalars : ∀ name ∈ c.scalars.keys, Name.isName name = true
  renames : ∀ p ∈ c.renames, Name.isName p.1 = true ∧
    ∀ q ∈ p.2, Name.isName q.1 = true ∧ Name.isName q.2 = true

theorem urlFault?_eq_none_iff {url : String} :
    urlFault? url = none ↔ isWebUrl (Text.trim url) = true := by
  have hempty : (Text.trim url).isEmpty = true → isWebUrl (Text.trim url) = false := by
    intro h
    rw [String.isEmpty_iff.mp h]
    decide
  cases h : (Text.trim url).isEmpty
  · cases hweb : isWebUrl (Text.trim url) <;> simp [urlFault?, h, hweb]
  · simp [urlFault?, h, hempty h]

theorem schemaFault?_eq_none_iff {source : SchemaSource} :
    schemaFault? source = none ↔
      ∀ path, source = .document path → Text.isBlankText path = false := by
  cases source with
  | document path => cases h : Text.isBlankText path <;> simp [schemaFault?, h]
  | introspection => simp [schemaFault?]

theorem renameFault?_eq_none_iff {typeName field accessor : String} :
    renameFault? (typeName, field, accessor) = none ↔
      Name.isName typeName = true ∧ Name.isName field = true ∧ Name.isName accessor = true := by
  simp [renameFault?]

/-- A configuration without a fault is a checked one. -/
theorem fault?_eq_none_iff : c.fault? = none ↔ c.IsChecked := by
  simp only [fault?, Option.or_eq_none_iff, urlFault?_eq_none_iff, schemaFault?_eq_none_iff,
    Option.map_eq_none_iff, List.find?_eq_none, List.findSome?_eq_none_iff, Prod.forall,
    renameFault?_eq_none_iff, Bool.not_eq_true', Bool.not_eq_false]
  constructor
  · rintro ⟨hurl, hschema, hscalars, hrenames⟩
    exact ⟨hurl, hschema, hscalars, hrenames⟩
  · rintro ⟨hurl, hschema, hscalars, hrenames⟩
    exact ⟨hurl, hschema, hscalars, hrenames⟩

/-- The configurations that are read: the text describes them, and they are checked. -/
theorem parse_eq_ok_iff {path : FilePath} {text : String} :
    parse path text = .ok c ↔ ∃ format, Format.ofPath? path = some format ∧
      (format.setting? text).bind (ofSetting? format.dialect) = some c ∧ c.IsChecked := by
  have hcheck (read : Config) : check path read = .ok c ↔ read = c ∧ c.fault? = none := by
    unfold check
    constructor
    · intro h
      split at h
      · next hfault => exact ⟨Except.ok.inj h, Except.ok.inj h ▸ hfault⟩
      · cases h
    · rintro ⟨rfl, hfault⟩
      rw [hfault]
  rw [← fault?_eq_none_iff, parse]
  cases Format.ofPath? path with
  | none => simp
  | some format =>
    simp only [Option.some_inj, exists_eq_left']
    cases (format.setting? text).bind (ofSetting? format.dialect) with
    | none => simp
    | some read => simp [hcheck]

/-! ### Texts with margins -/

/-- A checked configuration is what the readers of its texts expect exactly if no margin stands
before the address and the types without fields have names. -/
theorem IsChecked.isUsable_iff (h : c.IsChecked) :
    c.IsUsable ↔ (∀ ch ∈ c.endpoint.url.toList.head?, Text.isBlank ch = false) ∧
      ∀ typeName, (typeName, []) ∈ c.renames → Name.isName typeName = true := by
  rw [← isWebUrl_iff_of_trim h.url]
  constructor
  · exact fun husable => ⟨husable.url, fun typeName hmem => (husable.renames _ hmem).1⟩
  · rintro ⟨hurl, hempty⟩
    refine ⟨hurl, h.schemaPath, h.scalars, fun ⟨typeName, names⟩ hmem => ?_⟩
    have hnames (q : String × String) (hq : q ∈ names) :=
      h.renames typeName q.1 q.2 (mem_renameTriples.mpr ⟨names, hmem, hq⟩)
    refine ⟨?_, fun q hq => (hnames q hq).2⟩
    cases names with
    | nil => exact hempty typeName hmem
    | cons q rest => exact (hnames q List.mem_cons_self).1

/-- **The texts of a configuration.** Whatever its format, a configuration that is read is a checked
one: without its margins the address is one of the web, the path of the schema is not blank, and the
scalars, the fields with accessor names and their types have names.  The texts as they are stored
are what their readers expect exactly if no margin stands before the address and the types without
fields have names, too. -/
theorem isUsable_iff_of_parse {path : FilePath} {text : String} (h : parse path text = .ok c) :
    c.IsChecked ∧
      (c.IsUsable ↔ (∀ ch ∈ c.endpoint.url.toList.head?, Text.isBlank ch = false) ∧
        ∀ typeName, (typeName, []) ∈ c.renames → Name.isName typeName = true) := by
  obtain ⟨_, _, _, hchecked⟩ := parse_eq_ok_iff.mp h
  exact ⟨hchecked, hchecked.isUsable_iff⟩

/-- The configuration that is read has what is found in it. -/
theorem exists_parse_of_map {α : Type} (path : FilePath) (text : String) (f : Config → α) {a : α}
    (h : (parse path text).toOption.map f = some a) : ∃ c, parse path text = .ok c ∧ f c = a := by
  obtain ⟨c, hparsed, ha⟩ := Option.map_eq_some_iff.mp h
  cases hresult : parse path text with
  | error e => rw [hresult] at hparsed; cases hparsed
  | ok c' => rw [hresult] at hparsed; exact ⟨c', rfl, Option.some.inj hparsed ▸ ha⟩

/-- A configuration with a margin behind the address. -/
def shipConfigText : String :=
  "endpoint:\n  url: 'http://localhost/graphql '\nschema:\n  path: schema.graphql\n" ++
    "scalars:\n  Date: datetime\nrenames:\n  Ship:\n    id: hull\n"

/-- A margin behind the address changes nothing for its reader. -/
theorem isUsable_shipConfig :
    ∃ c, parse (.ofText "ships.yml") shipConfigText = .ok c ∧
      c.endpoint.url = "http://localhost/graphql " ∧ c.renames = [("Ship", [("id", "hull")])] ∧
      c.IsUsable := by
  obtain ⟨c, hparsed, hc⟩ := exists_parse_of_map (.ofText "ships.yml") shipConfigText
    (fun c => (c.endpoint.url, c.renames))
    (a := ("http://localhost/graphql ", [("Ship", [("id", "hull")])])) (by decide +kernel)
  obtain ⟨hurl, hrenames⟩ := Prod.mk.inj hc
  have hhead : "http://localhost/graphql ".toList.head? = some 'h' := by decide
  refine ⟨c, hparsed, hurl, hrenames, (isUsable_iff_of_parse hparsed).2.mpr ⟨?_, ?_⟩⟩
  · rw [hurl, hhead]
    rintro c ⟨⟩
    decide
  · rw [hrenames]
    intro typeName hmem
    cases List.mem_singleton.mp hmem

/-- A configuration with a margin before the address, and with a type without fields. -/
def planetConfigText : String :=
  "\x7b\"endpoint\": \x7b\"url\": \"\u00a0http://localhost/graphql\"\x7d, " ++
    "\"renames\": \x7b\"home-planet\": \x7b\x7d\x7d\x7d"

/-- The configuration is read, but its address does not start as one of the web, and its type has no
name. -/
theorem parse_planetConfig :
    ∃ c, parse (.ofText "planets.json") planetConfigText = .ok c ∧
      c.endpoint.url = "\u00a0http://localhost/graphql" ∧ isWebUrl c.endpoint.url = false ∧
      (∃ p ∈ c.renames, p.1 = "home-planet" ∧ Name.isName p.1 = false) ∧ ¬c.IsUsable := by
  obtain ⟨c, hparsed, hc⟩ := exists_parse_of_map (.ofText "planets.json") planetConfigText
    (fun c => (c.endpoint.url, c.renames))
    (a := ("\u00a0http://localhost/graphql", [("home-planet", [])])) (by decide +kernel)
  obtain ⟨hurl, hrenames⟩ := Prod.mk.inj hc
  have hweb : isWebUrl c.endpoint.url = false := by
    rw [hurl]
    decide
  refine ⟨c, hparsed, hurl, hweb, ⟨("home-planet", []), ?_, rfl, by decide⟩, fun husable => ?_⟩
  · rw [hrenames]
    exact List.mem_singleton_self _
  · exact Bool.false_ne_true (hweb.symm.trans husable.url)

end Config

end GraphQLClient
