import GraphQLClient.Proofs.Document.References
import GraphQLClient.Proofs.Document.Success
import GraphQLClient.Proofs.Entries.Mentions

/-!
# Declared variables

The document of an operation declares exactly the variables that its arguments refer to, in the
order in which its text mentions them, each with the type that the schema declares at every place
where it stands.

One table of variables goes through the whole translation.  What a part of the translation does to
the table depends only on the references in what it writes: `Variables.Meets` says that the table
after it holds the names before it, followed by the new names in order of first mention, and the
declared type for every reference.  The relation composes, so every list of parts follows from its
head and its tail.

## Main definitions

* `Variables.Meets` : what references do to the table of variables.

## Main results

* `Catalog.serialize_meets`, `Catalog.argumentsOf_meets`, `Catalog.selectionOf_meets` : what values,
  arguments and fields do to the table.
* `Catalog.parameters_documentOf` : the variables that a document declares.
-/

namespace GraphQLClient

/-- What references do to a table of variables.  New names go to the end in order of first mention,
declarations stay, and every reference stands at a place of the declared type. -/
structure Variables.Meets (table : Variables) (references : List (String × Option TypeExpr))
    (table' : Variables) : Prop where
  keys : Entries.keys table' = (references.map Prod.fst).foldl mention (Entries.keys table)
  kept : ∀ name type, table.get? name = some type → table'.get? name = some type
  types : ∀ r ∈ references, ∃ type, r.2 = some type ∧ table'.get? r.1 = some type

namespace Variables.Meets

variable {table table' table'' : Variables}
  {references references' : List (String × Option TypeExpr)}

theorem refl (table : Variables) : table.Meets [] table :=
  ⟨rfl, fun _ _ h => h, by simp⟩

theorem append (h : table.Meets references table') (h' : table'.Meets references' table'') :
    table.Meets (references ++ references') table'' where
  keys := by rw [h'.keys, h.keys, List.map_append, List.foldl_append]
  kept := fun name type hname => h'.kept name type (h.kept name type hname)
  types := by
    intro r hr
    rcases List.mem_append.mp hr with hr | hr
    · obtain ⟨type, hr2, hget⟩ := h.types r hr
      exact ⟨type, hr2, h'.kept r.1 type hget⟩
    · exact h'.types r hr

end Variables.Meets

/-- Recording a variable meets one reference. -/
theorem Variables.record_meets {table table' : Variables} {name : String} {type : TypeExpr}
    {l : Literal} (s : Schema) (h : table.record name type = (.ok l, table')) :
    table.Meets (l.references s (some type)) table' := by
  obtain ⟨-, rfl, ⟨hget, htable⟩ | ⟨hget, rfl⟩⟩ := Variables.record_eq_ok.mp h
  · have hmem : name ∈ Entries.keys table := by
      by_contra hmem
      rw [Entries.get?_eq_none.mpr hmem] at hget
      simp at hget
    rw [Literal.references, htable]
    exact ⟨by simp [mention, hmem], fun _ _ h => h, by simpa using hget⟩
  · have hmem : name ∉ Entries.keys table := Entries.get?_eq_none.mp hget
    rw [Literal.references]
    refine ⟨by simp [mention, hmem], fun other known hother => ?_, ?_⟩
    · rw [Entries.get?_append, hother, Option.some_or]
    · simp [Entries.get?_append, hget, Entries.get?_cons]

namespace Catalog

/-- A literal without variables leaves the table as it is. -/
theorem meets_of_variableNames_eq_nil (s : Schema) (type? : Option TypeExpr) {l : Literal}
    (hl : l.variableNames = []) (table : Variables) : table.Meets (l.references s type?) table := by
  rw [Literal.references_eq_nil s type? hl]
  exact .refl table

/-- A declaration that was found by a name is the one that its own name leads to. -/
theorem declaredType?_of_find? {definitions : List Sdl.InputValue} {name : String}
    {definition : Sdl.InputValue}
    (h : definitions.find? (fun d => d.name == name) = some definition) :
    Sdl.declaredType? definitions definition.name = some definition.type := by
  have hname : definition.name = name := by simpa using List.find?_some h
  rw [Sdl.declaredType?, hname, h, Option.map_some]

theorem declaredType?_of_inputField? {definitions : List Sdl.InputValue} {key : String}
    {definition : Sdl.InputValue} (h : inputField? definitions key = some definition) :
    Sdl.declaredType? definitions definition.name = some definition.type := by
  rcases Option.or_eq_some_iff.mp h with h | ⟨-, h⟩
  · exact declaredType?_of_find? h
  · exact declaredType?_of_find? h

theorem declaredType?_of_argument? {h : FieldHead} {name : String} {definition : Sdl.InputValue}
    (hd : h.argument? name = some definition) :
    Sdl.declaredType? h.definition.args definition.name = some definition.type := by
  rcases Option.or_eq_some_iff.mp hd with hd | ⟨-, hd⟩
  · exact declaredType?_of_find? hd
  · exact declaredType?_of_find? hd

mutual

/-- Writing a value meets the references of its literal. -/
theorem serialize_meets (c : Catalog) : (type : TypeExpr) → (v : Value) →
    {table table' : Variables} → {l : Literal} →
      c.serialize type v table = (.ok l, table') →
        table.Meets (l.references c.schema (some type)) table'
  | type, .null, _, _, _, h => by
      rw [serialize_null] at h
      cases h
      rw [Literal.references]
      exact .refl _
  | type, .var name, _, _, _, h => by
      rw [serialize_var] at h
      exact Variables.record_meets c.schema h
  | .list item _, .list items, _, _, _, h => by
      obtain ⟨ls, rfl, hitems⟩ := serialize_list_eq_ok.mp h
      rw [Literal.references]
      exact serializeItems_meets c item items hitems
  | .named typeName required, .list items, _, _, _, h => by
      rw [serialize_list_named, Prod.mk.injEq] at h
      obtain ⟨hl, rfl⟩ := h
      exact meets_of_variableNames_eq_nil c.schema _ (variableNames_of_serializeWhole hl) _
  | .list item required, .object fields, _, _, _, h => by
      rw [serialize_object_list] at h
      simp at h
  | .named typeName required, .object fields, _, _, _, h => by
      cases hdefinitions : c.schema.inputFieldsOf? typeName with
      | none =>
        rw [serialize_object_whole required hdefinitions, Prod.mk.injEq] at h
        obtain ⟨hl, rfl⟩ := h
        exact meets_of_variableNames_eq_nil c.schema _ (variableNames_of_serializeWhole hl) _
      | some definitions =>
        obtain ⟨ls, rfl, hfields⟩ := (serialize_input_eq_ok hdefinitions).mp h
        have hplace : (some (TypeExpr.named typeName required)).elim [] c.schema.inputFieldsAt =
            definitions := by
          simp [Schema.inputFieldsAt, hdefinitions]
        rw [Literal.references, hplace]
        exact serializeFields_meets c typeName definitions fields hfields
  | type, .boolean _, _, _, _, h | type, .int _, _, _, _, h | type, .float _, _, _, _, h
  | type, .string _, _, _, _, h | type, .enum _, _, _, _, h | type, .dateTime _, _, _, _, h
  | type, .json _, _, _, _, h => by
      rw [serialize_of_isSingle type rfl, Prod.mk.injEq] at h
      obtain ⟨hl, rfl⟩ := h
      exact meets_of_variableNames_eq_nil c.schema _ (variableNames_of_serializeSingle hl) _

/-- Writing the items of a list meets the references of their literals. -/
theorem serializeItems_meets (c : Catalog) (type : TypeExpr) : (items : List Value) →
    {table table' : Variables} → {ls : List Literal} →
      c.serializeItems type items table = (.ok ls, table') →
        table.Meets (Literal.itemsReferences c.schema (some type) ls) table'
  | [], _, _, _, h => by
      rw [serializeItems_nil] at h
      cases h
      rw [Literal.itemsReferences]
      exact .refl _
  | item :: rest, _, _, _, h => by
      obtain ⟨l, ls', middle, rfl, hitem, hrest⟩ := serializeItems_cons_eq_ok.mp h
      rw [Literal.itemsReferences]
      exact (serialize_meets c type item hitem).append (serializeItems_meets c type rest hrest)

/-- Writing the fields of an input object meets the references of their literals. -/
theorem serializeFields_meets (c : Catalog) (typeName : String)
    (definitions : List Sdl.InputValue) : (fields : List (String × Value)) →
      {table table' : Variables} → {ls : List (String × Literal)} →
        c.serializeFields typeName definitions fields table = (.ok ls, table') →
          table.Meets (Literal.fieldsReferences c.schema definitions ls) table'
  | [], _, _, _, h => by
      rw [serializeFields_nil] at h
      cases h
      rw [Literal.fieldsReferences]
      exact .refl _
  | (key, value) :: rest, _, _, _, h => by
      obtain ⟨definition, l, ls', middle, hdefinition, rfl, hvalue, hrest⟩ :=
        serializeFields_cons_eq_ok.mp h
      rw [Literal.fieldsReferences, declaredType?_of_inputField? hdefinition]
      exact (serialize_meets c definition.type value hvalue).append
        (serializeFields_meets c typeName definitions rest hrest)

end

/-- Writing the arguments of a field meets the references of their literals. -/
theorem argumentsOf_meets (c : Catalog) (head : FieldHead) (arguments : Entries Value)
    {table table' : Variables} {ls : List (String × Literal)}
    (h : c.argumentsOf head arguments table = .ok (ls, table')) :
    table.Meets (Literal.fieldsReferences c.schema head.definition.args ls) table' := by
  induction arguments generalizing table ls with
  | nil =>
    rw [argumentsOf_nil] at h
    cases h
    rw [Literal.fieldsReferences]
    exact .refl _
  | cons argument rest ih =>
    obtain ⟨name, value⟩ := argument
    obtain ⟨definition, l, ls', middle, hdefinition, rfl, hvalue, hrest⟩ :=
      argumentsOf_cons_eq_ok.mp h
    rw [Literal.fieldsReferences, declaredType?_of_argument? hdefinition]
    exact (serialize_meets c definition.type value hvalue).append (ih hrest)

mutual

/-- Writing a field meets the references of its arguments, and then those of the fields below it. -/
theorem selectionOf_meets (c : Catalog) (typename : Bool) : (f : Field) →
    {table table' : Variables} → {s : Document.Selection} →
      c.selectionOf typename f table = .ok (s, table') →
        table.Meets ((f.written typename s).flatMap fun (h, arguments) =>
          Literal.fieldsReferences c.schema h.definition.args arguments) table'
  | .leaf h, _, _, _, hs => by
      obtain ⟨alias?, arguments, -, harguments, rfl⟩ := selectionOf_leaf_eq_ok.mp hs
      rw [Field.written, List.flatMap_singleton]
      exact argumentsOf_meets c h h.arguments harguments
  | .composite h children, _, _, _, hs => by
      obtain ⟨alias?, arguments, selections, middle, -, harguments, -, hselections, rfl⟩ :=
        selectionOf_composite_eq_ok.mp hs
      rw [Field.written, Document.withoutTypename_cons, List.flatMap_cons]
      exact (argumentsOf_meets c h h.arguments harguments).append
        (selectionsOf_meets c typename children hselections)

/-- Writing fields meets the references of each of them. -/
theorem selectionsOf_meets (c : Catalog) (typename : Bool) : (fields : List Field) →
    {table table' : Variables} → {ss : List Document.Selection} →
      c.selectionsOf typename fields table = .ok (ss, table') →
        table.Meets ((Field.writtenAll typename fields ss).flatMap fun (h, arguments) =>
          Literal.fieldsReferences c.schema h.definition.args arguments) table'
  | [], _, _, _, hs => by
      rw [selectionsOf_nil] at hs
      cases hs
      rw [Field.writtenAll, List.flatMap_nil]
      exact .refl _
  | f :: rest, _, _, _, hs => by
      obtain ⟨s, ss', middle, rfl, hs, hrest⟩ := selectionsOf_cons_eq_ok.mp hs
      rw [Field.writtenAll, List.flatMap_append]
      exact (selectionOf_meets c typename f hs).append
        (selectionsOf_meets c typename rest hrest)

end

/-! ### The references of a document are those of its fields -/

mutual

/-- A selection refers to the variables of its field and of the fields below it. -/
theorem variableNames_of_selectionOf (c : Catalog) (typename : Bool) : (f : Field) →
    {table table' : Variables} → {s : Document.Selection} →
      c.selectionOf typename f table = .ok (s, table') →
        ((f.written typename s).flatMap fun p => Literal.fieldsVariableNames p.2) = s.variableNames
  | .leaf h, _, _, _, hs => by
      obtain ⟨alias?, arguments, -, -, rfl⟩ := selectionOf_leaf_eq_ok.mp hs
      rw [Field.written, List.flatMap_singleton, Document.Selection.variableNames,
        Document.selectionsVariableNames, List.append_nil]
  | .composite h children, _, _, _, hs => by
      obtain ⟨alias?, arguments, selections, middle, -, -, -, hselections, rfl⟩ :=
        selectionOf_composite_eq_ok.mp hs
      rw [Field.written, Document.withoutTypename_cons, List.flatMap_cons,
        variableNames_of_selectionsOf c typename children hselections,
        Document.Selection.variableNames, Document.selectionsVariableNames_typename]

/-- Selections refer to the variables of their fields. -/
theorem variableNames_of_selectionsOf (c : Catalog) (typename : Bool) : (fields : List Field) →
    {table table' : Variables} → {ss : List Document.Selection} →
      c.selectionsOf typename fields table = .ok (ss, table') →
        ((Field.writtenAll typename fields ss).flatMap fun p => Literal.fieldsVariableNames p.2) =
          Document.selectionsVariableNames ss
  | [], _, _, _, hs => by
      rw [selectionsOf_nil] at hs
      cases hs
      rw [Field.writtenAll, List.flatMap_nil, Document.selectionsVariableNames]
  | f :: rest, _, _, _, hs => by
      obtain ⟨s, ss', middle, rfl, hs, hrest⟩ := selectionsOf_cons_eq_ok.mp hs
      rw [Field.writtenAll, List.flatMap_append, variableNames_of_selectionOf c typename f hs,
        variableNames_of_selectionsOf c typename rest hrest, Document.selectionsVariableNames]

end

/-- The fields of an operation hold every reference of its document. -/
theorem map_fst_references_documentOf {c : Catalog} {o : Operation} {d : Document}
    (h : c.documentOf o = .ok d) : (d.references c.schema o).map Prod.fst = d.variableNames := by
  obtain ⟨-, name, selections, table, -, hselections, rfl⟩ := documentOf_eq_ok.mp h
  rw [Document.references, List.map_flatMap]
  simp only [Literal.map_fst_fieldsReferences]
  exact variableNames_of_selectionsOf c o.typename o.selections hselections

/-- What an operation refers to is what its table of variables meets. -/
theorem documentOf_meets {c : Catalog} {o : Operation} {d : Document}
    (h : c.documentOf o = .ok d) :
    Variables.Meets [] (d.references c.schema o) d.parameters := by
  obtain ⟨-, name, selections, table, -, hselections, rfl⟩ := documentOf_eq_ok.mp h
  exact selectionsOf_meets c o.typename o.selections hselections

/-- The declared names are the names that the document refers to, each once, in the order of the
first references. -/
theorem keys_parameters {c : Catalog} {o : Operation} {d : Document}
    (h : c.documentOf o = .ok d) : Entries.keys d.parameters = d.variableNames.eraseDups := by
  rw [(documentOf_meets h).keys, map_fst_references_documentOf h, Entries.keys_nil,
    foldl_mention_nil]

theorem nodup_keys_parameters {c : Catalog} {o : Operation} {d : Document}
    (h : c.documentOf o = .ok d) : (Entries.keys d.parameters).Nodup := by
  rw [(documentOf_meets h).keys]
  exact nodup_foldl_mention List.nodup_nil _

theorem mem_keys_parameters {c : Catalog} {o : Operation} {d : Document}
    (h : c.documentOf o = .ok d) {name : String} :
    name ∈ Entries.keys d.parameters ↔ name ∈ d.variableNames := by
  rw [keys_parameters h, List.mem_eraseDups]

/-- **A document declares the variables it refers to.** The declared names are the names that the
document refers to, each once, in the order of the first references; and every reference stands at
a place for which the schema declares the type of the variable. -/
theorem parameters_documentOf {c : Catalog} {o : Operation} {d : Document}
    (h : c.documentOf o = .ok d) :
    Entries.keys d.parameters = d.variableNames.eraseDups ∧
      (Entries.keys d.parameters).Nodup ∧
      (∀ name, name ∈ Entries.keys d.parameters ↔ name ∈ d.variableNames) ∧
      (d.references c.schema o).map Prod.fst = d.variableNames ∧
      ∀ r ∈ d.references c.schema o,
        ∃ type, r.2 = some type ∧ Entries.get? d.parameters r.1 = some type :=
  ⟨keys_parameters h, nodup_keys_parameters h, fun _ => mem_keys_parameters h,
    map_fst_references_documentOf h, (documentOf_meets h).types⟩

/-! ### A search with nested variables -/

/-- A filter of searches: tags, a filter inside it, and a size. -/
def filterFields : List Sdl.InputValue :=
  [⟨none, "tags", .list (.named "String" true) false, none, []⟩,
    ⟨none, "within", .named "Filter" false, none, []⟩,
    ⟨none, "size", .named "Int" true, none, []⟩]

/-- A catalog for searches with filters; labels are a scalar without a codec of its own. -/
def searching : Catalog :=
  .ofSchema
    ⟨[("String", ⟨none, "String", [], .scalar⟩), ("Int", ⟨none, "Int", [], .scalar⟩),
        ("Labels", ⟨none, "Labels", [], .scalar⟩),
        ("Filter", ⟨none, "Filter", [], .input filterFields⟩)],
      [], [], [(.query, "Query")]⟩

/-- A field whose results can be searched again. -/
def searchField : Sdl.FieldDefinition :=
  ⟨none, "search",
    [⟨none, "filter", .named "Filter" true, none, []⟩,
      ⟨none, "labels", .named "Labels" false, none, []⟩,
      ⟨none, "first", .named "Int" true, none, []⟩],
    .named "Query" false, []⟩

/-- A search for a tag inside two filters, and a search of its results with the size of the outer
filter. -/
def searchOperation : Operation :=
  ⟨.query, none, "Query",
    [.composite
      ⟨"Query", searchField, none, "search",
        [("filter", .object
          [("within", .object [("tags", .list [.string "new", .var "tag"])]),
            ("size", .var "size")])]⟩
      [.composite
        ⟨"Query", searchField, some "again", "again", [("first", .var "size")]⟩
        [.leaf ⟨"Query", ⟨none, "count", [], .named "Int" false, []⟩, none, "count", []⟩]]],
    true⟩

/-- The document of `searchOperation`. -/
def searchDocument : Document :=
  ⟨.query, none, [("tag", .named "String" true), ("size", .named "Int" true)],
    [.field none "search"
      [("filter", .object
        [("within", .object [("tags", .list [.string "new", .var "tag"])]),
          ("size", .var "size")])]
      [.typename,
        .field (some "again") "search" [("first", .var "size")]
          [.typename, .field none "count" [] []]]]⟩

theorem documentOf_searchOperation :
    searching.documentOf searchOperation = .ok searchDocument := rfl

theorem parameters_searchDocument :
    searching.documentOf searchOperation = .ok searchDocument ∧
      ["tag", "size"] = searchDocument.variableNames.eraseDups ∧
      ["tag", "size"].Nodup ∧
      (∀ name, name ∈ ["tag", "size"] ↔ name ∈ searchDocument.variableNames) ∧
      (searchDocument.references searching.schema searchOperation).map Prod.fst =
        searchDocument.variableNames ∧
      ∀ r ∈ searchDocument.references searching.schema searchOperation,
        ∃ type, r.2 = some type ∧ Entries.get? searchDocument.parameters r.1 = some type :=
  ⟨documentOf_searchOperation, parameters_documentOf documentOf_searchOperation⟩

end Catalog

end GraphQLClient
