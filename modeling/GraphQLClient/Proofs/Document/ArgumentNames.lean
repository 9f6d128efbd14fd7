import GraphQLClient.Proofs.Codec.InputKeys
import GraphQLClient.Proofs.Document.Mirror

/-!
# Names that a document repeats

A document has to give every argument of a field once, and every key of an input object once.  The
arguments of a field keep one value for every name that they were given by, and so do the keys of an
object, but a declared name may be given in more than one way: as it is, and as any accessor name
that is converted to it.  What is given in two ways is written twice.

## Main definitions

* `FieldHead.WritesOnce` : the arguments of a field, as a document has to write them.
* `FieldHead.GivesOnce` : the arguments that are given in one way only.

## Main results

* `Catalog.writesOnce_argumentsOf_iff` : one field.
* `Catalog.writesOnce_selectionOf_iff` : all fields of a selection.
-/

namespace GraphQLClient

/-- The arguments of a field have distinct names, and so have the fields of every input object in
them. -/
structure FieldHead.WritesOnce (s : Schema) (h : FieldHead) (arguments : Entries Literal) :
    Prop where
  names_nodup : (Entries.keys arguments).Nodup
  inputs_nodup : Literal.fieldsEveryInput s List.Nodup h.definition.args arguments

/-- No two of the names that arguments of a field are given by stand for one declared argument, and
no two keys of an input object in them for one declared field. -/
structure FieldHead.GivesOnce (s : Schema) (h : FieldHead) : Prop where
  names_nodup : ((Entries.keys h.arguments).map (Sdl.declaredName h.definition.args)).Nodup
  inputs_nodup : Value.fieldsEveryInput s List.Nodup h.definition.args h.arguments

namespace Catalog

variable {c : Catalog} {table table' : Variables}

/-- The arguments of a field are written once each exactly if they are given in one way only. -/
theorem writesOnce_argumentsOf_iff {h : FieldHead} {arguments : Entries Literal}
    (harguments : c.argumentsOf h h.arguments table = .ok (arguments, table')) :
    h.WritesOnce c.schema arguments ↔ h.GivesOnce c.schema := by
  have hinputs : Literal.fieldsEveryInput c.schema List.Nodup h.definition.args arguments ↔
      Value.fieldsEveryInput c.schema List.Nodup h.definition.args h.arguments :=
    fieldsEveryInput_argumentsOf harguments
  have hkeys := keys_argumentsOf harguments
  exact ⟨fun hw => ⟨hkeys ▸ hw.names_nodup, hinputs.mp hw.inputs_nodup⟩,
    fun hg => ⟨hkeys ▸ hg.names_nodup, hinputs.mpr hg.inputs_nodup⟩⟩

/-- **When a document repeats no name.** Each field is written with arguments of distinct names, and
with distinct keys in every input object among them, exactly if no two of the names that it was
given stand for one declared argument, and no two keys of an input object for one declared field. -/
theorem writesOnce_selectionOf_iff {typename : Bool} {f : Field} {s : Document.Selection}
    (h : c.selectionOf typename f table = .ok (s, table')) :
    f.Mirrors typename
      (fun h arguments => h.WritesOnce c.schema arguments ↔ h.GivesOnce c.schema) s :=
  selectionOf_mirrors (fun _ _ _ _ harguments => writesOnce_argumentsOf_iff harguments) f h

/-! ### Sizes that are given twice -/

/-- A catalog for searches by size. -/
def sizing : Catalog :=
  .ofSchema
    ⟨[("Int", ⟨none, "Int", [], .scalar⟩),
        ("Range", ⟨none, "Range", [],
          .input [⟨none, "minSize", .named "Int" false, none, []⟩]⟩)],
      [], [], [(.query, "Query")]⟩

/-- A search whose results can be searched again. -/
def sizedSearch : FieldHead :=
  ⟨"Query",
    ⟨none, "search",
      [⟨none, "range", .named "Range" false, none, []⟩,
        ⟨none, "maxSize", .named "Int" false, none, []⟩],
      .named "Query" false, []⟩,
    none, "search", []⟩

/-- A search, given a largest size and then a range, and a search of its results. -/
def narrowedSearch : Field :=
  ((Field.composite sizedSearch
    [(Field.composite sizedSearch
        [.leaf ⟨"Query", ⟨none, "count", [], .named "Int" false, []⟩, none, "count", []⟩]
      ).withArguments [("max_size", .var "size")]]
    ).withArguments [("maxSize", .var "size")]
    ).withArguments [("range", .object [("min_size", .int 3)])]

/-- The selection of `narrowedSearch`. -/
def narrowedSelection : Document.Selection :=
  .field none "search"
    [("maxSize", .var "size"), ("range", .object [("minSize", .int "3")])]
    [.field none "search" [("maxSize", .var "size")] [.field none "count" [] []]]

theorem selectionOf_narrowedSearch :
    sizing.selectionOf false narrowedSearch [] =
      .ok (narrowedSelection, [("size", .named "Int" false)]) := rfl

theorem writesOnce_narrowedSelection_iff :
    sizing.selectionOf false narrowedSearch [] =
        .ok (narrowedSelection, [("size", .named "Int" false)]) ∧
      narrowedSearch.Mirrors false
        (fun h arguments => h.WritesOnce sizing.schema arguments ↔ h.GivesOnce sizing.schema)
        narrowedSelection :=
  ⟨selectionOf_narrowedSearch, writesOnce_selectionOf_iff selectionOf_narrowedSearch⟩

/-- A search that is given a largest size by both of its names, and a range with both names of a
smallest size. -/
def resizedSearch : Field :=
  ((Field.leaf sizedSearch).withArguments [("max_size", .int 1)]).withArguments
    [("maxSize", .int 2), ("range", .object [("min_size", .int 3), ("minSize", .int 4)])]

/-- A name that is given in two ways is written twice, as an argument and as a key. -/
theorem selectionOf_resizedSearch :
    ∃ arguments range,
      sizing.selectionOf false resizedSearch [] = .ok (.field none "search" arguments [], []) ∧
        ¬(Entries.keys arguments).Nodup ∧
        Entries.get? arguments "range" = some (.object range) ∧ ¬(Entries.keys range).Nodup :=
  ⟨[("maxSize", .int "1"), ("maxSize", .int "2"),
      ("range", .object [("minSize", .int "3"), ("minSize", .int "4")])],
    [("minSize", .int "3"), ("minSize", .int "4")], rfl, by decide, rfl, by decide⟩

end Catalog

end GraphQLClient
