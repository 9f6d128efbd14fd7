import GraphQLClient.Client

/-!
# What a catalog is asked for

A catalog is asked for its schema, for the codec of a scalar, and for the accessor that is given to
a field.  Its tables are never gone through entry by entry, so two catalogs that give the same
answers cannot be told apart: they build the same namespaces, write the same literals and documents,
read the same values and results, and send the same requests.

## Main definitions

* `Catalog.Agrees` : two catalogs give the same answers.

## Main results

* `Catalog.Agrees.namespace?_eq`, `Catalog.Agrees.field?_eq` : the fields of types.
* `Catalog.Agrees.serialize_eq`, `Catalog.Agrees.deserialize_eq` : values on the wire.
* `Catalog.Agrees.documentOf_eq`, `Catalog.Agrees.inflate_eq` : operations and their results.
* `Catalog.Agrees.execute_eq`, `Catalog.Agrees.run_eq` : what is sent, and what comes of it.
-/

namespace GraphQLClient.Catalog

/-- Two catalogs give the same answers. -/
structure Agrees (c c' : Catalog) : Prop where
  schema : c.schema = c'.schema
  codec : ∀ name, c.scalars.get name = c'.scalars.get name
  rename : ∀ typeName field, c.rename? typeName field = c'.rename? typeName field

namespace Agrees

variable {c c' : Catalog}

theorem symm (h : c.Agrees c') : c'.Agrees c :=
  ⟨h.schema.symm, fun name => (h.codec name).symm, fun t f => (h.rename t f).symm⟩

/-! ### Fields of types -/

/-- A field has the same accessor in both catalogs. -/
theorem accessorOf_eq (h : c.Agrees c') (typeName field : String) :
    c.accessorOf typeName field = c'.accessorOf typeName field := by
  rw [accessorOf, accessorOf, h.rename]

/-- A field is added to a namespace under the same accessor, whichever catalog gives it. -/
theorem add_eq (h : c.Agrees c') (n : Namespace) (definition : Sdl.FieldDefinition) :
    n.add c definition = n.add c' definition := by
  rw [Namespace.add, Namespace.add, h.accessorOf_eq, h.schema]

/-- **Namespaces.** A type has the same fields under the same accessors in both catalogs. -/
theorem namespace?_eq (h : c.Agrees c') (typeName : String) :
    c.namespace? typeName = c'.namespace? typeName := by
  have hadd : Namespace.add c = Namespace.add c' := by
    funext n definition
    exact h.add_eq n definition
  simp only [namespace?, Namespace.ofFields, h.schema, hadd]

/-- A name leads to the same field of a type in both catalogs. -/
theorem field?_eq (h : c.Agrees c') (typeName name : String) :
    c.field? typeName name = c'.field? typeName name := by
  rw [field?, field?, h.namespace?_eq]

/-- Operations start from the same root types. -/
theorem operation?_eq (h : c.Agrees c') (kind : OperationKind) :
    c.operation? kind = c'.operation? kind := by
  rw [operation?, operation?, h.schema]

/-! ### Values on the wire -/

theorem serializeWhole_eq (h : c.Agrees c') (typeName : String) (v : Value) :
    c.serializeWhole typeName v = c'.serializeWhole typeName v := by
  unfold serializeWhole
  rw [h.schema, h.codec]

theorem serializeSingle_eq (h : c.Agrees c') (type : TypeExpr) (v : Value) :
    c.serializeSingle type v = c'.serializeSingle type v := by
  cases type with
  | list item required => rfl
  | named typeName required => exact h.serializeWhole_eq typeName v

mutual

/-- **Values that are sent.** A value has the same literal in both catalogs, or is refused for the
same reason, and the same variables are met in it. -/
theorem serialize_eq (h : c.Agrees c') : (type : TypeExpr) → (v : Value) → (table : Variables) →
    c.serialize type v table = c'.serialize type v table
  | _, .null, _ | _, .var _, _ => by
      rw [serialize, serialize]
  | .list item _, .list items, table => by
      rw [serialize, serialize, serializeItems_eq h item items table]
  | .named typeName _, .list items, _ => by
      rw [serialize, serialize, h.serializeWhole_eq]
  | .list _ _, .object _, _ => by
      rw [serialize, serialize]
  | .named typeName _, .object fields, table => by
      rw [serialize, serialize, h.serializeWhole_eq, h.schema]
      simp only [fun definitions => serializeFields_eq h typeName definitions fields table]
  | _, .boolean _, _ | _, .int _, _ | _, .float _, _ | _, .string _, _ | _, .enum _, _
  | _, .dateTime _, _ | _, .json _, _ => by
      rw [serialize, serialize, h.serializeSingle_eq]

theorem serializeItems_eq (h : c.Agrees c') (type : TypeExpr) : (items : List Value) →
    (table : Variables) → c.serializeItems type items table = c'.serializeItems type items table
  | [], _ => by
      rw [serializeItems, serializeItems]
  | item :: rest, table => by
      rw [serializeItems, serializeItems, serialize_eq h type item table]
      simp only [fun table => serializeItems_eq h type rest table]

theorem serializeFields_eq (h : c.Agrees c') (typeName : String)
    (definitions : List Sdl.InputValue) : (fields : List (String × Value)) →
    (table : Variables) → c.serializeFields typeName definitions fields table =
      c'.serializeFields typeName definitions fields table
  | [], _ => by
      rw [serializeFields, serializeFields]
  | (key, value) :: rest, table => by
      rw [serializeFields, serializeFields]
      simp only [fun (definition : Sdl.InputValue) => serialize_eq h definition.type value table,
        fun table => serializeFields_eq h typeName definitions rest table]

end

theorem deserializeNamed_eq (h : c.Agrees c') (typeName : String) (j : Json) :
    c.deserializeNamed typeName j = c'.deserializeNamed typeName j := by
  unfold deserializeNamed
  rw [h.schema, h.codec]

theorem deserializeSingle_eq (h : c.Agrees c') (type : TypeExpr) (j : Json) :
    c.deserializeSingle type j = c'.deserializeSingle type j := by
  cases type with
  | list item required => rfl
  | named typeName required => exact h.deserializeNamed_eq typeName j

mutual

/-- **Values that are received.** A value on the wire is read as the same value in both catalogs, or
refused for the same reason. -/
theorem deserialize_eq (h : c.Agrees c') : (type : TypeExpr) → (j : Json) →
    c.deserialize type j = c'.deserialize type j
  | _, .null => by
      rw [deserialize, deserialize]
  | .list item _, .array items => by
      rw [deserialize, deserialize, deserializeItems_eq h item items]
  | .named _ _, .array items => by
      rw [deserialize, deserialize, h.deserializeNamed_eq]
  | _, .bool _ | _, .number _ | _, .string _ | _, .object _ => by
      rw [deserialize, deserialize, h.deserializeSingle_eq]

theorem deserializeItems_eq (h : c.Agrees c') (type : TypeExpr) : (items : List Json) →
    c.deserializeItems type items = c'.deserializeItems type items
  | [] => by
      rw [deserializeItems, deserializeItems]
  | item :: rest => by
      rw [deserializeItems, deserializeItems, deserialize_eq h type item,
        deserializeItems_eq h type rest]

end

/-! ### Documents -/

/-- Arguments are written alike, and meet the same variables. -/
theorem argumentsOf_eq (h : c.Agrees c') (head : FieldHead) (arguments : Entries Value)
    (table : Variables) :
    c.argumentsOf head arguments table = c'.argumentsOf head arguments table := by
  induction arguments generalizing table with
  | nil => rfl
  | cons p rest ih =>
    obtain ⟨name, value⟩ := p
    simp only [argumentsOf, h.serialize_eq, ih]

mutual

/-- A field has the same selection, with the same variables in it. -/
theorem selectionOf_eq (h : c.Agrees c') (typename : Bool) : (f : Field) → (table : Variables) →
    c.selectionOf typename f table = c'.selectionOf typename f table
  | .leaf head, table => by
      rw [selectionOf, selectionOf, h.argumentsOf_eq]
  | .composite head children, table => by
      rw [selectionOf, selectionOf, h.argumentsOf_eq]
      simp only [fun table => selectionsOf_eq h typename children table]

theorem selectionsOf_eq (h : c.Agrees c') (typename : Bool) : (fields : List Field) →
    (table : Variables) →
      c.selectionsOf typename fields table = c'.selectionsOf typename fields table
  | [], _ => by
      rw [selectionsOf, selectionsOf]
  | f :: rest, table => by
      rw [selectionsOf, selectionsOf, selectionOf_eq h typename f table]
      simp only [fun table => selectionsOf_eq h typename rest table]

end

/-- **Documents.** An operation has the same document in both catalogs, or the same error. -/
theorem documentOf_eq (h : c.Agrees c') (o : Operation) : c.documentOf o = c'.documentOf o := by
  unfold documentOf
  rw [h.selectionsOf_eq]

/-- An operation has the same text in both catalogs. -/
theorem render_eq (h : c.Agrees c') (o : Operation) : c.render o = c'.render o := by
  rw [render, render, h.documentOf_eq]

/-! ### Results -/

mutual

/-- A value is read as the same result of a field, or refused at the same place. -/
theorem inflateField_eq (h : c.Agrees c') : (f : Field) → (j : Json) → (path : Path) →
    c.inflateField f j path = c'.inflateField f j path
  | .leaf head, j, path => by
      rw [inflateField, inflateField, h.deserialize_eq]
  | .composite head children, j, path => by
      rw [inflateField, inflateField]
      simp only [fun members path => inflateFields_eq h children members path]

theorem inflateFields_eq (h : c.Agrees c') : (fields : List Field) →
    (members : List (String × Json)) → (path : Path) →
      c.inflateFields fields members path = c'.inflateFields fields members path
  | [], _, _ => by
      rw [inflateFields, inflateFields]
  | f :: rest, members, path => by
      rw [inflateFields, inflateFields, inflateField_eq h f, inflateFields_eq h rest]

end

/-- **Results.** The data of a response has the same result in both catalogs, or the same error at
the same place. -/
theorem inflate_eq (h : c.Agrees c') (o : Operation) (data : Json) :
    c.inflate o data = c'.inflate o data := by
  cases data with
  | object members => rw [inflate, inflate, h.inflateFields_eq]
  | null | bool _ | number _ | string _ | array _ => rfl

/-! ### Requests -/

/-- An operation is sent as the same request. -/
theorem requestOf_eq (h : c.Agrees c') (o : Operation)
    (variables? : Option (List (String × Json))) :
    c.requestOf o variables? = c'.requestOf o variables? := by
  rw [requestOf, requestOf, h.render_eq]

/-- A reply is concluded alike, whatever it is. -/
theorem conclude_eq (h : c.Agrees c') (o : Operation) (reply : Reply) :
    c.conclude o reply = c'.conclude o reply := by
  unfold conclude
  simp only [h.inflate_eq]

/-- **Requests.** An operation sends the same request in both catalogs, leaves the transport in the
same state, and has the same outcome. -/
theorem execute_eq (h : c.Agrees c') (s : Script) (o : Operation)
    (variables? : Option (List (String × Json))) :
    c.execute s o variables? = c'.execute s o variables? := by
  unfold execute
  simp only [h.requestOf_eq, h.conclude_eq]

/-- So does the selection of fields on a root type. -/
theorem run_eq (h : c.Agrees c') (typename : Bool) (s : Script) (kind : OperationKind)
    (fields : List Field) : c.run typename s kind fields = c'.run typename s kind fields := by
  unfold run clientOperation
  simp only [h.operation?_eq, h.execute_eq]

end Agrees

end GraphQLClient.Catalog
