import GraphQLClient.Document.Build
import GraphQLClient.Proofs.Codec.Success

/-!
# References to variables

The literals of a document refer to variables, as whole arguments and inside lists and objects.
This file collects the references of a document in the order of its text, a field's arguments
before what is selected below it, and says for each of them which type the schema declares for its
place: the type of the argument, the item type of the list, or the type of the field of the input
object.

## Main definitions

* `Literal.variableNames`, `Document.variableNames` : the names that are referred to.
* `Literal.references` : the references of a literal with the types of their places.
* `Field.written` : the fields of a tree with the arguments that a document gives them.
* `Document.references` : the references of a document with the types of their places.

## Main results

* `Literal.map_fst_references` : the places of a declared type hold every reference of a literal.
-/

namespace GraphQLClient

/-- The type of the items of a list that is declared at a place. -/
def TypeExpr.item? : TypeExpr → Option TypeExpr
  | .named _ _ => none
  | .list item _ => some item

/-- The fields of the input object that is declared at a place; there are none at other places. -/
def Schema.inputFieldsAt (s : Schema) : TypeExpr → List Sdl.InputValue
  | .named typeName _ => (s.inputFieldsOf? typeName).getD []
  | .list _ _ => []

/-- The type that is declared for a name among arguments or fields of an input object. -/
def Sdl.declaredType? (definitions : List Sdl.InputValue) (name : String) : Option TypeExpr :=
  (definitions.find? fun d => d.name == name).map Sdl.InputValue.type

namespace Literal

mutual

/-- The variables that a literal refers to, in order. -/
def variableNames : Literal → List String
  | .null => []
  | .boolean _ => []
  | .int _ => []
  | .float _ => []
  | .string _ => []
  | .enum _ => []
  | .var name => [name]
  | .list items => itemsVariableNames items
  | .object fields => fieldsVariableNames fields

/-- The variables that the items of a list refer to. -/
def itemsVariableNames : List Literal → List String
  | [] => []
  | item :: rest => variableNames item ++ itemsVariableNames rest

/-- The variables that the fields of an object refer to, or the arguments of a field. -/
def fieldsVariableNames : List (String × Literal) → List String
  | [] => []
  | (_, value) :: rest => variableNames value ++ fieldsVariableNames rest

end

mutual

/-- The references of a literal at a place of a given type, each with the type of its own place.
There is no type at places that the schema does not describe. -/
def references (s : Schema) (type? : Option TypeExpr) :
    Literal → List (String × Option TypeExpr)
  | .null => []
  | .boolean _ => []
  | .int _ => []
  | .float _ => []
  | .string _ => []
  | .enum _ => []
  | .var name => [(name, type?)]
  | .list items => itemsReferences s (type?.bind TypeExpr.item?) items
  | .object fields => fieldsReferences s (type?.elim [] s.inputFieldsAt) fields

/-- The references of items at places of one type. -/
def itemsReferences (s : Schema) (type? : Option TypeExpr) :
    List Literal → List (String × Option TypeExpr)
  | [] => []
  | item :: rest => references s type? item ++ itemsReferences s type? rest

/-- The references of values under declared names. -/
def fieldsReferences (s : Schema) (definitions : List Sdl.InputValue) :
    List (String × Literal) → List (String × Option TypeExpr)
  | [] => []
  | (name, value) :: rest =>
    references s (Sdl.declaredType? definitions name) value ++
      fieldsReferences s definitions rest

end

mutual

/-- The places of a literal hold every variable that the literal refers to, in order. -/
theorem map_fst_references (s : Schema) : (type? : Option TypeExpr) → (l : Literal) →
    (l.references s type?).map Prod.fst = l.variableNames
  | _, .null | _, .boolean _ | _, .int _ | _, .float _ | _, .string _ | _, .enum _ => by
      rw [references, variableNames, List.map_nil]
  | type?, .var name => by
      rw [references, variableNames, List.map_singleton]
  | type?, .list items => by
      rw [references, variableNames, map_fst_itemsReferences s _ items]
  | type?, .object fields => by
      rw [references, variableNames, map_fst_fieldsReferences s _ fields]

theorem map_fst_itemsReferences (s : Schema) : (type? : Option TypeExpr) →
    (items : List Literal) → (itemsReferences s type? items).map Prod.fst = itemsVariableNames items
  | _, [] => by
      rw [itemsReferences, itemsVariableNames, List.map_nil]
  | type?, item :: rest => by
      rw [itemsReferences, itemsVariableNames, List.map_append, map_fst_references s type? item,
        map_fst_itemsReferences s type? rest]

theorem map_fst_fieldsReferences (s : Schema) : (definitions : List Sdl.InputValue) →
    (fields : List (String × Literal)) →
      (fieldsReferences s definitions fields).map Prod.fst = fieldsVariableNames fields
  | _, [] => by
      rw [fieldsReferences, fieldsVariableNames, List.map_nil]
  | definitions, (name, value) :: rest => by
      rw [fieldsReferences, fieldsVariableNames, List.map_append, map_fst_references s _ value,
        map_fst_fieldsReferences s definitions rest]

end

/-- A literal that refers to no variable has no references. -/
theorem references_eq_nil (s : Schema) (type? : Option TypeExpr) {l : Literal}
    (hl : l.variableNames = []) : l.references s type? = [] := by
  rw [← map_fst_references s type? l] at hl
  exact List.map_eq_nil_iff.mp hl

mutual

/-- JSON has no variables. -/
theorem variableNames_ofJson : (j : Json) → {l : Literal} → ofJson j = .ok l → l.variableNames = []
  | .null, _, h | .bool _, _, h | .string _, _, h | .number (.int _ _), _, h
  | .number (.float _), _, h => by
      rw [ofJson] at h
      cases h
      rw [variableNames]
  | .array items, _, h => by
      obtain ⟨ls, rfl, hls⟩ := ofJson_array_eq_ok.mp h
      rw [variableNames, itemsVariableNames_ofJsonItems items hls]
  | .object members, _, h => by
      obtain ⟨ls, rfl, hls⟩ := ofJson_object_eq_ok.mp h
      rw [variableNames, fieldsVariableNames_ofJsonMembers members hls]

theorem itemsVariableNames_ofJsonItems : (items : List Json) → {ls : List Literal} →
    ofJsonItems items = .ok ls → itemsVariableNames ls = []
  | [], _, h => by
      rw [ofJsonItems] at h
      cases h
      rw [itemsVariableNames]
  | item :: rest, _, h => by
      obtain ⟨l, ls', rfl, hl, hls'⟩ := ofJsonItems_cons_eq_ok.mp h
      rw [itemsVariableNames, variableNames_ofJson item hl,
        itemsVariableNames_ofJsonItems rest hls', List.append_nil]

theorem fieldsVariableNames_ofJsonMembers : (members : List (String × Json)) →
    {ls : List (String × Literal)} → ofJsonMembers members = .ok ls → fieldsVariableNames ls = []
  | [], _, h => by
      rw [ofJsonMembers] at h
      cases h
      rw [fieldsVariableNames]
  | (name, value) :: rest, _, h => by
      obtain ⟨-, l, ls', rfl, hl, hls'⟩ := ofJsonMembers_cons_eq_ok.mp h
      rw [fieldsVariableNames, variableNames_ofJson value hl,
        fieldsVariableNames_ofJsonMembers rest hls', List.append_nil]

end

end Literal

namespace Document

mutual

/-- The variables that the arguments of a selection refer to, and those of the selections below
it. -/
def Selection.variableNames : Selection → List String
  | .field _ _ arguments selections =>
    Literal.fieldsVariableNames arguments ++ selectionsVariableNames selections

/-- The variables that selections refer to, in order. -/
def selectionsVariableNames : List Selection → List String
  | [] => []
  | s :: rest => s.variableNames ++ selectionsVariableNames rest

end

/-- The selection that asks for the type of an object refers to no variable. -/
theorem selectionsVariableNames_typename (typename : Bool) (selections : List Selection) :
    selectionsVariableNames (if typename then .typename :: selections else selections) =
      selectionsVariableNames selections := by
  cases typename with
  | false => rfl
  | true => simp [selectionsVariableNames, Selection.typename, Selection.variableNames,
      Literal.fieldsVariableNames]

/-- The variables that the arguments of a document refer to, in order of its text. -/
def variableNames (d : Document) : List String :=
  selectionsVariableNames d.selections

/-- The selections that stand for fields that were asked for: all but the one that asks for the
type of the object. -/
def withoutTypename (typename : Bool) (selections : List Selection) : List Selection :=
  if typename then selections.tail else selections

theorem withoutTypename_cons (typename : Bool) (selections : List Selection) :
    withoutTypename typename (if typename then .typename :: selections else selections) =
      selections := by
  cases typename <;> rfl

end Document

mutual

/-- The fields of a tree in order of the document, each with the arguments that its selection gives
it. -/
def Field.written (typename : Bool) :
    Field → Document.Selection → List (FieldHead × List (String × Literal))
  | .leaf h, .field _ _ arguments _ => [(h, arguments)]
  | .composite h children, .field _ _ arguments selections =>
    (h, arguments) ::
      Field.writtenAll typename children (Document.withoutTypename typename selections)

/-- The fields of trees next to each other, each with the arguments that its selection gives it. -/
def Field.writtenAll (typename : Bool) :
    List Field → List Document.Selection → List (FieldHead × List (String × Literal))
  | [], _ => []
  | _ :: _, [] => []
  | f :: rest, s :: selections => f.written typename s ++ Field.writtenAll typename rest selections

end

/-- The fields of an operation in order of its document, each with the arguments that the document
gives it. -/
def Document.written (d : Document) (o : Operation) :
    List (FieldHead × List (String × Literal)) :=
  Field.writtenAll o.typename o.selections d.selections

/-- The references of a document to variables in order of its text, each with the type that the
schema declares for its place. -/
def Document.references (d : Document) (s : Schema) (o : Operation) :
    List (String × Option TypeExpr) :=
  (d.written o).flatMap fun (h, arguments) =>
    Literal.fieldsReferences s h.definition.args arguments

/-! ### Literals without variables -/

/-- A value that is written as a whole refers to no variable. -/
theorem Catalog.variableNames_of_serializeWhole {c : Catalog} {typeName : String} {v : Value}
    {l : Literal} (h : c.serializeWhole typeName v = .ok l) : l.variableNames = [] := by
  unfold serializeWhole at h
  split at h
  · split at h
    · split at h
      · cases h
        rw [Literal.variableNames]
      · simp at h
    · simp at h
  · simp at h
  · split at h
    · simp at h
    · exact Literal.variableNames_ofJson _ h
  · simp at h
  · simp at h

theorem Catalog.variableNames_of_serializeSingle {c : Catalog} {type : TypeExpr} {v : Value}
    {l : Literal} (h : c.serializeSingle type v = .ok l) : l.variableNames = [] := by
  obtain ⟨typeName, required, -, hwhole⟩ := serializeSingle_eq_ok.mp h
  exact variableNames_of_serializeWhole hwhole

end GraphQLClient
