import GraphQLClient.Proofs.Document.Parameters
import Mathlib.Data.List.Forall2

/-!
# Variables inside arguments

A variable may stand anywhere inside an argument, in lists and in objects.  A place inside a value
is the list of the numbers of the parts that lead to it.  The schema declares a type for every
place that is reached through list types and input objects, and for none inside the value of a
scalar: there the codec of the scalar turns the whole value into JSON, which has no variables.

A variable of an argument is therefore written as a reference, at the same place of the literal,
and declared by the document, exactly where the schema declares a type.

## Main definitions

* `Value.part?`, `Literal.part?` : the part of a value or of a literal at a place.
* `Catalog.placeType?` : the type that is declared for a place inside a value.
* `Field.headsOf` : the fields of trees, in order of the document.

## Main results

* `Catalog.part?_serialize` : where the literal of a value holds the variables of the value.
* `Catalog.argumentsOf_forall₂` : the arguments that are given and the arguments that are written.
* `Catalog.references_documentOf_iff` : which variables of arguments a document refers to.
-/

namespace GraphQLClient

/-! ### Parts of values and literals -/

/-- The part of a value at a place: the number of an item or of a field at each step. -/
def Value.part? : Value → List Nat → Option Value
  | v, [] => some v
  | .list items, i :: place => items[i]?.bind fun v => v.part? place
  | .object fields, i :: place => fields[i]?.bind fun p => p.2.part? place
  | _, _ :: _ => none

/-- The part of a literal at a place. -/
def Literal.part? : Literal → List Nat → Option Literal
  | l, [] => some l
  | .list items, i :: place => items[i]?.bind fun l => l.part? place
  | .object fields, i :: place => fields[i]?.bind fun p => p.2.part? place
  | _, _ :: _ => none

/-- The type that the schema declares for a place inside a value of a declared type.  It declares
none inside the values of scalars. -/
def Catalog.placeType? (c : Catalog) : TypeExpr → Value → List Nat → Option TypeExpr
  | type, _, [] => some type
  | .list item _, .list items, i :: place =>
    items[i]?.bind fun v => c.placeType? item v place
  | .named typeName _, .object fields, i :: place =>
    (c.schema.inputFieldsOf? typeName).bind fun definitions =>
      fields[i]?.bind fun p =>
        (inputField? definitions p.1).bind fun definition =>
          c.placeType? definition.type p.2 place
  | _, _, _ :: _ => none

theorem Literal.mem_itemsVariableNames {l : Literal} {name : String} (hl : name ∈ l.variableNames)
    {items : List Literal} (h : l ∈ items) : name ∈ itemsVariableNames items := by
  induction items with
  | nil => simp at h
  | cons item rest ih =>
    rw [itemsVariableNames, List.mem_append]
    rcases List.mem_cons.mp h with rfl | h
    · exact Or.inl hl
    · exact Or.inr (ih h)

theorem Literal.mem_fieldsVariableNames {l : Literal} {key name : String}
    (hl : name ∈ l.variableNames)
    {fields : List (String × Literal)} (h : (key, l) ∈ fields) :
    name ∈ fieldsVariableNames fields := by
  induction fields with
  | nil => simp at h
  | cons field rest ih =>
    obtain ⟨_, value⟩ := field
    rw [fieldsVariableNames, List.mem_append]
    rcases List.mem_cons.mp h with h | h
    · cases h
      exact Or.inl hl
    · exact Or.inr (ih h)

/-- A literal refers to the variables that stand at its places. -/
theorem Literal.mem_variableNames_of_part? {name : String} {l : Literal} {place : List Nat}
    (h : l.part? place = some (.var name)) : name ∈ l.variableNames := by
  induction place generalizing l with
  | nil =>
    rw [part?, Option.some.injEq] at h
    rw [h, variableNames, List.mem_singleton]
  | cons i place ih =>
    cases l with
    | list items =>
      obtain ⟨item, hitem, h⟩ := Option.bind_eq_some_iff.mp h
      rw [variableNames]
      exact mem_itemsVariableNames (ih h) (List.mem_of_getElem? hitem)
    | object fields =>
      obtain ⟨⟨key, value⟩, hfield, h⟩ := Option.bind_eq_some_iff.mp h
      rw [variableNames]
      exact mem_fieldsVariableNames (ih h) (List.mem_of_getElem? hfield)
    | null | boolean _ | int _ | float _ | string _ | enum _ | var _ => simp [part?] at h

/-! ### Parts that are written -/

/-- The partner of an element of a list. -/
theorem forall₂_getElem? {α β : Type} {R : α → β → Prop} {xs : List α} {ys : List β}
    (h : List.Forall₂ R xs ys) {i : Nat} {x : α} (hx : xs[i]? = some x) :
    ∃ y, ys[i]? = some y ∧ R x y := by
  induction h generalizing i with
  | nil => simp at hx
  | cons hR _ ih =>
    cases i with
    | zero =>
      rw [List.getElem?_cons_zero, Option.some.injEq] at hx
      exact ⟨_, List.getElem?_cons_zero, hx ▸ hR⟩
    | succ i =>
      rw [List.getElem?_cons_succ] at hx ⊢
      exact ih hx

theorem forall₂_mem_right {α β : Type} {R : α → β → Prop} {xs : List α} {ys : List β}
    (h : List.Forall₂ R xs ys) : List.Forall₂ (fun x y => y ∈ ys ∧ R x y) xs ys := by
  induction h with
  | nil => exact .nil
  | cons hR _ ih =>
    exact .cons ⟨List.mem_cons_self, hR⟩ (ih.imp fun _ _ h => ⟨List.mem_cons_of_mem _ h.1, h.2⟩)

namespace Catalog

/-- Each item of a list is written on its own. -/
theorem serializeItems_forall₂ {c : Catalog} {type : TypeExpr} {items : List Value}
    {table table' : Variables} {ls : List Literal}
    (h : c.serializeItems type items table = (.ok ls, table')) :
    List.Forall₂ (fun v l => ∃ before after, c.serialize type v before = (.ok l, after))
      items ls := by
  induction items generalizing table ls with
  | nil =>
    rw [serializeItems_nil] at h
    cases h
    exact .nil
  | cons item rest ih =>
    obtain ⟨l, ls', middle, rfl, hitem, hrest⟩ := serializeItems_cons_eq_ok.mp h
    exact .cons ⟨_, _, hitem⟩ (ih hrest)

/-- Each field of an input object is written on its own, under its declared name. -/
theorem serializeFields_forall₂ {c : Catalog} {typeName : String}
    {definitions : List Sdl.InputValue} {fields : List (String × Value)}
    {table table' : Variables} {ls : List (String × Literal)}
    (h : c.serializeFields typeName definitions fields table = (.ok ls, table')) :
    List.Forall₂ (fun given written => ∃ definition before after,
      inputField? definitions given.1 = some definition ∧ written.1 = definition.name ∧
        c.serialize definition.type given.2 before = (.ok written.2, after)) fields ls := by
  induction fields generalizing table ls with
  | nil =>
    rw [serializeFields_nil] at h
    cases h
    exact .nil
  | cons field rest ih =>
    obtain ⟨key, value⟩ := field
    obtain ⟨definition, l, ls', middle, hdefinition, rfl, hvalue, hrest⟩ :=
      serializeFields_cons_eq_ok.mp h
    exact .cons ⟨definition, _, _, hdefinition, rfl, hvalue⟩ (ih hrest)

/-- Each argument of a field is written on its own, under its declared name. -/
theorem argumentsOf_forall₂ {c : Catalog} {head : FieldHead} {arguments : Entries Value}
    {table table' : Variables} {ls : List (String × Literal)}
    (h : c.argumentsOf head arguments table = .ok (ls, table')) :
    List.Forall₂ (fun given written => ∃ definition before after,
      head.argument? given.1 = some definition ∧ written.1 = definition.name ∧
        c.serialize definition.type given.2 before = (.ok written.2, after)) arguments ls := by
  induction arguments generalizing table ls with
  | nil =>
    rw [argumentsOf_nil] at h
    cases h
    exact .nil
  | cons argument rest ih =>
    obtain ⟨name, value⟩ := argument
    obtain ⟨definition, l, ls', middle, hdefinition, rfl, hvalue, hrest⟩ :=
      argumentsOf_cons_eq_ok.mp h
    exact .cons ⟨definition, _, _, hdefinition, rfl, hvalue⟩ (ih hrest)

/-- A literal of a whole value holds no variable at any place. -/
theorem part?_ne_var_of_variableNames_eq_nil {l : Literal} (hl : l.variableNames = [])
    (place : List Nat)
    (name : String) : l.part? place ≠ some (.var name) := by
  intro h
  have hmem := Literal.mem_variableNames_of_part? h
  rw [hl] at hmem
  exact absurd hmem List.not_mem_nil

/-- **Where a literal holds the variables of its value.** A variable inside a value is a reference
at the same place of the literal exactly where the schema declares a type. -/
theorem part?_serialize {c : Catalog} {type : TypeExpr} {v : Value} {table table' : Variables}
    {l : Literal} (h : c.serialize type v table = (.ok l, table')) {place : List Nat}
    {name : String} (hv : v.part? place = some (.var name)) :
    l.part? place = some (.var name) ↔ (c.placeType? type v place).isSome := by
  induction place generalizing type v table table' l with
  | nil =>
    rw [Value.part?, Option.some.injEq] at hv
    subst hv
    rw [serialize_var] at h
    obtain ⟨-, rfl, -⟩ := Variables.record_eq_ok.mp h
    simp [Literal.part?, placeType?]
  | cons i place ih =>
    cases v with
    | list items =>
      obtain ⟨v, hitem, hv⟩ := Option.bind_eq_some_iff.mp hv
      cases type with
      | list item required =>
        obtain ⟨ls, rfl, hitems⟩ := serialize_list_eq_ok.mp h
        obtain ⟨l, hl, before, after, hvalue⟩ :=
          forall₂_getElem? (serializeItems_forall₂ hitems) hitem
        rw [Literal.part?, placeType?, hitem, hl, Option.bind_some, Option.bind_some]
        exact ih hvalue hv
      | named typeName required =>
        rw [serialize_list_named, Prod.mk.injEq] at h
        have hl := variableNames_of_serializeWhole h.1
        simp [placeType?, part?_ne_var_of_variableNames_eq_nil hl]
    | object fields =>
      obtain ⟨⟨key, v⟩, hfield, hv⟩ := Option.bind_eq_some_iff.mp hv
      cases type with
      | list item required =>
        rw [serialize_object_list] at h
        simp at h
      | named typeName required =>
        cases hdefinitions : c.schema.inputFieldsOf? typeName with
        | none =>
          rw [serialize_object_whole required hdefinitions, Prod.mk.injEq] at h
          have hl := variableNames_of_serializeWhole h.1
          simp [placeType?, hdefinitions, part?_ne_var_of_variableNames_eq_nil hl]
        | some definitions =>
          obtain ⟨ls, rfl, hfields⟩ := (serialize_input_eq_ok hdefinitions).mp h
          obtain ⟨⟨_, l⟩, hl, definition, before, after, hdefinition, -, hvalue⟩ :=
            forall₂_getElem? (serializeFields_forall₂ hfields) hfield
          dsimp only at hv hdefinition hvalue
          rw [Literal.part?, placeType?, hdefinitions, hfield, hl, Option.bind_some,
            Option.bind_some, Option.bind_some, hdefinition, Option.bind_some]
          exact ih hvalue hv
    | null | boolean _ | int _ | float _ | string _ | enum _ | var _ | dateTime _ | json _ =>
      simp [Value.part?] at hv

end Catalog

/-! ### The fields of an operation -/

mutual

/-- The fields of a tree, in order of the document. -/
def Field.heads : Field → List FieldHead
  | .leaf h => [h]
  | .composite h children => h :: Field.headsOf children

/-- The fields of trees next to each other, in order of the document. -/
def Field.headsOf : List Field → List FieldHead
  | [] => []
  | f :: rest => f.heads ++ Field.headsOf rest

end

namespace Catalog

mutual

/-- Each field of a tree is written with its own arguments. -/
theorem written_selectionOf (c : Catalog) (typename : Bool) : (f : Field) →
    {table table' : Variables} → {s : Document.Selection} →
      c.selectionOf typename f table = .ok (s, table') →
        List.Forall₂ (fun h p => p.1 = h ∧ ∃ before after,
          c.argumentsOf h h.arguments before = .ok (p.2, after)) f.heads (f.written typename s)
  | .leaf h, _, _, _, hs => by
      obtain ⟨alias?, arguments, -, harguments, rfl⟩ := selectionOf_leaf_eq_ok.mp hs
      rw [Field.heads, Field.written]
      exact .cons ⟨rfl, _, _, harguments⟩ .nil
  | .composite h children, _, _, _, hs => by
      obtain ⟨alias?, arguments, selections, middle, -, harguments, -, hselections, rfl⟩ :=
        selectionOf_composite_eq_ok.mp hs
      rw [Field.heads, Field.written, Document.withoutTypename_cons]
      exact .cons ⟨rfl, _, _, harguments⟩
        (written_selectionsOf c typename children hselections)

/-- Each field of trees next to each other is written with its own arguments. -/
theorem written_selectionsOf (c : Catalog) (typename : Bool) : (fields : List Field) →
    {table table' : Variables} → {ss : List Document.Selection} →
      c.selectionsOf typename fields table = .ok (ss, table') →
        List.Forall₂ (fun h p => p.1 = h ∧ ∃ before after,
          c.argumentsOf h h.arguments before = .ok (p.2, after))
          (Field.headsOf fields) (Field.writtenAll typename fields ss)
  | [], _, _, _, hs => by
      rw [selectionsOf_nil] at hs
      cases hs
      rw [Field.headsOf, Field.writtenAll]
      exact .nil
  | f :: rest, _, _, _, hs => by
      obtain ⟨s, ss', middle, rfl, hs, hrest⟩ := selectionsOf_cons_eq_ok.mp hs
      rw [Field.headsOf, Field.writtenAll]
      exact List.rel_append (written_selectionOf c typename f hs)
        (written_selectionsOf c typename rest hrest)

end

/-- **Which variables of arguments a document refers to.** Each field of an operation is written
with its own arguments, and each argument under its declared name.  A variable anywhere inside an
argument is a reference at the same place of the literal, and declared by the document, exactly
where the schema declares a type. -/
theorem references_documentOf_iff {c : Catalog} {o : Operation} {d : Document}
    (h : c.documentOf o = .ok d) :
    List.Forall₂ (fun head p => p.1 = head ∧
      List.Forall₂ (fun given written =>
        ∃ definition, head.argument? given.1 = some definition ∧ written.1 = definition.name ∧
          ∀ place name, given.2.part? place = some (.var name) →
            (written.2.part? place = some (.var name) ∧ name ∈ Entries.keys d.parameters ↔
              (c.placeType? definition.type given.2 place).isSome))
        head.arguments p.2)
      (Field.headsOf o.selections) (d.written o) := by
  obtain ⟨-, _, selections, table, -, hselections, rfl⟩ := documentOf_eq_ok.mp h
  have hfields := written_selectionsOf c o.typename o.selections hselections
  refine (forall₂_mem_right hfields).imp ?_
  rintro head p ⟨hp, hhead, before, after, harguments⟩
  refine ⟨hhead, (forall₂_mem_right (argumentsOf_forall₂ harguments)).imp ?_⟩
  rintro ⟨key, v⟩ ⟨key', l⟩ ⟨hl, definition, before, after, hdefinition, hname, hvalue⟩
  refine ⟨definition, hdefinition, hname, fun place name hv => ?_⟩
  -- A reference that is written is declared, so the second half of the conjunction adds nothing.
  rw [← part?_serialize hvalue hv, and_iff_left_iff_imp]
  intro hpart
  have hnames : name ∈ Literal.fieldsVariableNames p.2 :=
    Literal.mem_fieldsVariableNames (Literal.mem_variableNames_of_part? hpart) hl
  rw [mem_keys_parameters h, Document.variableNames,
    ← variableNames_of_selectionsOf c o.typename o.selections hselections]
  exact List.mem_flatMap.mpr ⟨p, hp, hnames⟩

theorem references_searchDocument_iff :
    searching.documentOf searchOperation = .ok searchDocument ∧
      List.Forall₂ (fun head p => p.1 = head ∧
        List.Forall₂ (fun given written =>
          ∃ definition, head.argument? given.1 = some definition ∧
            written.1 = definition.name ∧
            ∀ place name, given.2.part? place = some (.var name) →
              (written.2.part? place = some (.var name) ∧
                  name ∈ Entries.keys searchDocument.parameters ↔
                (searching.placeType? definition.type given.2 place).isSome))
          head.arguments p.2)
        (Field.headsOf searchOperation.selections) (searchDocument.written searchOperation) :=
  ⟨documentOf_searchOperation, references_documentOf_iff documentOf_searchOperation⟩

/-- A search whose size stands among its labels too. -/
def labelledOperation : Operation :=
  ⟨.query, none, "Query",
    [.leaf
      ⟨"Query",
        ⟨none, "search",
          [⟨none, "labels", .named "Labels" false, none, []⟩,
            ⟨none, "first", .named "Int" true, none, []⟩],
          .named "Int" false, []⟩,
        none, "search", [("labels", .list [.var "size"]), ("first", .var "size")]⟩],
    true⟩

/-- Inside a scalar without a codec of its own a variable becomes a text: the document holds no
reference at its place. -/
theorem documentOf_labelledOperation :
    searching.documentOf labelledOperation =
        .ok ⟨.query, none, [("size", .named "Int" true)],
          [.field none "search"
            [("labels", .list [.string "$size"]), ("first", .var "size")] []]⟩ ∧
      (Value.list [.var "size"]).part? [0] = some (.var "size") ∧
      (Literal.list [.string "$size"]).part? [0] ≠ some (.var "size") := by
  refine ⟨rfl, rfl, ?_⟩
  simp [Literal.part?]

end Catalog

end GraphQLClient
