import GraphQLClient.Proofs.Document.Mirror

/-!
# Documents that ask for the types of objects

An operation may ask for the type of every object below its root, and this changes nothing else
about its document.  The two translations, with the types and without them, go through the same
fields with the same table of variables, so they fail at the same place for the same reason, and
when they succeed the first document is the second one with a selection added at the start of every
selection set below the root.

## Main definitions

* `Document.withTypenames`, `Document.withoutTypenames` : adding and deleting these selections.

## Main results

* `Catalog.selectionOf_true`, `Catalog.selectionsOf_true` : the two translations of fields.
* `Catalog.documentOf_withTypename` : the two documents of an operation.
-/

namespace GraphQLClient

namespace Document

mutual

/-- A selection that asks for the type of every object below it. -/
def Selection.withTypenames : Selection → Selection
  | .field alias? name arguments [] => .field alias? name arguments []
  | .field alias? name arguments (s :: rest) =>
    .field alias? name arguments
      (.typename :: s.withTypenames :: selectionsWithTypenames rest)

/-- Selections that ask for the type of every object below them. -/
def selectionsWithTypenames : List Selection → List Selection
  | [] => []
  | s :: rest => s.withTypenames :: selectionsWithTypenames rest

end

mutual

/-- A selection without the first selection of every selection set below it. -/
def Selection.withoutTypenames : Selection → Selection
  | .field alias? name arguments [] => .field alias? name arguments []
  | .field alias? name arguments (_ :: rest) =>
    .field alias? name arguments (selectionsWithoutTypenames rest)

/-- Selections without the first selection of every selection set below them. -/
def selectionsWithoutTypenames : List Selection → List Selection
  | [] => []
  | s :: rest => s.withoutTypenames :: selectionsWithoutTypenames rest

end

/-- A document that asks for the type of every object below the root. -/
def withTypenames (d : Document) : Document :=
  { d with selections := selectionsWithTypenames d.selections }

/-- A document without the first selection of every selection set below the root. -/
def withoutTypenames (d : Document) : Document :=
  { d with selections := selectionsWithoutTypenames d.selections }

/-! ### Deleting what was added -/

mutual

theorem Selection.withoutTypenames_withTypenames : (s : Selection) →
    s.withTypenames.withoutTypenames = s
  | .field alias? name arguments [] => by
      rw [Selection.withTypenames, Selection.withoutTypenames]
  | .field alias? name arguments (s :: rest) => by
      rw [Selection.withTypenames, Selection.withoutTypenames, selectionsWithoutTypenames,
        s.withoutTypenames_withTypenames, selectionsWithoutTypenames_selectionsWithTypenames rest]

theorem selectionsWithoutTypenames_selectionsWithTypenames : (ss : List Selection) →
    selectionsWithoutTypenames (selectionsWithTypenames ss) = ss
  | [] => by
      rw [selectionsWithTypenames, selectionsWithoutTypenames]
  | s :: rest => by
      rw [selectionsWithTypenames, selectionsWithoutTypenames, s.withoutTypenames_withTypenames,
        selectionsWithoutTypenames_selectionsWithTypenames rest]

end

theorem withoutTypenames_withTypenames (d : Document) :
    d.withTypenames.withoutTypenames = d := by
  rw [withoutTypenames, withTypenames, selectionsWithoutTypenames_selectionsWithTypenames]

/-- Below a field where something is selected, the type of the object is asked for first. -/
theorem Selection.withTypenames_field (alias? : Option String) (name : String)
    (arguments : List (String × Literal)) {selections : List Selection} (h : selections ≠ []) :
    (field alias? name arguments selections).withTypenames =
      .field alias? name arguments (.typename :: selectionsWithTypenames selections) := by
  cases selections with
  | nil => exact absurd rfl h
  | cons s rest => rw [withTypenames, selectionsWithTypenames]

end Document

namespace Catalog

open Document

/-! ### The two translations -/

mutual

/-- Asking for the types of objects adds the selections for them to the selection of a field. -/
theorem selectionOf_true (c : Catalog) : (f : Field) → (table : Variables) →
    c.selectionOf true f table =
      (c.selectionOf false f table).map fun (s, table') => (s.withTypenames, table')
  | .leaf h, table => by
      rw [selectionOf, selectionOf]
      cases checkName h.alias? with
      | error e => rfl
      | ok alias? =>
        cases c.argumentsOf h h.arguments table with
        | error e => rfl
        | ok written => simp only [Except.map, Selection.withTypenames]
  | .composite h children, table => by
      rw [selectionOf, selectionOf]
      cases checkName h.alias? with
      | error e => rfl
      | ok alias? =>
        cases c.argumentsOf h h.arguments table with
        | error e => rfl
        | ok written =>
          obtain ⟨arguments, middle⟩ := written
          by_cases hchildren : children = []
          · simp only [hchildren, List.isEmpty_nil, if_true, Except.map]
          · simp only [List.isEmpty_iff, if_neg hchildren, selectionsOf_true c children middle]
            cases hselections : c.selectionsOf false children middle with
            | error e => rfl
            | ok below =>
              obtain ⟨selections, table'⟩ := below
              have hne : selections ≠ [] := selectionsOf_ne_nil hchildren hselections
              simp only [Except.map, if_true, Bool.false_eq_true, if_false,
                Selection.withTypenames_field _ _ _ hne]

/-- Asking for the types of objects adds the selections for them to the selections of fields. -/
theorem selectionsOf_true (c : Catalog) : (fields : List Field) → (table : Variables) →
    c.selectionsOf true fields table =
      (c.selectionsOf false fields table).map fun (ss, table') =>
        (selectionsWithTypenames ss, table')
  | [], table => by
      simp only [selectionsOf_nil, Except.map, selectionsWithTypenames]
  | f :: rest, table => by
      rw [selectionsOf, selectionsOf, selectionOf_true c f table]
      cases c.selectionOf false f table with
      | error e => rfl
      | ok first =>
        obtain ⟨s, middle⟩ := first
        simp only [Except.map, selectionsOf_true c rest middle]
        cases c.selectionsOf false rest middle with
        | error e => rfl
        | ok below => simp only [selectionsWithTypenames]

end

/-- An operation that asks for the types of objects fails as it does without them, or has the same
document with the selections for them. -/
theorem documentOf_withTypename_true (c : Catalog) (o : Operation) :
    c.documentOf (o.withTypename true) =
      (c.documentOf (o.withTypename false)).map Document.withTypenames := by
  rw [documentOf, documentOf]
  simp only [Operation.withTypename]
  by_cases hselections : o.selections = []
  · simp only [hselections, List.isEmpty_nil, if_true, Except.map]
  · simp only [List.isEmpty_iff, if_neg hselections, selectionsOf_true]
    cases checkName o.name with
    | error e => rfl
    | ok name =>
      cases c.selectionsOf false o.selections [] with
      | error e => rfl
      | ok written => rfl

/-- The document of an operation mirrors its selections. -/
theorem documentOf_mirrors {c : Catalog} {o : Operation} {d : Document}
    (h : c.documentOf o = .ok d) :
    Field.MirrorsAll o.typename (fun _ _ => True) o.selections d.selections := by
  obtain ⟨-, name, selections, table, -, hselections, rfl⟩ := documentOf_eq_ok.mp h
  exact selectionsOf_mirrors (fun _ _ _ _ _ => trivial) o.selections hselections

/-- **What asking for the types of objects changes.** With the types and without them an operation
fails for the same reason, or it has a document either way.  In the first one every selection set
below the root, and not the one at the root, starts with one more selection, for the type of the
object; without these selections it is the second one, which mirrors the selections of the
operation. -/
theorem documentOf_withTypename (c : Catalog) (o : Operation) :
    (∃ e, c.documentOf (o.withTypename true) = .error e ∧
        c.documentOf (o.withTypename false) = .error e) ∨
      ∃ d d', c.documentOf (o.withTypename true) = .ok d ∧
        c.documentOf (o.withTypename false) = .ok d' ∧
        Field.MirrorsAll true (fun _ _ => True) o.selections d.selections ∧
        d.withoutTypenames = d' ∧
        Field.MirrorsAll false (fun _ _ => True) o.selections d'.selections := by
  have htrue := documentOf_withTypename_true c o
  cases hfalse : c.documentOf (o.withTypename false) with
  | error e =>
    rw [hfalse, Except.map] at htrue
    exact .inl ⟨e, htrue, rfl⟩
  | ok d' =>
    rw [hfalse, Except.map] at htrue
    exact .inr ⟨d'.withTypenames, d', htrue, rfl, documentOf_mirrors htrue,
      d'.withoutTypenames_withTypenames, documentOf_mirrors hfalse⟩

end Catalog

end GraphQLClient
