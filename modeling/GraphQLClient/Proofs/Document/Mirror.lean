import GraphQLClient.Proofs.Document.Success

/-!
# Selections that mirror fields

The selections of a document stand in the same tree as the fields that they were written for: one
selection for each field, in the same order at every level, under the same name and alias.  Nothing
else stands in the document, except that every selection set below the root may start with a
selection that asks for the type of the object.

## Main definitions

* `Field.Mirrors`, `Field.MirrorsAll` : a field and its selection, fields and their selections, with
  a relation between each field and the arguments of its selection.

## Main results

* `Catalog.selectionOf_mirrors`, `Catalog.selectionsOf_mirrors` : the selections of fields.
-/

namespace GraphQLClient

mutual

/-- A field and its selection.  What is selected below the field follows, where the types of objects
are asked for, the one selection that is added. -/
inductive Field.Mirrors (typename : Bool) (r : FieldHead → Entries Literal → Prop) :
    Field → Document.Selection → Prop
  | leaf {h : FieldHead} {arguments : Entries Literal} (harguments : r h arguments) :
      Field.Mirrors typename r (.leaf h) (.field h.alias? h.definition.name arguments [])
  | composite {h : FieldHead} {children : List Field} {arguments : Entries Literal}
      {selections : List Document.Selection} (harguments : r h arguments)
      (hne : selections ≠ []) (hchildren : Field.MirrorsAll typename r children selections) :
      Field.Mirrors typename r (.composite h children)
        (.field h.alias? h.definition.name arguments
          (if typename then .typename :: selections else selections))

/-- Fields and their selections, one after the other. -/
inductive Field.MirrorsAll (typename : Bool) (r : FieldHead → Entries Literal → Prop) :
    List Field → List Document.Selection → Prop
  | nil : Field.MirrorsAll typename r [] []
  | cons {f : Field} {rest : List Field} {s : Document.Selection} {ss : List Document.Selection}
      (hf : Field.Mirrors typename r f s) (hrest : Field.MirrorsAll typename r rest ss) :
      Field.MirrorsAll typename r (f :: rest) (s :: ss)

end

theorem checkName_eq_ok {name? checked : Option String} (h : checkName name? = .ok checked) :
    checked = name? := by
  cases name? with
  | none =>
    cases h
    rfl
  | some name =>
    rw [checkName] at h
    split at h
    · cases h
      rfl
    · cases h

namespace Catalog

variable {c : Catalog} {typename : Bool}

/-- Something is written where something is selected. -/
theorem selectionsOf_ne_nil {fields : List Field} {table table' : Variables}
    {ss : List Document.Selection} (hfields : fields ≠ [])
    (h : c.selectionsOf typename fields table = .ok (ss, table')) : ss ≠ [] := by
  cases fields with
  | nil => exact absurd rfl hfields
  | cons f rest =>
    obtain ⟨s, ss', middle, rfl, -, -⟩ := selectionsOf_cons_eq_ok.mp h
    exact List.cons_ne_nil s ss'

mutual

/-- The selection of a field mirrors it, with the arguments that are written for the field. -/
theorem selectionOf_mirrors {r : FieldHead → Entries Literal → Prop}
    (hr : ∀ h table table' arguments,
      c.argumentsOf h h.arguments table = .ok (arguments, table') → r h arguments) :
    (f : Field) → {table table' : Variables} → {s : Document.Selection} →
      c.selectionOf typename f table = .ok (s, table') → f.Mirrors typename r s
  | .leaf h, _, _, _, hs => by
      obtain ⟨alias?, arguments, halias, harguments, rfl⟩ := selectionOf_leaf_eq_ok.mp hs
      obtain rfl := checkName_eq_ok halias
      exact .leaf (hr _ _ _ _ harguments)
  | .composite h children, _, _, _, hs => by
      obtain ⟨alias?, arguments, selections, middle, halias, harguments, hchildren, hselections,
        rfl⟩ := selectionOf_composite_eq_ok.mp hs
      obtain rfl := checkName_eq_ok halias
      exact .composite (hr _ _ _ _ harguments) (selectionsOf_ne_nil hchildren hselections)
        (selectionsOf_mirrors hr children hselections)

/-- The selections of fields mirror them. -/
theorem selectionsOf_mirrors {r : FieldHead → Entries Literal → Prop}
    (hr : ∀ h table table' arguments,
      c.argumentsOf h h.arguments table = .ok (arguments, table') → r h arguments) :
    (fields : List Field) → {table table' : Variables} → {ss : List Document.Selection} →
      c.selectionsOf typename fields table = .ok (ss, table') →
        Field.MirrorsAll typename r fields ss
  | [], _, _, _, hs => by
      rw [selectionsOf_nil] at hs
      cases hs
      exact .nil
  | f :: rest, _, _, _, hs => by
      obtain ⟨s, ss', middle, rfl, hs, hrest⟩ := selectionsOf_cons_eq_ok.mp hs
      exact .cons (selectionOf_mirrors hr f hs) (selectionsOf_mirrors hr rest hrest)

end

end Catalog

end GraphQLClient
