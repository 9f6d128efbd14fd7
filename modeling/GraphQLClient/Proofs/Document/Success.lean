import GraphQLClient.Document.Build

/-!
# When an operation has a document

For each part of an operation this file says what its successful translation consists of: the
arguments of a field, then the field, then the fields after it, with the table of variables handed
on from each to the next.

## Main results

* `Catalog.argumentsOf_cons_eq_ok` : the arguments of a field.
* `Catalog.selectionOf_leaf_eq_ok`, `Catalog.selectionOf_composite_eq_ok`,
  `Catalog.selectionsOf_cons_eq_ok` : fields.
* `Catalog.documentOf_eq_ok` : operations.
-/

namespace GraphQLClient

namespace Catalog

variable {c : Catalog} {table table' : Variables}

theorem argumentsOf_nil (h : FieldHead) : c.argumentsOf h [] table = .ok ([], table) := by
  rw [argumentsOf]

/-- The arguments of a field are written one after the other, under their declared names. -/
theorem argumentsOf_cons_eq_ok {h : FieldHead} {name : String} {value : Value}
    {rest : Entries Value} {ls : List (String × Literal)} :
    c.argumentsOf h ((name, value) :: rest) table = .ok (ls, table') ↔
      ∃ definition l ls' middle, h.argument? name = some definition ∧
        ls = (definition.name, l) :: ls' ∧
        c.serialize definition.type value table = (.ok l, middle) ∧
        c.argumentsOf h rest middle = .ok (ls', table') := by
  rw [argumentsOf]
  constructor
  · intro h
    split at h
    · simp at h
    · rename_i definition hdefinition
      split at h
      · simp at h
      · rename_i l middle hvalue
        split at h
        · simp at h
        · rename_i ls' after hrest
          cases h
          exact ⟨definition, l, ls', middle, hdefinition, rfl, hvalue, hrest⟩
  · rintro ⟨definition, l, ls', middle, hdefinition, rfl, hvalue, hrest⟩
    simp only [hdefinition, hvalue, hrest]

/-- A field of a leaf type is written with its arguments. -/
theorem selectionOf_leaf_eq_ok {typename : Bool} {h : FieldHead} {s : Document.Selection} :
    c.selectionOf typename (.leaf h) table = .ok (s, table') ↔
      ∃ alias? arguments, checkName h.alias? = .ok alias? ∧
        c.argumentsOf h h.arguments table = .ok (arguments, table') ∧
        s = .field alias? h.definition.name arguments [] := by
  rw [selectionOf]
  constructor
  · intro hs
    split at hs
    · simp at hs
    · rename_i alias? halias
      split at hs
      · simp at hs
      · rename_i arguments after harguments
        cases hs
        exact ⟨alias?, arguments, halias, harguments, rfl⟩
  · rintro ⟨alias?, arguments, halias, harguments, rfl⟩
    simp only [halias, harguments]

/-- A field of a composite type is written with its arguments and then with the fields below it. -/
theorem selectionOf_composite_eq_ok {typename : Bool} {h : FieldHead} {children : List Field}
    {s : Document.Selection} :
    c.selectionOf typename (.composite h children) table = .ok (s, table') ↔
      ∃ alias? arguments selections middle, checkName h.alias? = .ok alias? ∧
        c.argumentsOf h h.arguments table = .ok (arguments, middle) ∧
        children ≠ [] ∧
        c.selectionsOf typename children middle = .ok (selections, table') ∧
        s = .field alias? h.definition.name arguments
          (if typename then .typename :: selections else selections) := by
  rw [selectionOf]
  constructor
  · intro hs
    split at hs
    · simp at hs
    · rename_i alias? halias
      split at hs
      · simp at hs
      · rename_i arguments middle harguments
        split at hs
        · simp at hs
        · rename_i hchildren
          split at hs
          · simp at hs
          · rename_i selections after hselections
            cases hs
            exact ⟨alias?, arguments, selections, middle, halias, harguments,
              by simpa using hchildren, hselections, rfl⟩
  · rintro ⟨alias?, arguments, selections, middle, halias, harguments, hchildren, hselections,
      rfl⟩
    simp only [halias, harguments, List.isEmpty_iff, if_neg hchildren, hselections]

theorem selectionsOf_nil (typename : Bool) :
    c.selectionsOf typename [] table = .ok ([], table) := by
  rw [selectionsOf]

/-- Fields are written one after the other. -/
theorem selectionsOf_cons_eq_ok {typename : Bool} {f : Field} {rest : List Field}
    {ss : List Document.Selection} :
    c.selectionsOf typename (f :: rest) table = .ok (ss, table') ↔
      ∃ s ss' middle, ss = s :: ss' ∧ c.selectionOf typename f table = .ok (s, middle) ∧
        c.selectionsOf typename rest middle = .ok (ss', table') := by
  rw [selectionsOf]
  constructor
  · intro h
    split at h
    · simp at h
    · rename_i s middle hs
      split at h
      · simp at h
      · rename_i ss' after hrest
        cases h
        exact ⟨s, ss', middle, rfl, hs, hrest⟩
  · rintro ⟨s, ss', middle, rfl, hs, hrest⟩
    simp only [hs, hrest]

/-- The document of an operation declares the variables met in its selections. -/
theorem documentOf_eq_ok {o : Operation} {d : Document} :
    c.documentOf o = .ok d ↔
      o.selections ≠ [] ∧ ∃ name selections table, checkName o.name = .ok name ∧
        c.selectionsOf o.typename o.selections [] = .ok (selections, table) ∧
        d = ⟨o.kind, name, table, selections⟩ := by
  rw [documentOf]
  constructor
  · intro h
    split at h
    · simp at h
    · rename_i hselections
      split at h
      · simp at h
      · rename_i name hname
        split at h
        · simp at h
        · rename_i selections table hs
          cases h
          exact ⟨by simpa using hselections, name, selections, table, hname, hs, rfl⟩
  · rintro ⟨hselections, name, selections, table, hname, hs, rfl⟩
    simp only [List.isEmpty_iff, if_neg hselections, hname, hs]

end Catalog

end GraphQLClient
