import GraphQLClient.Proofs.Codec.Acceptance
import GraphQLClient.Proofs.Document.Places
import GraphQLClient.Proofs.Field.SelectionSets

/-!
# Operations that have a document

An operation has a document exactly if it is well formed.  Almost all that this asks for concerns
one field at a time: names, selections below composite fields, and arguments that their places
take.  Only the variables are looked at together, wherever they stand: each of them has one type in
the whole operation.  None of this depends on the order of fields or of their arguments, nor on
whether the types of objects are asked for.

## Main definitions

* `FieldHead.WellFormed`, `Operation.WellFormed` : the fields and operations that can be written.
* `Operation.visits` : the variables of an operation, each with the type of its place.
* `Field.Rearranges` : fields in another order, and arguments in another order below them.

## Main results

* `Catalog.selectionsOf_writes` : the fields that can be written next to each other.
* `Catalog.exists_documentOf_iff` : the operations that have a document.
-/

namespace GraphQLClient

/-! ### Well-formed operations -/

/-- The variables of arguments that stand at places of declared types, each with the type of its
place. -/
def FieldHead.visitsOf (c : Catalog) (h : FieldHead) (arguments : Entries Value) :
    List (String × TypeExpr) :=
  arguments.flatMap fun p =>
    match h.argument? p.1 with
    | some definition => c.visits definition.type p.2
    | none => []

/-- The variables of the arguments of a field. -/
def FieldHead.visits (c : Catalog) (h : FieldHead) : List (String × TypeExpr) :=
  h.visitsOf c h.arguments

/-- A field that can be written, apart from what is selected below it. -/
structure FieldHead.WellFormed (c : Catalog) (h : FieldHead) : Prop where
  alias_isName : ∀ key ∈ h.alias?, Name.isName key = true
  /-- Every argument is declared, and its place takes its value. -/
  arguments : ∀ p ∈ h.arguments, ∃ definition, h.argument? p.1 = some definition ∧
    c.Accepts definition.type p.2

/-- The variables of an operation, each with the type of its place. -/
def Operation.visits (c : Catalog) (o : Operation) : List (String × TypeExpr) :=
  (Field.headsOf o.selections).flatMap (FieldHead.visits c)

/-- An operation that can be written. -/
structure Operation.WellFormed (c : Catalog) (o : Operation) : Prop where
  name_isName : ∀ name ∈ o.name, Name.isName name = true
  /-- Something is selected in the operation, and below every field of a composite type. -/
  selections : o.EverySelectionSet (· ≠ [])
  heads : ∀ h ∈ Field.headsOf o.selections, h.WellFormed c
  /-- A variable stands at places of one type only. -/
  types_agree : ∀ r ∈ o.visits c, ∀ r' ∈ o.visits c, r.1 = r'.1 → r.2 = r'.2

/-! ### Other orders -/

/-- Fields in another order, at every level, and the arguments of fields in another order. -/
inductive Field.Rearranges : List Field → List Field → Prop where
  | nil : Rearranges [] []
  | leaf (h : FieldHead) {arguments : Entries Value} (harguments : h.arguments.Perm arguments)
    {rest rest' : List Field} (hrest : Rearranges rest rest') :
    Rearranges (.leaf h :: rest) (.leaf { h with arguments } :: rest')
  | composite (h : FieldHead) {arguments : Entries Value}
    (harguments : h.arguments.Perm arguments) {children children' : List Field}
    (hchildren : Rearranges children children') {rest rest' : List Field}
    (hrest : Rearranges rest rest') :
    Rearranges (.composite h children :: rest) (.composite { h with arguments } children' :: rest')
  | swap (f g : Field) (rest : List Field) : Rearranges (f :: g :: rest) (g :: f :: rest)
  | trans {fields fields' fields'' : List Field} (h : Rearranges fields fields')
    (h' : Rearranges fields' fields'') : Rearranges fields fields''

namespace FieldHead

variable {c : Catalog} {h : FieldHead} {arguments : Entries Value}

theorem wellFormed_perm (harguments : h.arguments.Perm arguments) :
    WellFormed c { h with arguments } ↔ h.WellFormed c :=
  ⟨fun hwf => ⟨hwf.alias_isName, fun p hp => hwf.arguments p (harguments.mem_iff.mp hp)⟩,
    fun hwf => ⟨hwf.alias_isName, fun p hp => hwf.arguments p (harguments.mem_iff.mpr hp)⟩⟩

theorem mem_visits_perm (harguments : h.arguments.Perm arguments) {r : String × TypeExpr} :
    r ∈ visits c { h with arguments } ↔ r ∈ h.visits c :=
  (harguments.flatMap_right _).mem_iff.symm

end FieldHead

namespace Field.Rearranges

variable {c : Catalog} {fields fields' : List Field}

theorem length_eq (h : Rearranges fields fields') : fields.length = fields'.length := by
  induction h with
  | nil => rfl
  | leaf h harguments hrest ih => simp [ih]
  | composite h harguments hchildren hrest _ ih => simp [ih]
  | swap f g rest => rfl
  | trans _ _ ih ih' => exact ih.trans ih'

theorem ne_nil_iff (h : Rearranges fields fields') : fields ≠ [] ↔ fields' ≠ [] := by
  rw [← List.length_pos_iff, h.length_eq, List.length_pos_iff]

theorem wellFormed_iff (h : Rearranges fields fields') :
    (∀ h ∈ Field.headsOf fields, h.WellFormed c) ↔ ∀ h ∈ Field.headsOf fields', h.WellFormed c := by
  induction h with
  | nil => rfl
  | leaf h harguments hrest ih =>
    simp [headsOf, heads, ih, FieldHead.wellFormed_perm harguments]
  | composite h harguments hchildren hrest ihchildren ih =>
    simp only [headsOf, heads, List.cons_append, List.forall_mem_cons, List.forall_mem_append,
      ihchildren, ih, FieldHead.wellFormed_perm harguments]
  | swap f g rest =>
    simp only [headsOf, List.forall_mem_append, and_left_comm]
  | trans _ _ ih ih' => exact ih.trans ih'

theorem everySelectionSet_iff (h : Rearranges fields fields') :
    Field.EverySelectionSetBelow (· ≠ []) fields ↔
      Field.EverySelectionSetBelow (· ≠ []) fields' := by
  induction h with
  | nil => rfl
  | leaf h harguments hrest ih => simp only [EverySelectionSetBelow, EverySelectionSet, ih]
  | composite h harguments hchildren hrest ihchildren ih =>
    simp only [EverySelectionSetBelow, EverySelectionSet, ihchildren, ih, hchildren.ne_nil_iff]
  | swap f g rest => simp only [EverySelectionSetBelow, and_left_comm]
  | trans _ _ ih ih' => exact ih.trans ih'

theorem mem_visits_iff (h : Rearranges fields fields') {r : String × TypeExpr} :
    r ∈ (Field.headsOf fields).flatMap (FieldHead.visits c) ↔
      r ∈ (Field.headsOf fields').flatMap (FieldHead.visits c) := by
  induction h with
  | nil => rfl
  | leaf h harguments hrest ih =>
    simp only [headsOf, heads, List.flatMap_append, List.flatMap_singleton, List.mem_append, ih,
      FieldHead.mem_visits_perm harguments]
  | composite h harguments hchildren hrest ihchildren ih =>
    simp only [headsOf, heads, List.flatMap_append, List.flatMap_cons, List.mem_append, ih,
      ihchildren, FieldHead.mem_visits_perm harguments]
  | swap f g rest =>
    simp only [headsOf, List.flatMap_append, List.mem_append, or_left_comm]
  | trans _ _ ih ih' => exact ih.trans ih'

end Field.Rearranges

/-- An operation is as well formed as any with the same name and the same fields in another
order. -/
theorem Operation.wellFormed_iff_of_rearranges {c : Catalog} {o o' : Operation}
    (hname : o.name = o'.name) (h : Field.Rearranges o.selections o'.selections) :
    o.WellFormed c ↔ o'.WellFormed c := by
  have hselections : o.EverySelectionSet (· ≠ []) ↔ o'.EverySelectionSet (· ≠ []) :=
    and_congr h.ne_nil_iff h.everySelectionSet_iff
  have hvisits (r : String × TypeExpr) : r ∈ o.visits c ↔ r ∈ o'.visits c := h.mem_visits_iff
  constructor
  · rintro ⟨hisName, hnonempty, hheads, hvariables⟩
    simp only [hvisits] at hvariables
    exact ⟨hname ▸ hisName, hselections.mp hnonempty, h.wellFormed_iff.mp hheads, hvariables⟩
  · rintro ⟨hisName, hnonempty, hheads, hvariables⟩
    simp only [← hvisits] at hvariables
    exact ⟨hname ▸ hisName, hselections.mpr hnonempty, h.wellFormed_iff.mpr hheads, hvariables⟩

/-! ### Fields that can be written -/

theorem exists_checkName_iff {name? : Option String} :
    (∃ checked, checkName name? = .ok checked) ↔ ∀ name ∈ name?, Name.isName name = true := by
  cases name? with
  | none => simp [checkName]
  | some name => by_cases hname : Name.isName name = true <;> simp [checkName, hname]

namespace Catalog

/-- Arguments can be written one after the other if each of them is declared, its place takes its
value, and all their variables agree. -/
theorem argumentsOf_writes (c : Catalog) (h : FieldHead) (arguments : Entries Value) :
    Variables.Writes
      (fun table table' => ∃ ls, c.argumentsOf h arguments table = .ok (ls, table'))
      (∀ p ∈ arguments, ∃ definition, h.argument? p.1 = some definition ∧
        c.Accepts definition.type p.2)
      (h.visitsOf c arguments) := by
  induction arguments with
  | nil => exact .congr (by simp [argumentsOf_nil]) (by simp) .refl
  | cons argument rest ih =>
    obtain ⟨name, value⟩ := argument
    rw [FieldHead.visitsOf, List.flatMap_cons]
    cases hdefinition : h.argument? name with
    | none =>
      refine .congr (fun _ _ => ?_) (by simp [hdefinition]) (.impossible _)
      simp [argumentsOf_cons_eq_ok, hdefinition]
    | some definition =>
      refine .congr (fun _ _ => ?_) ?_ ((serialize_writes c definition.type value).comp ih)
      · constructor
        · rintro ⟨middle, ⟨l, hvalue⟩, ls, hrest⟩
          exact ⟨_, argumentsOf_cons_eq_ok.mpr
            ⟨definition, l, ls, middle, hdefinition, rfl, hvalue, hrest⟩⟩
        · rintro ⟨_, h⟩
          obtain ⟨_, l, ls, middle, hdefinition', -, hvalue, hrest⟩ :=
            argumentsOf_cons_eq_ok.mp h
          obtain rfl := Option.some.inj (hdefinition.symm.trans hdefinition')
          exact ⟨middle, ⟨l, hvalue⟩, ls, hrest⟩
      · simp [hdefinition]

/-- The alias and the arguments of a field can be written if the field is well formed and its
variables agree. -/
theorem head_writes (c : Catalog) (h : FieldHead) :
    Variables.Writes
      (fun table table' => (∃ alias?, checkName h.alias? = .ok alias?) ∧
        ∃ ls, c.argumentsOf h h.arguments table = .ok (ls, table'))
      (h.WellFormed c) (h.visits c) :=
  .congr (fun _ _ => Iff.rfl)
    ⟨fun ⟨halias, harguments⟩ => ⟨exists_checkName_iff.mp halias, harguments⟩,
      fun hwf => ⟨exists_checkName_iff.mpr hwf.alias_isName, hwf.arguments⟩⟩
    (.guard _ (argumentsOf_writes c h h.arguments))

mutual

/-- A field can be written if it and the fields below it are well formed, something is selected
below each field of a composite type, and all their variables agree. -/
theorem selectionOf_writes (c : Catalog) (typename : Bool) : (f : Field) →
    Variables.Writes
      (fun table table' => ∃ s, c.selectionOf typename f table = .ok (s, table'))
      ((∀ h ∈ f.heads, h.WellFormed c) ∧ f.EverySelectionSet (· ≠ []))
      (f.heads.flatMap (FieldHead.visits c))
  | .leaf h => by
      rw [Field.heads, List.flatMap_singleton]
      refine .congr (fun _ _ => ?_) (by simp [Field.EverySelectionSet]) (head_writes c h)
      simp only [selectionOf_leaf_eq_ok]
      constructor
      · rintro ⟨⟨alias?, halias⟩, ls, harguments⟩
        exact ⟨_, alias?, ls, halias, harguments, rfl⟩
      · rintro ⟨_, alias?, ls, halias, harguments, -⟩
        exact ⟨⟨alias?, halias⟩, ls, harguments⟩
  | .composite h children => by
      rw [Field.heads, List.flatMap_cons]
      refine .congr (fun _ _ => ?_) ?_ ((head_writes c h).comp
        (.guard (children ≠ []) (selectionsOf_writes c typename children)))
      · simp only [selectionOf_composite_eq_ok]
        constructor
        · rintro ⟨middle, ⟨⟨alias?, halias⟩, ls, harguments⟩, hchildren, ss, hselections⟩
          exact ⟨_, alias?, ls, ss, middle, halias, harguments, hchildren, hselections, rfl⟩
        · rintro ⟨_, alias?, ls, ss, middle, halias, harguments, hchildren, hselections, -⟩
          exact ⟨middle, ⟨⟨alias?, halias⟩, ls, harguments⟩, hchildren, ss, hselections⟩
      · rw [List.forall_mem_cons, Field.EverySelectionSet]
        tauto

/-- Fields can be written next to each other if each of them can, and all their variables agree. -/
theorem selectionsOf_writes (c : Catalog) (typename : Bool) : (fields : List Field) →
    Variables.Writes
      (fun table table' => ∃ ss, c.selectionsOf typename fields table = .ok (ss, table'))
      ((∀ h ∈ Field.headsOf fields, h.WellFormed c) ∧
        Field.EverySelectionSetBelow (· ≠ []) fields)
      ((Field.headsOf fields).flatMap (FieldHead.visits c))
  | [] => by
      rw [Field.headsOf, List.flatMap_nil]
      exact .congr (by simp [selectionsOf_nil]) (by simp [Field.EverySelectionSetBelow]) .refl
  | f :: rest => by
      rw [Field.headsOf, List.flatMap_append]
      refine .congr (fun _ _ => ?_) ?_
        ((selectionOf_writes c typename f).comp (selectionsOf_writes c typename rest))
      · constructor
        · rintro ⟨middle, ⟨s, hs⟩, ss, hrest⟩
          exact ⟨_, selectionsOf_cons_eq_ok.mpr ⟨s, ss, middle, rfl, hs, hrest⟩⟩
        · rintro ⟨_, h⟩
          obtain ⟨s, ss, middle, -, hs, hrest⟩ := selectionsOf_cons_eq_ok.mp h
          exact ⟨middle, ⟨s, hs⟩, ss, hrest⟩
      · rw [List.forall_mem_append, Field.EverySelectionSetBelow]
        tauto

end

/-! ### Operations that can be written -/

/-- An operation has a document if it is well formed. -/
theorem wellFormed_iff_exists_documentOf (c : Catalog) (o : Operation) :
    (∃ d, c.documentOf o = .ok d) ↔ o.WellFormed c := by
  have hwrites := (selectionsOf_writes c o.typename o.selections).exists_iff []
  rw [Variables.admits_nil_iff] at hwrites
  simp only [documentOf_eq_ok]
  constructor
  · rintro ⟨_, hne, name, ss, table, hname, hselections, -⟩
    obtain ⟨⟨hheads, hbelow⟩, hvariables⟩ := hwrites.mp ⟨table, ss, hselections⟩
    exact ⟨exists_checkName_iff.mp ⟨name, hname⟩, ⟨hne, hbelow⟩, hheads, hvariables⟩
  · rintro ⟨hname, ⟨hne, hbelow⟩, hheads, hvariables⟩
    obtain ⟨name, hname⟩ := exists_checkName_iff.mpr hname
    obtain ⟨table, ss, hselections⟩ := hwrites.mpr ⟨⟨hheads, hbelow⟩, hvariables⟩
    exact ⟨_, hne, name, ss, table, hname, hselections, rfl⟩

/-- **The operations that have a document.** An operation has a document exactly if it is well
formed; so any operation of the same name with the same fields, in whatever order and whether or
not it asks for the types of objects, has one too. -/
theorem exists_documentOf_iff (c : Catalog) (o : Operation) :
    ((∃ d, c.documentOf o = .ok d) ↔ o.WellFormed c) ∧
      ∀ o' : Operation, o.name = o'.name → Field.Rearranges o.selections o'.selections →
        ((∃ d, c.documentOf o' = .ok d) ↔ ∃ d, c.documentOf o = .ok d) := by
  refine ⟨wellFormed_iff_exists_documentOf c o, fun o' hname h => ?_⟩
  rw [wellFormed_iff_exists_documentOf, wellFormed_iff_exists_documentOf,
    Operation.wellFormed_iff_of_rearranges hname h]

/-! ### A search and a count in either order -/

/-- A field that counts. -/
def countField : Field :=
  .leaf ⟨"Query", ⟨none, "count", [], .named "Int" false, []⟩, none, "count", []⟩

/-- A search with a variable in two arguments, and a count next to it. -/
def countedOperation : Operation :=
  ⟨.query, none, "Query",
    [.composite
      ⟨"Query", searchField, none, "search",
        [("filter", .object [("size", .var "size")]), ("first", .var "size")]⟩ [countField],
      countField],
    true⟩

/-- The count, and then the search with its arguments the other way round; the types of objects are
not asked for. -/
def recountedOperation : Operation :=
  ⟨.query, none, "Query",
    [countField,
      .composite
        ⟨"Query", searchField, none, "search",
          [("first", .var "size"), ("filter", .object [("size", .var "size")])]⟩ [countField]],
    false⟩

theorem rearranges_countedOperation :
    Field.Rearranges countedOperation.selections recountedOperation.selections :=
  .trans
    (.composite _ (List.Perm.swap _ _ []) (.leaf _ (List.Perm.refl _) .nil)
      (.leaf _ (List.Perm.refl _) .nil))
    (.swap _ _ [])

theorem exists_documentOf_recountedOperation :
    countedOperation.WellFormed searching ∧
      Field.Rearranges countedOperation.selections recountedOperation.selections ∧
        ∃ d, searching.documentOf recountedOperation = .ok d :=
  have hd : ∃ d, searching.documentOf countedOperation = .ok d := ⟨_, rfl⟩
  have h := exists_documentOf_iff searching countedOperation
  ⟨h.1.mp hd, rearranges_countedOperation,
    (h.2 recountedOperation rfl rearranges_countedOperation).mpr hd⟩

end Catalog

end GraphQLClient
