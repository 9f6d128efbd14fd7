import GraphQLClient.Proofs.Fragment.Complete

/-!
# Repeated selections

A field may be selected again in a selection set that has it, with other fields below it.  A
document asks for both selections, and a server answers both under the one response key that they
share.  A fragment has one entry for them and holds the result of the last selection there: nothing
that only an earlier one selects is left of the data.

## Main definitions

* `Result.fragments` : the fragments of a result.
* `Fragment.Shows`, `Result.IsOf` : the fields for which fragments have entries.
* `Field.HoldsLast` : what a fragment holds for a field that is selected twice.

## Main results

* `Field.ReadsAt.map_typeName_eq` : both selections read the same objects.
* `Catalog.inflate_holdsLast` : what the fragments of a result hold for a field that is selected
  twice.
-/

namespace GraphQLClient

/-! ### Fragments of results -/

namespace Result

mutual

/-- The fragments of a result, in the order of the lists they stand in; not those inside
fragments. -/
def fragments : Result → List Fragment
  | .leaf _ => []
  | .list items => itemsFragments items
  | .fragment typeName fields => [⟨typeName, fields⟩]

/-- The fragments of the items of a list. -/
def itemsFragments : List Result → List Fragment
  | [] => []
  | item :: rest => fragments item ++ itemsFragments rest

end

end Result

/-- A fragment has an entry for every field of a list. -/
def Fragment.Shows (r : Fragment) (fields : List Field) : Prop :=
  ∀ f ∈ fields, f.accessor ∈ Entries.keys r.fields

/-- The fragments of a result have entries for the fields of a selection set, and for nothing
else. -/
def Result.IsOf (r : Result) (children : List Field) : Prop :=
  ∀ shown ∈ r.fragments, ∀ accessor,
    accessor ∈ Entries.keys shown.fields ↔ accessor ∈ Field.accessors children

/-- If the fields of two selection sets have accessors of their own, the fragments of a result of
the second show the fields of both only if the first is empty. -/
theorem Result.IsOf.shows_append_iff {r : Result} {first last : List Field} (h : r.IsOf last)
    (hnodup : (Field.accessors (first ++ last)).Nodup) {shown : Fragment}
    (hmem : shown ∈ r.fragments) : shown.Shows (first ++ last) ↔ first = [] := by
  constructor
  · intro hshows
    refine List.eq_nil_iff_forall_not_mem.mpr fun f hf => ?_
    have hlast : f.accessor ∈ Field.accessors last :=
      (h shown hmem _).mp (hshows f (List.mem_append_left last hf))
    rw [Field.accessors, List.map_append, List.nodup_append] at hnodup
    exact hnodup.2.2 _ (List.mem_map_of_mem hf) _ hlast rfl
  · rintro rfl f hf
    exact (h shown hmem _).mpr (List.mem_map_of_mem hf)

/-- What a fragment holds for a field that is selected twice, if no field after the second selection
has its accessor.  Both selections have results of their own, with fragments for the same objects,
the first with the fields below the first selection and the second with those below the second; and
the fragment holds the second.  So, if all these fields have accessors of their own, the fragments
show the fields of both selections only if there are none below the first. -/
def Field.HoldsLast (fields : List Field) (own held : Entries Result) : Prop :=
  ∀ before h first between last after,
    fields = before ++ .composite h first :: (between ++ .composite h last :: after) →
      h.accessor ∉ Field.accessors after →
        ∃ r r', own[before.length]? = some (h.accessor, r) ∧
          own[before.length + (between.length + 1)]? = some (h.accessor, r') ∧
          r.fragments.map Fragment.typeName = r'.fragments.map Fragment.typeName ∧
          r.IsOf first ∧ r'.IsOf last ∧ Entries.get? held h.accessor = some r' ∧
          ((Field.accessors (first ++ last)).Nodup → ∀ shown ∈ r'.fragments,
            (shown.Shows (first ++ last) ↔ first = []))

namespace Field

variable {c : Catalog} {p q : List Field → Entries Result → Entries Result → Prop}

/-! ### Readings -/

mutual

/-- A condition on the fragments of a reading may be changed for one that follows from it and from
the readings of the fields. -/
theorem Reads.imp
    (hpq : ∀ children members own fields, ReadsFields c p children members own →
      p children own fields → q children own fields) : {f : Field} → {j : Json} → {r : Result} →
        Reads c p f j r → Reads c q f j r
  | _, _, _, .leaf hread => .leaf hread
  | _, _, _, .composite hr => .composite (ReadsAt.imp hpq hr)

theorem ReadsAt.imp
    (hpq : ∀ children members own fields, ReadsFields c p children members own →
      p children own fields → q children own fields) : {children : List Field} →
        {type : TypeExpr} → {j : Json} → {r : Result} → ReadsAt c p children type j r →
          ReadsAt c q children type j r
  | _, _, _, _, .null children type => .null children type
  | _, _, _, _, .list hitems => .list (ReadsItems.imp hpq hitems)
  | _, _, _, _, .fragment hown hfields =>
      .fragment (ReadsFields.imp hpq hown) (hpq _ _ _ _ hown hfields)

theorem ReadsItems.imp
    (hpq : ∀ children members own fields, ReadsFields c p children members own →
      p children own fields → q children own fields) : {children : List Field} →
        {item : TypeExpr} → {js : List Json} → {rs : List Result} →
          ReadsItems c p children item js rs → ReadsItems c q children item js rs
  | _, _, _, _, .nil children item => .nil children item
  | _, _, _, _, .cons hr hrest => .cons (ReadsAt.imp hpq hr) (ReadsItems.imp hpq hrest)

theorem ReadsFields.imp
    (hpq : ∀ children members own fields, ReadsFields c p children members own →
      p children own fields → q children own fields) : {fields : List Field} →
        {members : Entries Json} → {own : Entries Result} → ReadsFields c p fields members own →
          ReadsFields c q fields members own
  | _, _, _, .nil members => .nil members
  | _, _, _, .cons hr hrest => .cons (Reads.imp hpq hr) (ReadsFields.imp hpq hrest)

end

/-- The result of a field stands in the place of the field. -/
theorem ReadsFields.exists_split : {before : List Field} → {f : Field} → {after : List Field} →
    {members : Entries Json} → {own : Entries Result} →
      ReadsFields c p (before ++ f :: after) members own →
        ∃ own₁ r own₂, own = own₁ ++ (f.accessor, r) :: own₂ ∧ own₁.length = before.length ∧
          Reads c p f ((Entries.get? members f.responseKey).getD .null) r ∧
            ReadsFields c p after members own₂
  | [], _, _, _, _, .cons hr hrest => ⟨[], _, _, rfl, rfl, hr, hrest⟩
  | _ :: _, _, _, _, _, .cons _ hrest => by
      obtain ⟨own₁, r, own₂, rfl, hlength, hr, hafter⟩ := hrest.exists_split
      exact ⟨_ :: own₁, r, own₂, rfl, congrArg (· + 1) hlength, hr, hafter⟩

mutual

/-- Two readings of one value at one place, with different fields selected below it, have fragments
for the same objects. -/
theorem ReadsAt.map_typeName_eq : {children children' : List Field} → {type : TypeExpr} →
    {j : Json} → {r r' : Result} → ReadsAt c p children type j r →
      ReadsAt c p children' type j r' →
        r.fragments.map Fragment.typeName = r'.fragments.map Fragment.typeName
  | _, _, _, _, _, _, .null _ _, .null _ _ => rfl
  | _, _, _, _, _, _, .list hitems, .list hitems' => by
      rw [Result.fragments, Result.fragments, ReadsItems.map_typeName_eq hitems hitems']
  | _, _, _, _, _, _, .fragment _ _, .fragment _ _ => rfl

theorem ReadsItems.map_typeName_eq : {children children' : List Field} → {item : TypeExpr} →
    {js : List Json} → {rs rs' : List Result} → ReadsItems c p children item js rs →
      ReadsItems c p children' item js rs' →
        (Result.itemsFragments rs).map Fragment.typeName =
          (Result.itemsFragments rs').map Fragment.typeName
  | _, _, _, _, _, _, .nil _ _, .nil _ _ => rfl
  | _, _, _, _, _, _, .cons hr hrest, .cons hr' hrest' => by
      rw [Result.itemsFragments, Result.itemsFragments, List.map_append, List.map_append,
        ReadsAt.map_typeName_eq hr hr', ReadsItems.map_typeName_eq hrest hrest']

end

/-! ### What a selection set leaves in a fragment -/

/-- A fragment has an entry for every field of its selection set, and for nothing else. -/
theorem Keeps.mem_keys {children : List Field} {members : Entries Json}
    {own fields : Entries Result} (hown : ReadsFields c p children members own)
    (h : Keeps children own fields) (accessor : String) :
    accessor ∈ Entries.keys fields ↔ accessor ∈ accessors children := by
  rw [h.1, Entries.mem_keys_putAll, hown.keys_own, Entries.keys_nil]
  simp

mutual

/-- The fragments of a result have the entries of the selection set that they were read for. -/
theorem ReadsAt.isOf : {children : List Field} → {type : TypeExpr} → {j : Json} →
    {r : Result} → ReadsAt c Keeps children type j r → r.IsOf children
  | _, _, _, _, .null _ _, shown, hshown => by simp [Result.null, Result.fragments] at hshown
  | _, _, _, _, .list hitems, shown, hshown => by
      rw [Result.fragments] at hshown
      exact ReadsItems.isOf hitems shown hshown
  | _, _, _, _, .fragment hown hfields, shown, hshown => by
      rw [Result.fragments, List.mem_singleton] at hshown
      subst hshown
      exact hfields.mem_keys hown

theorem ReadsItems.isOf : {children : List Field} → {item : TypeExpr} → {js : List Json} →
    {rs : List Result} → ReadsItems c Keeps children item js rs → (Result.list rs).IsOf children
  | _, _, _, _, .nil _ _, shown, hshown => by
      simp [Result.fragments, Result.itemsFragments] at hshown
  | _, _, _, _, .cons hr hrest, shown, hshown => by
      rw [Result.fragments, Result.itemsFragments, List.mem_append] at hshown
      exact hshown.elim (ReadsAt.isOf hr shown) (ReadsItems.isOf hrest shown)

end

/-- A fragment that keeps the results of its fields holds the last one of those for a field. -/
theorem Keeps.holdsLast {fields : List Field} {members : Entries Json} {own held : Entries Result}
    (hown : ReadsFields c Keeps fields members own) (h : Keeps fields own held) :
    HoldsLast fields own held := by
  rintro before head first between last after rfl hlast
  obtain ⟨own₁, r, own₂, rfl, hlength, hr, hrest⟩ := hown.exists_split
  obtain ⟨own₂, r', own₃, rfl, hlength', hr', hafter⟩ := hrest.exists_split
  -- Both selections have one response key, so both are read from one value.
  cases hr with
  | composite hr =>
    cases hr' with
    | composite hr' =>
      refine ⟨r, r', ?_, ?_, hr.map_typeName_eq hr', hr.isOf, hr'.isOf, ?_,
        fun hnodup _ => hr'.isOf.shows_append_iff hnodup⟩
      · rw [← hlength, List.getElem?_append_right (Nat.le_refl _), Nat.sub_self]
        rfl
      · rw [← hlength, ← hlength', List.getElem?_append_right (Nat.le_add_right _ _),
          Nat.add_sub_cancel_left, List.getElem?_cons_succ,
          List.getElem?_append_right (Nat.le_refl _), Nat.sub_self]
        rfl
      · have hkeys : head.accessor ∉ Entries.keys own₃ := by rwa [hafter.keys_own]
        rw [h.1, ← List.cons_append, ← List.append_assoc]
        exact Entries.get?_putAll_append_cons [] _ head.accessor r' hkeys

end Field

namespace Catalog

variable {c : Catalog}

/-- **What the last selection leaves.** In every fragment of the result of an operation, what stands
under the accessor of a field that is selected several times is the result of the last selection.
With accessors of their own, the fields below an earlier selection are shown only if there are
none. -/
theorem inflate_holdsLast {o : Operation} {data : Json} {r : Fragment}
    (h : c.inflate o data = .ok r) : o.Reads c Field.HoldsLast data r := by
  obtain ⟨members, own, rfl, hown, rfl⟩ := inflate_eq_ok h
  have hreads := inflateFields_reads o.selections hown
  exact ⟨members, own, rfl, rfl,
    Field.ReadsFields.imp (fun _ _ _ _ hown hkeeps => hkeeps.holdsLast hown) hreads,
    hreads.keeps.holdsLast hreads⟩

/-! ### Names, and years of birth -/

/-- The crews by ship. -/
def crewsHead : FieldHead :=
  ⟨"Query", ⟨none, "crews", [], .list (.list (.named "Member" false) true) true, []⟩, none, "crews",
    []⟩

/-- The captain. -/
def captainHead : FieldHead :=
  ⟨"Query", ⟨none, "captain", [], .named "Member" false, []⟩, none, "captain", []⟩

/-- The name of a member. -/
def memberName : Field :=
  .leaf ⟨"Member", ⟨none, "name", [], .named "String" false, []⟩, none, "name", []⟩

/-- The year of birth of a member. -/
def memberBorn : Field :=
  .leaf ⟨"Member", ⟨none, "born", [], .named "Int" false, []⟩, none, "born", []⟩

/-- The names of a crew, and then the years of birth. -/
def crewTwice : Operation :=
  ((⟨.query, none, "Query", [], true⟩ : Operation).select
    [.composite crewsHead [memberName]]).select [.composite crewsHead [memberBorn]]

/-- The years of birth alone. -/
def crewYears : Fragment :=
  ⟨"Query",
    [("crews", .list [.list [.fragment "Pilot" [("born", .leaf .null)], .null], .list []])]⟩

theorem inflate_crewTwice :
    crews.inflate crewTwice crewData = .ok crewYears ∧
      crewTwice.Reads crews Field.HoldsLast crewData crewYears :=
  have h : crews.inflate crewTwice crewData = .ok crewYears := rfl
  ⟨h, inflate_holdsLast h⟩

/-- The name of the captain, and then the year of birth. -/
def captainTwice : Operation :=
  ((⟨.query, none, "Query", [], true⟩ : Operation).select
    [.composite captainHead [memberName]]).select [.composite captainHead [memberBorn]]

/-- The two fields below the captain have keys of their own and the data has both values, but the
name is not in the fragment. -/
theorem inflate_captainTwice :
    (Field.accessors ([memberName] ++ [memberBorn])).Nodup ∧
      (Field.responseKeys ([memberName] ++ [memberBorn])).Nodup ∧
      crews.inflate captainTwice
          (.object
            [("captain", .object [("name", .string "Ada"), ("born", .ofInt64 1815)])]) =
        .ok ⟨"Query", [("captain", .fragment "Member" [("born", .leaf (.int 1815))])]⟩ ∧
      ¬ Fragment.Shows ⟨"Member", [("born", .leaf (.int 1815))]⟩
          ([memberName] ++ [memberBorn]) := by
  refine ⟨by decide, by decide, rfl, fun h => ?_⟩
  have hname : "name" ∈ ["born"] := h memberName List.mem_cons_self
  simp at hname

end Catalog

end GraphQLClient
