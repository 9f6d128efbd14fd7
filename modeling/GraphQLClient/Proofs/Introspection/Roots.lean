import GraphQLClient.Introspection.Fetch
import GraphQLClient.Proofs.Introspection.RoundTrip
import GraphQLClient.Proofs.Schema.Merge
import GraphQLClient.Proofs.Sdl.Dialects

/-!
# Root types of introspected schemas

A document that is written for a payload lists the root types only when one of them has a name other
than the usual one.  A document that lists none is read as one whose root types are the objects with
the usual names, whether or not the payload calls them roots.  So the root types of the payload are
those of the schema exactly if they are listed, or if the objects with the usual names are the root
types of the payload.

## Main definitions

* `Introspection.root?` : the root type of an operation.
* `Introspection.definesObject` : the objects that a payload describes.

## Main results

* `Introspection.parse?_toSdl` : the client reads the document as the definitions of the payload.
* `Introspection.root?_schemaOf` : the root types of the schema of a payload.
* `Introspection.root?_schemaOf_eq_iff` : when they are the root types of the payload.
-/

namespace GraphQLClient.Introspection

open Sdl

/-- The root type of an operation. -/
def root? (s : Introspection) : RootKind → Option String
  | .query => s.queryType
  | .mutation => s.mutationType
  | .subscription => s.subscriptionType

/-- Whether a payload describes an object under a name. -/
def definesObject (s : Introspection) (name : String) : Bool :=
  s.types.any fun t => t.kind = .object && t.name = name

/-! ### What the client reads -/

/-- The document of a payload, if the client reads it, is read as the definitions that the payload
describes. -/
theorem parse?_toSdl {s : Introspection} (hs : s.WellFormed .client) {ds : List Definition}
    (h : Sdl.parse? s.toSdl = some ds) : ds = s.definitions := by
  obtain ⟨ts, hts, hflatten⟩ := exists_tokensFrom?_toSdl hs
  obtain ⟨ts', hts', hds⟩ := parse?_eq_some_iff.mp h
  obtain rfl := Option.some.inj (hts.symm.trans (tokens?_eq_some_iff.mp hts').2)
  have hpublished := definitionsWithin?_of_reads (forall₂_definitions hs) (Nat.le_refl _)
  rw [← hflatten] at hpublished
  exact definitionsWithin?_eq hpublished hds

/-! ### What the definitions say -/

theorem mem_definitions_iff {s : Introspection} {d : Definition} :
    d ∈ s.definitions ↔
      s.hasCustomRoot = true ∧ d = .schema ⟨none, [], s.rootTypes⟩ ∨
        (∃ i ∈ s.directives, isWrittenDirective i = true ∧ i.definition = d) ∨
          ∃ t ∈ s.types, isWrittenType t = true ∧ t.definition? = some d := by
  have hcustom : s.customRoots.isSome = s.hasCustomRoot := by
    rw [customRoots]
    cases s.hasCustomRoot <;> rfl
  rw [definitions, hcustom]
  cases s.hasCustomRoot <;> simp [and_assoc]

theorem definition?_eq_some {t : TypeInfo} {d : Definition} :
    t.definition? = some d ↔
      ∃ body, t.body? = some body ∧
        .type ⟨t.description.map descriptionText, t.name, [], body⟩ = d :=
  Option.map_eq_some_iff

theorem isPlain_definitions (s : Introspection) : Schema.IsPlain s.definitions := by
  constructor <;>
  · intro e he
    rcases mem_definitions_iff.mp he with ⟨-, h⟩ | ⟨i, -, -, h⟩ | ⟨t, -, -, h⟩
    · cases h
    · cases h
    · obtain ⟨_, -, h⟩ := definition?_eq_some.mp h
      cases h

/-- Root types are listed exactly if one of them has a name of its own. -/
theorem schemaDefinitions_definitions (s : Introspection) :
    Schema.schemaDefinitions s.definitions =
      if s.hasCustomRoot then [⟨none, [], s.rootTypes⟩] else [] := by
  have hdirectives : Schema.schemaDefinitions
      ((s.directives.filter isWrittenDirective).map DirectiveInfo.definition) = [] := by
    rw [Schema.schemaDefinitions, List.filterMap_eq_nil_iff, List.forall_mem_map]
    exact fun _ _ => rfl
  have htypes : Schema.schemaDefinitions
      ((s.types.filter isWrittenType).filterMap TypeInfo.definition?) = [] := by
    rw [Schema.schemaDefinitions, List.filterMap_eq_nil_iff]
    intro d hd
    obtain ⟨t, -, ht⟩ := List.mem_filterMap.mp hd
    obtain ⟨_, -, rfl⟩ := definition?_eq_some.mp ht
    rfl
  rw [Schema.schemaDefinitions] at hdirectives htypes
  rw [definitions, Schema.schemaDefinitions, List.filterMap_append, List.filterMap_append,
    hdirectives, htypes, List.append_nil, List.append_nil, customRoots]
  cases s.hasCustomRoot <;> rfl

/-! ### Objects with the usual names -/

theorem isBuiltin_usualName (kind : RootKind) : Schema.isBuiltin kind.usualName = false := by
  cases kind <;> decide

theorem isWrittenType_of_usualName {t : TypeInfo} {kind : RootKind} (h : t.name = kind.usualName) :
    isWrittenType t = true := by
  rw [isWrittenType, h]
  cases kind <;> decide

theorem exists_body?_object_iff {t : TypeInfo} :
    (∃ interfaces fields, t.body? = some (.object interfaces fields)) ↔ t.kind = .object := by
  rw [TypeInfo.body?]
  cases t.kind <;> simp

/-- The objects with the usual names that are defined are those that the payload describes. -/
theorem exists_object_mem_definitions_iff {s : Introspection} {kind : RootKind} :
    (∃ t, .type t ∈ s.definitions ∧ t.name = kind.usualName ∧
        ∃ interfaces fields, t.body = .object interfaces fields) ↔
      s.definesObject kind.usualName = true := by
  rw [definesObject, List.any_eq_true]
  constructor
  · rintro ⟨t, ht, hname, interfaces, fields, hbody⟩
    rcases mem_definitions_iff.mp ht with ⟨-, h⟩ | ⟨i, -, -, h⟩ | ⟨info, hinfo, -, h⟩
    · cases h
    · cases h
    · obtain ⟨body, hbody', h⟩ := definition?_eq_some.mp h
      cases h
      obtain rfl : body = .object interfaces fields := hbody
      have hkind := exists_body?_object_iff.mp ⟨interfaces, fields, hbody'⟩
      have hname : info.name = kind.usualName := hname
      exact ⟨info, hinfo, by simp [hkind, hname]⟩
  · rintro ⟨info, hinfo, h⟩
    obtain ⟨hkind, hname⟩ : info.kind = .object ∧ info.name = kind.usualName := by simpa using h
    obtain ⟨interfaces, fields, hbody⟩ := exists_body?_object_iff.mpr hkind
    exact ⟨_, mem_definitions_iff.mpr (.inr (.inr ⟨info, hinfo, isWrittenType_of_usualName hname,
      definition?_eq_some.mpr ⟨_, hbody, rfl⟩⟩)), hname, interfaces, fields, rfl⟩

/-! ### Root types -/

theorem root?_eq_find? (s : Introspection) (kind : RootKind) :
    s.root? kind = (s.rootTypes.find? fun (k, _) => k == kind).map Prod.snd := by
  obtain ⟨query, mutation, subscription, types, directives⟩ := s
  cases kind <;> cases query <;> cases mutation <;> cases subscription <;> rfl

/-- Without a root type of its own name, a payload has root types with the usual names only. -/
theorem eq_usualName_of_root? {s : Introspection} (hs : s.hasCustomRoot = false) {kind : RootKind}
    {name : String} (h : s.root? kind = some name) : name = kind.usualName := by
  simp only [hasCustomRoot, Bool.or_eq_false_iff] at hs
  obtain ⟨⟨hquery, hmutation⟩, hsubscription⟩ := hs
  cases kind with
  | query =>
    have hroot : s.queryType = some name := h
    simpa [hroot, RootKind.usualName] using hquery
  | mutation =>
    have hroot : s.mutationType = some name := h
    simpa [hroot, RootKind.usualName] using hmutation
  | subscription =>
    have hroot : s.subscriptionType = some name := h
    simpa [hroot, RootKind.usualName] using hsubscription

theorem schemaOf_eq_ok {s : Introspection} {schema : Schema} :
    s.schemaOf = .ok schema ↔ Schema.parse? s.toSdl = some schema := by
  rw [schemaOf]
  cases Schema.parse? s.toSdl with
  | none => simp
  | some schema' => simp

/-- **The root types of the schema of a payload.** If they are listed, they are those of the
payload; if they are not, they are the objects with the usual names. -/
theorem root?_schemaOf {s : Introspection} (hs : s.WellFormed .client) {schema : Schema}
    (h : s.schemaOf = .ok schema) (kind : RootKind) :
    schema.root? kind =
      if s.hasCustomRoot then s.root? kind
      else if s.definesObject kind.usualName then some kind.usualName else none := by
  obtain ⟨ds, merged, hds, hmerged, -, rfl⟩ := Schema.parse?_eq_some.mp (schemaOf_eq_ok.mp h)
  obtain rfl := parse?_toSdl hs hds
  have hplain := isPlain_definitions s
  rw [Schema.root?_prune]
  have hroots := Schema.roots_of_merge? hplain hmerged
  rw [schemaDefinitions_definitions] at hroots
  cases hcustom : s.hasCustomRoot with
  | true =>
    obtain ⟨hnil, -⟩ | ⟨d, hd, hroots⟩ := hroots
    · simp [hcustom] at hnil
    · simp only [hcustom, if_true, List.cons.injEq, and_true] at hd
      rw [if_pos rfl, root?_eq_find?, Schema.root?, hroots, ← hd]
  | false =>
    obtain ⟨-, hroots⟩ | ⟨d, hd, -⟩ := hroots
    · have hobject := Schema.isObject_iff_of_merge? hplain hmerged (isBuiltin_usualName kind)
      rw [exists_object_mem_definitions_iff, Bool.coe_iff_coe] at hobject
      rw [if_neg Bool.false_ne_true, Schema.root?_of_usualRoots hroots, hobject]
    · simp [hcustom] at hd

/-- **When the root types of a payload are those of its schema.** Exactly if they are listed, or if
the objects with the usual names that the payload describes are its root types. -/
theorem root?_schemaOf_eq_iff {s : Introspection} (hs : s.WellFormed .client) {schema : Schema}
    (h : s.schemaOf = .ok schema) :
    (∀ kind, schema.root? kind = s.root? kind) ↔
      s.hasCustomRoot = true ∨
        ∀ kind, s.definesObject kind.usualName = (s.root? kind).isSome := by
  simp only [root?_schemaOf hs h]
  cases hcustom : s.hasCustomRoot with
  | true => simp
  | false =>
    simp only [Bool.false_eq_true, if_false, false_or]
    refine forall_congr' fun kind => ?_
    cases hroot : s.root? kind with
    | none => cases s.definesObject kind.usualName <;> simp
    | some name =>
      obtain rfl := eq_usualName_of_root? hcustom hroot
      cases s.definesObject kind.usualName <;> simp

/-! ### A type that is no root -/

/-- A payload without a root type for mutations that describes an object called `Mutation`. -/
def mutated : Introspection :=
  ⟨some "Query", none, none,
    [⟨.object, "Query", none,
        some [⟨"last", none, [], .named .object "Mutation", false, none⟩], none, none, none, none⟩,
      ⟨.object, "Mutation", none,
        some [⟨"gene", none, [], .named .scalar "String", false, none⟩], none, none, none, none⟩],
    []⟩

/-- The object called `Mutation` becomes a root type, although the payload has none for
mutations. -/
theorem root?_schemaOf_mutated :
    ∃ schema, mutated.schemaOf = .ok schema ∧ mutated.root? .mutation = none ∧
      schema.root? .mutation = some "Mutation" := by
  have hroot : ((Schema.parse? mutated.toSdl).bind fun schema => schema.root? .mutation) =
      some "Mutation" := by decide +kernel
  obtain ⟨schema, hschema, hmutation⟩ := Option.bind_eq_some_iff.mp hroot
  exact ⟨schema, schemaOf_eq_ok.mpr hschema, rfl, hmutation⟩

/-- The payload with the object called `Mutation` as its root type. -/
def mutable : Introspection :=
  { mutated with mutationType := some "Mutation" }

theorem root?_schemaOf_mutable :
    mutable.WellFormed .client ∧ ∃ schema, mutable.schemaOf = .ok schema ∧
      ∀ kind, schema.root? kind = mutable.root? kind := by
  have hwf : mutable.WellFormed .client := by decide +kernel
  have hparse : (Schema.parse? mutable.toSdl).isSome = true := by decide +kernel
  obtain ⟨schema, hschema⟩ := Option.isSome_iff_exists.mp hparse
  have h := schemaOf_eq_ok.mpr hschema
  refine ⟨hwf, schema, h, (root?_schemaOf_eq_iff hwf h).mpr (.inr fun kind => ?_)⟩
  cases kind <;> decide

end GraphQLClient.Introspection
