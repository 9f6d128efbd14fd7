import GraphQLClient.Introspection.Payload
import GraphQLClient.Introspection.Printer
import GraphQLClient.Proofs.Json.Parts

/-!
# Payloads that are written again

The description of a schema is written with all of its parts: null stands for a part that is
missing, and a list that is missing is told from a list without items.  Every part has a reader that
gives back what is written of it, so the readers of lists, of parts that may be missing and of
records do, and nothing of a description is lost.  A reference to a type is written as deep as it
has wrappers, and is read to the depth of what is written.

## Main definitions

* `Introspection.ReadsBack` : a reader that gives back what is written.

## Main results

* `Introspection.ReadsBack.listJson`, `Introspection.ReadsBack.orNull` : lists, and parts that may
  be missing.
* `Introspection.readsBack_typeRef` : references, however many wrappers they have.
* `Introspection.ofJson?_toJson` : the description of a schema is read from its JSON form.
-/

namespace GraphQLClient.Introspection

open Json (Source)

/-- A reader gives back every value that is written. -/
def ReadsBack {α : Type} (read : Source → Option α) (write : α → Json) : Prop :=
  ∀ a, read (.ofJson (write a)) = some a

/-! ### Parts -/

section

variable {α : Type} {read : Source → Option α} {write : α → Json}

theorem ReadsBack.listJson (h : ReadsBack read write) :
    ReadsBack (Source.list? read) (listJson write) := fun _ =>
  Source.list?_ofJson <|
    List.forall₂_map_left_iff.mpr (List.forall₂_same.mpr fun a _ => h a)

/-- A part that may be missing is read back, if a part that is there is never written as null. -/
theorem ReadsBack.orNull (h : ReadsBack read write) (hne : ∀ a, write a ≠ .null) :
    ReadsBack (Source.nullable read) (orNull write)
  | none => rfl
  | some a => by
      rw [Introspection.orNull, Source.nullable_ofJson (hne a), h a, Option.map_some]

end

theorem readsBack_string : ReadsBack Source.string? .string := fun _ => rfl

theorem readsBack_bool : ReadsBack Source.bool? .bool := fun _ => rfl

theorem readsBack_text : ReadsBack text? (orNull .string) :=
  readsBack_string.orNull nofun

theorem readsBack_kind : ReadsBack Kind.ofSource? fun kind => .string kind.name := by
  intro kind
  cases kind <;> rfl

theorem readsBack_typeName : ReadsBack typeName? typeNameJson := fun _ => rfl

/-! ### References -/

theorem TypeRef.toJson_mk (kind : Kind) (name : Option String) (ofType : Option TypeRef) :
    (TypeRef.mk kind name ofType).toJson =
      .object [("kind", .string kind.name), ("name", orNull .string name),
        ("ofType", orNull toJson ofType)] := by
  cases ofType <;> rw [toJson] <;> rfl

theorem TypeRef.toJson_ne_null (t : TypeRef) : t.toJson ≠ .null := by
  obtain ⟨kind, name, ofType⟩ := t
  rw [toJson_mk]
  exact nofun

/-- What is written of a reference is as deep as the reference has wrappers. -/
theorem TypeRef.height_toJson (kind : Kind) (name : Option String) (inner : TypeRef) :
    (Source.ofJson (TypeRef.mk kind name (some inner)).toJson).height =
      (Source.ofJson inner.toJson).height + 1 := by
  cases name <;>
    simp [toJson, orNull, Source.ofJson, Source.ofMembers, Source.height, Source.heightMembers]

/-- A reference is read back if what it wraps is. -/
theorem TypeRef.ofSourceWithin?_mk {n : Nat} (kind : Kind) (name : Option String)
    {ofType : Option TypeRef}
    (h : Source.nullable (ofSourceWithin? n) (.ofJson (orNull toJson ofType)) = some ofType) :
    ofSourceWithin? (n + 1) (.ofJson (TypeRef.mk kind name ofType).toJson) =
      some (.mk kind name ofType) := by
  rw [toJson_mk]
  simp only [ofSourceWithin?, Option.bind_eq_bind, Option.bind_eq_some_iff, Option.pure_def,
    Option.some_inj]
  exact ⟨_, Source.record?_object (by simp) (by simp),
    _, Record.required_written rfl (readsBack_kind kind),
    _, Record.optional_written rfl (readsBack_text name),
    _, Record.optional_written rfl h, rfl⟩

/-- A reference is read back to the depth of what is written of it. -/
theorem TypeRef.ofSourceWithin?_toJson : (t : TypeRef) → {n : Nat} →
    (Source.ofJson t.toJson).height < n → ofSourceWithin? n (.ofJson t.toJson) = some t
  | _, 0, h => absurd h (Nat.not_lt_zero _)
  | .mk kind name none, _ + 1, _ => ofSourceWithin?_mk kind name rfl
  | .mk kind name (some inner), n + 1, h => by
      rw [height_toJson] at h
      have hinner := ofSourceWithin?_toJson inner (n := n) (by omega)
      refine ofSourceWithin?_mk kind name ?_
      rw [orNull, Source.nullable_ofJson inner.toJson_ne_null, hinner, Option.map_some]

/-- References are read back, however many wrappers they have. -/
theorem readsBack_typeRef : ReadsBack TypeRef.ofSource? TypeRef.toJson := fun t =>
  t.ofSourceWithin?_toJson (Nat.lt_succ_self _)

/-! ### Records -/

theorem readsBack_input : ReadsBack InputInfo.ofSource? InputInfo.toJson := by
  intro i
  simp only [InputInfo.ofSource?, Option.bind_eq_bind, Option.bind_eq_some_iff, Option.pure_def,
    Option.some_inj]
  exact ⟨_, Source.record?_object (by simp) (by simp),
    _, Record.required_written rfl (readsBack_string i.name),
    _, Record.optional_written rfl (readsBack_text i.description),
    _, Record.required_written rfl (readsBack_typeRef i.type),
    _, Record.optional_written rfl (readsBack_text i.defaultValue), rfl⟩

theorem readsBack_field : ReadsBack FieldInfo.ofSource? FieldInfo.toJson := by
  intro f
  simp only [FieldInfo.ofSource?, Option.bind_eq_bind, Option.bind_eq_some_iff, Option.pure_def,
    Option.some_inj]
  exact ⟨_, Source.record?_object (by simp) (by simp),
    _, Record.required_written rfl (readsBack_string f.name),
    _, Record.optional_written rfl (readsBack_text f.description),
    _, Record.orElse_written [] rfl (readsBack_input.listJson f.args),
    _, Record.required_written rfl (readsBack_typeRef f.type),
    _, Record.orElse_written false rfl (readsBack_bool f.isDeprecated),
    _, Record.optional_written rfl (readsBack_text f.deprecationReason), rfl⟩

theorem readsBack_enumValue : ReadsBack EnumValueInfo.ofSource? EnumValueInfo.toJson := by
  intro v
  simp only [EnumValueInfo.ofSource?, Option.bind_eq_bind, Option.bind_eq_some_iff,
    Option.pure_def, Option.some_inj]
  exact ⟨_, Source.record?_object (by simp) (by simp),
    _, Record.required_written rfl (readsBack_string v.name),
    _, Record.optional_written rfl (readsBack_text v.description),
    _, Record.orElse_written false rfl (readsBack_bool v.isDeprecated),
    _, Record.optional_written rfl (readsBack_text v.deprecationReason), rfl⟩

theorem readsBack_type : ReadsBack TypeInfo.ofSource? TypeInfo.toJson := by
  intro t
  have hnames := readsBack_typeName.listJson.orNull nofun
  simp only [TypeInfo.ofSource?, Option.bind_eq_bind, Option.bind_eq_some_iff, Option.pure_def,
    Option.some_inj]
  exact ⟨_, Source.record?_object (by simp) (by simp),
    _, Record.required_written rfl (readsBack_kind t.kind),
    _, Record.required_written rfl (readsBack_string t.name),
    _, Record.optional_written rfl (readsBack_text t.description),
    _, Record.optional_written rfl (readsBack_field.listJson.orNull nofun t.fields),
    _, Record.optional_written rfl (readsBack_input.listJson.orNull nofun t.inputFields),
    _, Record.optional_written rfl (hnames t.interfaces),
    _, Record.optional_written rfl (readsBack_enumValue.listJson.orNull nofun t.enumValues),
    _, Record.optional_written rfl (hnames t.possibleTypes), rfl⟩

theorem readsBack_directive : ReadsBack DirectiveInfo.ofSource? DirectiveInfo.toJson := by
  intro d
  simp only [DirectiveInfo.ofSource?, Option.bind_eq_bind, Option.bind_eq_some_iff,
    Option.pure_def, Option.some_inj]
  exact ⟨_, Source.record?_object (by simp) (by simp),
    _, Record.required_written rfl (readsBack_string d.name),
    _, Record.optional_written rfl (readsBack_text d.description),
    _, Record.required_written rfl (readsBack_string.listJson d.locations),
    _, Record.orElse_written [] rfl (readsBack_input.listJson d.args), rfl⟩

/-! ### Payloads -/

theorem readsBack_payload : ReadsBack ofSource? toJson := by
  intro s
  have hroot := readsBack_typeName.orNull nofun
  simp only [ofSource?, Option.bind_eq_bind, Option.bind_eq_some_iff, Option.pure_def,
    Option.some_inj]
  exact ⟨_, Source.record?_object (by simp) (by simp),
    _, Record.required_written rfl (Source.record?_object (by simp) (by simp)),
    _, Record.optional_written rfl (hroot s.queryType),
    _, Record.optional_written rfl (hroot s.mutationType),
    _, Record.optional_written rfl (hroot s.subscriptionType),
    _, Record.required_written rfl (readsBack_type.listJson s.types),
    _, Record.orElse_written [] rfl (readsBack_directive.listJson s.directives), rfl⟩

/-- **Payloads that are written again.** The description of a schema is read from its JSON form, and
has the same document. -/
theorem ofJson?_toJson (s : Introspection) :
    ofJson? s.toJson = some s ∧ (ofJson? s.toJson).map toSdl = some s.toSdl := by
  have hread : ofJson? s.toJson = some s := readsBack_payload s
  exact ⟨hread, by rw [hread, Option.map_some]⟩

end GraphQLClient.Introspection
