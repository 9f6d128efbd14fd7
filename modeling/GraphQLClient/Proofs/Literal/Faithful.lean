import GraphQLClient.Proofs.Codec.RoundTrip
import GraphQLClient.Proofs.Codec.Typing
import GraphQLClient.Proofs.Literal.Numerals

/-!
# Literals of JSON values

A JSON value is written as a literal that says the same and no more: null, truth values, strings,
lists and objects in their order, integers as integer literals and all other numbers as float
literals.  It has neither variables nor members of enumerations, and no number that a reader of
documents would refuse.

## Main definitions

* `Literal.HasNumerals` : the texts of all numbers in a literal follow the grammar.

## Main results

* `Literal.ofJson_faithful` : which values have a literal, and what it is made of.
-/

namespace GraphQLClient.Literal

/-! ### The texts of numbers -/

mutual

/-- The texts of all numbers in a literal follow the grammar. -/
def HasNumerals : Literal → Prop
  | .null => True
  | .boolean _ => True
  | .int text => IsIntValue text.toList
  | .float text => IsFloatValue text.toList
  | .string _ => True
  | .enum _ => True
  | .var _ => True
  | .list items => ItemsHaveNumerals items
  | .object fields => FieldsHaveNumerals fields

/-- The texts of all numbers in the items of a list follow the grammar. -/
def ItemsHaveNumerals : List Literal → Prop
  | [] => True
  | item :: rest => HasNumerals item ∧ ItemsHaveNumerals rest

/-- The texts of all numbers in the fields of an object follow the grammar. -/
def FieldsHaveNumerals : List (String × Literal) → Prop
  | [] => True
  | (_, value) :: rest => HasNumerals value ∧ FieldsHaveNumerals rest

end

mutual

theorem hasNumerals_ofJson : (j : Json) → {l : Literal} → ofJson j = .ok l → l.HasNumerals
  | .null, _, h | .bool _, _, h | .string _, _, h => by
      rw [ofJson] at h
      cases h
      rw [HasNumerals]
      trivial
  | .number (.int i _), _, h => by
      rw [ofJson] at h
      cases h
      rw [HasNumerals, String.toList_ofList]
      exact isIntValue_intChars i
  | .number (.float x), _, h => by
      rw [ofJson] at h
      cases h
      rw [HasNumerals, String.toList_ofList]
      exact isFloatValue_write rfl x
  | .array items, _, h => by
      obtain ⟨ls, rfl, hls⟩ := ofJson_array_eq_ok.mp h
      rw [HasNumerals]
      exact itemsHaveNumerals_ofJsonItems items hls
  | .object members, _, h => by
      obtain ⟨ls, rfl, hls⟩ := ofJson_object_eq_ok.mp h
      rw [HasNumerals]
      exact fieldsHaveNumerals_ofJsonMembers members hls

theorem itemsHaveNumerals_ofJsonItems : (items : List Json) → {ls : List Literal} →
    ofJsonItems items = .ok ls → ItemsHaveNumerals ls
  | [], _, h => by
      rw [ofJsonItems] at h
      cases h
      rw [ItemsHaveNumerals]
      trivial
  | item :: rest, _, h => by
      obtain ⟨l, ls, rfl, hl, hls⟩ := ofJsonItems_cons_eq_ok.mp h
      rw [ItemsHaveNumerals]
      exact ⟨hasNumerals_ofJson item hl, itemsHaveNumerals_ofJsonItems rest hls⟩

theorem fieldsHaveNumerals_ofJsonMembers : (members : List (String × Json)) →
    {ls : List (String × Literal)} → ofJsonMembers members = .ok ls → FieldsHaveNumerals ls
  | [], _, h => by
      rw [ofJsonMembers] at h
      cases h
      rw [FieldsHaveNumerals]
      trivial
  | (_, value) :: rest, _, h => by
      obtain ⟨-, l, ls, rfl, hl, hls⟩ := ofJsonMembers_cons_eq_ok.mp h
      rw [FieldsHaveNumerals]
      exact ⟨hasNumerals_ofJson value hl, fieldsHaveNumerals_ofJsonMembers rest hls⟩

end

/-! ### Faithful literals -/

/-- **Writing is faithful.** A JSON value has a literal exactly if all members of its objects are
under names.  The literal has no variables and no members of enumerations, the texts of its numbers
follow the grammar, and it is read as the value again, provided that the texts of floating-point
numbers are. -/
theorem ofJson_faithful (read : String → Finite64) (j : Json) :
    ((∃ l, ofJson j = .ok l) ↔ j.hasNames = true) ∧
      ∀ l, ofJson j = .ok l →
        l.isData = true ∧ l.HasNumerals ∧
          ((∀ x ∈ j.floats, ReadsFloat read x) → l.value? read = some j) :=
  ⟨exists_ofJson_iff j, fun _ hl =>
    ⟨isData_ofJson j hl, hasNumerals_ofJson j hl, fun hread => value?_ofJson j hread hl⟩⟩

/-- A reading of an instrument: the largest and the smallest integers of JSON, and a number that is
none, inside objects and lists. -/
def instrumentReading : Json :=
  .object
    [("unit", .null), ("_range", .array [.ofInt (-0x8000000000000000), .ofInt 0xffffffffffffffff]),
      ("mean", .object [("value", .number (.float Catalog.threeHalves)), ("note", .string "°C")])]

theorem ofJson_instrumentReading :
    ∃ l, ofJson instrumentReading = .ok l ∧ l.isData = true ∧ l.HasNumerals ∧
      l.value? Catalog.readFinite = some instrumentReading := by
  obtain ⟨hnames, hfaithful⟩ := ofJson_faithful Catalog.readFinite instrumentReading
  obtain ⟨l, hl⟩ := hnames.mpr (by decide)
  obtain ⟨hdata, hnumerals, hvalue⟩ := hfaithful l hl
  have hread : ∀ x ∈ instrumentReading.floats, ReadsFloat Catalog.readFinite x :=
    List.forall_mem_singleton.mpr Catalog.readsFloat_threeHalves
  exact ⟨l, hl, hdata, hnumerals, hvalue hread⟩

end GraphQLClient.Literal
