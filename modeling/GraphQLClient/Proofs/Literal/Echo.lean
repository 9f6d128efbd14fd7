import GraphQLClient.Proofs.Codec.Success
import GraphQLClient.Proofs.Decimal.Digits
import GraphQLClient.Proofs.Entries

/-!
# Literals that a server gives back

A literal without variables and members of enumerations writes a JSON value, and the literal of a
JSON value writes that value again, provided that the texts of its floating-point numbers are read
back as the numbers they were written for.

A server that answers with an argument it was given answers with the JSON value that the literal of
the argument denotes.  This is the value that the literal writes, with the members of its objects in
order of their names; where the literal writes none, members of enumerations become strings.

## Main definitions

* `Literal.value?` : the JSON value that a literal writes.
* `Literal.echo` : the JSON value that a literal denotes.
* `Json.floats` : the floating-point numbers in a JSON value.

## Main results

* `Json.normalize_normalize` : members that are in order stay as they are.
* `Literal.value?_ofJson` : the literal of a JSON value writes the value.
* `Literal.echo_of_value?`, `Literal.echo_ofJson` : what is written is denoted.
-/

namespace GraphQLClient

/-! ### Members in order -/

namespace Json

theorem normalizeMembers_of_forall {members : List (String × Json)}
    (h : ∀ p ∈ members, p.2.normalize = p.2) : normalizeMembers members = members := by
  induction members with
  | nil => rw [normalizeMembers]
  | cons p rest ih =>
    obtain ⟨name, value⟩ := p
    obtain ⟨hvalue, hrest⟩ := List.forall_mem_cons.mp h
    rw [normalizeMembers, ih hrest]
    exact congrArg (fun v => (name, v) :: rest) hvalue

mutual

/-- Members that are in order stay as they are. -/
theorem normalize_normalize : (j : Json) → j.normalize.normalize = j.normalize
  | .null | .bool _ | .number _ | .string _ => by rw [normalize, normalize]
  | .array items => by
      rw [normalize, normalize, normalizeItems_normalizeItems items]
  | .object members => by
      have hmembers : normalizeMembers (Entries.ofList (normalizeMembers members)) =
          Entries.ofList (normalizeMembers members) :=
        normalizeMembers_of_forall fun p hp =>
          normalize_of_mem_normalizeMembers members p (Entries.mem_of_mem_ofList hp)
      rw [normalize, normalize, hmembers, Entries.ofList_of_ordered (Entries.ofList_ordered _)]

theorem normalizeItems_normalizeItems : (items : List Json) →
    normalizeItems (normalizeItems items) = normalizeItems items
  | [] => by rw [normalizeItems, normalizeItems]
  | item :: rest => by
      rw [normalizeItems, normalizeItems, normalize_normalize item,
        normalizeItems_normalizeItems rest]

theorem normalize_of_mem_normalizeMembers : (members : List (String × Json)) →
    ∀ p ∈ normalizeMembers members, p.2.normalize = p.2
  | [] => by simp [normalizeMembers]
  | (name, value) :: rest => by
      rw [normalizeMembers, List.forall_mem_cons]
      exact ⟨normalize_normalize value, normalize_of_mem_normalizeMembers rest⟩

end

/-! ### Floating-point numbers -/

mutual

/-- The floating-point numbers in a JSON value. -/
def floats : Json → List Finite64
  | .null => []
  | .bool _ => []
  | .number (.int _ _) => []
  | .number (.float x) => [x]
  | .string _ => []
  | .array items => itemsFloats items
  | .object members => membersFloats members

/-- The floating-point numbers in the items of an array. -/
def itemsFloats : List Json → List Finite64
  | [] => []
  | item :: rest => floats item ++ itemsFloats rest

/-- The floating-point numbers in the members of an object. -/
def membersFloats : List (String × Json) → List Finite64
  | [] => []
  | (_, value) :: rest => floats value ++ membersFloats rest

end

theorem membersFloats_eq_flatMap (members : List (String × Json)) :
    membersFloats members = members.flatMap fun p => p.2.floats := by
  induction members with
  | nil => rw [membersFloats, List.flatMap_nil]
  | cons p rest ih => rw [membersFloats, List.flatMap_cons, ih]

mutual

/-- Ordering members adds no number. -/
theorem floats_normalize_subset : (j : Json) → j.normalize.floats ⊆ j.floats
  | .null | .bool _ | .number _ | .string _ => by
      rw [normalize]
      exact List.Subset.refl _
  | .array items => by
      rw [normalize, floats, floats]
      exact itemsFloats_normalizeItems_subset items
  | .object members => by
      rw [normalize, floats, floats, membersFloats_eq_flatMap]
      intro x hx
      obtain ⟨p, hp, hx⟩ := List.mem_flatMap.mp hx
      apply membersFloats_normalizeMembers_subset members
      rw [membersFloats_eq_flatMap]
      exact List.mem_flatMap.mpr ⟨p, Entries.mem_of_mem_ofList hp, hx⟩

theorem itemsFloats_normalizeItems_subset : (items : List Json) →
    itemsFloats (normalizeItems items) ⊆ itemsFloats items
  | [] => by
      rw [normalizeItems]
      exact List.Subset.refl _
  | item :: rest => by
      rw [normalizeItems, itemsFloats, itemsFloats]
      exact List.append_subset.mpr
        ⟨List.Subset.trans (floats_normalize_subset item) (List.subset_append_left _ _),
          List.Subset.trans (itemsFloats_normalizeItems_subset rest)
            (List.subset_append_right _ _)⟩

theorem membersFloats_normalizeMembers_subset : (members : List (String × Json)) →
    membersFloats (normalizeMembers members) ⊆ membersFloats members
  | [] => by
      rw [normalizeMembers]
      exact List.Subset.refl _
  | (_, value) :: rest => by
      rw [normalizeMembers, membersFloats, membersFloats]
      exact List.append_subset.mpr
        ⟨List.Subset.trans (floats_normalize_subset value) (List.subset_append_left _ _),
          List.Subset.trans (membersFloats_normalizeMembers_subset rest)
            (List.subset_append_right _ _)⟩

end

end Json

/-! ### What a literal writes -/

namespace Literal

variable {read : String → Finite64}

/-- A reader that reads the text of a floating-point number as that number. -/
def ReadsFloat (read : String → Finite64) (x : Finite64) : Prop :=
  read (String.ofList (Decimal.write .literal x)) = x

/-- The JSON value of an integer, if it is in the range of JSON. -/
def intJson? (i : Int) : Option Json :=
  if h : -0x8000000000000000 ≤ i ∧ i < 0x10000000000000000 then some (.number (.int i h)) else none

mutual

/-- The JSON value that a literal writes, with a reader for the texts of floating-point numbers.
Members of enumerations and variables are no JSON. -/
def value? (read : String → Finite64) : Literal → Option Json
  | .null => some .null
  | .boolean b => some (.bool b)
  | .int text => intJson? (Decimal.intValue text.toList)
  | .float text => some (.number (.float (read text)))
  | .string s => some (.string s)
  | .enum _ => none
  | .var _ => none
  | .list items => (itemValues? read items).map .array
  | .object fields => (fieldValues? read fields).map .object

/-- The JSON values that the items of a list write. -/
def itemValues? (read : String → Finite64) : List Literal → Option (List Json)
  | [] => some []
  | item :: rest => do
    let j ← value? read item
    let js ← itemValues? read rest
    return j :: js

/-- The JSON values that the fields of an object write, in their order. -/
def fieldValues? (read : String → Finite64) :
    List (String × Literal) → Option (List (String × Json))
  | [] => some []
  | (name, value) :: rest => do
    let j ← value? read value
    let js ← fieldValues? read rest
    return (name, j) :: js

end

mutual

/-- The literal of a JSON value writes the value: reading undoes writing. -/
theorem value?_ofJson : (j : Json) → (∀ x ∈ j.floats, ReadsFloat read x) → {l : Literal} →
    ofJson j = .ok l → l.value? read = some j
  | .null, _, _, h | .bool _, _, _, h | .string _, _, _, h => by
      rw [ofJson] at h
      cases h
      rw [value?]
  | .number (.int i hi), _, _, h => by
      rw [ofJson] at h
      cases h
      rw [value?, String.toList_ofList, Decimal.intValue_intChars, intJson?, dif_pos hi]
  | .number (.float x), hread, _, h => by
      rw [ofJson] at h
      cases h
      have hx : ReadsFloat read x := hread x (by simp [Json.floats])
      rw [value?, hx]
  | .array items, hread, _, h => by
      obtain ⟨ls, rfl, hls⟩ := ofJson_array_eq_ok.mp h
      rw [Json.floats] at hread
      rw [value?, itemValues?_ofJsonItems items hread hls, Option.map_some]
  | .object members, hread, _, h => by
      obtain ⟨ls, rfl, hls⟩ := ofJson_object_eq_ok.mp h
      rw [Json.floats] at hread
      rw [value?, fieldValues?_ofJsonMembers members hread hls, Option.map_some]

theorem itemValues?_ofJsonItems : (items : List Json) →
    (∀ x ∈ Json.itemsFloats items, ReadsFloat read x) → {ls : List Literal} →
      ofJsonItems items = .ok ls → itemValues? read ls = some items
  | [], _, _, h => by
      rw [ofJsonItems] at h
      cases h
      rw [itemValues?]
  | item :: rest, hread, _, h => by
      obtain ⟨l, ls, rfl, hl, hls⟩ := ofJsonItems_cons_eq_ok.mp h
      rw [Json.itemsFloats, List.forall_mem_append] at hread
      rw [itemValues?, value?_ofJson item hread.1 hl, itemValues?_ofJsonItems rest hread.2 hls]
      rfl

theorem fieldValues?_ofJsonMembers : (members : List (String × Json)) →
    (∀ x ∈ Json.membersFloats members, ReadsFloat read x) → {ls : List (String × Literal)} →
      ofJsonMembers members = .ok ls → fieldValues? read ls = some members
  | [], _, _, h => by
      rw [ofJsonMembers] at h
      cases h
      rw [fieldValues?]
  | (name, value) :: rest, hread, _, h => by
      obtain ⟨-, l, ls, rfl, hl, hls⟩ := ofJsonMembers_cons_eq_ok.mp h
      rw [Json.membersFloats, List.forall_mem_append] at hread
      rw [fieldValues?, value?_ofJson value hread.1 hl,
        fieldValues?_ofJsonMembers rest hread.2 hls]
      rfl

end

/-! ### What a literal denotes -/

mutual

/-- The JSON value that a literal denotes, with a reader for the texts of floating-point numbers.  A
reference to a variable denotes nothing by itself and counts as null. -/
def echo (read : String → Finite64) : Literal → Json
  | .null => .null
  | .boolean b => .bool b
  | .int text => .ofInt (Decimal.intValue text.toList)
  | .float text => .number (.float (read text))
  | .string s => .string s
  | .enum member => .string member
  | .var _ => .null
  | .list items => .array (echoItems read items)
  | .object fields => .ofMembers (echoFields read fields)

/-- The JSON values that the items of a list denote. -/
def echoItems (read : String → Finite64) : List Literal → List Json
  | [] => []
  | item :: rest => echo read item :: echoItems read rest

/-- The JSON values that the fields of an object denote. -/
def echoFields (read : String → Finite64) : List (String × Literal) → List (String × Json)
  | [] => []
  | (name, value) :: rest => (name, echo read value) :: echoFields read rest

end

theorem ofInt_of_intJson? {i : Int} {j : Json} (h : intJson? i = some j) :
    Json.ofInt i = j.normalize := by
  rw [intJson?] at h
  split at h
  · next hi =>
    cases h
    rw [Json.ofInt, dif_pos hi, Json.normalize]
  · cases h

mutual

/-- A literal that writes a JSON value denotes it, with its members in order. -/
theorem echo_of_value? : (l : Literal) → {j : Json} → l.value? read = some j →
    l.echo read = j.normalize
  | .null, _, h | .boolean _, _, h | .string _, _, h | .float _, _, h => by
      rw [value?] at h
      cases h
      rw [echo, Json.normalize]
  | .int text, _, h => by
      rw [value?] at h
      rw [echo, ofInt_of_intJson? h]
  | .enum _, _, h | .var _, _, h => by
      rw [value?] at h
      cases h
  | .list items, _, h => by
      rw [value?, Option.map_eq_some_iff] at h
      obtain ⟨js, hjs, rfl⟩ := h
      rw [echo, Json.normalize, echoItems_of_itemValues? items hjs]
  | .object fields, _, h => by
      rw [value?, Option.map_eq_some_iff] at h
      obtain ⟨js, hjs, rfl⟩ := h
      rw [echo, Json.normalize, echoFields_of_fieldValues? fields hjs, Json.ofMembers]

theorem echoItems_of_itemValues? : (items : List Literal) → {js : List Json} →
    itemValues? read items = some js → echoItems read items = Json.normalizeItems js
  | [], _, h => by
      rw [itemValues?] at h
      cases h
      rw [echoItems, Json.normalizeItems]
  | item :: rest, _, h => by
      rw [itemValues?] at h
      obtain ⟨j, hj, h⟩ := Option.bind_eq_some_iff.mp h
      obtain ⟨js, hjs, h⟩ := Option.bind_eq_some_iff.mp h
      cases h
      rw [echoItems, Json.normalizeItems, echo_of_value? item hj, echoItems_of_itemValues? rest hjs]

theorem echoFields_of_fieldValues? : (fields : List (String × Literal)) →
    {js : List (String × Json)} → fieldValues? read fields = some js →
      echoFields read fields = Json.normalizeMembers js
  | [], _, h => by
      rw [fieldValues?] at h
      cases h
      rw [echoFields, Json.normalizeMembers]
  | (name, value) :: rest, _, h => by
      rw [fieldValues?] at h
      obtain ⟨j, hj, h⟩ := Option.bind_eq_some_iff.mp h
      obtain ⟨js, hjs, h⟩ := Option.bind_eq_some_iff.mp h
      cases h
      rw [echoFields, Json.normalizeMembers, echo_of_value? value hj,
        echoFields_of_fieldValues? rest hjs]

end

/-- The literal of a JSON value denotes the value, with its members in order. -/
theorem echo_ofJson (j : Json) (hread : ∀ x ∈ j.floats, ReadsFloat read x) {l : Literal}
    (h : ofJson j = .ok l) : l.echo read = j.normalize :=
  echo_of_value? l (value?_ofJson j hread h)

end Literal

end GraphQLClient
