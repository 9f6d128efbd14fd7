import GraphQLClient.Proofs.Record

/-!
# Values and their parts

The value of the parts of a text has its objects in order, each name once, and is nested no deeper
than the text may be.  So it is the value of its own parts, and what has been read from a text is
read again from what is written of it.  The readers of records, of lists and of values that may be
null read what is written if the readers of the parts do.

## Main definitions

* `Json.Fits` : the values of their own parts.

## Main results

* `Json.Source.fits_of_toJson?` : the value of the parts of a text is the value of its own parts.
* `Json.Source.record?_ofJson`, `Json.Source.list?_ofJson`, `Json.Source.nullable_ofJson` : reading
  what is written.
* `Json.Source.of_list?`, `Json.Source.of_nullable` : what lists and values that may be null hold.
-/

namespace GraphQLClient.Json

/-- A value is the value of its own parts where texts may be nested `depth` deep. -/
def Fits (depth : Nat) (j : Json) : Prop :=
  (Source.ofJson j).toJson? depth = some j

namespace Source

/-! ### Parts of a value -/

theorem ofItems_eq_map (items : List Json) : ofItems items = items.map ofJson := by
  induction items with
  | nil => rfl
  | cons item rest ih => rw [ofItems, ih, List.map_cons]

theorem itemsToJson?_cons (depth : Nat) (item : Source) (rest : List Source) :
    itemsToJson? depth (item :: rest) =
      (item.toJson? depth).bind fun value => (itemsToJson? depth rest).map (value :: ·) := by
  rw [itemsToJson?]
  cases item.toJson? depth <;> rfl

theorem membersToJson?_cons (depth : Nat) (name : String) (part : Source)
    (rest : List (Option String × Source)) :
    membersToJson? depth ((some name, part) :: rest) =
      (part.toJson? depth).bind fun value =>
        (membersToJson? depth rest).map ((name, value) :: ·) := by
  cases h : part.toJson? depth <;> simp [membersToJson?, h]

theorem itemsToJson?_ofItems {depth : Nat} {items : List Json} (h : ∀ j ∈ items, j.Fits depth) :
    itemsToJson? depth (ofItems items) = some items := by
  induction items with
  | nil => rfl
  | cons item rest ih =>
    obtain ⟨hitem, hrest⟩ := List.forall_mem_cons.mp h
    rw [Fits] at hitem
    rw [ofItems, itemsToJson?_cons, hitem, ih hrest]
    rfl

theorem membersToJson?_ofMembers {depth : Nat} {members : Entries Json}
    (h : ∀ p ∈ members, p.2.Fits depth) :
    membersToJson? depth (ofMembers members) = some members := by
  induction members with
  | nil => rfl
  | cons p rest ih =>
    obtain ⟨hvalue, hrest⟩ := List.forall_mem_cons.mp h
    rw [Fits] at hvalue
    rw [ofMembers, membersToJson?_cons, hvalue, ih hrest]
    rfl

theorem fits_array {depth : Nat} {items : List Json} (h : ∀ j ∈ items, j.Fits depth) :
    (Json.array items).Fits (depth + 1) := by
  rw [Fits, ofJson, toJson?, itemsToJson?_ofItems h, Option.map_some]

theorem fits_object {depth : Nat} {members : Entries Json} (hordered : members.Ordered)
    (h : ∀ p ∈ members, p.2.Fits depth) : (Json.object members).Fits (depth + 1) := by
  rw [Fits, ofJson, toJson?, membersToJson?_ofMembers h, Option.map_some,
    Entries.ofList_of_ordered hordered]

mutual

/-- The value of the parts of a text is the value of its own parts. -/
theorem fits_of_toJson? : (s : Source) → ∀ {depth : Nat} {j : Json},
    s.toJson? depth = some j → j.Fits depth
  | .null, _, _, h => by cases h; rfl
  | .bool b, _, _, h => by cases h; rfl
  | .number n, _, _, h => by
      obtain ⟨n, rfl, rfl⟩ := Option.map_eq_some_iff.mp h
      rfl
  | .string s, _, _, h => by
      obtain ⟨s, rfl, rfl⟩ := Option.map_eq_some_iff.mp h
      rfl
  | .array _, 0, _, h => by cases h
  | .array items, depth + 1, _, h => by
      obtain ⟨values, hvalues, rfl⟩ := Option.map_eq_some_iff.mp h
      exact fits_array (fits_of_itemsToJson? items hvalues)
  | .object _, 0, _, h => by cases h
  | .object members, depth + 1, _, h => by
      obtain ⟨values, hvalues, rfl⟩ := Option.map_eq_some_iff.mp h
      exact fits_object (Entries.ofList_ordered values) fun p hp =>
        fits_of_membersToJson? members hvalues p (Entries.mem_of_mem_ofList hp)

theorem fits_of_itemsToJson? : (items : List Source) → ∀ {depth : Nat} {values : List Json},
    itemsToJson? depth items = some values → ∀ j ∈ values, j.Fits depth
  | [], _, _, h => by cases h; exact fun _ hj => absurd hj List.not_mem_nil
  | item :: rest, depth, _, h => by
      rw [itemsToJson?_cons] at h
      obtain ⟨value, hvalue, h⟩ := Option.bind_eq_some_iff.mp h
      obtain ⟨values, hvalues, rfl⟩ := Option.map_eq_some_iff.mp h
      exact List.forall_mem_cons.mpr
        ⟨fits_of_toJson? item hvalue, fits_of_itemsToJson? rest hvalues⟩

theorem fits_of_membersToJson? : (members : List (Option String × Source)) →
    ∀ {depth : Nat} {values : Entries Json},
      membersToJson? depth members = some values → ∀ p ∈ values, p.2.Fits depth
  | [], _, _, h => by cases h; exact fun _ hp => absurd hp List.not_mem_nil
  | (none, _) :: _, _, _, h => by cases h
  | (some name, part) :: rest, depth, _, h => by
      rw [membersToJson?_cons] at h
      obtain ⟨value, hvalue, h⟩ := Option.bind_eq_some_iff.mp h
      obtain ⟨values, hvalues, rfl⟩ := Option.map_eq_some_iff.mp h
      exact List.forall_mem_cons.mpr
        ⟨fits_of_toJson? part hvalue, fits_of_membersToJson? rest hvalues⟩

end

/-- Only null is read as null. -/
theorem ne_null_of_toJson? {depth : Nat} {s : Source} {j : Json} (hs : s ≠ .null)
    (h : s.toJson? depth = some j) : j ≠ .null := by
  rintro rfl
  cases s with
  | null => exact hs rfl
  | bool b => cases h
  | number n => cases n <;> cases h
  | string s => cases s <;> cases h
  | array parts | object parts =>
    cases depth with
    | zero => cases h
    | succ depth =>
      obtain ⟨_, -, h⟩ := Option.map_eq_some_iff.mp h
      cases h

/-! ### Reading what is written -/

variable {α : Type} {read : Source → Option α}

theorem named?_ofMembers (members : Entries Json) :
    named? (ofMembers members) = some (members.mapValues ofJson) := by
  induction members with
  | nil => rfl
  | cons p rest ih => rw [ofMembers, named?, ih]; rfl

/-- Members that all belong to a record, each once, are read as the record. -/
theorem record?_object {names : List String} {members : Entries Json}
    (hknown : members.keys ⊆ names) (hnodup : members.keys.Nodup) :
    record? names (ofJson (.object members)) = some (.written ofJson members) := by
  rw [ofJson, record?, named?_ofMembers, Option.bind_some,
    Record.ofMembers?_written ofJson hknown hnodup]

/-- Members of a record are read as the record, in whatever order they are written. -/
theorem record?_ofJson {names : List String} (hnames : names.Nodup) {members written : Entries Json}
    (hmembers : members.keys.Sublist names) (hperm : members.Perm written) :
    record? names (ofJson (.object written)) = some (.written ofJson written) := by
  have hkeys : members.keys.Perm written.keys := hperm.map Prod.fst
  have hknown : written.keys ⊆ names := List.Subset.trans hkeys.symm.subset hmembers.subset
  have hnodup : written.keys.Nodup := hkeys.nodup_iff.mp (hnames.sublist hmembers)
  exact record?_object hknown hnodup

theorem list?_array_eq_some_iff {items : List Source} {values : List α} :
    list? read (.array items) = some values ↔
      List.Forall₂ (fun s a => read s = some a) items values :=
  mapM_eq_some_iff

/-- A list is read back if its items are. -/
theorem list?_ofJson {items : List Json} {values : List α}
    (h : List.Forall₂ (fun j a => read (.ofJson j) = some a) items values) :
    list? read (.ofJson (.array items)) = some values := by
  rw [ofJson, ofItems_eq_map, list?_array_eq_some_iff]
  exact List.forall₂_map_left_iff.mpr h

/-- What is read of every item is true of all that a list holds. -/
theorem of_list? (P : α → Prop) {s : Source} {values : List α} (h : list? read s = some values)
    (hread : ∀ s a, read s = some a → P a) : ∀ a ∈ values, P a := by
  cases s with
  | array items => exact forall_mem_of_forall₂ (list?_array_eq_some_iff.mp h) hread
  | _ => cases h

/-- A value that may be null, and is not, is read back if the value is. -/
theorem nullable_ofJson {j : Json} (hj : j ≠ .null) :
    nullable read (.ofJson j) = (read (.ofJson j)).map some := by
  cases j with
  | null => exact absurd rfl hj
  | _ => rfl

/-- What is read of a value is true of the value that is not null. -/
theorem of_nullable (P : α → Prop) {s : Source} {a? : Option α} (h : nullable read s = some a?)
    (hread : ∀ s a, s ≠ .null → read s = some a → P a) : ∀ a ∈ a?, P a := by
  unfold nullable at h
  split at h
  · cases h
    exact fun _ ha => absurd ha (Option.not_mem_none _)
  · next hs =>
    obtain ⟨a, ha, rfl⟩ := Option.map_eq_some_iff.mp h
    rintro _ ⟨⟩
    exact hread s a hs ha

end Source

end GraphQLClient.Json
