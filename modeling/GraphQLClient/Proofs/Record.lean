import GraphQLClient.Proofs.Entries
import GraphQLClient.Record
import Mathlib.Data.List.Forall2

/-!
# Records that are written

Members with distinct names that all belong to a record are its fields, in whatever order they
stand.  A field is then read from what is written under its name, and the values of a list are read
one by one.

## Main definitions

* `Record.written` : the record of members that are written.

## Main results

* `mapM_eq_some_iff` : values are read one by one.
* `Record.ofMembers?_written` : members that are written are read as their record.
* `Record.required_written`, `Record.orElse_written`, `Record.optional_written` : fields that are
  written are read back.
-/

namespace GraphQLClient

variable {α β γ : Type}

/-- Values are read one by one. -/
theorem mapM_eq_some_iff {read : α → Option β} {items : List α} {values : List β} :
    items.mapM read = some values ↔ List.Forall₂ (fun a b => read a = some b) items values := by
  induction items generalizing values with
  | nil => cases values <;> simp
  | cons item rest ih =>
    simp only [List.mapM_cons, Option.bind_eq_bind, Option.bind_eq_some_iff, Option.pure_def,
      Option.some_inj, List.forall₂_cons_left_iff, ih]
    constructor
    · rintro ⟨value, hvalue, others, hothers, rfl⟩
      exact ⟨value, others, hvalue, hothers, rfl⟩
    · rintro ⟨value, others, hvalue, hothers, rfl⟩
      exact ⟨value, hvalue, others, hothers, rfl⟩

/-- What is true of all that is read is true of all values that are read one by one. -/
theorem forall_mem_of_forall₂ {R : α → β → Prop} {P : β → Prop} {items : List α} {values : List β}
    (h : List.Forall₂ R items values) (hR : ∀ a b, R a b → P b) : ∀ b ∈ values, P b := by
  induction h with
  | nil => exact fun _ hb => absurd hb List.not_mem_nil
  | cons hvalue _ ih => exact List.forall_mem_cons.mpr ⟨hR _ _ hvalue, ih⟩

namespace Record

/-- Members that all belong to a record are its fields. -/
theorem ofMembers?_of_known {names : List String} {members : Entries α}
    (hknown : ∀ p ∈ members, names.contains p.1 = true) (hnodup : members.keys.Nodup) :
    ofMembers? names members = some ⟨false, members⟩ := by
  unfold ofMembers?
  rw [List.filter_eq_self.mpr hknown]
  exact if_pos hnodup

/-- A property of the default and of all that is read is one of the field. -/
theorem of_orElse (P : β → Prop) {r : Record α} {name : String} {default b : β}
    {read : α → Option β} (h : r.orElse name default read = some b) (hdefault : P default)
    (hread : ∀ a b, read a = some b → P b) : P b := by
  unfold orElse at h
  split at h
  · exact Option.some_inj.mp h ▸ hdefault
  · exact hread _ b h

/-- The record of members that are written. -/
def written (write : α → β) (members : Entries α) : Record β :=
  ⟨false, members.mapValues write⟩

variable {write : α → β} {members : Entries α} {name : String}

theorem get?_written (write : α → β) (members : Entries α) (name : String) :
    (written write members).fields.get? name = (members.get? name).map write :=
  Entries.get?_mapValues _ _ _

theorem contains_of_mem_mapValues {names : List String} (write : α → β)
    (hknown : members.keys ⊆ names) :
    ∀ p ∈ members.mapValues write, names.contains p.1 = true := by
  intro p hp
  rw [← Entries.keys_mapValues write] at hknown
  exact List.contains_iff_mem.mpr (hknown (List.mem_map_of_mem hp))

/-- Members that are written are read as their record if they all belong to it. -/
theorem ofMembers?_written {names : List String} (write : α → β)
    (hknown : members.keys ⊆ names) (hnodup : members.keys.Nodup) :
    ofMembers? names (members.mapValues write) = some (written write members) :=
  ofMembers?_of_known (contains_of_mem_mapValues write hknown) <| by
    rwa [Entries.keys_mapValues]

/-- A field that has to be given is read back. -/
theorem required_written {read : β → Option γ} {a : α} {c : γ}
    (hget : members.get? name = some a) (hread : read (write a) = some c) :
    (written write members).required name read = some c := by
  rw [required, get?_written, hget]
  exact hread

/-- A field that has a default is read back where it is written. -/
theorem orElse_written {read : β → Option γ} {a : α} {c : γ} (default : γ)
    (hget : members.get? name = some a) (hread : read (write a) = some c) :
    (written write members).orElse name default read = some c := by
  rw [orElse, get?_written, hget]
  exact hread

/-- A field that may be without a value is read back where it is written. -/
theorem optional_written {read : β → Option (Option γ)} {a : α} {c? : Option γ}
    (hget : members.get? name = some a) (hread : read (write a) = some c?) :
    (written write members).optional name read = some c? := by
  rw [optional, get?_written, hget]
  exact hread

/-- A field that has a default is read as the default where it is left out. -/
theorem orElse_written_of_eq_none (read : β → Option γ) (default : γ)
    (hget : members.get? name = none) :
    (written write members).orElse name default read = some default := by
  rw [orElse, get?_written, hget]
  rfl

/-- A field that may be without a value is read back, whether it is left out or not. -/
theorem orElse_written_map {read : β → Option (Option γ)} {a? : Option γ} (form : γ → α)
    (hget : members.get? name = a?.map form)
    (hread : ∀ a ∈ a?, read (write (form a)) = some (some a)) :
    (written write members).orElse name none read = some a? := by
  cases a? with
  | none => exact orElse_written_of_eq_none read none hget
  | some a => exact orElse_written none hget (hread a rfl)

end Record

end GraphQLClient
