import GraphQLClient.Entries

/-!
# Look-up in entries

Entries whose names are pairwise distinct hold under each name exactly the value that stands there.
Writing such entries one after the other gives them back, and ordering them by name changes no
look-up.  Ordering entries that are in order changes nothing.

## Main definitions

* `Entries.Ordered` : entries in order of their names.

## Main results

* `Entries.get?_append`, `Entries.get?_eq_none` : look-up in entries one after the other, and where
  it fails.
* `Entries.get?_eq_some_iff`, `Entries.get?_perm` : look-up in entries with distinct names.
* `Entries.putAll_nil_of_nodup` : writing entries with distinct names.
* `Entries.get?_putAll_append_cons` : look-up in entries written one after the other.
* `Entries.get?_ofList_of_mem` : look-up in entries ordered by name.
* `Entries.ofList_ordered`, `Entries.ofList_of_ordered` : the order of the names.
* `Entries.perm_ofList` : ordering entries with distinct names only moves them.
-/

namespace GraphQLClient.Entries

variable {α β : Type}

@[simp]
theorem keys_nil : keys ([] : Entries α) = [] := rfl

@[simp]
theorem keys_cons (name : String) (value : α) (rest : Entries α) :
    keys ((name, value) :: rest) = name :: keys rest := rfl

@[simp]
theorem keys_append (e e' : Entries α) : keys (e ++ e') = keys e ++ keys e' :=
  List.map_append

@[simp]
theorem keys_mapValues (f : α → β) (e : Entries α) : keys (e.mapValues f) = keys e := by
  simp [keys, mapValues]

theorem nodup_keys_concat {e : Entries α} {name : String} {value : α} :
    (keys (e ++ [(name, value)])).Nodup ↔ (keys e).Nodup ∧ name ∉ keys e := by
  rw [keys_append, keys_cons, keys_nil, List.nodup_append]
  constructor
  · rintro ⟨he, -, hne⟩
    exact ⟨he, fun hmem => hne name hmem name List.mem_cons_self rfl⟩
  · rintro ⟨he, hname⟩
    refine ⟨he, by simp, fun k hk k' hk' heq => hname ?_⟩
    rwa [← List.mem_singleton.mp hk', ← heq]

theorem get?_append (e e' : Entries α) (name : String) :
    get? (e ++ e') name = (get? e name).or (get? e' name) := by
  induction e with
  | nil => rfl
  | cons p rest ih =>
    obtain ⟨k, v⟩ := p
    rw [List.cons_append, get?_cons, get?_cons, ih]
    split <;> rfl

theorem get?_mapValues (f : α → β) (e : Entries α) (name : String) :
    get? (e.mapValues f) name = (get? e name).map f := by
  induction e with
  | nil => rfl
  | cons p rest ih =>
    obtain ⟨k, v⟩ := p
    rw [mapValues, List.map_cons, get?_cons, get?_cons, ← mapValues, ih]
    split <;> rfl

theorem get?_eq_none {e : Entries α} {name : String} : get? e name = none ↔ name ∉ keys e := by
  induction e with
  | nil => simp
  | cons p rest ih =>
    obtain ⟨k, v⟩ := p
    rw [get?_cons, keys_cons, List.mem_cons]
    by_cases hk : k = name
    · simp [hk]
    · simp [hk, Ne.symm hk, ih]

theorem get?_eq_some_of_mem {e : Entries α} (he : (keys e).Nodup) {name : String} {value : α}
    (h : (name, value) ∈ e) : get? e name = some value := by
  induction e with
  | nil => simp at h
  | cons p rest ih =>
    obtain ⟨k, v⟩ := p
    rw [keys_cons, List.nodup_cons] at he
    rw [get?_cons]
    rcases List.mem_cons.mp h with h | h
    · cases h
      rw [if_pos rfl]
    · have hmem : name ∈ keys rest := List.mem_map_of_mem h
      have hk : k ≠ name := fun hk => he.1 (hk ▸ hmem)
      rw [if_neg hk, ih he.2 h]

theorem mem_of_get?_eq_some {e : Entries α} {name : String} {value : α}
    (h : get? e name = some value) : (name, value) ∈ e := by
  induction e with
  | nil => simp at h
  | cons p rest ih =>
    obtain ⟨k, v⟩ := p
    rw [get?_cons] at h
    split at h
    · rename_i hk
      cases h
      exact hk ▸ List.mem_cons_self
    · exact List.mem_cons_of_mem _ (ih h)

theorem get?_eq_some_iff {e : Entries α} (he : (keys e).Nodup) {name : String} {value : α} :
    get? e name = some value ↔ (name, value) ∈ e :=
  ⟨mem_of_get?_eq_some, get?_eq_some_of_mem he⟩

/-- The order of entries with distinct names changes no look-up. -/
theorem get?_perm {e e' : Entries α} (he : (keys e).Nodup) (h : e.Perm e') (name : String) :
    get? e name = get? e' name := by
  have he' : (keys e').Nodup := (h.map Prod.fst).nodup_iff.mp he
  ext value
  rw [get?_eq_some_iff he, get?_eq_some_iff he', h.mem_iff]

theorem nodup_of_nodup_keys {e : Entries α} (he : (keys e).Nodup) : e.Nodup :=
  List.Pairwise.of_map Prod.fst (fun _ _ hne heq => hne (congrArg Prod.fst heq)) he

/-- Entries with distinct names that give the same look-ups are the same up to their order. -/
theorem perm_of_get?_eq {e e' : Entries α} (he : (keys e).Nodup) (he' : (keys e').Nodup)
    (h : ∀ name, get? e name = get? e' name) : e.Perm e' := by
  refine (List.perm_ext_iff_of_nodup (nodup_of_nodup_keys he) (nodup_of_nodup_keys he')).mpr ?_
  rintro ⟨name, value⟩
  rw [← get?_eq_some_iff he, ← get?_eq_some_iff he', h]

/-! ### Writing in order of first mention -/

theorem put_of_notMem {e : Entries α} {name : String} (he : name ∉ keys e) (value : α) :
    put e name value = e ++ [(name, value)] := by
  induction e with
  | nil => rfl
  | cons p rest ih =>
    obtain ⟨k, v⟩ := p
    rw [keys_cons, List.mem_cons, not_or] at he
    rw [put, if_neg (Ne.symm he.1), ih he.2, List.cons_append]

theorem putAll_cons (e : Entries α) (name : String) (value : α) (new : Entries α) :
    putAll e ((name, value) :: new) = putAll (put e name value) new := rfl

/-- Entries with names of their own are written at the end. -/
theorem putAll_of_nodup {e new : Entries α} (h : (keys (e ++ new)).Nodup) :
    putAll e new = e ++ new := by
  induction new generalizing e with
  | nil => simp [putAll]
  | cons p rest ih =>
    obtain ⟨name, value⟩ := p
    have hname : name ∉ keys e := by
      rw [keys_append, keys_cons, List.nodup_append] at h
      exact fun hmem => h.2.2 name hmem name List.mem_cons_self rfl
    have hrest : (keys ((e ++ [(name, value)]) ++ rest)).Nodup := by
      simpa using h
    rw [putAll_cons, put_of_notMem hname, ih hrest, List.append_assoc, List.singleton_append]

theorem putAll_nil_of_nodup {new : Entries α} (h : (keys new).Nodup) : putAll [] new = new :=
  putAll_of_nodup (e := []) h

theorem nodup_keys_put {e : Entries α} (h : (keys e).Nodup) (name : String) (value : α) :
    (keys (put e name value)).Nodup := by
  rw [keys_put]
  split
  · exact h
  · rename_i hname
    exact List.nodup_append.mpr ⟨h, by simp, by grind⟩

/-- Written entries have distinct names. -/
theorem nodup_keys_putAll {e : Entries α} (h : (keys e).Nodup) (new : Entries α) :
    (keys (putAll e new)).Nodup := by
  induction new generalizing e with
  | nil => exact h
  | cons p rest ih => exact ih (nodup_keys_put h p.1 p.2)

/-- Writing entries gives them back exactly if their names are distinct. -/
theorem putAll_nil_eq_iff {new : Entries α} : putAll [] new = new ↔ (keys new).Nodup :=
  ⟨fun h => h ▸ nodup_keys_putAll (e := []) List.nodup_nil new, putAll_nil_of_nodup⟩

theorem putAll_append (e new new' : Entries α) :
    putAll e (new ++ new') = putAll (putAll e new) new' :=
  List.foldl_append

theorem mem_keys_put {e : Entries α} {name : String} {value : α} {other : String} :
    other ∈ keys (put e name value) ↔ other ∈ keys e ∨ other = name := by
  rw [keys_put]
  split
  · rename_i hname
    exact ⟨.inl, fun h => h.elim id fun h => h ▸ hname⟩
  · rw [List.mem_append, List.mem_singleton]

theorem mem_keys_putAll {e new : Entries α} {name : String} :
    name ∈ keys (putAll e new) ↔ name ∈ keys e ∨ name ∈ keys new := by
  induction new generalizing e with
  | nil => simp [putAll]
  | cons p rest ih =>
    obtain ⟨k, v⟩ := p
    rw [putAll_cons, ih, mem_keys_put, keys_cons, List.mem_cons, or_assoc]

theorem get?_putAll_of_notMem {e new : Entries α} {name : String} (h : name ∉ keys new) :
    get? (putAll e new) name = get? e name := by
  induction new generalizing e with
  | nil => rfl
  | cons p rest ih =>
    obtain ⟨k, v⟩ := p
    rw [keys_cons, List.mem_cons, not_or] at h
    rw [putAll_cons, ih h.2, get?_put, if_neg h.1]

/-- The last of the values written under a name stays there. -/
theorem get?_putAll_append_cons (e before : Entries α) (name : String) (value : α)
    {after : Entries α} (h : name ∉ keys after) :
    get? (putAll e (before ++ (name, value) :: after)) name = some value := by
  rw [putAll_append, putAll_cons, get?_putAll_of_notMem h, get?_put, if_pos rfl]

theorem mem_put {e : Entries α} {name : String} {value : α} {p : String × α}
    (h : p ∈ put e name value) : p = (name, value) ∨ p ∈ e := by
  induction e with
  | nil => simpa [put] using h
  | cons q rest ih =>
    obtain ⟨k, v⟩ := q
    rw [put] at h
    split at h
    · rename_i hk
      subst hk
      exact (List.mem_cons.mp h).imp_right (List.mem_cons_of_mem _)
    · rcases List.mem_cons.mp h with rfl | h
      · exact .inr List.mem_cons_self
      · exact (ih h).imp_right (List.mem_cons_of_mem _)

theorem mem_putAll {e new : Entries α} {p : String × α} (h : p ∈ putAll e new) :
    p ∈ e ∨ p ∈ new := by
  induction new generalizing e with
  | nil => exact .inl h
  | cons q rest ih =>
    rw [List.mem_cons]
    rcases ih h with h | h
    · rcases mem_put h with rfl | h
      · exact .inr (.inl rfl)
      · exact .inl h
    · exact .inr (.inr h)

/-! ### Writing in order of the names -/

private theorem get?_foldl_insert (e new : Entries α) (name : String) (hname : name ∉ keys new) :
    get? (new.foldl (fun e (name, value) => insert e name value) e) name = get? e name := by
  induction new generalizing e with
  | nil => rfl
  | cons p rest ih =>
    obtain ⟨k, v⟩ := p
    rw [keys_cons, List.mem_cons, not_or] at hname
    rw [List.foldl_cons, ih _ hname.2, get?_insert, if_neg hname.1]

/-- Ordering entries with distinct names changes no look-up. -/
theorem get?_ofList_of_mem {e : Entries α} (he : (keys e).Nodup) {name : String} {value : α}
    (h : (name, value) ∈ e) : get? (ofList e) name = some value := by
  suffices hfold : ∀ start : Entries α,
      get? (e.foldl (fun e (name, value) => insert e name value) start) name = some value from
    hfold []
  induction e with
  | nil => simp at h
  | cons p rest ih =>
    obtain ⟨k, v⟩ := p
    intro start
    rw [keys_cons, List.nodup_cons] at he
    rw [List.foldl_cons]
    -- Later entries have other names, so none of them replaces the value.
    rcases List.mem_cons.mp h with h | h
    · cases h
      rw [get?_foldl_insert _ _ _ he.1, get?_insert, if_pos rfl]
    · exact ih he.2 h _

theorem mem_insert {e : Entries α} {name : String} {value : α} {p : String × α}
    (h : p ∈ insert e name value) : p = (name, value) ∨ p ∈ e := by
  induction e with
  | nil => simpa [insert] using h
  | cons q rest ih =>
    obtain ⟨k, v⟩ := q
    rw [insert] at h
    split at h
    · rename_i hk
      subst hk
      exact (List.mem_cons.mp h).imp_right (List.mem_cons_of_mem _)
    split at h
    · exact List.mem_cons.mp h
    · rcases List.mem_cons.mp h with rfl | h
      · exact .inr List.mem_cons_self
      · exact (ih h).imp_right (List.mem_cons_of_mem _)

private theorem mem_foldl_insert {e new : Entries α} {p : String × α}
    (h : p ∈ new.foldl (fun e (name, value) => insert e name value) e) : p ∈ e ∨ p ∈ new := by
  induction new generalizing e with
  | nil => exact .inl h
  | cons q rest ih =>
    rw [List.foldl_cons] at h
    rw [List.mem_cons]
    rcases ih h with h | h
    · rcases mem_insert h with rfl | h
      · exact .inr (.inl rfl)
      · exact .inl h
    · exact .inr (.inr h)

/-- Ordering adds no entry. -/
theorem mem_of_mem_ofList {e : Entries α} {p : String × α} (h : p ∈ ofList e) : p ∈ e :=
  (mem_foldl_insert h).resolve_left List.not_mem_nil

/-- Entries in order of their names, each name once. -/
def Ordered (e : Entries α) : Prop :=
  e.Pairwise fun p q => p.1 < q.1

theorem insert_ordered {e : Entries α} (h : e.Ordered) (name : String) (value : α) :
    (insert e name value).Ordered := by
  induction e with
  | nil => exact List.pairwise_singleton _ _
  | cons p rest ih =>
    obtain ⟨k, v⟩ := p
    obtain ⟨hlt, hrest⟩ := List.pairwise_cons.mp h
    rw [insert]
    split
    · rename_i hk
      subst hk
      exact List.pairwise_cons.mpr ⟨hlt, hrest⟩
    rename_i hne
    split
    · rename_i hname
      refine List.pairwise_cons.mpr ⟨fun q hq => ?_, h⟩
      rcases List.mem_cons.mp hq with rfl | hq
      · exact hname
      · exact String.lt_trans hname (hlt q hq)
    · rename_i hname
      have hk : k < name := by grind
      refine List.pairwise_cons.mpr ⟨fun q hq => ?_, ih hrest⟩
      rcases mem_insert hq with rfl | hq
      · exact hk
      · exact hlt q hq

theorem ofList_ordered (e : Entries α) : (ofList e).Ordered := by
  suffices hfold : ∀ start : Entries α, start.Ordered →
      Ordered (e.foldl (fun e (name, value) => insert e name value) start) from
    hfold [] .nil
  induction e with
  | nil => exact fun _ h => h
  | cons p rest ih => exact fun start h => ih _ (insert_ordered h p.1 p.2)

theorem insert_of_forall_lt {e : Entries α} {name : String} (h : ∀ p ∈ e, p.1 < name) (value : α) :
    insert e name value = e ++ [(name, value)] := by
  induction e with
  | nil => rfl
  | cons p rest ih =>
    obtain ⟨k, v⟩ := p
    obtain ⟨hk, hrest⟩ := List.forall_mem_cons.mp h
    have hk : k < name := hk
    rw [insert, if_neg (by grind), if_neg (String.lt_asymm hk), ih hrest, List.cons_append]

/-- Ordering changes nothing about entries that are in order. -/
theorem ofList_of_ordered {e : Entries α} (h : e.Ordered) : ofList e = e := by
  suffices hfold : ∀ start : Entries α, Ordered (start ++ e) →
      e.foldl (fun e (name, value) => insert e name value) start = start ++ e from
    hfold [] h
  clear h
  induction e with
  | nil => simp
  | cons p rest ih =>
    obtain ⟨name, value⟩ := p
    intro start h
    have hstart : ∀ p ∈ start, p.1 < name := fun p hp =>
      (List.pairwise_append.mp h).2.2 p hp (name, value) List.mem_cons_self
    have hnext : start ++ (name, value) :: rest = start ++ [(name, value)] ++ rest := by simp
    rw [hnext, List.foldl_cons, ← ih _ (hnext ▸ h), ← insert_of_forall_lt hstart]

theorem nodup_keys_of_ordered {e : Entries α} (h : e.Ordered) : (keys e).Nodup :=
  List.Pairwise.map Prod.fst (fun _ _ hlt => String.ne_of_lt hlt) h

/-- Ordering entries with distinct names only moves them. -/
theorem perm_ofList {e : Entries α} (he : (keys e).Nodup) : e.Perm (ofList e) := by
  refine perm_of_get?_eq he (nodup_keys_of_ordered (ofList_ordered e)) fun name => ?_
  cases h : get? e name with
  | some value => exact (get?_ofList_of_mem he (mem_of_get?_eq_some h)).symm
  | none =>
    refine (get?_eq_none.mpr fun hmem => get?_eq_none.mp h ?_).symm
    obtain ⟨p, hp, rfl⟩ := List.mem_map.mp hmem
    exact List.mem_map_of_mem (mem_of_mem_ofList hp)

end GraphQLClient.Entries
