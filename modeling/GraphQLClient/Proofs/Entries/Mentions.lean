import GraphQLClient.Proofs.Entries
import Mathlib.Data.List.Induction
import Mathlib.Data.List.Nodup

/-!
# Entries in order of first mention

Entries that are written one after the other keep every name at the place of its first mention, with
the value of its last.  So what comes of writing them can be told from the list of all of them, and
it does not matter in which portions they are written.

## Main definitions

* `mention` : names after one more is mentioned.
* `Entries.merged` : every name once, at its first place and with its last value.

## Main results

* `Entries.keys_putAll`, `Entries.get?_putAll` : names and look-up in entries that are written.
* `Entries.putAll_eq_merged` : what comes of writing entries.
* `Entries.putAll_merged` : entries may be merged before they are written.
-/

namespace GraphQLClient

/-! ### Names in order of first mention -/

/-- Names after one more is mentioned: a new one goes to the end. -/
def mention (names : List String) (name : String) : List String :=
  if name ∈ names then names else names ++ [name]

/-- Mentioning names one after the other leaves each of them once, at its first place. -/
theorem foldl_mention_nil (names : List String) : names.foldl mention [] = names.eraseDups := by
  -- A new name goes to the end, and `eraseDups` looks from the front.
  induction names using List.reverseRecOn with
  | nil => rfl
  | append_singleton names name ih =>
    rw [List.foldl_append, ih, List.foldl_cons, List.foldl_nil, List.eraseDups_append, mention]
    by_cases hname : name ∈ names
    · simp [hname, List.removeAll]
    · simp [hname, List.removeAll, List.eraseDups_cons]

theorem nodup_foldl_mention {seen : List String} (h : seen.Nodup) (names : List String) :
    (names.foldl mention seen).Nodup := by
  induction names generalizing seen with
  | nil => exact h
  | cons name rest ih =>
    apply ih
    rw [mention]
    split_ifs with hname
    · exact h
    · exact List.concat_eq_append ▸ h.concat hname

theorem mem_mention {names : List String} {name other : String} :
    other ∈ mention names name ↔ other ∈ names ∨ other = name := by
  rw [mention]
  split_ifs with hname
  · exact ⟨.inl, fun h => h.elim id fun h => h ▸ hname⟩
  · rw [List.mem_append, List.mem_singleton]

theorem mem_foldl_mention {seen names : List String} {name : String} :
    name ∈ names.foldl mention seen ↔ name ∈ seen ∨ name ∈ names := by
  induction names generalizing seen with
  | nil => simp
  | cons first rest ih => rw [List.foldl_cons, ih, mem_mention, List.mem_cons, or_assoc]

/-- A name that is mentioned again changes nothing. -/
theorem foldl_mention_eraseDups (seen names : List String) :
    names.eraseDups.foldl mention seen = names.foldl mention seen := by
  rw [← foldl_mention_nil]
  induction names using List.reverseRecOn with
  | nil => rfl
  | append_singleton names name ih =>
    rw [List.foldl_concat, List.foldl_concat, ← ih]
    by_cases hname : name ∈ names
    · have hfirst : mention (names.foldl mention []) name = names.foldl mention [] :=
        if_pos (mem_foldl_mention.mpr (.inr hname))
      have hsecond : mention (names.foldl mention seen) name = names.foldl mention seen :=
        if_pos (mem_foldl_mention.mpr (.inr hname))
      rw [hfirst, ih, hsecond]
    · have hfirst : mention (names.foldl mention []) name = names.foldl mention [] ++ [name] :=
        if_neg fun h => hname ((mem_foldl_mention.mp h).resolve_left List.not_mem_nil)
      rw [hfirst, List.foldl_concat]

namespace Entries

variable {α : Type}

/-- Every name once, in order of first mention, with the value of its last mention. -/
def merged (e : Entries α) : Entries α :=
  (keys e).eraseDups.filterMap fun name => (get? e.reverse name).map (name, ·)

/-! ### Names and look-up -/

/-- Entries with distinct names are told apart by their names and by what stands under them. -/
theorem eq_of_keys_eq {e e' : Entries α} (he : (keys e).Nodup) (hkeys : keys e = keys e')
    (hget : ∀ name, get? e name = get? e' name) : e = e' := by
  induction e generalizing e' with
  | nil => exact (List.map_eq_nil_iff.mp hkeys.symm).symm
  | cons p rest ih =>
    obtain ⟨name, value⟩ := p
    rcases e' with _ | ⟨⟨name', value'⟩, rest'⟩
    · cases hkeys
    · rw [keys_cons, keys_cons, List.cons.injEq] at hkeys
      obtain ⟨rfl, hrest⟩ := hkeys
      rw [keys_cons, List.nodup_cons] at he
      have hvalue : value = value' := by simpa [get?_cons] using hget name
      have htail : rest = rest' := by
        refine ih he.2 hrest fun other => ?_
        by_cases hother : name = other
        · rw [← hother, get?_eq_none.mpr he.1, get?_eq_none.mpr (hrest ▸ he.1)]
        · simpa [get?_cons, hother] using hget other
      rw [hvalue, htail]

theorem keys_putAll (e new : Entries α) :
    keys (putAll e new) = (keys new).foldl mention (keys e) := by
  induction new generalizing e with
  | nil => rfl
  | cons p rest ih =>
    obtain ⟨name, value⟩ := p
    rw [putAll_cons, ih, keys_put, keys_cons, List.foldl_cons, mention]

theorem get?_putAll (e new : Entries α) (name : String) :
    get? (putAll e new) name = (get? new.reverse name).or (get? e name) := by
  induction new generalizing e with
  | nil => rfl
  | cons p rest ih =>
    obtain ⟨k, v⟩ := p
    have hput : get? (put e k v) name = (get? [(k, v)] name).or (get? e name) := by
      by_cases hk : k = name
      · simp [get?_put, get?_cons, hk]
      · simp [get?_put, get?_cons, hk, Ne.symm hk]
    rw [putAll_cons, ih, hput, List.reverse_cons, get?_append, Option.or_assoc]

/-! ### Merged entries -/

theorem get?_filterMap (names : List String) (value? : String → Option α) (name : String) :
    get? (names.filterMap fun name => (value? name).map (name, ·)) name =
      if name ∈ names then value? name else none := by
  induction names with
  | nil => rfl
  | cons first rest ih =>
    rw [List.filterMap_cons]
    by_cases hfirst : first = name
    · subst hfirst
      cases hvalue : value? first with
      | none => simp [ih, hvalue]
      | some value => simp [get?_cons]
    · cases hvalue : value? first <;> simp [get?_cons, ih, hfirst, Ne.symm hfirst]

theorem keys_filterMap {names : List String} {value? : String → Option α}
    (h : ∀ name ∈ names, (value? name).isSome = true) :
    keys (names.filterMap fun name => (value? name).map (name, ·)) = names := by
  induction names with
  | nil => rfl
  | cons first rest ih =>
    obtain ⟨hfirst, hrest⟩ := List.forall_mem_cons.mp h
    obtain ⟨value, hvalue⟩ := Option.isSome_iff_exists.mp hfirst
    simp [hvalue, ih hrest]

theorem mem_keys_reverse {e : Entries α} {name : String} :
    name ∈ keys e.reverse ↔ name ∈ keys e := by
  rw [keys, List.map_reverse, List.mem_reverse, ← keys]

theorem get?_merged (e : Entries α) (name : String) :
    get? (merged e) name = get? e.reverse name := by
  rw [merged, get?_filterMap]
  split_ifs with hname
  · rfl
  · rw [List.mem_eraseDups, ← mem_keys_reverse] at hname
    exact (get?_eq_none.mpr hname).symm

theorem keys_merged (e : Entries α) : keys (merged e) = (keys e).eraseDups := by
  refine keys_filterMap fun name hname => ?_
  rw [List.mem_eraseDups, ← mem_keys_reverse] at hname
  exact Option.isSome_iff_ne_none.mpr fun h => get?_eq_none.mp h hname

theorem nodup_keys_merged (e : Entries α) : (keys (merged e)).Nodup := by
  rw [keys_merged, ← foldl_mention_nil]
  exact nodup_foldl_mention .nil _

/-- The order of entries with distinct names changes no look-up. -/
theorem get?_reverse {e : Entries α} (he : (keys e).Nodup) (name : String) :
    get? e.reverse name = get? e name :=
  (get?_perm he e.reverse_perm.symm name).symm

/-- What is written behind entries with distinct names is merged with them. -/
theorem putAll_eq_merged {e : Entries α} (he : (keys e).Nodup) (new : Entries α) :
    putAll e new = merged (e ++ new) := by
  have hkeys : (keys e).foldl mention [] = keys e := by
    rw [← keys_nil (α := α), ← keys_putAll, putAll_nil_of_nodup he]
  refine eq_of_keys_eq (nodup_keys_putAll he new) ?_ fun name => ?_
  · rw [keys_putAll, keys_merged, ← foldl_mention_nil, keys_append, List.foldl_append, hkeys]
  · rw [get?_putAll, get?_merged, List.reverse_append, get?_append, get?_reverse he]

/-- Entries with distinct names are merged as they are. -/
theorem merged_of_nodup {e : Entries α} (he : (keys e).Nodup) : merged e = e := by
  have hnil := putAll_eq_merged he []
  rwa [List.append_nil, putAll, List.foldl_nil, eq_comm] at hnil

theorem putAll_nil_eq_merged (e : Entries α) : putAll [] e = merged e := by
  rw [putAll_eq_merged (e := []) List.nodup_nil, List.nil_append]

/-- Entries may be merged before others are written behind them. -/
theorem merged_merged_append (e new : Entries α) :
    merged (merged e ++ new) = merged (e ++ new) := by
  rw [← putAll_nil_eq_merged (e ++ new), putAll_append, putAll_nil_eq_merged,
    putAll_eq_merged (nodup_keys_merged e)]

/-- Entries may be merged before they are written. -/
theorem putAll_merged {e : Entries α} (he : (keys e).Nodup) (new : Entries α) :
    putAll e (merged new) = putAll e new := by
  refine eq_of_keys_eq (nodup_keys_putAll he _) ?_ fun name => ?_
  · rw [keys_putAll, keys_putAll, keys_merged, foldl_mention_eraseDups]
  · rw [get?_putAll, get?_putAll, get?_reverse (nodup_keys_merged new), get?_merged]

end Entries

end GraphQLClient
