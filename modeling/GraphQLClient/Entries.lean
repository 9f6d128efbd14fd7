/-!
# Entries

Entries are values under names, in an order that can be seen.  Two orders occur: the order of
first mention, where writing a name again replaces its value in place, and the order of the names,
which JSON objects use.  Names are compared by code points.

## Main definitions

* `Entries` : values under names, in order.
* `Entries.get?` : the first value under a name.
* `Entries.put`, `Entries.putAll` : writing that keeps the order of first mention.
* `Entries.insert`, `Entries.ofList` : writing that keeps the order of the names.

## Main results

* `Entries.get?_put`, `Entries.get?_insert` : a name reads the value written last under it, and no
  other name is touched.
* `Entries.keys_put` : writing adds a name at the end unless it is there already.
-/

namespace GraphQLClient

/-- Values under names, in order. -/
abbrev Entries (α : Type) := List (String × α)

namespace Entries

variable {α β : Type}

/-- The names, in order. -/
def keys (e : Entries α) : List String :=
  e.map Prod.fst

/-- The first value under a name. -/
def get? : Entries α → String → Option α
  | [], _ => none
  | (k, v) :: rest, name => if k = name then some v else get? rest name

/-- Whether a name is there. -/
def contains (e : Entries α) (name : String) : Bool :=
  (get? e name).isSome

/-- Writes a value under a name: in place when the name is there, at the end when it is not. -/
def put : Entries α → String → α → Entries α
  | [], name, value => [(name, value)]
  | (k, v) :: rest, name, value =>
    if k = name then (k, value) :: rest else (k, v) :: put rest name value

/-- Writes many values, one after the other. -/
def putAll (e new : Entries α) : Entries α :=
  new.foldl (fun e (name, value) => put e name value) e

/-- Writes a value under a name in entries ordered by name. -/
def insert : Entries α → String → α → Entries α
  | [], name, value => [(name, value)]
  | (k, v) :: rest, name, value =>
    if name = k then (k, value) :: rest
    else if name < k then (name, value) :: (k, v) :: rest
    else (k, v) :: insert rest name value

/-- The entries of a list ordered by name; of two values under one name the last counts. -/
def ofList (e : Entries α) : Entries α :=
  e.foldl (fun e (name, value) => insert e name value) []

/-- The values of one kind turned into another, name by name. -/
def mapValues (f : α → β) (e : Entries α) : Entries β :=
  e.map fun (k, v) => (k, f v)

@[simp]
theorem get?_nil (name : String) : get? ([] : Entries α) name = none := rfl

theorem get?_cons (k : String) (v : α) (rest : Entries α) (name : String) :
    get? ((k, v) :: rest) name = if k = name then some v else get? rest name := rfl

theorem get?_put (e : Entries α) (name : String) (value : α) (other : String) :
    get? (put e name value) other = if other = name then some value else get? e other := by
  induction e with
  | nil => grind [put, get?]
  | cons p rest ih =>
    obtain ⟨k, v⟩ := p
    by_cases hk : k = name <;> grind [put, get?]

theorem get?_insert (e : Entries α) (name : String) (value : α) (other : String) :
    get? (insert e name value) other = if other = name then some value else get? e other := by
  induction e with
  | nil => grind [insert, get?]
  | cons p rest ih =>
    obtain ⟨k, v⟩ := p
    by_cases hk : name = k
    · grind [insert, get?]
    · by_cases hlt : name < k <;> grind [insert, get?]

theorem keys_put (e : Entries α) (name : String) (value : α) :
    keys (put e name value) = if name ∈ keys e then keys e else keys e ++ [name] := by
  induction e with
  | nil => simp [put, keys]
  | cons p rest ih =>
    obtain ⟨k, v⟩ := p
    by_cases hk : k = name
    · subst hk
      simp [put, keys]
    · have ih' : List.map Prod.fst (put rest name value) =
          if name ∈ List.map Prod.fst rest then List.map Prod.fst rest
          else List.map Prod.fst rest ++ [name] := ih
      simp only [put, hk, if_false, keys, List.map_cons, ih', List.mem_cons,
        Ne.symm hk, false_or]
      split <;> simp

end Entries

end GraphQLClient
