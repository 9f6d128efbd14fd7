import Mathlib.Data.List.Induction

/-!
# Writing items in any order

Items are written to a table one after the other.  Each has a key and a value, and takes the place
of what the table has under the key.  In the end the table has under each key the value of the last
item with the key, and what it had before where there is no such item.  So the order of the items is
seen exactly if two of them have one key and different values.

## Main definitions

* `Overwrites` : writing puts the value of an item under its key, and changes nothing else.

## Main results

* `Overwrites.read_foldl_of_forall_ne`, `Overwrites.read_foldl_of_mem`,
  `Overwrites.read_foldl_eq_getD` : what a table has in the end.
* `Overwrites.read_foldl_perm` : items whose order is not seen.
* `Overwrites.forall_perm_iff` : when the order is not seen.
-/

namespace GraphQLClient

variable {σ ε κ β : Type} [DecidableEq κ]

/-- Writing puts the value of an item under its key, and changes nothing else. -/
def Overwrites (read : σ → κ → β) (write : σ → ε → σ) (key : ε → κ) (value : ε → β) : Prop :=
  ∀ s item k, read (write s item) k = if k = key item then value item else read s k

namespace Overwrites

variable {read : σ → κ → β} {write : σ → ε → σ} {key : ε → κ} {value : ε → β}
  (h : Overwrites read write key value) (s : σ) {items : List ε}

include h

theorem read_foldl_concat (item : ε) (k : κ) :
    read ((items ++ [item]).foldl write s) k =
      if k = key item then value item else read (items.foldl write s) k := by
  rw [List.foldl_append, List.foldl_cons, List.foldl_nil, h]

theorem read_foldl_of_forall_ne {k : κ} (hk : ∀ item ∈ items, key item ≠ k) :
    read (items.foldl write s) k = read s k := by
  induction items using List.reverseRecOn with
  | nil => rfl
  | append_singleton before last ih =>
    obtain ⟨hbefore, hlast⟩ := List.forall_mem_append.mp hk
    rw [h.read_foldl_concat, if_neg (Ne.symm (hlast last List.mem_cons_self)), ih hbefore]

theorem read_foldl_of_mem {item : ε} (hitem : item ∈ items)
    (hsame : ∀ other ∈ items, key item = key other → value item = value other) :
    read (items.foldl write s) (key item) = value item := by
  induction items using List.reverseRecOn with
  | nil => exact absurd hitem List.not_mem_nil
  | append_singleton before last ih =>
    obtain ⟨hbefore, hlast⟩ := List.forall_mem_append.mp hsame
    rw [h.read_foldl_concat]
    split
    · rename_i hkey
      exact (hlast last List.mem_cons_self hkey).symm
    · rename_i hkey
      rcases List.mem_append.mp hitem with hitem | hitem
      · exact ih hitem hbefore
      · exact absurd (List.mem_singleton.mp hitem ▸ rfl) hkey

/-- Items that have under each key what a table gives for it put this in place of what was there,
and leave the rest. -/
theorem read_foldl_eq_getD {given : κ → Option β}
    (hgiven : ∀ k v, given k = some v ↔ ∃ item ∈ items, key item = k ∧ value item = v) (k : κ) :
    read (items.foldl write s) k = (given k).getD (read s k) := by
  cases hk : given k with
  | some v =>
    obtain ⟨item, hitem, rfl, rfl⟩ := (hgiven k v).mp hk
    refine h.read_foldl_of_mem s hitem fun other hother hkey => ?_
    have hother := (hgiven (key item) (value other)).mpr ⟨other, hother, hkey.symm, rfl⟩
    exact Option.some_inj.mp (hk.symm.trans hother)
  | none =>
    refine h.read_foldl_of_forall_ne s fun item hitem hkey => ?_
    have hitem := (hgiven k (value item)).mpr ⟨item, hitem, hkey, rfl⟩
    exact absurd (hk.symm.trans hitem) nofun

/-- The order is not seen if items with one key have one value. -/
theorem read_foldl_perm {order : List ε} (horder : items.Perm order)
    (hsame : ∀ p ∈ items, ∀ q ∈ items, key p = key q → value p = value q) (k : κ) :
    read (items.foldl write s) k = read (order.foldl write s) k := by
  by_cases hk : ∃ item ∈ items, key item = k
  · obtain ⟨item, hitem, rfl⟩ := hk
    have hsame' : ∀ other ∈ order, key item = key other → value item = value other :=
      fun other hother => hsame item hitem other (horder.mem_iff.mpr hother)
    rw [h.read_foldl_of_mem s hitem (hsame item hitem),
      h.read_foldl_of_mem s (horder.mem_iff.mp hitem) hsame']
  · have hk : ∀ item ∈ items, key item ≠ k := fun item hitem hkey => hk ⟨item, hitem, hkey⟩
    rw [h.read_foldl_of_forall_ne s hk,
      h.read_foldl_of_forall_ne s fun item hitem => hk item (horder.mem_iff.mpr hitem)]

/-- Each item can be written last. -/
theorem exists_perm_read_foldl {item : ε} (hitem : item ∈ items) :
    ∃ order, items.Perm order ∧ read (order.foldl write s) (key item) = value item := by
  obtain ⟨before, after, rfl⟩ := List.append_of_mem hitem
  refine ⟨(before ++ after) ++ [item], List.perm_middle.trans (List.perm_append_singleton _ _).symm,
    ?_⟩
  rw [h.read_foldl_concat, if_pos rfl]

/-- The order is not seen exactly if items with one key have one value. -/
theorem forall_perm_iff :
    (∀ order, items.Perm order → ∀ k, read (items.foldl write s) k = read (order.foldl write s) k) ↔
      ∀ p ∈ items, ∀ q ∈ items, key p = key q → value p = value q := by
  constructor
  · intro hperm p hp q hq hkey
    obtain ⟨last, hlast, hp⟩ := h.exists_perm_read_foldl s hp
    obtain ⟨last', hlast', hq⟩ := h.exists_perm_read_foldl s hq
    calc value p = read (last.foldl write s) (key p) := hp.symm
      _ = read (items.foldl write s) (key p) := (hperm last hlast _).symm
      _ = read (last'.foldl write s) (key q) := by rw [hperm last' hlast', hkey]
      _ = value q := hq
  · exact fun hsame order horder k => h.read_foldl_perm s horder hsame k

end Overwrites

end GraphQLClient
