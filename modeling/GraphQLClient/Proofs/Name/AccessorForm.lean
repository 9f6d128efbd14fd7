import GraphQLClient.Proofs.Name.Respelling

/-!
# Accessor forms

Going over to the accessor of a name puts underscores before some of its characters and makes small
letters of its capitals, and that is all: no character is lost, no other one is added, and none is
moved.  What it adds stands behind the leading underscores, so an accessor is reserved exactly if
the name is.  There is nothing left to do for the accessor of an accessor.

## Main results

* `Name.sublist_accessorWords`, `Name.filter_accessorWords` : what is added to characters behind the
  leading underscores.
* `Name.toAccessor_accessorForm` : what the accessor of a name keeps of it, for every text.
-/

namespace GraphQLClient.Name

theorem isReservedChars_iff {s : List Char} : isReservedChars s = true ↔ ['_', '_'] <+: s := by
  rcases s with _ | ⟨c, _ | ⟨d, rest⟩⟩
  · simp [isReservedChars]
  · simp [isReservedChars]
  · by_cases hc : c = '_'
    · by_cases hd : d = '_'
      · simp [isReservedChars, hc, hd]
      · simp [isReservedChars, hc, hd, Ne.symm hd]
    · simp [isReservedChars, hc, Ne.symm hc]

/-! ### Characters behind the leading underscores -/

/-- The characters of a name are still there, in small letters, and in their order. -/
theorem sublist_accessorWords (before : Option Char) (s : List Char) :
    (s.map Char.toLower).Sublist (accessorWords before s) := by
  induction s generalizing before with
  | nil => exact List.nil_sublist _
  | cons c rest ih =>
    have hrest : (c.toLower :: rest.map Char.toLower).Sublist
        (c.toLower :: accessorWords (some c) rest) := (ih (some c)).cons_cons _
    rw [List.map_cons, accessorWords]
    split
    · exact hrest.cons _
    · exact hrest

/-- Nothing but underscores is added. -/
theorem filter_accessorWords (before : Option Char) (s : List Char) :
    (accessorWords before s).filter (· ≠ '_') = (s.map Char.toLower).filter (· ≠ '_') := by
  induction s generalizing before with
  | nil => rfl
  | cons c rest ih =>
    rw [List.map_cons, accessorWords]
    split
    · rw [List.filter_cons_of_neg (by decide), List.filter_cons, List.filter_cons, ih]
    · rw [List.filter_cons, List.filter_cons, ih]

/-- Only underscores have underscores as their small letters. -/
theorem filter_map_toLower (s : List Char) :
    (s.map Char.toLower).filter (· ≠ '_') = (s.filter (· ≠ '_')).map Char.toLower := by
  rw [List.filter_map]
  congr 1
  refine List.filter_congr fun c _ => ?_
  simp [toLower_eq_underscore_iff]

/-! ### Names -/

section

variable {leading : List Char}

theorem map_toLower_leading (hleading : leading = [] ∨ leading = ['_']) :
    leading.map Char.toLower = leading := by
  obtain rfl | rfl := hleading <;> rfl

theorem isCapital_of_mem_leading (hleading : leading = [] ∨ leading = ['_']) :
    ∀ c ∈ leading, isCapital c = false := by
  obtain rfl | rfl := hleading <;> simp [isCapital]

end

/-- **Accessor forms.** The accessor of a name is its own accessor.  A name that starts with two
underscores is its accessor.  Of any other name the accessor has the leading underscores and no
more, and no capitals; it has the characters of the name in their order, with small letters for
capitals, and between them nothing but underscores. -/
theorem toAccessor_accessorForm (s : String) :
    toAccessor (toAccessor s) = toAccessor s ∧
      (['_', '_'] <+: s.toList → toAccessor s = s) ∧
        (¬['_', '_'] <+: s.toList →
          ¬['_', '_'] <+: (toAccessor s).toList ∧
            (toAccessor s).toList.takeWhile (· = '_') = s.toList.takeWhile (· = '_') ∧
            (∀ c ∈ (toAccessor s).toList, isCapital c = false) ∧
            (s.toList.map Char.toLower).Sublist (toAccessor s).toList ∧
            (toAccessor s).toList.filter (· ≠ '_') =
              (s.toList.filter (· ≠ '_')).map Char.toLower) := by
  refine ⟨toAccessor_toAccessor s, fun h => toAccessor_of_isReserved (isReservedChars_iff.mpr h),
    fun h => ?_⟩
  rw [← isReservedChars_iff, Bool.not_eq_true] at h
  obtain ⟨leading, body, hsplit, hleading, hbody⟩ := exists_eq_append_of_not_reserved h
  have haccessor := head?_accessorWords hbody
  rw [toList_toAccessor, hsplit, toAccessorChars_append hleading hbody]
  refine ⟨?_, ?_, ?_, ?_, ?_⟩
  · rw [← isReservedChars_iff, isReservedChars_append hleading haccessor]
    exact Bool.false_ne_true
  · rw [takeWhile_append hleading haccessor, takeWhile_append hleading hbody]
  · exact List.forall_mem_append.mpr
      ⟨isCapital_of_mem_leading hleading, isCapital_of_mem_accessorWords body none⟩
  · rw [List.map_append, map_toLower_leading hleading]
    exact (List.Sublist.refl leading).append (sublist_accessorWords none body)
  · calc (leading ++ accessorWords none body).filter (· ≠ '_')
        = ((leading ++ body).map Char.toLower).filter (· ≠ '_') := by
          rw [List.filter_append, filter_accessorWords, ← List.filter_append, List.map_append,
            map_toLower_leading hleading]
      _ = ((leading ++ body).filter (· ≠ '_')).map Char.toLower := filter_map_toLower _

/-- Runs of capitals, two underscores next to each other and a letter that is not one of ASCII; and
a reserved name. -/
theorem toAccessor_accessorForm_serverURL :
    toAccessor "_HTTPServer2__URLÉb" = "_http_server2__urlÉb" ∧
      ¬['_', '_'] <+: "_HTTPServer2__URLÉb".toList ∧
      (toAccessor "_HTTPServer2__URLÉb").toList.takeWhile (· = '_') =
        "_HTTPServer2__URLÉb".toList.takeWhile (· = '_') ∧
      (toAccessor "_HTTPServer2__URLÉb").toList.filter (· ≠ '_') =
        ("_HTTPServer2__URLÉb".toList.filter (· ≠ '_')).map Char.toLower ∧
      ['_', '_'] <+: "__TypeKind".toList ∧ toAccessor "__TypeKind" = "__TypeKind" := by
  have hname : ¬['_', '_'] <+: "_HTTPServer2__URLÉb".toList := by decide
  have hreserved : ['_', '_'] <+: "__TypeKind".toList := by decide
  obtain ⟨-, -, hplain⟩ := toAccessor_accessorForm "_HTTPServer2__URLÉb"
  obtain ⟨-, hleading, -, -, hletters⟩ := hplain hname
  obtain ⟨-, hkept, -⟩ := toAccessor_accessorForm "__TypeKind"
  exact ⟨by decide, hname, hleading, hletters, hreserved, hkept hreserved⟩

end GraphQLClient.Name
