import GraphQLClient.FilePath
import Mathlib.Algebra.Ring.Nat
import Mathlib.Data.List.Infix

/-!
# The paths above a path

Going up from a path drops its last name, until no name is left.  So the paths met on the way have
the initial segments of the names of the first one as their names, the longest first.  A relative
path that starts with a point is met once more without it, since the point is dropped like a name.

## Main definitions

* `FilePath.ancestors` : a path and the paths above it, one after the other.

## Main results

* `FilePath.names_of_parent?` : going up drops the last name.
* `FilePath.of_mem_ancestors` : what going up keeps, the paths above a path have.
* `FilePath.map_names_ancestors` : the names of the paths above a path.
* `FilePath.join_ofName` : a name below a path.
-/

namespace GraphQLClient.FilePath

/-- The segments that name something, in order. -/
abbrev namesOf (segments : List String) : List String :=
  segments.filter fun s => !isIdle s

/-! ### Idle segments at the end -/

theorem namesOf_reverse_dropWhile (segments : List String) :
    namesOf (segments.reverse.dropWhile isIdle).reverse = namesOf segments := by
  induction segments using List.reverseRecOn with
  | nil => rfl
  | append_singleton segments last ih =>
    rw [List.reverse_concat, List.dropWhile_cons]
    split
    · next hidle => simp [ih, hidle]
    · rw [List.reverse_cons, List.reverse_reverse]

/-- Idle segments at the end name nothing. -/
theorem namesOf_trimEnd (absolute : Bool) (segments : List String) :
    namesOf (trimEnd absolute segments) = namesOf segments := by
  cases segments with
  | nil => rfl
  | cons first rest =>
    have hrest := namesOf_reverse_dropWhile rest
    simp only [trimEnd]
    split
    · next h =>
      simp only [Bool.and_eq_true, List.isEmpty_iff] at h
      obtain ⟨⟨-, hnil⟩, hidle⟩ := h
      rw [hnil] at hrest
      simp only [namesOf, List.filter_cons, hidle, ← hrest]
      rfl
    · simp only [namesOf, List.filter_cons] at hrest ⊢
      rw [hrest]

/-- Without the idle segments at the end a path ends with a name, unless one segment of a relative
path is all that is left. -/
theorem trimEnd_eq_cons {absolute : Bool} {segments rest : List String} {first : String}
    (h : trimEnd absolute segments = first :: rest) :
    (rest = [] ∧ (absolute = true → isIdle first = false)) ∨
      ∃ front last, rest = front ++ [last] ∧ isIdle last = false := by
  cases segments with
  | nil => cases h
  | cons first' rest' =>
    simp only [trimEnd] at h
    split at h
    · cases h
    next hkept =>
    obtain ⟨rfl, hrest⟩ := List.cons.inj h
    rcases List.eq_nil_or_concat' rest with rfl | ⟨front, last, rfl⟩
    · rw [hrest] at hkept
      exact .inl ⟨rfl, fun habsolute => by simpa [habsolute] using hkept⟩
    · have hreverse : rest'.reverse.dropWhile isIdle = last :: front.reverse := by
        rw [← List.reverse_reverse (rest'.reverse.dropWhile isIdle), hrest, List.reverse_concat]
      have hlast := List.head_dropWhile_not isIdle (l := rest'.reverse)
        (by rw [hreverse]; exact List.cons_ne_nil _ _)
      exact .inr ⟨front, last, rfl, by simpa only [hreverse, List.head_cons] using hlast⟩

theorem trimEnd_isPrefix (absolute : Bool) (segments : List String) :
    trimEnd absolute segments <+: segments := by
  cases segments with
  | nil => exact List.prefix_rfl
  | cons first rest =>
    simp only [trimEnd]
    split
    · exact List.nil_prefix
    · have hsuffix := List.dropWhile_suffix (l := rest.reverse) isIdle
      rw [← List.reverse_prefix, List.reverse_reverse] at hsuffix
      exact (List.prefix_cons_inj first).mpr hsuffix

/-! ### Going up -/

variable {p q : FilePath}

theorem exists_of_parent? (h : p.parent? = some q) :
    ∃ first rest, trimEnd p.absolute p.segments = first :: rest ∧
      q = ⟨p.absolute, trimEnd p.absolute (first :: rest).dropLast⟩ := by
  unfold parent? at h
  split at h
  · cases h
  · next first rest hfirst => exact ⟨first, rest, hfirst, (Option.some.inj h).symm⟩

theorem absolute_of_parent? (h : p.parent? = some q) : q.absolute = p.absolute := by
  obtain ⟨_, _, -, rfl⟩ := exists_of_parent? h
  rfl

/-- The segments of the path above another one are among the first of its segments. -/
theorem segments_prefix_of_parent? (h : p.parent? = some q) : q.segments <+: p.segments := by
  obtain ⟨first, rest, hfirst, rfl⟩ := exists_of_parent? h
  calc
    trimEnd p.absolute (first :: rest).dropLast
    _ <+: (first :: rest).dropLast := trimEnd_isPrefix _ _
    _ <+: first :: rest := List.dropLast_prefix _
    _ <+: p.segments := hfirst ▸ trimEnd_isPrefix _ _

/-- Going up drops the last name. -/
theorem names_of_parent? (h : p.parent? = some q) : q.names = p.names.dropLast := by
  obtain ⟨first, rest, hfirst, rfl⟩ := exists_of_parent? h
  have hnames : p.names = namesOf (first :: rest) := by
    rw [← hfirst, namesOf_trimEnd]
    rfl
  change namesOf (trimEnd _ _) = _
  rw [namesOf_trimEnd, hnames]
  rcases trimEnd_eq_cons hfirst with ⟨rfl, -⟩ | ⟨front, last, rfl, hlast⟩
  · cases hidle : isIdle first <;> simp [hidle]
  · rw [← List.cons_append, List.dropLast_concat, namesOf, namesOf, List.filter_append]
    simp [hlast]

theorem names_of_parent?_eq_none (h : p.parent? = none) : p.names = [] := by
  have hnames : namesOf (trimEnd p.absolute p.segments) = p.names := namesOf_trimEnd _ _
  unfold parent? at h
  split at h
  · next hnil => rw [← hnames, hnil]; rfl
  · cases h

/-- Going up from an absolute path, there is a name to drop. -/
theorem names_ne_nil_of_parent? (h : p.parent? = some q) (habsolute : p.absolute = true) :
    p.names ≠ [] := by
  obtain ⟨first, rest, hfirst, -⟩ := exists_of_parent? h
  have hsome : ∃ name ∈ first :: rest, isIdle name = false := by
    rcases trimEnd_eq_cons hfirst with ⟨-, hidle⟩ | ⟨front, last, rfl, hlast⟩
    · exact ⟨first, List.mem_cons_self, hidle habsolute⟩
    · exact ⟨last, by simp, hlast⟩
  obtain ⟨name, hmem, hidle⟩ := hsome
  have hsegments : name ∈ p.segments := (trimEnd_isPrefix _ _).subset (hfirst ▸ hmem)
  exact List.ne_nil_of_mem (List.mem_filter.mpr ⟨hsegments, by rw [hidle]; rfl⟩)

/-! ### The paths above a path -/

/-- A path and the paths above it, one after the other. -/
def ancestors (p : FilePath) : List FilePath :=
  p :: match h : p.parent? with
    | some above =>
      have := length_parent_lt h
      above.ancestors
    | none => []
termination_by p.segments.length

theorem ancestors_of_eq_none (h : p.parent? = none) : p.ancestors = [p] := by
  rw [ancestors]
  split
  · next above habove => cases h.symm.trans habove
  · rfl

theorem ancestors_of_eq_some (h : p.parent? = some q) : p.ancestors = p :: q.ancestors := by
  rw [ancestors]
  split
  · next above habove =>
    obtain rfl := Option.some.inj (habove.symm.trans h)
    rfl
  · next hnone => cases h.symm.trans hnone

/-- Induction from a path to the paths above it. -/
theorem parentInduction {P : FilePath → Prop} (top : ∀ p : FilePath, p.parent? = none → P p)
    (below : ∀ p q : FilePath, p.parent? = some q → P q → P p) (p : FilePath) : P p := by
  cases h : p.parent? with
  | none => exact top p h
  | some q =>
    have := length_parent_lt h
    exact below p q h (parentInduction top below q)
termination_by p.segments.length

/-- What a path has and going up keeps, the paths above it have. -/
theorem of_mem_ancestors {P : FilePath → Prop}
    (hup : ∀ p q : FilePath, p.parent? = some q → P p → P q) (hp : P p) (h : q ∈ p.ancestors) :
    P q := by
  induction p using parentInduction with
  | top p htop =>
    rw [ancestors_of_eq_none htop, List.mem_singleton] at h
    exact h ▸ hp
  | below p above hbelow ih =>
    rw [ancestors_of_eq_some hbelow, List.mem_cons] at h
    rcases h with rfl | h
    · exact hp
    · exact ih (hup p above hbelow hp) h

theorem absolute_of_mem_ancestors (h : q ∈ p.ancestors) : q.absolute = p.absolute :=
  of_mem_ancestors (P := fun above => above.absolute = p.absolute)
    (fun _ _ habove hp => (absolute_of_parent? habove).trans hp) rfl h

theorem segments_prefix_of_mem_ancestors (h : q ∈ p.ancestors) : q.segments <+: p.segments :=
  of_mem_ancestors (P := fun above => above.segments <+: p.segments)
    (fun _ _ habove hp => (segments_prefix_of_parent? habove).trans hp) List.prefix_rfl h

theorem inits_of_ne_nil {α : Type} {l : List α} (h : l ≠ []) :
    l.inits = l.dropLast.inits ++ [l] := by
  conv_lhs => rw [← List.dropLast_concat_getLast h, List.inits_append]
  simp [List.dropLast_concat_getLast h]

/-- The paths from a path up have the initial segments of its names as their names, the longest
first.  Where a relative path starts with an idle segment, no names occur once more. -/
theorem map_names_ancestors (p : FilePath) :
    ∃ again, p.ancestors.map names = p.names.inits.reverse ++ again ∧
      (∀ l ∈ again, l = []) ∧ (p.absolute = true → again = []) := by
  induction p using parentInduction with
  | top p hp =>
    refine ⟨[], ?_, by simp, fun _ => rfl⟩
    rw [ancestors_of_eq_none hp, List.map_singleton, names_of_parent?_eq_none hp]
    rfl
  | below p q hp ih =>
    obtain ⟨again, hq, hagain, habsolute⟩ := ih
    rw [names_of_parent? hp] at hq
    rw [absolute_of_parent? hp] at habsolute
    rw [ancestors_of_eq_some hp, List.map_cons, hq]
    by_cases hnil : p.names = []
    · refine ⟨[] :: again, ?_, List.forall_mem_cons.mpr ⟨rfl, hagain⟩, fun h => ?_⟩
      · rw [hnil]
        rfl
      · exact absurd hnil (names_ne_nil_of_parent? hp h)
    · refine ⟨again, ?_, hagain, habsolute⟩
      rw [inits_of_ne_nil hnil, List.reverse_concat, List.cons_append]

theorem map_names_ancestors_of_absolute (h : p.absolute = true) :
    p.ancestors.map names = p.names.inits.reverse := by
  obtain ⟨again, hnames, -, hagain⟩ := p.map_names_ancestors
  rw [hnames, hagain h, List.append_nil]

/-! ### Paths below a path -/

/-- The path of a name alone. -/
def ofName (name : String) : FilePath := ⟨false, [name]⟩

/-- The segments of a path without an empty one at the end, behind which others are put. -/
def front (p : FilePath) : List String :=
  if p.segments.getLast? = some "" then p.segments.dropLast else p.segments

theorem namesOf_front (p : FilePath) : namesOf p.front = p.names := by
  unfold front
  split
  · next hlast =>
    obtain ⟨segments, hsegments⟩ := List.getLast?_eq_some_iff.mp hlast
    rw [names, hsegments, List.dropLast_concat]
    simp [namesOf, isIdle]
  · rfl

theorem front_subset (p : FilePath) : p.front ⊆ p.segments := by
  unfold front
  split
  · exact (List.dropLast_sublist _).subset
  · exact List.Subset.refl _

/-- A name is put behind the segments of a path. -/
theorem join_ofName (p : FilePath) (name : String) :
    p.join (ofName name) = ⟨p.absolute, p.front ++ [name]⟩ := by
  unfold join ofName front
  cases p with
  | mk absolute segments =>
    cases segments with
    | nil => rfl
    | cons first rest => simp

theorem absolute_join (hq : q.absolute = false) : (p.join q).absolute = p.absolute := by
  rw [join, if_neg (by rw [hq]; exact Bool.false_ne_true)]
  split <;> rfl

/-- The names of a relative path are put behind those of the path that it is below. -/
theorem names_join (hq : q.absolute = false) : (p.join q).names = p.names ++ q.names := by
  rw [join, if_neg (by rw [hq]; exact Bool.false_ne_true)]
  split
  · next hp =>
    rw [List.isEmpty_iff] at hp
    simp [names, hp]
  · have hnames : namesOf (if q.segments.isEmpty then [""] else q.segments) = q.names := by
      split
      · next hempty => rw [names, List.isEmpty_iff.mp hempty]; rfl
      · rfl
    rw [← hnames, ← p.namesOf_front, ← List.filter_append]
    rfl

theorem mem_segments_of_mem_join {segment : String} (hsegment : segment ≠ "")
    (h : segment ∈ (p.join q).segments) : segment ∈ p.segments ∨ segment ∈ q.segments := by
  unfold join at h
  split at h
  · exact .inr h
  split at h
  · exact .inr h
  rcases List.mem_append.mp h with hp | hq
  · exact .inl (p.front_subset hp)
  · split at hq
    · exact absurd (List.mem_singleton.mp hq) hsegment
    · exact .inr hq

end GraphQLClient.FilePath
