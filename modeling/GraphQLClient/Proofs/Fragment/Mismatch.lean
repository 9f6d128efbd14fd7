import GraphQLClient.Proofs.Fragment.Written

/-!
# The first value of the wrong shape

A selection reaches values in the data of a response, depth first in the order of its fields: the
value under a response key, for a composite field also the items of its lists and what is selected
in its objects.  Reading the data fails exactly if one of them has the wrong shape, and the error
names the place of the first.

A place is written as the response keys on the way, joined with points, each followed by the indices
of the items that were entered.  The text is built from the outside, and an empty text stands for
the place outside of all keys; so the outermost keys leave no trace as long as they are empty
themselves.

## Main definitions

* `Visit` : a value that a selection reaches, with its place and what is left of its type there.
* `Visit.Mismatches` : the values of the wrong shape.
* `Field.walk`, `Operation.walk` : the values that a selection reaches, in order.
* `Visit.IsFirstMismatch` : the first of some values that has the wrong shape.
* `Json.valueAt` : the value at a place.
* `Path.joined` : the keys of a place, joined with points and followed by their indices.
* `Path.trimmed` : a place without the empty keys on its outside.

## Main results

* `Catalog.explains_inflateField` : the outcome of reading a field against the values it reaches.
* `Path.toText_eq_joined_trimmed`, `Path.toText_eq_joined_iff` : the text of a place.
* `Catalog.inflate_firstMismatch` : the outcome of reading the data of an operation.
-/

namespace GraphQLClient

/-! ### The values that a selection reaches -/

/-- A value that a selection reaches in the data of a response. -/
structure Visit where
  path : Path
  /-- Whether it belongs to a leaf of the selection. -/
  leaf : Bool
  /-- What is left of the declared type of its field at its place. -/
  type : TypeExpr
  value : Json

/-- A value has the wrong shape: at a leaf, that there is no native value for it; else, that it is
neither null nor an array where the type is a list, or neither null nor an object where the type is
a name. -/
inductive Visit.Mismatches (c : Catalog) : Visit → Prop
  | leaf {path : Path} {type : TypeExpr} {j : Json} {e : CodecError}
      (he : c.deserialize type j = .error e) : Mismatches c ⟨path, true, type, j⟩
  | list {path : Path} {item : TypeExpr} {required : Bool} {j : Json} (hnull : j ≠ .null)
      (harray : ∀ items, j ≠ .array items) : Mismatches c ⟨path, false, .list item required, j⟩
  | named {path : Path} {name : String} {required : Bool} {j : Json} (hnull : j ≠ .null)
      (hobject : ∀ members, j ≠ .object members) :
      Mismatches c ⟨path, false, .named name required, j⟩

/-- The values that are reached at a place of a composite type: through arrays where the type is a
list, and into an object where it is a name. -/
def walkLayers (below : Entries Json → Path → List Visit) : TypeExpr → Json → Path → List Visit
  | .list item required, .array items, path =>
    ⟨path, false, .list item required, .array items⟩ ::
      items.zipIdx.flatMap fun p => walkLayers below item p.1 (path ++ [.index p.2])
  | .named name required, .object members, path =>
    ⟨path, false, .named name required, .object members⟩ :: below members path
  | type, j, path => [⟨path, false, type, j⟩]

mutual

/-- The values that a field reaches, from the value under its response key. -/
def Field.walk : Field → Json → Path → List Visit
  | .leaf h, j, path => [⟨path, true, h.definition.type, j⟩]
  | .composite h children, j, path => walkLayers (walkBelow children) h.definition.type j path

/-- The values that fields reach, from the members of an object.  A missing one is null. -/
def Field.walkBelow : List Field → Entries Json → Path → List Visit
  | [], _, _ => []
  | f :: rest, members, path =>
    walk f ((Entries.get? members f.responseKey).getD .null) (path ++ [.key f.responseKey]) ++
      walkBelow rest members path

end

/-- The values that an operation reaches in the data of a response. -/
def Operation.walk (o : Operation) : Json → List Visit
  | .object members => Field.walkBelow o.selections members []
  | _ => []

/-- The first of some values that has the wrong shape. -/
def Visit.IsFirstMismatch (c : Catalog) (visits : List Visit) (v : Visit) : Prop :=
  ∃ before after, visits = before ++ v :: after ∧ v.Mismatches c ∧
    ∀ u ∈ before, ¬ u.Mismatches c

/-! ### Their places -/

/-- The value at a place, null where there is none. -/
def Json.valueAt : Json → Path → Json
  | j, [] => j
  | .object members, .key name :: rest => valueAt ((Entries.get? members name).getD .null) rest
  | .array items, .index n :: rest => valueAt (items[n]?.getD .null) rest
  | _, _ :: _ => .null

/-- A value that is reached from a place stands at the end of a way that goes on from there. -/
def Visit.StandsBelow (v : Visit) (path : Path) (j : Json) : Prop :=
  ∃ rest, v.path = path ++ rest ∧ j.valueAt rest = v.value

theorem Visit.StandsBelow.here (path : Path) (leaf : Bool) (type : TypeExpr) (j : Json) :
    Visit.StandsBelow ⟨path, leaf, type, j⟩ path j :=
  ⟨[], by simp, by rw [Json.valueAt]⟩

theorem Visit.StandsBelow.key {v : Visit} {path : Path} {name : String}
    {members : List (String × Json)}
    (h : v.StandsBelow (path ++ [.key name]) ((Entries.get? members name).getD .null)) :
    v.StandsBelow path (.object members) := by
  obtain ⟨rest, hpath, hvalue⟩ := h
  exact ⟨.key name :: rest, by simpa using hpath, by rw [Json.valueAt, hvalue]⟩

theorem Visit.StandsBelow.index {v : Visit} {path : Path} {n : Nat} {items : List Json} {j : Json}
    (hn : items[n]? = some j) (h : v.StandsBelow (path ++ [.index n]) j) :
    v.StandsBelow path (.array items) := by
  obtain ⟨rest, hpath, hvalue⟩ := h
  exact ⟨.index n :: rest, by simpa using hpath, by rw [Json.valueAt, hn, Option.getD_some, hvalue]⟩

theorem standsBelow_of_mem_walkLayers {below : Entries Json → Path → List Visit}
    (hbelow : ∀ members path, ∀ v ∈ below members path, v.StandsBelow path (.object members))
    (type : TypeExpr) (j : Json) (path : Path) :
    ∀ v ∈ walkLayers below type j path, v.StandsBelow path j := by
  induction type generalizing j path with
  | named name required =>
    cases j with
    | object members =>
      rw [walkLayers, List.forall_mem_cons]
      exact ⟨.here _ _ _ _, hbelow members path⟩
    | null | bool _ | number _ | string _ | array _ =>
      simp only [walkLayers, List.forall_mem_singleton]
      exact .here _ _ _ _
  | list item required ih =>
    cases j with
    | array items =>
      rw [walkLayers, List.forall_mem_cons]
      refine ⟨.here _ _ _ _, fun v hv => ?_⟩
      obtain ⟨⟨j, n⟩, hj, hv⟩ := List.mem_flatMap.mp hv
      exact .index (List.mk_mem_zipIdx_iff_getElem?.mp hj) (ih j _ v hv)
    | null | bool _ | number _ | string _ | object _ =>
      simp only [walkLayers, List.forall_mem_singleton]
      exact .here _ _ _ _

mutual

theorem Field.standsBelow_of_mem_walk : (f : Field) → (j : Json) → (path : Path) →
    ∀ v ∈ f.walk j path, v.StandsBelow path j
  | .leaf h, j, path => by
      rw [walk, List.forall_mem_singleton]
      exact .here _ _ _ _
  | .composite h children, j, path => by
      rw [walk]
      exact standsBelow_of_mem_walkLayers (standsBelow_of_mem_walkBelow children) _ j path

theorem Field.standsBelow_of_mem_walkBelow : (fields : List Field) → (members : Entries Json) →
    (path : Path) → ∀ v ∈ walkBelow fields members path, v.StandsBelow path (.object members)
  | [], members, path => by simp [walkBelow]
  | f :: rest, members, path => by
      rw [walkBelow, List.forall_mem_append]
      exact ⟨fun v hv => .key (standsBelow_of_mem_walk f _ _ v hv),
        standsBelow_of_mem_walkBelow rest members path⟩

end

/-- The place of a value that an operation reaches leads to the value. -/
theorem Operation.valueAt_of_mem_walk {o : Operation} {data : Json} {v : Visit}
    (hv : v ∈ o.walk data) : data.valueAt v.path = v.value := by
  cases data with
  | object members =>
    rw [walk] at hv
    obtain ⟨rest, hpath, hvalue⟩ := Field.standsBelow_of_mem_walkBelow _ _ _ v hv
    rw [hpath, List.nil_append, hvalue]
  | null | bool _ | number _ | string _ | array _ => simp [walk] at hv

/-! ### The text of a place -/

/-- A step behind other steps. -/
def PathStep.toText : PathStep → String
  | .key name => "." ++ name
  | .index n => "[" ++ String.ofList (Decimal.natChars n) ++ "]"

/-- The keys of a place, joined with points, each followed by the indices behind it. -/
def Path.joined : Path → String
  | [] => ""
  | .key name :: rest => name ++ String.join (rest.map PathStep.toText)
  | .index n :: rest => String.join ((.index n :: rest).map PathStep.toText)

namespace Path

/-- A place from its first key that is not empty, or its first index, on. -/
def trimmed (p : Path) : Path :=
  p.dropWhile (· = .key "")

/-- One step of writing a place behind a text. -/
def write (s : String) : PathStep → String
  | .key name => if s.isEmpty then name else s ++ "." ++ name
  | .index n => s ++ "[" ++ String.ofList (Decimal.natChars n) ++ "]"

theorem toText_eq_foldl (p : Path) : p.toText = p.foldl write "" := by
  rw [toText]
  congr 1

theorem write_of_ne_empty {s : String} (hs : s ≠ "") (step : PathStep) :
    write s step = s ++ step.toText := by
  cases step with
  | key name => rw [write, if_neg (by simpa using hs), PathStep.toText, String.append_assoc]
  | index n => simp only [write, PathStep.toText, String.append_assoc]

/-- Behind a text that is not empty every key has its point. -/
theorem foldl_write {s : String} (hs : s ≠ "") (p : Path) :
    p.foldl write s = s ++ String.join (p.map PathStep.toText) := by
  induction p generalizing s with
  | nil => simp
  | cons step rest ih =>
    have hnext : s ++ step.toText ≠ "" := by simp [hs]
    rw [List.foldl_cons, write_of_ne_empty hs, ih hnext, List.map_cons, String.join_cons,
      String.append_assoc]

theorem trimmed_cons_of_ne {step : PathStep} (hstep : step ≠ .key "") (rest : Path) :
    trimmed (step :: rest) = step :: rest :=
  List.dropWhile_cons_of_neg (by simpa using hstep)

theorem trimmed_blank_cons (rest : Path) : trimmed (.key "" :: rest) = trimmed rest :=
  List.dropWhile_cons_of_pos (by simp)

/-- **The text of a place** has its keys joined with points, each followed by its indices, but for
the empty keys on its outside: they leave nothing, and no point behind them. -/
theorem toText_eq_joined_trimmed (p : Path) : p.toText = p.trimmed.joined := by
  rw [toText_eq_foldl]
  induction p with
  | nil => rfl
  | cons step rest ih =>
    by_cases hstep : step = .key ""
    · rw [hstep, trimmed_blank_cons, ← ih]
      rfl
    · have hwritten : write "" step ≠ "" := by
        cases step with
        | key name => simpa [write] using hstep
        | index n => simp [write]
      rw [trimmed_cons_of_ne hstep, List.foldl_cons, foldl_write hwritten]
      cases step with
      | key name => simp [joined, write]
      | index n => simp [joined, write, PathStep.toText]

theorem joined_blank_cons (rest : Path) :
    joined (.key "" :: rest) = String.join (rest.map PathStep.toText) :=
  String.empty_append

/-- Behind an empty key a place has the same text, or a point more before its first key. -/
theorem length_joined_le (p : Path) : p.joined.length ≤ (joined (.key "" :: p)).length := by
  rw [joined_blank_cons]
  match p with
  | [] => exact Nat.le_refl _
  | .key name :: rest =>
    simp only [joined, List.map_cons, String.join_cons, PathStep.toText, String.length_append]
    omega
  | .index n :: rest => exact Nat.le_refl _

theorem length_joined_trimmed_le (p : Path) : p.trimmed.joined.length ≤ p.joined.length := by
  induction p with
  | nil => exact Nat.le_refl _
  | cons step rest ih =>
    by_cases hstep : step = .key ""
    · rw [hstep, trimmed_blank_cons]
      exact Nat.le_trans ih (length_joined_le rest)
    · exact Nat.le_of_eq (by rw [trimmed_cons_of_ne hstep])

/-- The text of a place has all its keys joined with points, each followed by its indices, exactly
if it does not start with an empty key that another key follows. -/
theorem toText_eq_joined_iff (p : Path) :
    p.toText = p.joined ↔ ¬ ∃ name rest, p = .key "" :: .key name :: rest := by
  rw [toText_eq_joined_trimmed]
  match p with
  | [] => simp [trimmed]
  | step :: rest =>
    by_cases hstep : step = .key ""
    · subst hstep
      rw [trimmed_blank_cons]
      match rest with
      | [] => simp [trimmed, joined]
      | .index n :: rest =>
        rw [trimmed_cons_of_ne (by simp), joined_blank_cons]
        simp [joined]
      | .key name :: rest =>
        -- The point before the second key is missing, and nothing makes up for it.
        refine iff_of_false (fun htext => ?_) (by simp)
        have hshort := length_joined_trimmed_le (.key name :: rest)
        have hpoint : ".".length = 1 := rfl
        rw [htext, joined_blank_cons, joined, List.map_cons, String.join_cons, PathStep.toText,
          String.append_assoc, String.length_append, hpoint] at hshort
        omega
    · rw [trimmed_cons_of_ne hstep]
      simp [hstep]

end Path

/-! ### The outcome of reading -/

/-- An outcome of reading goes by the values that are reached: it is a success if none of them has
the wrong shape, and else an error at the place of the first that has. -/
def Visit.Explains {α : Type} (c : Catalog) (visits : List Visit) : Except ShapeError α → Prop
  | .ok _ => ∀ v ∈ visits, ¬ v.Mismatches c
  | .error e => ∃ v, Visit.IsFirstMismatch c visits v ∧ e.path = v.path

namespace Visit

variable {c : Catalog} {α β : Type}

theorem IsFirstMismatch.append_right {visits : List Visit} {v : Visit}
    (h : IsFirstMismatch c visits v) (more : List Visit) :
    IsFirstMismatch c (visits ++ more) v := by
  obtain ⟨before, after, rfl, hv, hbefore⟩ := h
  exact ⟨before, after ++ more, by simp, hv, hbefore⟩

theorem IsFirstMismatch.append_left {visits more : List Visit} {v : Visit}
    (hvisits : ∀ u ∈ visits, ¬ u.Mismatches c) (h : IsFirstMismatch c more v) :
    IsFirstMismatch c (visits ++ more) v := by
  obtain ⟨before, after, rfl, hv, hbefore⟩ := h
  exact ⟨visits ++ before, after, by simp, hv, List.forall_mem_append.mpr ⟨hvisits, hbefore⟩⟩

theorem IsFirstMismatch.mem {visits : List Visit} {v : Visit} (h : IsFirstMismatch c visits v) :
    v ∈ visits := by
  obtain ⟨before, after, rfl, -⟩ := h
  simp

/-- Reading succeeds exactly if no value has the wrong shape. -/
theorem Explains.exists_ok_iff {visits : List Visit} {x : Except ShapeError α}
    (h : Explains c visits x) : (∃ a, x = .ok a) ↔ ∀ v ∈ visits, ¬ v.Mismatches c := by
  cases x with
  | ok a => exact iff_of_true ⟨a, rfl⟩ h
  | error e =>
    obtain ⟨v, hv, -⟩ := h
    obtain ⟨before, after, -, hmismatch, -⟩ := id hv
    exact iff_of_false (by simp) fun hnone => hnone v hv.mem hmismatch

theorem explains_singleton_ok {v : Visit} (hv : ¬ v.Mismatches c) (a : α) :
    Explains c [v] (.ok a) :=
  List.forall_mem_singleton.mpr hv

theorem explains_singleton_error {v : Visit} (hv : v.Mismatches c) (reason : ShapeReason) :
    Explains c [v] (.error ⟨v.path, reason⟩ : Except ShapeError α) :=
  ⟨v, ⟨[], [], rfl, hv, by simp⟩, rfl⟩

theorem Explains.map {visits : List Visit} {x : Except ShapeError α} (h : Explains c visits x)
    (f : α → β) : Explains c visits (x.map f) := by
  cases x with
  | error e => exact h
  | ok a => exact h

/-- After an error nothing is read, whatever values would be reached. -/
theorem Explains.append_error {visits : List Visit} {e : ShapeError}
    (h : Explains c visits (.error e : Except ShapeError α)) (more : List Visit) :
    Explains c (visits ++ more) (.error e : Except ShapeError β) := by
  obtain ⟨v, hv, hpath⟩ := h
  exact ⟨v, hv.append_right more, hpath⟩

/-- What is read after a success goes by the values that are reached after it. -/
theorem Explains.append_ok {visits more : List Visit} {a : α} (h : Explains c visits (.ok a))
    {x : Except ShapeError β} (hx : Explains c more x) : Explains c (visits ++ more) x := by
  cases x with
  | error e =>
    obtain ⟨v, hv, hpath⟩ := hx
    exact ⟨v, hv.append_left h, hpath⟩
  | ok b => exact List.forall_mem_append.mpr ⟨h, hx⟩

theorem Explains.cons {v : Visit} (hv : ¬ v.Mismatches c) {visits : List Visit}
    {x : Except ShapeError α} (h : Explains c visits x) : Explains c (v :: visits) x :=
  (explains_singleton_ok hv ()).append_ok h

end Visit

namespace Catalog

variable {c : Catalog}

theorem explains_inflateItems {read : Json → Path → Except ShapeError Result}
    {reached : Json → Path → List Visit}
    (hread : ∀ j path, Visit.Explains c (reached j path) (read j path)) (path : Path) (n : Nat)
    (items : List Json) :
    Visit.Explains c ((items.zipIdx n).flatMap fun p => reached p.1 (path ++ [.index p.2]))
      (inflateItems read path n items) := by
  induction items generalizing n with
  | nil =>
    rw [inflateItems]
    exact List.forall_mem_nil _
  | cons item rest ih =>
    have hitem := hread item (path ++ [.index n])
    rw [inflateItems, List.zipIdx_cons, List.flatMap_cons]
    cases hr : read item (path ++ [.index n]) with
    | error e =>
      rw [hr] at hitem
      exact hitem.append_error _
    | ok r =>
      rw [hr] at hitem
      exact hitem.append_ok ((ih (n + 1)).map _)

theorem explains_inflateLayers
    {object : String → List (String × Json) → Path → Except ShapeError Result}
    {below : Entries Json → Path → List Visit}
    (hobject : ∀ name members path,
      Visit.Explains c (below members path) (object name members path))
    (type : TypeExpr) (j : Json) (path : Path) :
    Visit.Explains c (walkLayers below type j path) (inflateLayers object type j path) := by
  induction type generalizing j path with
  | named name required =>
    cases j with
    | null =>
      rw [inflateLayers]
      exact Visit.explains_singleton_ok (by rintro ⟨⟩; contradiction) _
    | object members =>
      rw [inflateLayers, walkLayers]
      exact .cons (by rintro ⟨⟩; simp_all) (hobject name members path)
    | bool _ | number _ | string _ | array _ =>
      simp only [inflateLayers, walkLayers]
      exact Visit.explains_singleton_error (.named (by simp) (by simp)) _
  | list item required ih =>
    cases j with
    | null =>
      rw [inflateLayers]
      exact Visit.explains_singleton_ok (by rintro ⟨⟩; contradiction) _
    | array items =>
      rw [inflateLayers, walkLayers]
      exact .cons (by rintro ⟨⟩; simp_all) ((explains_inflateItems ih path 0 items).map _)
    | bool _ | number _ | string _ | object _ =>
      simp only [inflateLayers, walkLayers]
      exact Visit.explains_singleton_error (.list (by simp) (by simp)) _

mutual

/-- The outcome of reading a field goes by the values that the field reaches. -/
theorem explains_inflateField (c : Catalog) : (f : Field) → (j : Json) → (path : Path) →
    Visit.Explains c (f.walk j path) (c.inflateField f j path)
  | .leaf h, j, path => by
      rw [Field.walk, inflateField]
      cases hread : c.deserialize h.definition.type j with
      | error e => exact Visit.explains_singleton_error (.leaf hread) _
      | ok v => exact Visit.explains_singleton_ok (by rintro ⟨⟩; simp_all) _
  | .composite h children, j, path => by
      rw [Field.walk, inflateField]
      refine explains_inflateLayers (fun name members path => ?_) _ j path
      exact (explains_inflateFields c children members path).map _

/-- The outcome of reading fields goes by the values that the fields reach. -/
theorem explains_inflateFields (c : Catalog) : (fields : List Field) → (members : Entries Json) →
    (path : Path) →
      Visit.Explains c (Field.walkBelow fields members path) (c.inflateFields fields members path)
  | [], members, path => by
      rw [Field.walkBelow, inflateFields]
      exact List.forall_mem_nil _
  | f :: rest, members, path => by
      have hf := explains_inflateField c f ((Entries.get? members f.responseKey).getD .null)
        (path ++ [.key f.responseKey])
      rw [Field.walkBelow, inflateFields]
      cases hr : c.inflateField f ((Entries.get? members f.responseKey).getD .null)
          (path ++ [.key f.responseKey]) with
      | error e =>
        rw [hr] at hf
        exact hf.append_error _
      | ok r =>
        rw [hr] at hf
        exact hf.append_ok ((explains_inflateFields c rest members path).map _)

end

/-- The outcome of reading an object goes by the values that the operation reaches. -/
theorem explains_inflate (c : Catalog) (o : Operation) (members : Entries Json) :
    Visit.Explains c (o.walk (.object members)) (c.inflate o (.object members)) :=
  (explains_inflateFields c o.selections members []).map _

/-- **Reading fails at the first value of the wrong shape.** The data of a response can be read
exactly if it is an object in which no value that the operation reaches has the wrong shape.  If it
cannot, the error names the place of the first such value, and no place if the data is no object.
The text of the place has the response keys on the way joined with points, each followed by its
indices, but for the empty keys on the outside, which leave nothing.  So it has all of them exactly
if the outermost key is not empty or no key follows it at once. -/
theorem inflate_firstMismatch (c : Catalog) (o : Operation) (data : Json) :
    ((∃ r, c.inflate o data = .ok r) ↔
      (∃ members, data = .object members) ∧ ∀ v ∈ o.walk data, ¬ v.Mismatches c) ∧
      ∀ e, c.inflate o data = .error e →
        ((∀ members, data ≠ .object members) ∧ e.path = [] ∨
          ∃ v, Visit.IsFirstMismatch c (o.walk data) v ∧ e.path = v.path ∧
            data.valueAt e.path = v.value) ∧
        e.path.toText = e.path.trimmed.joined ∧
        (e.path.toText = e.path.joined ↔ ¬ ∃ name rest, e.path = .key "" :: .key name :: rest) := by
  cases data with
  | object members =>
    have hexplains := explains_inflate c o members
    refine ⟨?_, fun e he =>
      ⟨.inr ?_, e.path.toText_eq_joined_trimmed, e.path.toText_eq_joined_iff⟩⟩
    · simpa using hexplains.exists_ok_iff
    · rw [he] at hexplains
      obtain ⟨v, hv, hpath⟩ := hexplains
      exact ⟨v, hv, hpath, hpath ▸ Operation.valueAt_of_mem_walk hv.mem⟩
  | null | bool _ | number _ | string _ | array _ =>
    refine ⟨by simp [inflate], fun e he =>
      ⟨.inl ?_, e.path.toText_eq_joined_trimmed, e.path.toText_eq_joined_iff⟩⟩
    cases he
    exact ⟨by simp, rfl⟩

/-! ### A year that is no number -/

/-- A ship with a place that is not taken, a pilot whose year of birth is a text, and something that
is no member of a crew. -/
def lateCrewData : Json :=
  .object
    [("crews", .array
      [.array
        [.null, .object [("born", .string "late"), ("name", .string "Ada")], .bool true]])]

/-- The year of birth is no integer. -/
def lateCrewError : ShapeError :=
  ⟨[.key "crews", .index 0, .index 1, .key "born"], .codec (.scalar (.wire "Int" (.string "late")))⟩

theorem inflate_lateCrewData :
    crews.inflate crewOperation lateCrewData = .error lateCrewError ∧
      (∃ v, Visit.IsFirstMismatch crews (crewOperation.walk lateCrewData) v ∧
        lateCrewError.path = v.path ∧ lateCrewData.valueAt lateCrewError.path = v.value) ∧
      lateCrewError.path.toText = lateCrewError.path.joined ∧
      lateCrewError.path.toText = "crews[0][1].born" := by
  have herror : crews.inflate crewOperation lateCrewData = .error lateCrewError := rfl
  obtain ⟨hplace, -, htext⟩ := (inflate_firstMismatch crews crewOperation lateCrewData).2 _ herror
  exact ⟨herror, hplace.resolve_left fun hdata => hdata.1 _ rfl,
    htext.mpr (by simp [lateCrewError]), rfl⟩

/-! ### A key without characters -/

/-- The captain under an empty key, and the name of the captain. -/
def blankOperation : Operation :=
  ⟨.query, none, "Query",
    [(Field.composite
        ⟨"Query", ⟨none, "captain", [], .named "Member" false, []⟩, none, "captain", []⟩
        [.leaf ⟨"Member", ⟨none, "name", [], .named "String" true, []⟩, none, "name", []⟩]
      ).withAlias ""],
    true⟩

/-- The place of a name that is no text is written without the point behind the empty key. -/
theorem inflate_blankOperation :
    ∃ e, crews.inflate blankOperation (.object [("", .object [("name", .bool true)])]) = .error e ∧
      e.path = [.key "", .key "name"] ∧ e.path.joined = ".name" ∧ e.path.toText = "name" :=
  ⟨_, rfl, rfl, rfl, rfl⟩

end Catalog

end GraphQLClient
