import GraphQLClient.Proofs.Introspection.Definitions
import GraphQLClient.Proofs.Sdl.TypeText
import Mathlib.Data.List.Chain

/-!
# References as texts

A reference to a type is a name under wrappers, each of which makes a list of a type or excludes
null.  Where null is never excluded twice, the text of a reference is a text of the grammar, and
what is read from it has the same wrappers, in the same order, around the same name.  So references
with other wrappers or another name have other texts.  The kind that stands with the name is not in
the text.

## Main definitions

* `TypeExpr.Wrapper`, `TypeExpr.wrappers` : wrappers, and those of a type expression.
* `TypeExpr.IsWrapping` : the wrappers that may stand around each other.
* `Introspection.TypeRef.wrapped` : a reference under wrappers.

## Main results

* `Introspection.TypeRef.toChars_toType_wrapped`, `Introspection.TypeRef.wrappers_toType_wrapped` :
  the type expression of a reference has its text and its wrappers.
* `Introspection.TypeRef.toText_wrapped` : the text of a reference under wrappers.
-/

namespace GraphQLClient

namespace TypeExpr

/-- What is put around a type: a list, or a mark that excludes null. -/
inductive Wrapper where
  | list
  | nonNull
  deriving DecidableEq, Repr

/-- Wrappers, the outermost first, none of which excludes null where the next one does. -/
def IsWrapping (ws : List Wrapper) : Prop :=
  ws.IsChain fun outer inner => ¬(outer = .nonNull ∧ inner = .nonNull)

instance (ws : List Wrapper) : Decidable (IsWrapping ws) :=
  inferInstanceAs (Decidable (ws.IsChain _))

/-- The wrapper that a mark stands for, if it is there. -/
def requiredWrappers (required : Bool) : List Wrapper :=
  if required then [.nonNull] else []

/-- The wrappers around the name of a type expression, the outermost first. -/
def wrappers : TypeExpr → List Wrapper
  | .named _ required => requiredWrappers required
  | .list item required => requiredWrappers required ++ .list :: wrappers item

theorem count_list_requiredWrappers (required : Bool) :
    (requiredWrappers required).count .list = 0 := by
  cases required <;> rfl

/-- Every list counts, and no mark does. -/
theorem nesting_eq_count (t : TypeExpr) : t.nesting = t.wrappers.count .list := by
  induction t with
  | named name required => rw [nesting, wrappers, count_list_requiredWrappers]
  | list item required ih =>
    rw [nesting, wrappers, List.count_append, count_list_requiredWrappers, List.count_cons_self,
      ih, Nat.zero_add]

/-! ### Types without null -/

theorem base_required (t : TypeExpr) : t.required.base = t.base := by
  cases t <;> rfl

theorem isRequired_required (t : TypeExpr) : t.required.isRequired = true := by
  cases t <;> rfl

theorem wrappers_required {t : TypeExpr} (h : t.isRequired = false) :
    t.required.wrappers = .nonNull :: t.wrappers := by
  cases t with
  | named name required =>
    obtain rfl : required = false := h
    rfl
  | list item required =>
    obtain rfl : required = false := h
    rfl

theorem toChars_required {t : TypeExpr} (h : t.isRequired = false) :
    t.required.toChars = t.toChars ++ ['!'] := by
  cases t with
  | named name required =>
    obtain rfl : required = false := h
    simp [required, toChars]
  | list item required =>
    obtain rfl : required = false := h
    simp [required, toChars]

end TypeExpr

namespace Introspection.TypeRef

open TypeExpr (Wrapper IsWrapping)

/-- A reference in a wrapper. -/
def wrap (t : TypeRef) : Wrapper → TypeRef
  | .list => t.list
  | .nonNull => t.nonNull

/-- A reference under wrappers, the outermost first. -/
def wrapped (ws : List Wrapper) (t : TypeRef) : TypeRef :=
  ws.foldr (fun w t => t.wrap w) t

variable {ws : List Wrapper}

section

variable (ws) (kind : Kind) (name : String)

theorem base_toType_wrapped : (wrapped ws (.named kind name)).toType.base = name := by
  induction ws with
  | nil => cases kind <;> rfl
  | cons w ws ih =>
    cases w with
    | list => exact ih
    | nonNull => exact (TypeExpr.base_required _).trans ih

theorem isRequired_toType_wrapped :
    (wrapped ws (.named kind name)).toType.isRequired = decide (ws.head? = some .nonNull) := by
  cases ws with
  | nil => cases kind <;> simp [wrapped, named, toType, TypeExpr.isRequired]
  | cons w ws =>
    cases w with
    | list => simp [wrapped, wrap, list, toType, TypeExpr.isRequired]
    | nonNull => simp [wrapped, wrap, nonNull, toType, TypeExpr.isRequired_required]

variable {ws}

/-- The type below a mark has null. -/
theorem isRequired_toType_below (hws : IsWrapping (.nonNull :: ws)) :
    (wrapped ws (.named kind name)).toType.isRequired = false := by
  have hhead : ws.head? ≠ some .nonNull := fun h => (List.isChain_cons.mp hws).1 _ h ⟨rfl, rfl⟩
  rw [isRequired_toType_wrapped, decide_eq_false hhead]

variable (hws : IsWrapping ws)

include hws

/-- The type expression of a reference has its wrappers. -/
theorem wrappers_toType_wrapped : (wrapped ws (.named kind name)).toType.wrappers = ws := by
  induction ws with
  | nil => cases kind <;> rfl
  | cons w ws ih =>
    have hrest := ih hws.tail
    cases w with
    | list => exact congrArg (Wrapper.list :: ·) hrest
    | nonNull =>
      have hbelow := isRequired_toType_below kind name hws
      exact (TypeExpr.wrappers_required hbelow).trans (congrArg (Wrapper.nonNull :: ·) hrest)

/-- The type expression of a reference has its text. -/
theorem toChars_toType_wrapped :
    (wrapped ws (.named kind name)).toType.toChars = (wrapped ws (.named kind name)).toChars := by
  induction ws with
  | nil => cases kind <;> simp [wrapped, named, toType, toChars, TypeExpr.toChars]
  | cons w ws ih =>
    have hrest := ih hws.tail
    cases w with
    | list => exact congrArg ('[' :: · ++ [']']) hrest
    | nonNull =>
      have hbelow := isRequired_toType_below kind name hws
      exact (TypeExpr.toChars_required hbelow).trans (congrArg (· ++ ['!']) hrest)

theorem toText_toType_wrapped :
    (wrapped ws (.named kind name)).toType.toText = (wrapped ws (.named kind name)).toText :=
  congrArg String.ofList (toChars_toType_wrapped kind name hws)

end

/-- The text of a reference is read as a type expression with its wrappers and its name. -/
theorem parseAs?_toText_wrapped {name : String} (hws : IsWrapping ws)
    (hname : Name.isName name = true) (kind : Kind) (d : Sdl.Dialect) :
    TypeExpr.parseAs? d (wrapped ws (.named kind name)).toText =
        some (wrapped ws (.named kind name)).toType ↔
      ∀ bound ∈ d.nesting?, ws.count .list ≤ bound := by
  have hbase : Name.isName (wrapped ws (.named kind name)).toType.base = true :=
    (base_toType_wrapped ws kind name).symm ▸ hname
  rw [← toText_toType_wrapped kind name hws, TypeExpr.parseAs?_toText_iff hbase,
    TypeExpr.nesting_eq_count, wrappers_toType_wrapped kind name hws]

/-- **References as texts.** The text of a name under wrappers, none of which excludes null twice,
is a text of the grammar.  The published grammar reads it as the same wrappers around the same name,
and so does the client if no more than five hundred of them are lists.  No other wrappers and no
other name have the same text. -/
theorem toText_wrapped {name : String} (hws : IsWrapping ws) (hname : Name.isName name = true)
    (kind : Kind) :
    TypeExpr.IsText (ws.head? = some .nonNull) (wrapped ws (.named kind name)).toText.toList ∧
      (∃ t : TypeExpr, t.wrappers = ws ∧ t.base = name ∧
        TypeExpr.parseAs? .published (wrapped ws (.named kind name)).toText = some t ∧
        (TypeExpr.parse? (wrapped ws (.named kind name)).toText = some t ↔
          ws.count .list ≤ 500)) ∧
      ∀ ws' name' kind', IsWrapping ws' → Name.isName name' = true →
        (wrapped ws' (.named kind' name')).toText = (wrapped ws (.named kind name)).toText →
          ws' = ws ∧ name' = name := by
  have hbase := base_toType_wrapped ws kind name
  have hread := parseAs?_toText_wrapped hws hname kind
  have hpublished := (hread .published).mpr (by simp [Sdl.Dialect.published])
  refine ⟨?_, ⟨_, wrappers_toType_wrapped kind name hws, hbase, hpublished, ?_⟩, ?_⟩
  · rw [toText, String.toList_ofList, ← toChars_toType_wrapped kind name hws]
    have htext := TypeExpr.isText_toChars (t := (wrapped ws (.named kind name)).toType)
      (hbase.symm ▸ hname)
    simpa only [isRequired_toType_wrapped] using htext
  · exact (hread .client).trans (by simp [Sdl.Dialect.client])
  · intro ws' name' kind' hws' hname' heq
    have hread' := (parseAs?_toText_wrapped hws' hname' kind' .published).mpr
      (by simp [Sdl.Dialect.published])
    rw [heq, hpublished] at hread'
    have htype := Option.some.inj hread'
    constructor
    · rw [← wrappers_toType_wrapped kind' name' hws', ← htype,
        wrappers_toType_wrapped kind name hws]
    · rw [← base_toType_wrapped ws' kind' name', ← htype, hbase]

/-- Lists without null of lists with null, and the same lists with null. -/
theorem toText_wrapped_characters :
    IsWrapping [.nonNull, .list, .list, .nonNull] ∧ Name.isName "Character" = true ∧
      (wrapped [.nonNull, .list, .list, .nonNull] (.named .object "Character")).toText =
        "[[Character!]]!" ∧
      TypeExpr.IsText true "[[Character!]]!".toList ∧
      (∃ t : TypeExpr, t.wrappers = [.nonNull, .list, .list, .nonNull] ∧ t.base = "Character" ∧
        TypeExpr.parseAs? .published "[[Character!]]!" = some t ∧
        TypeExpr.parse? "[[Character!]]!" = some t) ∧
      (wrapped [.list, .list, .nonNull] (.named .object "Character")).toText ≠
        "[[Character!]]!" := by
  have hws : IsWrapping [.nonNull, .list, .list, .nonNull] := by decide
  have hname : Name.isName "Character" = true := by decide
  have htext : (wrapped [.nonNull, .list, .list, .nonNull] (.named .object "Character")).toText =
      "[[Character!]]!" := by decide
  have hall := toText_wrapped hws hname .object
  rw [htext] at hall
  obtain ⟨hgrammar, ⟨t, hwrappers, hbase, hpublished, hclient⟩, hinj⟩ := hall
  refine ⟨hws, hname, htext, hgrammar,
    ⟨t, hwrappers, hbase, hpublished, hclient.mpr (by decide)⟩, fun heq => ?_⟩
  have hsame := (hinj _ _ _ (by decide) hname heq).1
  cases hsame

end Introspection.TypeRef

end GraphQLClient
