import GraphQLClient.Proofs.Sdl.Source

/-!
# Type expressions as texts

The grammar of documents has three kinds of types: names, lists of types, and either of these with a
mark that excludes null.  The texts of the grammar are the texts of type expressions whose names are
names of documents.  Such a text is read back as its type expression; a dialect that bounds the
nesting of types does so exactly for the types within its bound.

## Main definitions

* `TypeExpr.IsText` : the texts of types by the grammar.

## Main results

* `TypeExpr.isText_iff` : the texts of the grammar are those of type expressions.
* `TypeExpr.tokensFrom?_toChars` : the tokens of the text of a type expression.
* `TypeExpr.parseAs?_toText_iff` : the type expressions that a dialect reads back.
-/

namespace GraphQLClient

open Sdl (Token Dialect Delimited tokensFrom?)

variable {alpha : Sdl.Alphabet}

/-- The texts of types by the grammar of documents, and whether the type excludes null.  A mark
stands at a name or at a list, and never at another mark. -/
inductive TypeExpr.IsText : Bool → List Char → Prop where
  | name {s : List Char} (h : Name.isNameChars s = true) : IsText false s
  | list {required : Bool} {s : List Char} (h : IsText required s) :
      IsText false ('[' :: s ++ [']'])
  | required {s : List Char} (h : IsText false s) : IsText true (s ++ ['!'])

namespace TypeExpr

/-! ### The grammar -/

theorem isText_toChars {t : TypeExpr} (h : Name.isName t.base = true) :
    IsText t.isRequired t.toChars := by
  induction t with
  | named name required =>
    have hname : IsText false name.toList := .name h
    cases required with
    | false => simpa [toChars, isRequired] using hname
    | true => exact hname.required
  | list item required ih =>
    have hlist : IsText false ('[' :: item.toChars ++ [']']) := (ih h).list
    cases required with
    | false => exact hlist
    | true => simpa [toChars, isRequired] using hlist.required

theorem exists_of_isText {required : Bool} {s : List Char} (h : IsText required s) :
    ∃ t : TypeExpr, Name.isName t.base = true ∧ t.isRequired = required ∧ t.toChars = s := by
  induction h with
  | @name s h =>
    refine ⟨.named (String.ofList s) false, ?_, rfl, ?_⟩
    · rwa [base, Name.isName, String.toList_ofList]
    · simp [toChars]
  | list _ ih =>
    obtain ⟨t, hbase, -, rfl⟩ := ih
    exact ⟨.list t false, hbase, rfl, rfl⟩
  | required _ ih =>
    obtain ⟨t, hbase, hrequired, rfl⟩ := ih
    cases t with
    | named name required =>
      obtain rfl : required = false := hrequired
      exact ⟨.named name true, hbase, rfl, by simp [toChars]⟩
    | list item required =>
      obtain rfl : required = false := hrequired
      exact ⟨.list item true, hbase, rfl, by simp [toChars]⟩

/-- The texts of the grammar are the texts of type expressions with names of documents. -/
theorem isText_iff {required : Bool} {s : List Char} :
    IsText required s ↔
      ∃ t : TypeExpr, Name.isName t.base = true ∧ t.isRequired = required ∧ t.toChars = s := by
  refine ⟨exists_of_isText, ?_⟩
  rintro ⟨t, hbase, rfl, rfl⟩
  exact isText_toChars hbase

end TypeExpr

/-! ### Tokens -/

namespace Sdl

theorem tokensFrom?_mark {c : Char} (hc : isMark c = true) (x : List Char) :
    tokensFrom? alpha (c :: x) = (tokensFrom? alpha x).map (.mark c :: ·) := by
  obtain ⟨hsep, hcomment⟩ := of_isMark hc
  exact tokensFrom?_token hsep hcomment (if_pos hc)

theorem tokensFrom?_name {n : String} (hn : Name.isName n = true) {x : List Char}
    (hx : Delimited x) :
    tokensFrom? alpha (n.toList ++ x) = (tokensFrom? alpha x).map (.name n :: ·) := by
  obtain ⟨c, s, hs, hsep, hcomment, ht⟩ := takeToken?_name hn hx
  rw [hs, List.cons_append, tokensFrom?_token hsep hcomment ht]

end Sdl

namespace TypeExpr

/-- The mark that excludes null, if it is there. -/
def requiredChars (required : Bool) : List Char :=
  if required then ['!'] else []

theorem delimited_requiredChars (required : Bool) {x : List Char} (hx : Delimited x) :
    Delimited (requiredChars required ++ x) := by
  cases required with
  | false => exact hx
  | true => exact Sdl.delimited_cons x rfl (by decide) (by decide)

theorem tokensFrom?_requiredChars (required : Bool) (x : List Char) :
    tokensFrom? alpha (requiredChars required ++ x) =
      (tokensFrom? alpha x).map (requiredTokens required ++ ·) := by
  cases required with
  | false => simp [requiredChars, requiredTokens]
  | true => exact Sdl.tokensFrom?_mark rfl x

/-- The text of a type expression has its tokens, unless the text after it goes on with a name. -/
theorem tokensFrom?_toChars {t : TypeExpr} (h : Name.isName t.base = true) {x : List Char}
    (hx : Delimited x) :
    tokensFrom? alpha (t.toChars ++ x) = (tokensFrom? alpha x).map (t.tokens ++ ·) := by
  induction t generalizing x with
  | named name required =>
    have hname : Name.isName name = true := h
    have htext : (named name required).toChars = name.toList ++ requiredChars required := rfl
    rw [htext, List.append_assoc, Sdl.tokensFrom?_name hname (delimited_requiredChars required hx),
      tokensFrom?_requiredChars, Option.map_map]
    rfl
  | list item required ih =>
    have htext : (list item required).toChars ++ x =
        '[' :: (item.toChars ++ ']' :: (requiredChars required ++ x)) := by
      simp [toChars, requiredChars]
    have hclose : Delimited (']' :: (requiredChars required ++ x)) :=
      Sdl.delimited_cons _ rfl (by decide) (by decide)
    rw [htext, Sdl.tokensFrom?_mark rfl, ih h hclose, Sdl.tokensFrom?_mark rfl,
      tokensFrom?_requiredChars, Option.map_map, Option.map_map, Option.map_map]
    congr 1
    funext ts
    simp [tokens]

theorem tokens?_toText {t : TypeExpr} (h : Name.isName t.base = true) :
    Sdl.tokens? alpha t.toText = some t.tokens := by
  have htokens : tokensFrom? alpha (t.toChars ++ []) = _ := tokensFrom?_toChars h Sdl.delimited_nil
  rw [List.append_nil] at htokens
  rw [Sdl.tokens?_eq_some_iff, toText, String.toList_ofList, htokens]
  refine ⟨.inr (Sdl.isSource_toChars h), ?_⟩
  simp [tokensFrom?, Sdl.tokensWithin?]

theorem comma_notMem_tokens (t : TypeExpr) : .mark ',' ∉ t.tokens := by
  have hrequired (required : Bool) : Token.mark ',' ∉ requiredTokens required := by
    cases required <;> simp [requiredTokens]
  induction t with
  | named name required => simp [tokens, hrequired]
  | list item required ih => simp [tokens, hrequired, ih]

/-- The tokens of a type expression are the same in every dialect. -/
theorem significant_tokens (d : Dialect) (t : TypeExpr) : d.significant t.tokens = t.tokens := by
  have hall : ∀ token ∈ t.tokens, decide (token ≠ .mark ',') = true := by
    intro token htoken
    rw [decide_eq_true_eq]
    rintro rfl
    exact t.comma_notMem_tokens htoken
  rw [Dialect.significant, Sdl.withoutCommas, List.filter_eq_self.mpr hall, ite_self]

/-! ### Reading -/

/-- A type expression that is nested too deep is not read. -/
theorem typeExprWithin_tokens_eq_none (t : TypeExpr) {n : Nat} (hn : n ≤ t.nesting)
    (rest : List Token) : Sdl.typeExprWithin n (t.tokens ++ rest) = none := by
  induction t generalizing n rest with
  | named name required =>
    obtain rfl : n = 0 := Nat.le_zero.mp hn
    rfl
  | list item required ih =>
    cases n with
    | zero => rfl
    | succ n =>
      have hself := Sdl.accept_self (t := .mark '[') (by rintro ⟨⟩)
        (item.tokens ++ .mark ']' :: (requiredTokens required ++ rest))
      have hitem := ih (Nat.le_of_succ_le_succ hn) (.mark ']' :: (requiredTokens required ++ rest))
      rw [tokens, List.cons_append, List.cons_append, List.append_assoc, List.cons_append,
        Sdl.typeExprWithin, Sdl.bind_of_eq hself, if_pos rfl]
      change (Sdl.typeExprWithin n _).bind _ = none
      rw [hitem]
      rfl

/-- The bound of a dialect, where it has one; else there are more tokens than lists. -/
theorem nesting_lt_depth_iff (d : Dialect) (t : TypeExpr) :
    t.nesting < d.depth t.tokens ↔ ∀ bound ∈ d.nesting?, t.nesting ≤ bound := by
  have hlength := Sdl.nesting_lt_length_tokens t
  rw [Dialect.depth, Nat.lt_succ_iff]
  cases hbound : d.nesting? with
  | none => simpa using hlength.le
  | some bound => simp

/-- **Type expressions as texts.** A dialect reads the text of a type expression as the type
expression exactly if it has no more lists than the dialect admits. -/
theorem parseAs?_toText_iff {t : TypeExpr} (h : Name.isName t.base = true) (d : Dialect) :
    parseAs? d t.toText = some t ↔ ∀ bound ∈ d.nesting?, t.nesting ≤ bound := by
  rw [parseAs?, tokens?_toText h, Option.bind_some, significant_tokens, ← nesting_lt_depth_iff]
  constructor
  · intro hread
    by_contra hdeep
    have hnone := typeExprWithin_tokens_eq_none t (Nat.le_of_not_lt hdeep) []
    rw [List.append_nil] at hnone
    have hrun : (Sdl.typeExpr d).run t.tokens = none := hnone
    rw [hrun] at hread
    cases hread
  · intro hdepth
    have hend : Sdl.Avoids [',', '!'] [] := trivial
    have hread := Sdl.typeExprWithin_tokens t hdepth hend
    rw [List.append_nil] at hread
    have hrun : (Sdl.typeExpr d).run t.tokens = some (t, []) := hread
    rw [hrun]
    rfl

end TypeExpr

end GraphQLClient
