import GraphQLClient.Proofs.Sdl.Constant

/-!
# Source characters

A document of October 2021 holds the characters of the basic plane without most of the control
characters.  Names, marks and separators are made of them, and a text stands between quotes with
them exactly if it has no others itself, since none is escaped for being one.

## Main definitions

* `Sdl.IsSource` : a text without other characters.

## Main results

* `Sdl.isSource_of_isName`, `Sdl.isSource_toChars`, `Sdl.isSource_of_literal?` : names, types and
  constants.
* `Sdl.isSource_escapedChars`, `Sdl.isSource_blockChars` : texts between quotes.
-/

namespace GraphQLClient.Sdl

open Introspection (joined escapedChars blockChars)

/-- A text whose characters may all stand in a document of October 2021. -/
def IsSource (s : List Char) : Prop :=
  ∀ c ∈ s, isSourceCharacter c = true

instance (s : List Char) : Decidable (IsSource s) :=
  decidable_of_iff (s.all isSourceCharacter = true) List.all_eq_true

variable {c : Char} {s t : List Char}

@[simp]
theorem isSource_nil : IsSource [] :=
  List.forall_mem_nil _

@[simp]
theorem isSource_cons : IsSource (c :: s) ↔ isSourceCharacter c = true ∧ IsSource s :=
  List.forall_mem_cons

@[simp]
theorem isSource_append : IsSource (s ++ t) ↔ IsSource s ∧ IsSource t :=
  List.forall_mem_append

@[simp]
theorem isSource_flatten {parts : List (List Char)} :
    IsSource parts.flatten ↔ ∀ part ∈ parts, IsSource part := by
  simp only [IsSource, List.mem_flatten, forall_exists_index, and_imp]
  exact forall_comm.trans (forall_congr' fun part => forall_comm)

theorem isSource_joined {separator : List Char} (hseparator : IsSource separator)
    {parts : List (List Char)} :
    IsSource (joined separator parts) ↔ ∀ part ∈ parts, IsSource part := by
  induction parts with
  | nil => simp [joined, List.intercalate]
  | cons part parts ih =>
    cases parts with
    | nil => simp [joined, List.intercalate]
    | cons next parts =>
      rw [joined_cons_cons, isSource_append, isSource_append, and_iff_right hseparator, ih,
        List.forall_mem_cons (a := part)]

/-! ### Names, types and constants -/

theorem isSourceCharacter_of_isNameContinue (hc : Name.isNameContinue c = true) :
    isSourceCharacter c = true := by
  have hrange {a b : Char} (ha : ' ' ≤ a) (hb : b ≤ '\uffff') (h : a ≤ c ∧ c ≤ b) :
      isSourceCharacter c = true := by
    simp [isSourceCharacter, Char.le_trans ha h.1, Char.le_trans h.2 hb]
  simp only [Name.isNameContinue, Name.isNameStart, Bool.or_eq_true, Bool.and_eq_true,
    decide_eq_true_eq] at hc
  rcases hc with ((rfl | hupper) | hlower) | hdigit
  · rfl
  · exact hrange (by decide) (by decide) hupper
  · exact hrange (by decide) (by decide) hlower
  · exact hrange (by decide) (by decide) hdigit

theorem isSource_of_isNameChars (hs : Name.isNameChars s = true) : IsSource s := by
  cases s with
  | nil => exact isSource_nil
  | cons c s =>
    rw [Name.isNameChars, Bool.and_eq_true, List.all_eq_true] at hs
    refine isSource_cons.mpr ⟨isSourceCharacter_of_isNameContinue ?_, fun d hd =>
      isSourceCharacter_of_isNameContinue (hs.2 d hd)⟩
    rw [Name.isNameContinue, hs.1, Bool.true_or]

theorem isSource_of_isName {n : String} (hn : Name.isName n = true) : IsSource n.toList :=
  isSource_of_isNameChars hn

theorem isSource_of_literal? {text : String} {l : Literal} (h : literal? .published text = some l) :
    IsSource text.toList := by
  obtain ⟨ts, hts, -⟩ := literal?_eq_some_iff.mp h
  exact (tokens?_eq_some_iff.mp hts).1.resolve_left Bool.false_ne_true

theorem isSource_toChars {t : TypeExpr} (h : Name.isName t.base = true) : IsSource t.toChars := by
  induction t with
  | named name required =>
    have hname : IsSource name.toList := isSource_of_isName h
    cases required <;> simp [TypeExpr.toChars, hname, isSourceCharacter]
  | list item required ih =>
    have hitem := ih h
    cases required <;> simp [TypeExpr.toChars, hitem, isSourceCharacter]

/-! ### Texts between quotes -/

@[simp]
theorem isSource_escapedChars : IsSource (escapedChars s) ↔ IsSource s := by
  induction s with
  | nil => rfl
  | cons c s ih =>
    rw [escapedChars_cons, isSource_append, ih, isSource_cons]
    refine and_congr_left fun _ => ?_
    rw [escapedChars, List.flatMap_singleton]
    split_ifs with hbackslash hquote hline
    · subst hbackslash
      decide
    · subst hquote
      decide
    · subst hline
      decide
    · simp

@[simp]
theorem isSource_blockChars : IsSource (blockChars s) ↔ IsSource s := by
  fun_induction blockChars s with
  | case1 rest ih => simp [ih, isSourceCharacter]
  | case2 c rest _ ih => simp [ih]
  | case3 => rfl

end GraphQLClient.Sdl
