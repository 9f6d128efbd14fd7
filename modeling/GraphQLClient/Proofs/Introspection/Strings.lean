import GraphQLClient.Proofs.Sdl.Spelling

/-!
# Texts of a server in quotes

Descriptions and reasons are texts that a server chooses.  A description of several lines is written
as a block, and what could close the block too early has a backslash before it.  Every other
description, and every reason, is written as a quoted string with its backslashes, quotes and line
feeds escaped.  A carriage return is not escaped, and it may not stand in a quoted string: where
there is one the string is not closed, and where there is none the text is read back.

## Main definitions

* `Sdl.IsString` : the texts that are one string.
* `Sdl.opensBlock` : the strings that are blocks.

## Main results

* `Sdl.isString_quoted_iff`, `Sdl.isString_block` : texts between quotes.
* `Introspection.isString_iff` : descriptions and reasons.
-/

namespace GraphQLClient

namespace Sdl

variable {alpha : Alphabet}

/-- A text is one string, which stands for a value, with the escapes of an alphabet. -/
def IsString (alpha : Alphabet) (text : List Char) (v : String) : Prop :=
  ∃ body, text = '"' :: body ∧ takeToken? alpha '"' body = some (.string v, [])

/-- Whether a string is a block. -/
def opensBlock (text : List Char) : Bool :=
  ['"', '"', '"'].isPrefixOf text

/-! ### Quoted strings -/

/-- A carriage return keeps a quoted string from being closed. -/
theorem takeQuoted?_of_return {u : List Char} (hu : '\r' ∈ u) (x : List Char) (n : Nat) :
    takeQuoted? alpha n (Introspection.escapedChars u ++ x) = none := by
  induction u generalizing n with
  | nil => cases hu
  | cons c u ih =>
    rcases n with _ | n
    · rfl
    by_cases hc : c = '\r'
    · subst hc
      rfl
    · have hrest : '\r' ∈ u := (List.mem_cons.mp hu).resolve_left (Ne.symm hc)
      rw [escapedChars_cons, List.append_assoc, takeQuoted?_escapedChar hc, ih hrest,
        Option.map_none]

theorem takeToken?_of_return {u : List Char} (hu : '\r' ∈ u) {x : List Char} (hx : Delimited x) :
    takeToken? alpha '"' (Introspection.escapedChars u ++ '"' :: x) = none := by
  have hstring : takeString? alpha (Introspection.escapedChars u ++ '"' :: x) = none := by
    unfold takeString?
    split
    · next body hbody => exact absurd hbody (escapedChars_ne_quotes _ hx body)
    · rw [takeQuoted?_of_return hu, Option.map_none]
  exact hstring

/-- A text between its quotes is one string exactly if it has no carriage return, and then it is the
value of the string. -/
theorem isString_quoted_iff {u v : String} :
    IsString alpha ('"' :: Introspection.escapedChars u.toList ++ ['"']) v ↔
      '\r' ∉ u.toList ∧ v = u := by
  constructor
  · rintro ⟨body, hbody, htoken⟩
    obtain rfl : Introspection.escapedChars u.toList ++ ['"'] = body := (List.cons.inj hbody).2
    by_cases hu : '\r' ∈ u.toList
    · rw [takeToken?_of_return hu delimited_nil] at htoken
      cases htoken
    · rw [takeToken?_quoted hu delimited_nil] at htoken
      cases htoken
      exact ⟨hu, rfl⟩
  · rintro ⟨hu, rfl⟩
    exact ⟨_, rfl, takeToken?_quoted hu delimited_nil⟩

/-- Where a text stands between its quotes, what is there is one string only if the text has no
carriage return. -/
theorem notMem_of_isString {u v : String} {before text after : List Char}
    (htext : before ++ ('"' :: Introspection.escapedChars u.toList ++ ['"']) ++ after =
      before ++ text ++ after) (hstring : IsString alpha text v) : '\r' ∉ u.toList := by
  rw [List.append_cancel_right_eq, List.append_cancel_left_eq] at htext
  exact (isString_quoted_iff.mp (htext ▸ hstring)).1

theorem opensBlock_quoted (u : List Char) :
    opensBlock ('"' :: Introspection.escapedChars u ++ ['"']) = false := by
  rw [opensBlock, ← Bool.not_eq_true, List.isPrefixOf_iff_prefix]
  rintro ⟨rest, hrest⟩
  exact escapedChars_ne_quotes u delimited_nil rest (List.cons.inj hrest).2.symm

/-! ### Block strings -/

/-- A text of several lines between the quotes of a block is one string, whatever the text. -/
theorem isString_block (u : List Char) {w : List Char} (hw : ∀ c ∈ w, c ≠ '"' ∧ c ≠ '\\') :
    IsString alpha ('"' :: '"' :: '"' :: '\n' :: Introspection.blockChars u ++ '\n' :: w ++
        ['"', '"', '"'])
      (String.ofList (blockValue ('\n' :: u ++ '\n' :: w))) := by
  refine ⟨'"' :: '"' :: (Introspection.blockChars ('\n' :: u) ++ '\n' :: (w ++ ['"', '"', '"'])),
    by simp [Introspection.blockChars], ?_⟩
  have hstring : takeString? alpha ('"' :: '"' :: (Introspection.blockChars ('\n' :: u) ++
      '\n' :: (w ++ ['"', '"', '"']))) =
      some (.string (String.ofList (blockValue ('\n' :: u ++ '\n' :: w))), []) := by
    rw [takeString?, takeBlock?_blockChars ('\n' :: u) hw [], Option.map_some]
  exact hstring

end Sdl

namespace Introspection

/-! ### Descriptions -/

variable {alpha : Sdl.Alphabet} {s : String} {indent : List Char}

/-- A description of one line is a quoted string. -/
theorem descriptionChars_of_notMem (h : '\n' ∉ s.toList) :
    descriptionChars indent (some s) =
      indent ++ ('"' :: escapedChars s.toList ++ ['"']) ++ ['\n'] := by
  simp [descriptionChars, h]

/-- A description of several lines is a block. -/
theorem descriptionChars_of_mem (h : '\n' ∈ s.toList) :
    descriptionChars indent (some s) =
      indent ++ ('"' :: '"' :: '"' :: '\n' :: blockChars s.toList ++ '\n' :: indent ++
        ['"', '"', '"']) ++ ['\n'] := by
  simp [descriptionChars, h]

/-- A description is one string on a line of its own exactly if it is a block, or has no carriage
return. -/
theorem description_isString_iff (hindent : ∀ c ∈ indent, c ≠ '"' ∧ c ≠ '\\') :
    (∃ text v, descriptionChars indent (some s) = indent ++ text ++ ['\n'] ∧
        Sdl.IsString alpha text v ∧ (Sdl.opensBlock text = false → v = s)) ↔
      '\n' ∈ s.toList ∨ '\r' ∉ s.toList := by
  by_cases hlines : '\n' ∈ s.toList
  · refine iff_of_true ⟨_, _, descriptionChars_of_mem hlines,
      Sdl.isString_block s.toList hindent, fun hblock => ?_⟩ (.inl hlines)
    cases hblock
  · rw [descriptionChars_of_notMem hlines, or_iff_right hlines]
    constructor
    · rintro ⟨text, v, htext, hstring, -⟩
      exact Sdl.notMem_of_isString htext hstring
    · exact fun hs => ⟨_, s, rfl, Sdl.isString_quoted_iff.mpr ⟨hs, rfl⟩, fun _ => rfl⟩

/-! ### Reasons -/

theorem deprecationChars_eq (s : String) :
    deprecationChars true (some s) =
      " @deprecated(reason: ".toList ++ ('"' :: escapedChars s.toList ++ ['"']) ++ [')'] := by
  have hopening : " @deprecated(reason: \"".toList = " @deprecated(reason: ".toList ++ ['"'] := by
    decide
  have htext : deprecationChars true (some s) =
      " @deprecated(reason: \"".toList ++ escapedChars s.toList ++ ['"', ')'] := rfl
  rw [htext, hopening]
  simp only [List.append_assoc, List.cons_append, List.nil_append]

/-- A reason is one quoted string between its parentheses exactly if it has no carriage return. -/
theorem deprecation_isString_iff :
    (∃ text, deprecationChars true (some s) = " @deprecated(reason: ".toList ++ text ++ [')'] ∧
        Sdl.IsString alpha text s ∧ Sdl.opensBlock text = false) ↔ '\r' ∉ s.toList := by
  rw [deprecationChars_eq]
  constructor
  · rintro ⟨text, htext, hstring, -⟩
    exact Sdl.notMem_of_isString htext hstring
  · exact fun hs => ⟨_, rfl, Sdl.isString_quoted_iff.mpr ⟨hs, rfl⟩, Sdl.opensBlock_quoted _⟩

/-! ### Descriptions and reasons -/

/-- **The texts of a server as strings.** A text is written as one string, if it describes something
exactly if it has a line feed or no carriage return, and if it is a reason exactly if it has no
carriage return.  A quoted string has the text for its value. -/
theorem isString_iff (s : String) (hindent : ∀ c ∈ indent, c ≠ '"' ∧ c ≠ '\\') :
    ((∃ text v, descriptionChars indent (some s) = indent ++ text ++ ['\n'] ∧
        Sdl.IsString alpha text v ∧ (Sdl.opensBlock text = false → v = s)) ↔
      '\n' ∈ s.toList ∨ '\r' ∉ s.toList) ∧
    ((∃ text, deprecationChars true (some s) = " @deprecated(reason: ".toList ++ text ++ [')'] ∧
        Sdl.IsString alpha text s ∧ Sdl.opensBlock text = false) ↔ '\r' ∉ s.toList) :=
  ⟨description_isString_iff hindent, deprecation_isString_iff⟩

theorem isString_escapes :
    (∀ c ∈ [' ', ' '], c ≠ '"' ∧ c ≠ '\\') ∧
      (∃ text v, descriptionChars [' ', ' '] (some "a\n\"\"\"\"\r") =
          [' ', ' '] ++ text ++ ['\n'] ∧
        Sdl.IsString .published text v ∧ (Sdl.opensBlock text = false → v = "a\n\"\"\"\"\r")) ∧
      ∃ text, deprecationChars true (some "\\\"\n") =
          " @deprecated(reason: ".toList ++ text ++ [')'] ∧
        Sdl.IsString .published text "\\\"\n" ∧ Sdl.opensBlock text = false := by
  have hindent : ∀ c ∈ [' ', ' '], c ≠ '"' ∧ c ≠ '\\' := by simp
  exact ⟨hindent, (isString_iff "a\n\"\"\"\"\r" hindent).1.mpr (.inl (by decide)),
    (isString_iff "\\\"\n" hindent).2.mpr (by decide)⟩

/-- A carriage return in a description of one line, and one in a reason: no string is closed. -/
theorem carriageReturn_notString :
    (¬∃ alpha text v, descriptionChars [' ', ' '] (some "a\rb") = [' ', ' '] ++ text ++ ['\n'] ∧
        Sdl.IsString alpha text v) ∧
      ¬∃ alpha text, deprecationChars true (some "use\rheroes") =
          " @deprecated(reason: ".toList ++ text ++ [')'] ∧
        Sdl.IsString alpha text "use\rheroes" := by
  constructor
  · rintro ⟨alpha, text, v, htext, hstring⟩
    rw [descriptionChars_of_notMem (by decide)] at htext
    exact Sdl.notMem_of_isString htext hstring (by decide)
  · rintro ⟨alpha, text, htext, hstring⟩
    rw [deprecationChars_eq] at htext
    exact Sdl.notMem_of_isString htext hstring (by decide)

end Introspection

end GraphQLClient
