import GraphQLClient.Proofs.Introspection.Definitions

/-!
# The tokens of an introspected schema

The document of an introspected schema spells tokens, piece by piece: every line that is written
spells the tokens of what it describes, and the pieces are separated by blanks, line ends, commas or
marks.

## Main definitions

* `Introspection.fieldTokens`, `Introspection.typeTokens`, `Introspection.directiveTokens` : the
  tokens of fields, types and directives.
* `Introspection.tokens` : the tokens of the document.

## Main results

* `Introspection.spells_toSdl` : the document of a well-formed payload spells its tokens.
-/

namespace GraphQLClient.Introspection

open Sdl (Spells SpellsWhole Delimited Token)

variable {alpha : Sdl.Alphabet}

/-! ### Tokens -/

/-- The tokens of a description. -/
def descriptionTokens : Option String → List Token
  | none => []
  | some s => [.string (descriptionText s)]

/-- The tokens of the mark of something deprecated. -/
def deprecationTokens (isDeprecated : Bool) (reason : Option String) : List Token :=
  match isDeprecated, reason with
  | false, _ => []
  | true, none => [.mark '@', .name "deprecated"]
  | true, some s =>
    [.mark '@', .name "deprecated", .mark '(', .name "reason", .mark ':', .string s, .mark ')']

/-- The tokens of a default value. -/
def defaultTokens : Option String → List Token
  | none => []
  | some s => .mark '=' :: Sdl.literalTokens s

/-- The tokens of an argument, or of a field of an input object without its description. -/
def inputTokens (i : InputInfo) : List Token :=
  .name i.name :: .mark ':' :: (i.type.toType.tokens ++ defaultTokens i.defaultValue)

/-- The tokens of a field of an input object. -/
def inputFieldTokens (i : InputInfo) : List Token :=
  descriptionTokens i.description ++ inputTokens i

/-- The tokens of a field. -/
def fieldTokens (f : FieldInfo) : List Token :=
  descriptionTokens f.description ++
    .name f.name :: (Sdl.groupTokens '(' ')' (f.args.map inputTokens) ++
      .mark ':' :: (f.type.toType.tokens ++
        deprecationTokens f.isDeprecated f.deprecationReason))

/-- The tokens of a member of an enumeration. -/
def enumValueTokens (v : EnumValueInfo) : List Token :=
  descriptionTokens v.description ++
    .name v.name :: deprecationTokens v.isDeprecated v.deprecationReason

/-- The tokens of the interfaces of a type. -/
def implementsTokens (interfaces : List String) : List Token :=
  if interfaces.isEmpty then [] else .name "implements" :: Sdl.separatedTokens '&' interfaces

/-- The tokens of a body between braces. -/
def bodyTokens (parts : List (List Token)) : List Token :=
  Sdl.groupTokens '\x7b' '\x7d' parts

/-- The tokens of what a type consists of, after its name. -/
def bodyTokens? (t : TypeInfo) : Option (String × List Token) :=
  let fields := implementsTokens (t.interfaces.getD []) ++
    bodyTokens ((t.fields.getD []).map fieldTokens)
  match t.kind with
  | .scalar => some ("scalar", [])
  | .object => some ("type", fields)
  | .interface => some ("interface", fields)
  | .union => some ("union", .mark '=' :: Sdl.separatedTokens '|' (t.possibleTypes.getD []))
  | .enum => some ("enum", bodyTokens ((t.enumValues.getD []).map enumValueTokens))
  | .inputObject => some ("input", bodyTokens ((t.inputFields.getD []).map inputFieldTokens))
  | .list => none
  | .nonNull => none

/-- The tokens of a type. -/
def typeTokens? (t : TypeInfo) : Option (List Token) :=
  (bodyTokens? t).map fun (keyword, body) =>
    descriptionTokens t.description ++ .name keyword :: .name t.name :: body

/-- The tokens of a directive. -/
def directiveTokens (d : DirectiveInfo) : List Token :=
  descriptionTokens d.description ++
    .name "directive" :: .mark '@' :: .name d.name ::
      (Sdl.groupTokens '(' ')' (d.args.map inputTokens) ++
        .name "on" :: Sdl.separatedTokens '|' d.locations)

/-- The tokens of a root type, if it is there. -/
def rootTokens : String × Option String → List Token
  | (_, none) => []
  | (operation, some name) => [.name operation, .mark ':', .name name]

/-- The tokens of the root types. -/
def rootsTokens (roots : List (String × Option String)) : List Token :=
  .name "schema" :: .mark '\x7b' :: (roots.flatMap rootTokens ++ [.mark '\x7d'])

/-- The tokens of a payload, definition by definition. -/
def tokens (s : Introspection) : List (List Token) :=
  (match s.customRoots with
    | none => []
    | some roots => [rootsTokens roots]) ++
    (s.directives.filter isWrittenDirective).map directiveTokens ++
    (s.types.filter isWrittenType).filterMap typeTokens?

/-! ### Related lists -/

theorem forall₂_map {α β γ : Type} {R : α → β → Prop} {f : γ → α} {g : γ → β} {l : List γ}
    (h : ∀ c ∈ l, R (f c) (g c)) : List.Forall₂ R (l.map f) (l.map g) := by
  rw [List.forall₂_map_left_iff, List.forall₂_map_right_iff, List.forall₂_same]
  exact h

/-- Results that are related, where there are any, make related lists. -/
theorem forall₂_filterMap {α β γ : Type} {R : α → β → Prop} {f : γ → Option α} {g : γ → Option β}
    {l : List γ} (h : ∀ c ∈ l, Option.Rel R (f c) (g c)) :
    List.Forall₂ R (l.filterMap f) (l.filterMap g) := by
  have hself : List.Forall₂ (fun c c' => c = c' ∧ c ∈ l) l l := by
    rw [List.forall₂_same]
    exact fun c hc => ⟨rfl, hc⟩
  refine List.rel_filterMap ?_ hself
  rintro c c' ⟨rfl, hc⟩
  exact h c hc

/-! ### References -/

theorem delimited_mark {c : Char} (hc : c ∈ Sdl.marks) (s : List Char) : Delimited (c :: s) := by
  have hmarks : ∀ d ∈ Sdl.marks, Name.isNameContinue d = false ∧ d ≠ '.' ∧ d ≠ '"' := by
    simp [Sdl.marks, Name.isNameContinue, Name.isNameStart]
  obtain ⟨hname, hpoint, hquote⟩ := hmarks c hc
  exact Sdl.delimited_cons s hname hpoint hquote

theorem delimited_blank (s : List Char) : Delimited (' ' :: s) :=
  Sdl.delimited_cons s rfl (by decide) (by decide)

theorem delimited_newline (s : List Char) : Delimited ('\n' :: s) :=
  Sdl.delimited_cons s rfl (by decide) (by decide)

theorem tokens_required {t : TypeExpr} (ht : t.isRequired = false) :
    t.required.tokens = t.tokens ++ [.mark '!'] := by
  cases t with
  | named name required =>
    cases required with
    | true => cases ht
    | false => rfl
  | list item required =>
    cases required with
    | true => cases ht
    | false => simp [TypeExpr.required, TypeExpr.tokens, requiredTokens]

theorem isRequired_toType : (t : TypeRef) → t.isNonNull = false → t.toType.isRequired = false
  | .mk kind name none, _ => by
      cases kind <;> rfl
  | .mk kind name (some inner), h => by
      cases kind with
      | nonNull => cases h
      | _ => rfl

/-- A reference spells the tokens of its type. -/
theorem spells_typeRef : (t : TypeRef) → t.isChain = true → Spells alpha t.toChars t.toType.tokens
  | .mk kind none none, h => by
      cases kind <;> cases h
  | .mk kind (some name) none, h => by
      have hname : Name.isName name = true := by
        cases kind <;> exact h
      have hspells : Spells alpha _ _ := Sdl.spells_name hname
      cases kind <;> exact hspells
  | .mk kind name (some inner), h => by
      cases kind with
      | nonNull =>
        rw [TypeRef.isChain, Bool.and_eq_true, Bool.not_eq_true'] at h
        have hspells := spells_typeRef inner h.2
        have hmark : Spells alpha ['!'] [.mark '!'] := Sdl.spells_mark rfl (by decide)
        change Spells alpha (inner.toChars ++ ['!']) inner.toType.required.tokens
        rw [tokens_required (isRequired_toType inner h.1)]
        exact hspells.append hmark (delimited_mark (by decide) [])
      | list =>
        have hspells := spells_typeRef inner h
        have hmark : Spells alpha [']'] [.mark ']'] := Sdl.spells_mark rfl (by decide)
        exact (hspells.append hmark (delimited_mark (by decide) [])).mark rfl (by decide)
      | _ => cases name <;> cases h

/-! ### Descriptions and marks of deprecation -/

/-- Blanks before a text spell nothing. -/
theorem spellsWhole_blanks {w : List Char} (hw : ∀ c ∈ w, Sdl.isInlineBlank c) {s : List Char}
    {ts : List Token} (hs : SpellsWhole alpha s ts) : SpellsWhole alpha (w ++ s) ts := by
  induction w with
  | nil => exact hs
  | cons c w ih =>
    intro x us hus
    rw [List.cons_append, List.cons_append,
      Sdl.lexemes?_separator (Sdl.of_isInlineBlank (hw c List.mem_cons_self)).1]
    exact ih (fun d hd => hw d (List.mem_cons_of_mem _ hd)) x us hus

/-- The lines of a description spell its string. -/
theorem spells_description (indent : List Char) (hindent : ∀ c ∈ indent, Sdl.isInlineBlank c)
    {d : Option String} (hd : Legible d) :
    SpellsWhole alpha (descriptionChars indent d) (descriptionTokens d) := by
  cases d with
  | none => exact Sdl.spellsWhole_nil
  | some s =>
    have hs := hd s rfl
    rw [descriptionChars, descriptionTokens, descriptionText]
    split
    · have hblock : SpellsWhole alpha _ _ :=
        (Sdl.spells_block hs hindent).whole (c := '\n') rfl (delimited_newline [])
      have hwhole := spellsWhole_blanks hindent hblock
      simpa only [List.append_assoc, List.cons_append, List.nil_append] using hwhole
    · have hquoted : SpellsWhole alpha _ _ :=
        (Sdl.spells_quoted hs).whole (c := '\n') rfl (delimited_newline [])
      have hwhole := spellsWhole_blanks hindent hquoted
      simpa only [List.append_assoc, List.cons_append, List.nil_append] using hwhole

/-- The mark of something deprecated spells a directive. -/
theorem spells_deprecation (isDeprecated : Bool) {reason : Option String}
    (hreason : Legible reason) :
    Spells alpha (deprecationChars isDeprecated reason)
      (deprecationTokens isDeprecated reason) := by
  cases isDeprecated with
  | false => exact Sdl.spells_nil
  | true =>
    have hname : Spells alpha "deprecated".toList [.name "deprecated"] :=
      Sdl.spells_name (by decide)
    cases reason with
    | none =>
      have htext : deprecationChars true none = ' ' :: '@' :: "deprecated".toList := by decide
      rw [htext]
      exact (hname.mark rfl (by decide)).separator rfl
    | some s =>
      have hs : Spells alpha _ _ := Sdl.spells_quoted (hreason s rfl)
      have hclose : Spells alpha [')'] [.mark ')'] := Sdl.spells_mark rfl (by decide)
      have hreasonName : Spells alpha "reason".toList [.name "reason"] :=
        Sdl.spells_name (by decide)
      have hquoted := (hs.append hclose (delimited_mark (by decide) [])).separator (c := ' ') rfl
      have hvalue := hquoted.mark (c := ':') rfl (by decide)
      have hgroup := (hreasonName.append hvalue (delimited_mark (by decide) _)).mark
        (c := '(') rfl (by decide)
      have hall := ((hname.append hgroup (delimited_mark (by decide) _)).mark (c := '@') rfl
        (by decide)).separator (c := ' ') rfl
      have hprefix : " @deprecated(reason: \"".toList =
          ' ' :: '@' :: ("deprecated".toList ++ '(' :: ("reason".toList ++ [':', ' ', '"'])) := by
        decide
      have htext : deprecationChars true (some s) =
          " @deprecated(reason: \"".toList ++ escapedChars s.toList ++ ['"', ')'] := rfl
      rw [htext, hprefix]
      simp only [List.append_assoc, List.cons_append, List.nil_append] at hall ⊢
      exact hall

/-! ### Arguments and fields -/

theorem spells_default {d : Option String} (hd : ∀ s ∈ d, (Sdl.literal? alpha s).isSome = true) :
    Spells alpha (defaultChars d) (defaultTokens d) := by
  cases d with
  | none => exact Sdl.spells_nil
  | some s =>
    obtain ⟨l, hl⟩ := Option.isSome_iff_exists.mp (hd s rfl)
    exact (((Sdl.spells_literal hl).separator rfl).mark rfl (by decide)).separator rfl

theorem delimited_default (d : Option String) : Delimited (defaultChars d) := by
  cases d with
  | none => exact Sdl.delimited_nil
  | some s => exact delimited_blank _

/-- An argument spells its name, its type and its default value. -/
theorem spells_input {i : InputInfo} (hi : i.WellFormed alpha) :
    Spells alpha (inputChars i) (inputTokens i) := by
  have htype := (spells_typeRef i.type hi.type).append (spells_default hi.default)
    (delimited_default i.defaultValue)
  have hafter := (htype.separator (c := ' ') rfl).mark (c := ':') rfl (by decide)
  have hall := (Sdl.spells_name hi.name).append hafter (delimited_mark (by decide) _)
  simp only [inputChars, inputTokens, List.append_assoc, List.cons_append, List.nil_append]
    at hall ⊢
  exact hall

/-- Arguments spell their tokens between parentheses. -/
theorem spells_arguments {args : List InputInfo} (hargs : ∀ i ∈ args, i.WellFormed alpha) :
    Spells alpha (argumentsChars args) (Sdl.groupTokens '(' ')' (args.map inputTokens)) := by
  cases args with
  | nil => exact Sdl.spells_nil
  | cons i args =>
    have hparts :
        List.Forall₂ (Spells alpha) ((i :: args).map inputChars) ((i :: args).map inputTokens) :=
      forall₂_map fun j hj => spells_input (hargs j hj)
    have hcomma (s : List Char) (ts : List Token) (h : Spells alpha s ts) :
        Spells alpha ([',', ' '] ++ s) ts := (h.separator rfl).comma
    have hjoined := Sdl.spells_joined_flatten (delimited_mark (by decide) [' ']) (by decide) hcomma
      hparts
    have hclose : Spells alpha [')'] [.mark ')'] := Sdl.spells_mark rfl (by decide)
    exact (hjoined.append hclose (delimited_mark (by decide) [])).mark rfl (by decide)

theorem delimited_arguments (args : List InputInfo) : Delimited (argumentsChars args) := by
  cases args with
  | nil => exact Sdl.delimited_nil
  | cons i args => exact delimited_mark (by decide) _

theorem delimited_deprecation (isDeprecated : Bool) (reason : Option String) :
    Delimited (deprecationChars isDeprecated reason) := by
  cases isDeprecated with
  | false => exact Sdl.delimited_nil
  | true =>
    cases reason with
    | none => exact delimited_blank _
    | some s => exact delimited_blank _

theorem isInlineBlank_indent : ∀ c ∈ [' ', ' '], Sdl.isInlineBlank c := by
  simp [Sdl.isInlineBlank]

/-- The lines of a field spell its tokens. -/
theorem spells_field {f : FieldInfo} (hf : f.WellFormed alpha) :
    SpellsWhole alpha (fieldChars f) (fieldTokens f) := by
  have htype : Spells alpha _ _ := (spells_typeRef f.type hf.type).append
    (spells_deprecation f.isDeprecated hf.reason)
    (delimited_deprecation f.isDeprecated f.deprecationReason)
  have hafter := (htype.separator (c := ' ') rfl).mark (c := ':') rfl (by decide)
  have hargs := (spells_arguments hf.args).append hafter (delimited_mark (by decide) _)
  have hname := (Sdl.spells_name hf.name).append hargs
    ((delimited_arguments f.args).append (delimited_mark (by decide) _))
  have hline := (hname.whole (c := '\n') rfl (delimited_newline []))
  have hindented := spellsWhole_blanks isInlineBlank_indent hline
  have hall := (spells_description [' ', ' '] isInlineBlank_indent hf.description).append hindented
  simp only [fieldChars, fieldTokens, List.append_assoc, List.cons_append, List.nil_append]
    at hall ⊢
  exact hall

/-- The lines of a field of an input object spell its tokens. -/
theorem spells_inputField {i : InputInfo} (hi : i.WellFormed alpha) :
    SpellsWhole alpha (inputFieldChars i) (inputFieldTokens i) := by
  have hline := (spells_input hi).whole (c := '\n') rfl (delimited_newline [])
  have hindented := spellsWhole_blanks isInlineBlank_indent hline
  have hall := (spells_description [' ', ' '] isInlineBlank_indent hi.description).append hindented
  simp only [inputFieldChars, inputFieldTokens, List.append_assoc, List.cons_append,
    List.nil_append] at hall ⊢
  exact hall

/-- The lines of a member of an enumeration spell its tokens. -/
theorem spells_enumValue {v : EnumValueInfo} (hv : v.WellFormed) :
    SpellsWhole alpha (enumValueChars v) (enumValueTokens v) := by
  have hname : Spells alpha _ _ := (Sdl.spells_name hv.name).append
    (spells_deprecation v.isDeprecated hv.reason)
    (delimited_deprecation v.isDeprecated v.deprecationReason)
  have hline := hname.whole (c := '\n') rfl (delimited_newline [])
  have hindented := spellsWhole_blanks isInlineBlank_indent hline
  have hall := (spells_description [' ', ' '] isInlineBlank_indent hv.description).append hindented
  simp only [enumValueChars, enumValueTokens, List.append_assoc, List.cons_append,
    List.nil_append] at hall ⊢
  exact hall

/-! ### Types and directives -/

section Lines

variable {β : Type} {chars : β → List Char} {tokens : β → List Token}

/-- Lines one after the other spell their tokens. -/
theorem spells_flatten {xs : List β} (hxs : ∀ x ∈ xs, SpellsWhole alpha (chars x) (tokens x)) :
    SpellsWhole alpha (xs.map chars).flatten (xs.map tokens).flatten := by
  induction xs with
  | nil => exact Sdl.spellsWhole_nil
  | cons x xs ih =>
    rw [List.map_cons, List.map_cons, List.flatten_cons, List.flatten_cons]
    exact (hxs x List.mem_cons_self).append (ih fun y hy => hxs y (List.mem_cons_of_mem _ hy))

/-- A body spells the tokens of its lines between braces. -/
theorem spells_body {xs : List β} (hxs : ∀ x ∈ xs, SpellsWhole alpha (chars x) (tokens x))
    (hne : ∀ x, chars x ≠ []) :
    Spells alpha (bodyChars (xs.map chars)) (bodyTokens (xs.map tokens)) := by
  cases xs with
  | nil => exact Sdl.spells_nil
  | cons x xs =>
    have hempty : ((x :: xs).map chars).flatten.isEmpty = false := by
      cases hx : chars x with
      | nil => exact absurd hx (hne x)
      | cons c s => simp [hx]
    have hclose : Spells alpha ['\x7d'] [.mark '\x7d'] := Sdl.spells_mark rfl (by decide)
    have hlines := (spells_flatten hxs).append_spells hclose
    have hopen := ((hlines.separator (c := '\n') rfl).mark (c := '\x7b') rfl
      (by decide)).separator (c := ' ') rfl
    rw [bodyChars, hempty, if_neg Bool.false_ne_true]
    exact hopen

theorem delimited_body (lines : List (List Char)) : Delimited (bodyChars lines) := by
  rw [bodyChars]
  split
  · exact Sdl.delimited_nil
  · exact delimited_blank _

end Lines

theorem fieldChars_ne_nil (f : FieldInfo) : fieldChars f ≠ [] := by
  simp [fieldChars]

theorem inputFieldChars_ne_nil (i : InputInfo) : inputFieldChars i ≠ [] := by
  simp [inputFieldChars]

theorem enumValueChars_ne_nil (v : EnumValueInfo) : enumValueChars v ≠ [] := by
  simp [enumValueChars]

/-- Names with a mark between blanks between each two of them. -/
theorem spells_separated (separator : Char) (hmark : Sdl.isMark separator = true)
    (hcomma : separator ≠ ',') {names : List String}
    (hnames : ∀ n ∈ names, Name.isName n = true) :
    Spells alpha (joined [' ', separator, ' '] (names.map String.toList))
      (Sdl.separatedTokens separator names) := by
  cases names with
  | nil => exact Sdl.spells_nil
  | cons n more =>
    have hparts :
        List.Forall₂ (Spells alpha) (more.map String.toList) (more.map fun m => [.name m]) :=
      forall₂_map fun m hm => Sdl.spells_name (hnames m (List.mem_cons_of_mem _ hm))
    have hseparator (s : List Char) (ts : List Token) (h : Spells alpha s ts) :
        Spells alpha ([' ', separator, ' '] ++ s) ([.mark separator] ++ ts) :=
      ((h.separator rfl).mark hmark hcomma).separator rfl
    have hjoined := Sdl.spells_joined [.mark separator] (delimited_blank _) (by simp) hseparator
      (Sdl.spells_name (hnames n List.mem_cons_self)) hparts
    rw [List.flatMap_map] at hjoined
    exact hjoined

/-- The interfaces of a type spell their names after a keyword. -/
theorem spells_implements {interfaces : List String}
    (hinterfaces : ∀ n ∈ interfaces, Name.isName n = true) :
    Spells alpha (implementsChars interfaces) (implementsTokens interfaces) := by
  cases interfaces with
  | nil => exact Sdl.spells_nil
  | cons n more =>
    have hnames : Spells alpha _ _ := spells_separated '&' rfl (by decide) hinterfaces
    have hkeyword := (hnames.keyword (n := "implements") (by decide)).separator (c := ' ') rfl
    have hprefix : " implements ".toList = ' ' :: ("implements".toList ++ [' ']) := by decide
    have htext : implementsChars (n :: more) =
        " implements ".toList ++ joined [' ', '&', ' '] ((n :: more).map String.toList) := rfl
    rw [htext, hprefix]
    simp only [List.append_assoc, List.cons_append, List.nil_append] at hkeyword ⊢
    exact hkeyword

theorem delimited_implements (interfaces : List String) :
    Delimited (implementsChars interfaces) := by
  cases interfaces with
  | nil => exact Sdl.delimited_nil
  | cons n more => exact delimited_blank _

/-- The definition of a type spells its description, its keyword and name, and its body. -/
theorem spells_definition {d : Option String} (hd : Legible d) {keyword name : String}
    (hkeyword : Name.isName keyword = true) (hname : Name.isName name = true) {body : List Char}
    {ts : List Token} (hbody : Spells alpha body ts) (hdelimited : Delimited body) :
    Spells alpha (descriptionChars [] d ++ (keyword.toList ++ ' ' :: (name.toList ++ body)))
      (descriptionTokens d ++ .name keyword :: .name name :: ts) := by
  have hdescription : SpellsWhole alpha _ _ := spells_description [] (by simp) hd
  have hnamed := ((Sdl.spells_name hname).append hbody hdelimited).keyword hkeyword
  exact hdescription.append_spells hnamed

/-- A type spells its tokens, if it is a type and no wrapper. -/
theorem spells_type {t : TypeInfo} (ht : t.WellFormed alpha) :
    Option.Rel (Spells alpha) (typeChars? t) (typeTokens? t) := by
  have hfields : Spells alpha
      (implementsChars (t.interfaces.getD []) ++ bodyChars ((t.fields.getD []).map fieldChars))
      (implementsTokens (t.interfaces.getD []) ++
        bodyTokens ((t.fields.getD []).map fieldTokens)) :=
    (spells_implements ht.interfaces).append
      (spells_body (fun f hf => spells_field (ht.fields f hf)) fieldChars_ne_nil)
      (delimited_body _)
  have hdelimited : Delimited (implementsChars (t.interfaces.getD []) ++
      bodyChars ((t.fields.getD []).map fieldChars)) :=
    (delimited_implements _).append (delimited_body _)
  have hdefinition (keyword : String) (hkeyword : Name.isName keyword = true) (text : List Char)
      (htext : text = keyword.toList ++ [' ']) {body : List Char} {ts : List Token}
      (hbody : Spells alpha body ts) (hd : Delimited body) :
      Spells alpha (descriptionChars [] t.description ++ text ++ t.name.toList ++ body)
        (descriptionTokens t.description ++ .name keyword :: .name t.name :: ts) := by
    have hspells := spells_definition ht.description hkeyword ht.name hbody hd
    simpa only [htext, List.append_assoc, List.cons_append, List.nil_append] using hspells
  cases hkind : t.kind with
  | scalar =>
    have hspells := hdefinition "scalar" (by decide) "scalar ".toList
      (by decide) Sdl.spells_nil Sdl.delimited_nil
    rw [List.append_nil] at hspells
    simp only [typeChars?, typeTokens?, bodyTokens?, hkind]
    exact .some hspells
  | object =>
    have hspells := hdefinition "type" (by decide) "type ".toList
      (by decide) hfields hdelimited
    rw [← List.append_assoc] at hspells
    simp only [typeChars?, typeTokens?, bodyTokens?, hkind]
    exact .some hspells
  | interface =>
    have hspells := hdefinition "interface" (by decide) "interface ".toList
      (by decide) hfields hdelimited
    rw [← List.append_assoc] at hspells
    simp only [typeChars?, typeTokens?, bodyTokens?, hkind]
    exact .some hspells
  | union =>
    have hnames : Spells alpha _ _ := spells_separated '|' rfl (by decide) ht.possibleTypes
    have hmembers := ((hnames.separator (c := ' ') rfl).mark (c := '=') rfl (by decide)).separator
      (c := ' ') rfl
    have hspells := hdefinition "union" (by decide) "union ".toList
      (by decide) hmembers (delimited_blank _)
    simp only [typeChars?, typeTokens?, bodyTokens?, hkind]
    exact .some hspells
  | enum =>
    have hvalues : Spells alpha _ _ :=
      spells_body (fun v hv => spells_enumValue (ht.enumValues v hv)) enumValueChars_ne_nil
    have hspells := hdefinition "enum" (by decide) "enum ".toList
      (by decide) hvalues (delimited_body _)
    simp only [typeChars?, typeTokens?, bodyTokens?, hkind]
    exact .some hspells
  | inputObject =>
    have hinputs := spells_body (fun i hi => spells_inputField (ht.inputFields i hi))
      inputFieldChars_ne_nil
    have hspells := hdefinition "input" (by decide) "input ".toList
      (by decide) hinputs (delimited_body _)
    simp only [typeChars?, typeTokens?, bodyTokens?, hkind]
    exact .some hspells
  | list =>
    simp only [typeChars?, typeTokens?, bodyTokens?, hkind]
    exact .none
  | nonNull =>
    simp only [typeChars?, typeTokens?, bodyTokens?, hkind]
    exact .none

/-- A directive spells its tokens. -/
theorem spells_directive {d : DirectiveInfo} (hd : d.WellFormed alpha) :
    Spells alpha (directiveChars d) (directiveTokens d) := by
  have hlocation : ∀ l ∈ Sdl.locations, Name.isName l = true := by decide
  have hnames : Spells alpha _ _ :=
    spells_separated '|' rfl (by decide) fun l hl => hlocation l (hd.locations.2 l hl)
  have hlocations := (hnames.keyword (n := "on") (by decide)).separator (c := ' ') rfl
  have hargs := (spells_arguments hd.args).append hlocations (delimited_blank _)
  have hname := ((Sdl.spells_name hd.name).append hargs
    ((delimited_arguments d.args).append (delimited_blank _))).mark (c := '@') rfl (by decide)
  have hkeyword := hname.keyword (n := "directive") (by decide)
  have hall := (spells_description [] (by simp) hd.description).append_spells hkeyword
  have hdirective : "directive @".toList = "directive".toList ++ [' ', '@'] := by decide
  have hon : " on ".toList = ' ' :: ("on".toList ++ [' ']) := by decide
  rw [directiveChars, directiveTokens, hdirective, hon]
  simp only [List.append_assoc, List.cons_append, List.nil_append] at hall ⊢
  exact hall

/-- The line of a root type spells its tokens. -/
theorem spells_root {r : String × Option String} (hoperation : Name.isName r.1 = true)
    (hname : ∀ n ∈ r.2, Name.isName n = true) : SpellsWhole alpha (rootChars r) (rootTokens r) := by
  obtain ⟨operation, name⟩ := r
  cases name with
  | none => exact Sdl.spellsWhole_nil
  | some n =>
    have htype : Spells alpha _ _ :=
      ((Sdl.spells_name (hname n rfl)).separator (c := ' ') rfl).mark (c := ':') rfl (by decide)
    have hline := ((Sdl.spells_name hoperation).append htype
      (delimited_mark (by decide) _)).whole (c := '\n') rfl (delimited_newline [])
    have hall := spellsWhole_blanks isInlineBlank_indent hline
    simpa only [rootChars, rootTokens, List.append_assoc, List.cons_append, List.nil_append]
      using hall

/-- The block of the root types spells its tokens. -/
theorem spells_roots {roots : List (String × Option String)}
    (hroots : ∀ r ∈ roots, Name.isName r.1 = true ∧ ∀ n ∈ r.2, Name.isName n = true) :
    Spells alpha (rootsChars roots) (rootsTokens roots) := by
  have hlines : SpellsWhole alpha (roots.map rootChars).flatten (roots.map rootTokens).flatten :=
    spells_flatten fun r hr => spells_root (hroots r hr).1 (hroots r hr).2
  have hclose : Spells alpha ['\x7d'] [.mark '\x7d'] := Sdl.spells_mark rfl (by decide)
  have hbody := (((hlines.append_spells hclose).separator (c := '\n') rfl).mark (c := '\x7b') rfl
    (by decide)).keyword (n := "schema") (by decide)
  have htext : "schema \x7b\n".toList = "schema".toList ++ [' ', '\x7b', '\n'] := by decide
  have hchars : rootsChars roots =
      "schema \x7b\n".toList ++ roots.flatMap rootChars ++ ['\x7d'] := rfl
  rw [hchars, rootsTokens, htext]
  simpa only [List.flatMap, List.append_assoc, List.cons_append, List.nil_append] using hbody

/-! ### The document -/

theorem isName_roots {s : Introspection} (hs : s.WellFormed alpha) :
    ∀ r ∈ s.roots, Name.isName r.1 = true ∧ ∀ n ∈ r.2, Name.isName n = true := by
  intro r hr
  simp only [roots, List.mem_cons, List.not_mem_nil, or_false] at hr
  rcases hr with rfl | rfl | rfl
  · exact ⟨show Name.isName "query" = true by decide, hs.query⟩
  · exact ⟨show Name.isName "mutation" = true by decide, hs.mutation⟩
  · exact ⟨show Name.isName "subscription" = true by decide, hs.subscription⟩

/-- The definitions of a payload spell their tokens, one after the other. -/
theorem forall₂_blocks {s : Introspection} (hs : s.WellFormed alpha) :
    List.Forall₂ (Spells alpha) s.sdlBlocks s.tokens := by
  have hroots : List.Forall₂ (Spells alpha)
      (match s.customRoots with
        | none => []
        | some roots => [rootsChars roots])
      (match s.customRoots with
        | none => []
        | some roots => [rootsTokens roots]) := by
    rw [customRoots]
    split
    · exact .nil
    · next roots hroots =>
      split at hroots
      · cases hroots
        exact .cons (spells_roots (isName_roots hs)) .nil
      · cases hroots
  have hdirectives : List.Forall₂ (Spells alpha)
      ((s.directives.filter isWrittenDirective).map directiveChars)
      ((s.directives.filter isWrittenDirective).map directiveTokens) :=
    forall₂_map fun d hd => spells_directive (hs.directives d (List.mem_of_mem_filter hd))
  have htypes : List.Forall₂ (Spells alpha) ((s.types.filter isWrittenType).filterMap typeChars?)
      ((s.types.filter isWrittenType).filterMap typeTokens?) :=
    forall₂_filterMap fun t ht => spells_type (hs.types t (List.mem_of_mem_filter ht))
  exact List.rel_append (List.rel_append hroots hdirectives) htypes

/-- **The document of a well-formed payload spells its tokens**, definition by definition. -/
theorem spells_toSdl {s : Introspection} (hs : s.WellFormed alpha) :
    Spells alpha s.toSdl.toList s.tokens.flatten := by
  have hseparator (text : List Char) (ts : List Token) (h : Spells alpha text ts) :
      Spells alpha (['\n', '\n'] ++ text) ts := (h.separator rfl).separator rfl
  have hblocks := Sdl.spells_joined_flatten (delimited_newline ['\n']) (by decide) hseparator
    (forall₂_blocks hs)
  rw [toSdl, String.toList_ofList]
  exact hblocks

end GraphQLClient.Introspection
