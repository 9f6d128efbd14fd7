import GraphQLClient.Proofs.Introspection.Characters

/-!
# Reading back an introspected schema

The document that is written for an introspected schema is read, by the published grammar, as the
definitions that the payload describes.  The text spells tokens, and every reader of a part takes
the tokens of the part and leaves the rest, so the definitions are read one after the other.

## Main results

* `Introspection.reads_field`, `Introspection.reads_input`, `Introspection.reads_enumValue` : the
  tokens of fields, arguments and members are read as what the payload describes.
* `Introspection.parseAs?_toSdl` : the document of a well-formed payload is read as its definitions.
-/

namespace GraphQLClient.Introspection

open Sdl

variable {alpha : Alphabet}

/-! ### Descriptions and directives -/

theorem description_tokens (d : Option String) (n : String) (rest : List Token) :
    description (descriptionTokens d ++ .name n :: rest) =
      some (d.map descriptionText, .name n :: rest) := by
  cases d with
  | none => exact description_name n rest
  | some s => exact description_string _ _

theorem starts_described (d : Option String) (n : String) (rest : List Token) :
    Starts (descriptionTokens d ++ .name n :: rest) := by
  cases d with
  | none => trivial
  | some s => trivial

theorem directives_nil {rest : List Token} (hrest : Avoids [',', '@'] rest) :
    Sdl.directives .published rest = some ([], rest) := by
  change directivesWithin .published rest.length rest = some ([], rest)
  cases rest with
  | nil => rfl
  | cons t ts =>
    rw [List.length_cons, directivesWithin, bind_of_eq (accept_of_avoids hrest (by simp) (by simp)),
      if_neg Bool.false_ne_true, pure_apply]

/-- The reason of something deprecated. -/
theorem valueOf_reason (s : String) (rest : List Token) :
    valueOf .published (constant .published) (.name "reason" :: .mark ':' :: .string s :: rest) =
      some ([("reason", .string s)], rest) := by
  have hcolon := accept_self (t := .mark ':') (by rintro ⟨⟩) (.string s :: rest)
  have hvalue : constant .published (.string s :: rest) = some (.string s, rest) := by
    change constantWithin .published (rest.length + 1 + 1) (.string s :: rest) = _
    rw [constantWithin_succ, afterCommas_of_ne (by rintro ⟨⟩)]
  rw [valueOf, bind_of_eq (name_name _ _), bind_of_eq hcolon, if_pos rfl, bind_of_eq hvalue,
    pure_apply]

/-- A directive is read with its arguments, if nothing after it goes on with another one. -/
theorem directives_one {n : String} {args : List (List (String × Literal))} {ts rest : List Token}
    (hargs : optionalGroup '(' (valueOf .published (constant .published)) ')' (ts ++ rest) =
      some (args, rest)) (hrest : Fresh rest) :
    Sdl.directives .published (.mark '@' :: .name n :: (ts ++ rest)) =
      some ([⟨n, args.flatten⟩], rest) := by
  have hmore (k : Nat) : directivesWithin .published k rest = some ([], rest) := by
    cases k with
    | zero => rfl
    | succ k =>
      rw [directivesWithin, bind_of_eq (accept_of_fresh hrest (by decide)),
        if_neg Bool.false_ne_true, pure_apply]
  -- There is one step for each token that is left, and this directive takes one of them.
  change directivesWithin .published ((ts ++ rest).length + 1 + 1)
    (.mark '@' :: .name n :: (ts ++ rest)) = _
  rw [directivesWithin, bind_of_eq (accept_self (by rintro ⟨⟩) _), if_pos rfl,
    bind_of_eq (name_name _ _), bind_of_eq hargs, bind_of_eq (hmore _), pure_apply]

/-- The directive of something deprecated, if there is one, is read. -/
theorem directives_deprecation (isDeprecated : Bool) (reason : Option String) {rest : List Token}
    (hrest : Fresh rest) :
    Sdl.directives .published (deprecationTokens isDeprecated reason ++ rest) =
      some (deprecation isDeprecated reason, rest) := by
  cases isDeprecated with
  | false => exact directives_nil (hrest.mono (by decide))
  | true =>
    cases reason with
    | none =>
      have hgroup : optionalGroup '(' (valueOf .published (constant .published)) ')'
          ([] ++ rest) = some ([], rest) := by
        rw [List.nil_append, optionalGroup, bind_of_eq (accept_of_fresh hrest (by decide)),
          if_neg Bool.false_ne_true, pure_apply]
      exact directives_one hgroup hrest
    | some s =>
      have hreads (s' : String) (_ : s' ∈ [s]) :
          Starts [.name "reason", .mark ':', .string s'] ∧
            Reads (valueOf .published (constant .published))
              [.name "reason", .mark ':', .string s'] [("reason", .string s')] :=
        ⟨trivial, fun rest _ => valueOf_reason s' rest⟩
      have hgroup := optionalGroup_of_reads (show '(' ≠ ',' by decide)
        (show ')' ∉ openers by decide) hreads (hrest.mono (by decide))
      exact directives_one hgroup hrest

/-! ### Arguments and fields -/

theorem defaultValue_tokens {d : Option String} (hd : ∀ s ∈ d, (literal? alpha s).isSome = true)
    {rest : List Token} (hrest : Fresh rest) :
    defaultValue .published (defaultTokens d ++ rest) = some (d.bind (literal? .all), rest) := by
  cases d with
  | none =>
    rw [defaultTokens, List.nil_append, defaultValue,
      bind_of_eq (accept_of_fresh hrest (by decide)), if_neg Bool.false_ne_true, pure_apply]
    rfl
  | some s =>
    obtain ⟨l, hl⟩ := Option.isSome_iff_exists.mp (hd s rfl)
    rw [defaultTokens, List.cons_append, defaultValue, bind_of_eq (accept_self (by rintro ⟨⟩) _),
      if_pos rfl, bind_of_eq (constant_literal hl rest), pure_apply, Option.bind_some,
      literal?_all hl]

/-- What follows the type of an argument is no mark of the type. -/
theorem avoids_default (d : Option String) {rest : List Token} (hrest : Fresh rest) :
    Avoids [',', '!'] (defaultTokens d ++ rest) := by
  cases d with
  | none => exact hrest.mono (by decide)
  | some s =>
    change '=' ∉ [',', '!']
    decide

/-- An argument or a field of an input object is read with the description before it. -/
theorem inputValue_tokens {i : InputInfo} (hi : i.WellFormed alpha) (d : Option String)
    {rest : List Token} (hrest : Fresh rest) :
    inputValue .published (descriptionTokens d ++ (inputTokens i ++ rest)) =
      some ({ i.argument with description := d.map descriptionText }, rest) := by
  have htype := typeExpr_tokens i.type.toType (avoids_default i.defaultValue hrest)
  have hdirectives : Sdl.directives .published rest = some ([], rest) :=
    directives_nil (hrest.mono (by decide))
  rw [inputTokens, List.cons_append, List.cons_append, List.append_assoc, inputValue,
    bind_of_eq (description_tokens d _ _), bind_of_eq (name_name _ _),
    bind_of_eq (mark_self (by decide) _), bind_of_eq htype,
    bind_of_eq (defaultValue_tokens hi.default hrest), bind_of_eq hdirectives, pure_apply]
  rfl

/-- The tokens of an argument are read as the argument. -/
theorem reads_input {i : InputInfo} (hi : i.WellFormed alpha) :
    Starts (inputTokens i) ∧ Reads (inputValue .published) (inputTokens i) i.argument :=
  ⟨trivial, fun _ hrest => inputValue_tokens hi none hrest⟩

/-- The tokens of a field of an input object are read as the field. -/
theorem reads_inputField {i : InputInfo} (hi : i.WellFormed alpha) :
    Starts (inputFieldTokens i) ∧
      Reads (inputValue .published) (inputFieldTokens i) i.inputField := by
  refine ⟨starts_described _ _ _, fun rest hrest => ?_⟩
  rw [inputFieldTokens, List.append_assoc]
  exact inputValue_tokens hi i.description hrest

/-- Arguments between parentheses are read, or none where there is no parenthesis. -/
theorem argumentDefinitions_tokens {args : List InputInfo} (hargs : ∀ i ∈ args, i.WellFormed alpha)
    {rest : List Token} (hrest : Avoids [',', '('] rest) :
    argumentDefinitions .published (groupTokens '(' ')' (args.map inputTokens) ++ rest) =
      some (args.map InputInfo.argument, rest) :=
  optionalGroup_of_reads (by decide) (by decide) (fun i hi => reads_input (hargs i hi)) hrest

theorem avoids_deprecation (isDeprecated : Bool) (reason : Option String) {rest : List Token}
    (hrest : Fresh rest) : Avoids [',', '!'] (deprecationTokens isDeprecated reason ++ rest) := by
  cases isDeprecated with
  | false => exact hrest.mono (by decide)
  | true =>
    cases reason with
    | none =>
      change '@' ∉ [',', '!']
      decide
    | some s =>
      change '@' ∉ [',', '!']
      decide

/-- The tokens of a field are read as the field. -/
theorem reads_field {f : FieldInfo} (hf : f.WellFormed alpha) :
    Starts (fieldTokens f) ∧ Reads (fieldDefinition .published) (fieldTokens f) f.definition := by
  refine ⟨starts_described _ _ _, fun rest hrest => ?_⟩
  have hcolon : Avoids [',', '('] (.mark ':' :: (f.type.toType.tokens ++
      (deprecationTokens f.isDeprecated f.deprecationReason ++ rest))) := by
    change ':' ∉ [',', '(']
    decide
  have htype := typeExpr_tokens f.type.toType
    (avoids_deprecation f.isDeprecated f.deprecationReason hrest)
  rw [fieldTokens, List.append_assoc, List.cons_append, List.append_assoc, List.cons_append,
    List.append_assoc, fieldDefinition, bind_of_eq (description_tokens _ _ _),
    bind_of_eq (name_name _ _), bind_of_eq (argumentDefinitions_tokens hf.args hcolon),
    bind_of_eq (mark_self (by decide) _), bind_of_eq htype,
    bind_of_eq (directives_deprecation _ _ hrest), pure_apply]
  rfl

/-- The tokens of a member of an enumeration are read as the member. -/
theorem reads_enumValue {v : EnumValueInfo} (hv : v.WellFormed) :
    Starts (enumValueTokens v) ∧ Reads (enumMember .published) (enumValueTokens v) v.member := by
  refine ⟨starts_described _ _ _, fun rest hrest => ?_⟩
  rw [enumValueTokens, List.append_assoc, List.cons_append, enumMember,
    bind_of_eq (description_tokens _ _ _), bind_of_eq (name_name _ _),
    if_neg (by rw [hv.value]; exact Bool.false_ne_true),
    bind_of_eq (directives_deprecation _ _ hrest), pure_apply]
  rfl

/-! ### Types -/

/-- What follows a definition: no mark by which it could go on, and no list of interfaces. -/
def Ends (rest : List Token) : Prop :=
  Fresh rest ∧ rest.head? ≠ some (.name "implements")

theorem accept_name_of_ne {s : String} {rest : List Token} (hrest : Avoids [','] rest)
    (hname : rest.head? ≠ some (.name s)) : accept (.name s) rest = some (false, rest) := by
  cases rest with
  | nil => rfl
  | cons t ts =>
    refine accept_of_ne _ _ ?_ ?_ ts
    · rintro rfl
      exact hrest List.mem_cons_self
    · rintro rfl
      exact hname rfl

/-- Interfaces are read, or none where the keyword does not follow. -/
theorem interfaces_tokens (is : List String) {rest : List Token} (hrest : Avoids [',', '&'] rest)
    (hname : rest.head? ≠ some (.name "implements")) :
    interfaces (implementsTokens is ++ rest) = some (is, rest) := by
  cases is with
  | nil =>
    have hnot := accept_name_of_ne (hrest.mono (by decide)) hname
    rw [implementsTokens, List.isEmpty_nil, if_pos rfl, List.nil_append, interfaces,
      bind_of_eq hnot, if_neg Bool.false_ne_true, pure_apply]
  | cons n more =>
    have hself := accept_self (t := .name "implements") (by rintro ⟨⟩)
      (separatedTokens '&' (n :: more) ++ rest)
    rw [implementsTokens, List.isEmpty_cons, if_neg Bool.false_ne_true, List.cons_append,
      interfaces, bind_of_eq hself, if_pos rfl]
    exact separated_names (by decide) (List.cons_ne_nil _ _) (fun m _ => name_name m) hrest

section Body

variable {α β : Type} {part : Reader α} {partTokens : β → List Token} {value : β → α} {xs : List β}
  {rest : List Token}

/-- A body does not start with a mark other than its brace. -/
theorem avoids_body (parts : List (List Token)) (hrest : Fresh rest) :
    Avoids [',', '@', '&'] (bodyTokens parts ++ rest) := by
  cases parts with
  | nil => exact hrest.mono (by decide)
  | cons ts parts =>
    change '\x7b' ∉ [',', '@', '&']
    decide

theorem head?_body (parts : List (List Token)) (hrest : Ends rest) :
    (bodyTokens parts ++ rest).head? ≠ some (.name "implements") := by
  cases parts with
  | nil => exact hrest.2
  | cons ts parts => rintro ⟨⟩

/-- A body between braces is read, or none where there is no brace. -/
theorem optionalGroup_body
    (hxs : ∀ x ∈ xs, Starts (partTokens x) ∧ Reads part (partTokens x) (value x))
    (hrest : Fresh rest) :
    optionalGroup '\x7b' part '\x7d' (bodyTokens (xs.map partTokens) ++ rest) =
      some (xs.map value, rest) :=
  optionalGroup_of_reads (by decide) (by decide) hxs (hrest.mono (by decide))

end Body

/-- A keyword and the tokens after the name of a type are read as what the type consists of. -/
def ReadsBody (n : String) (p : String × List Token) (body : TypeBody) : Prop :=
  ∀ text rest, Ends rest →
    typeDefinition .published false text (.name p.1 :: .name n :: (p.2 ++ rest)) =
      some (⟨text, n, [], body⟩, rest)

/-- What a type consists of is read after its name, if it is a type and no wrapper. -/
theorem readsBody {t : TypeInfo} (ht : t.WellFormed alpha) :
    Option.Rel (ReadsBody t.name) (bodyTokens? t) t.body? := by
  have hinterfaces (rest : List Token) (hrest : Ends rest) :=
    interfaces_tokens (t.interfaces.getD [])
      ((avoids_body ((t.fields.getD []).map fieldTokens) hrest.1).mono (by decide))
      (head?_body _ hrest)
  have hfields (rest : List Token) (hrest : Ends rest) :=
    optionalGroup_body (fun f hf => reads_field (ht.fields f hf)) hrest.1
  have hdirectives (parts : List (List Token)) (rest : List Token) (hrest : Ends rest) :
      Sdl.directives .published (bodyTokens parts ++ rest) = some ([], bodyTokens parts ++ rest) :=
    directives_nil ((avoids_body parts hrest.1).mono (by decide))
  cases hkind : t.kind with
  | scalar =>
    simp only [bodyTokens?, TypeInfo.body?, hkind]
    refine .some fun text rest hrest => ?_
    have hnone : Sdl.directives .published ([] ++ rest) = some ([], rest) :=
      directives_nil (hrest.1.mono (by decide))
    rw [typeDefinition, bind_of_eq (name_name _ _), bind_of_eq (name_name _ _)]
    simp only
    rw [bind_of_eq hnone, pure_apply]
  | object =>
    simp only [bodyTokens?, TypeInfo.body?, hkind]
    refine .some fun text rest hrest => ?_
    rw [List.append_assoc, typeDefinition, bind_of_eq (name_name _ _), bind_of_eq (name_name _ _)]
    simp only
    rw [bind_of_eq (hinterfaces rest hrest), if_neg (by simp [Dialect.published]),
      bind_of_eq (hdirectives _ rest hrest), bind_of_eq (hfields rest hrest), pure_apply]
  | interface =>
    simp only [bodyTokens?, TypeInfo.body?, hkind]
    refine .some fun text rest hrest => ?_
    rw [List.append_assoc, typeDefinition, bind_of_eq (name_name _ _), bind_of_eq (name_name _ _)]
    simp only
    rw [bind_of_eq (hinterfaces rest hrest), bind_of_eq (hdirectives _ rest hrest),
      bind_of_eq (hfields rest hrest), pure_apply]
  | union =>
    simp only [bodyTokens?, TypeInfo.body?, hkind]
    refine .some fun text rest hrest => ?_
    have hequals : Sdl.directives .published
        (.mark '=' :: (separatedTokens '|' (t.possibleTypes.getD []) ++ rest)) =
        some ([], .mark '=' :: (separatedTokens '|' (t.possibleTypes.getD []) ++ rest)) :=
      directives_nil (show '=' ∉ [',', '@'] by decide)
    have hmembers : unionMembers
        (.mark '=' :: (separatedTokens '|' (t.possibleTypes.getD []) ++ rest)) =
        some (t.possibleTypes.getD [], rest) := by
      rw [unionMembers, bind_of_eq (accept_self (by rintro ⟨⟩) _), if_pos rfl]
      exact separated_names (by decide) (ht.members hkind) (fun n _ => name_name n)
        (hrest.1.mono (by decide))
    rw [List.cons_append, typeDefinition, bind_of_eq (name_name _ _), bind_of_eq (name_name _ _)]
    simp only
    rw [bind_of_eq hequals, bind_of_eq hmembers, pure_apply]
  | enum =>
    simp only [bodyTokens?, TypeInfo.body?, hkind]
    refine .some fun text rest hrest => ?_
    have hvalues := optionalGroup_body (fun v hv => reads_enumValue (ht.enumValues v hv)) hrest.1
    rw [typeDefinition, bind_of_eq (name_name _ _), bind_of_eq (name_name _ _)]
    simp only
    rw [bind_of_eq (hdirectives _ rest hrest), bind_of_eq hvalues, pure_apply]
  | inputObject =>
    simp only [bodyTokens?, TypeInfo.body?, hkind]
    refine .some fun text rest hrest => ?_
    have hinputs := optionalGroup_body (fun i hi => reads_inputField (ht.inputFields i hi)) hrest.1
    rw [typeDefinition, bind_of_eq (name_name _ _), bind_of_eq (name_name _ _)]
    simp only
    rw [bind_of_eq (hdirectives _ rest hrest), bind_of_eq hinputs, pure_apply]
  | list =>
    simp only [bodyTokens?, TypeInfo.body?, hkind]
    exact .none
  | nonNull =>
    simp only [bodyTokens?, TypeInfo.body?, hkind]
    exact .none

/-! ### Definitions -/

/-- Tokens are read as a definition, if a definition or nothing follows. -/
def ReadsDefinition (ts : List Token) (d : Definition) : Prop :=
  Starts ts ∧ ts.head? ≠ some (.name "implements") ∧
    ∀ rest, Ends rest → definition .published (ts ++ rest) = some (d, rest)

theorem accept_name_self (s : String) (rest : List Token) :
    accept (.name s) (.name s :: rest) = some (true, rest) :=
  accept_self (by rintro ⟨⟩) rest

theorem accept_name_name {s s' : String} (h : s' ≠ s) (rest : List Token) :
    accept (.name s) (.name s' :: rest) = some (false, .name s' :: rest) :=
  accept_of_ne _ _ (by rintro ⟨⟩) (by rintro ⟨⟩; exact h rfl) rest

/-- A definition starts with its description, and its keyword is not that of an extension. -/
theorem definition_tokens (d : Option String) {keyword : String} (hkeyword : keyword ≠ "extend")
    (ts : List Token) :
    definition .published (descriptionTokens d ++ .name keyword :: ts) =
      described .published (d.map descriptionText) (.name keyword :: ts) := by
  have hextend : accept (.name "extend") (descriptionTokens d ++ .name keyword :: ts) =
      some (false, descriptionTokens d ++ .name keyword :: ts) := by
    cases d with
    | none => exact accept_name_name hkeyword ts
    | some s => exact accept_of_ne _ _ (by rintro ⟨⟩) (by rintro ⟨⟩) _
  rw [definition, bind_of_eq hextend, if_neg Bool.false_ne_true,
    bind_of_eq (description_tokens d keyword ts)]
  cases d with
  | none => rfl
  | some s => rfl

theorem head?_described (d : Option String) {keyword : String} (hkeyword : keyword ≠ "implements")
    (ts : List Token) :
    (descriptionTokens d ++ .name keyword :: ts).head? ≠ some (.name "implements") := by
  cases d with
  | none =>
    rintro ⟨⟩
    exact hkeyword rfl
  | some s => rintro ⟨⟩

/-- The keywords of types are none of the other keywords. -/
theorem keyword_of_bodyTokens? {t : TypeInfo} {keyword : String} {ts : List Token}
    (h : bodyTokens? t = some (keyword, ts)) :
    keyword ≠ "extend" ∧ keyword ≠ "schema" ∧ keyword ≠ "directive" ∧ keyword ≠ "implements" := by
  simp only [bodyTokens?] at h
  cases hkind : t.kind <;> rw [hkind] at h <;> cases h <;> decide

/-- The tokens of a type are read as its definition. -/
theorem readsDefinition_type {t : TypeInfo} (ht : t.WellFormed alpha) :
    Option.Rel ReadsDefinition (typeTokens? t) t.definition? := by
  have hbody := readsBody ht
  rw [typeTokens?, TypeInfo.definition?]
  generalize t.body? = body? at hbody
  cases hts : bodyTokens? t with
  | none =>
    rw [hts] at hbody
    cases hbody
    exact .none
  | some p =>
    obtain ⟨keyword, ts⟩ := p
    obtain ⟨hextend, hschema, hdirective, himplements⟩ := keyword_of_bodyTokens? hts
    rw [hts] at hbody
    obtain ⟨hread⟩ := hbody
    refine .some ⟨starts_described _ _ _, head?_described _ himplements _, fun rest hrest => ?_⟩
    rw [List.append_assoc, List.cons_append, List.cons_append, definition_tokens _ hextend,
      described, bind_of_eq (accept_name_name hschema _), if_neg Bool.false_ne_true,
      bind_of_eq (accept_name_name hdirective _), if_neg Bool.false_ne_true,
      bind_of_eq (hread _ rest hrest), pure_apply]

/-- The tokens of a directive are read as its definition. -/
theorem readsDefinition_directive {d : DirectiveInfo} (hd : d.WellFormed alpha) :
    ReadsDefinition (directiveTokens d) d.definition := by
  refine ⟨?_, ?_, fun rest hrest => ?_⟩
  · exact starts_described _ _ _
  · exact head?_described _ (by decide) _
  · have hargs : Avoids [',', '('] (.name "on" :: (separatedTokens '|' d.locations ++ rest)) :=
      trivial
    have hlocation (l : String) (hl : l ∈ d.locations) (ts : List Token) :
        location (.name l :: ts) = some (l, ts) := by
      rw [location, bind_of_eq (name_name _ _),
        if_pos (List.contains_iff_mem.mpr (hd.locations.2 l hl))]
      rfl
    have hlocations := separated_names (show '|' ≠ ',' by decide) hd.locations.1 hlocation
      (hrest.1.mono (by decide))
    rw [directiveTokens, List.append_assoc, List.cons_append, List.cons_append, List.cons_append,
      List.append_assoc, List.cons_append, definition_tokens _ (by decide), described,
      bind_of_eq (accept_name_name (by decide) _), if_neg Bool.false_ne_true,
      bind_of_eq (accept_name_self _ _), if_pos rfl]
    have hdirective : directiveDefinition .published (d.description.map descriptionText)
        (.mark '@' :: .name d.name :: (groupTokens '(' ')' (d.args.map inputTokens) ++
          .name "on" :: (separatedTokens '|' d.locations ++ rest))) =
        some (⟨d.description.map descriptionText, d.name, d.args.map InputInfo.argument, false,
          d.locations⟩, rest) := by
      rw [directiveDefinition, bind_of_eq (mark_self (by decide) _), bind_of_eq (name_name _ _),
        bind_of_eq (argumentDefinitions_tokens hd.args hargs),
        bind_of_eq (accept_name_name (by decide) _), bind_of_eq (keyword_self _ _),
        bind_of_eq hlocations, pure_apply]
    rw [bind_of_eq hdirective, pure_apply]
    rfl

/-! ### Root types -/

/-- The word for an operation. -/
def rootKeyword : RootKind → String
  | .query => "query"
  | .mutation => "mutation"
  | .subscription => "subscription"

/-- The tokens of a root type. -/
def rootTypeTokens (r : RootKind × String) : List Token :=
  [.name (rootKeyword r.1), .mark ':', .name r.2]

theorem root_tokens (r : RootKind × String) (rest : List Token) :
    root .published (rootTypeTokens r ++ rest) = some ([r], rest) := by
  obtain ⟨kind, n⟩ := r
  have hcolon := mark_self (c := ':') (by decide) (.name n :: rest)
  rw [rootTypeTokens, root, List.cons_append, List.cons_append, List.cons_append,
    List.nil_append, bind_of_eq (name_name _ _)]
  cases kind <;> simp only [rootKeyword] <;>
    rw [bind_of_eq (pure_apply _ _), bind_of_eq hcolon, bind_of_eq (name?_name n rest)] <;> rfl

theorem flatMap_rootTokens (s : Introspection) :
    s.roots.flatMap rootTokens = (s.rootTypes.map rootTypeTokens).flatten := by
  rw [roots, rootTypes]
  cases s.queryType <;> cases s.mutationType <;> cases s.subscriptionType <;> rfl

/-- There is a root type if one of them has a name of its own. -/
theorem rootTypes_ne_nil {s : Introspection} (hs : s.hasCustomRoot = true) : s.rootTypes ≠ [] := by
  intro h
  rw [rootTypes] at h
  cases hquery : s.queryType <;> cases hmutation : s.mutationType <;>
    cases hsubscription : s.subscriptionType <;>
    simp [hasCustomRoot, hquery, hmutation, hsubscription] at hs h

/-- The tokens of the root types are read as their definition. -/
theorem readsDefinition_roots {s : Introspection} (hs : s.hasCustomRoot = true) :
    ReadsDefinition (rootsTokens s.roots) (.schema ⟨none, [], s.rootTypes⟩) := by
  refine ⟨trivial, head?_described none (by decide) _, fun rest _ => ?_⟩
  have hreads (r : RootKind × String) :
      Starts (rootTypeTokens r) ∧ Reads (root .published) (rootTypeTokens r) [r] :=
    ⟨trivial, fun rest _ => root_tokens r rest⟩
  obtain ⟨r, rs, hr⟩ := List.exists_cons_of_ne_nil (rootTypes_ne_nil hs)
  have hmore := upTo_of_reads (show '\x7d' ∉ openers by decide)
    (fun r (_ : r ∈ rs) => hreads r) rest
  have hdirectives : Sdl.directives .published
      (.mark '\x7b' :: (rootTypeTokens r ++ ((rs.map rootTypeTokens).flatten ++
        .mark '\x7d' :: rest))) = some ([], _) :=
    directives_nil (show '\x7b' ∉ [',', '@'] by decide)
  rw [rootsTokens, flatMap_rootTokens, hr, List.map_cons, List.flatten_cons]
  simp only [List.cons_append, List.append_assoc, List.nil_append]
  have hdefinition := definition_tokens none (show "schema" ≠ "extend" by decide)
    (.mark '\x7b' :: (rootTypeTokens r ++ ((rs.map rootTypeTokens).flatten ++
        .mark '\x7d' :: rest)))
  refine hdefinition.trans ?_
  rw [described, bind_of_eq (accept_name_self _ _), if_pos rfl, bind_of_eq hdirectives,
    bind_of_eq (mark_self (by decide) _), bind_of_eq (root_tokens r _), bind_of_eq hmore,
    pure_apply, ← List.flatMap_def, List.flatMap_singleton', List.singleton_append]
  rfl

/-! ### The document -/

theorem ReadsDefinition.ends {ts : List Token} {d : Definition} (h : ReadsDefinition ts d)
    (rest : List Token) : Ends (ts ++ rest) := by
  obtain ⟨hstarts, hname, -⟩ := h
  refine ⟨hstarts.avoids _ rest, ?_⟩
  cases ts with
  | nil => exact hstarts.elim
  | cons t ts => exact hname

theorem ends_flatten {tss : List (List Token)} {ds : List Definition}
    (h : List.Forall₂ ReadsDefinition tss ds) : Ends tss.flatten := by
  cases h with
  | nil => exact ⟨trivial, by rintro ⟨⟩⟩
  | cons hd _ =>
    rw [List.flatten_cons]
    exact hd.ends _

theorem starts_of_reads {tss : List (List Token)} {ds : List Definition}
    (h : List.Forall₂ ReadsDefinition tss ds) : ∀ ts ∈ tss, Starts ts := by
  induction h with
  | nil => intro ts hts; cases hts
  | cons hd _ ih =>
    intro ts hts
    rcases List.mem_cons.mp hts with rfl | hts
    · exact hd.1
    · exact ih ts hts

/-- Definitions are read one after the other. -/
theorem definitionsWithin?_of_reads {tss : List (List Token)} {ds : List Definition}
    (h : List.Forall₂ ReadsDefinition tss ds) {n : Nat} (hn : tss.length ≤ n) :
    definitionsWithin? .published n tss.flatten = some ds := by
  induction h generalizing n with
  | nil => cases n <;> rfl
  | @cons ts d tss ds hd hds ih =>
    rw [List.length_cons] at hn
    obtain ⟨n, rfl⟩ : ∃ k, n = k + 1 := ⟨n - 1, by omega⟩
    have hends := ends_flatten hds
    have hrun : (definition .published).run (ts ++ tss.flatten) = some (d, tss.flatten) :=
      hd.2.2 _ hends
    have hcommas : afterCommas tss.flatten = tss.flatten :=
      afterCommas_of_avoids hends.1 List.mem_cons_self
    have hne : (ts ++ tss.flatten).isEmpty = false := by
      cases ts with
      | nil => exact hd.1.elim
      | cons t ts => rfl
    rw [List.flatten_cons, definitionsWithin?, hne, if_neg Bool.false_ne_true, hrun]
    simp only
    rw [hcommas, ih (by omega), Option.map_some]

/-- The definitions of a payload are read from their tokens. -/
theorem forall₂_definitions {s : Introspection} (hs : s.WellFormed alpha) :
    List.Forall₂ ReadsDefinition s.tokens s.definitions := by
  refine List.rel_append (List.rel_append ?_ ?_) ?_
  · rw [customRoots]
    by_cases hcustom : s.hasCustomRoot = true
    · rw [if_pos hcustom]
      exact .cons (readsDefinition_roots hcustom) .nil
    · rw [if_neg hcustom]
      exact .nil
  · exact forall₂_map fun d hd =>
      readsDefinition_directive (hs.directives d (List.mem_of_mem_filter hd))
  · exact forall₂_filterMap fun t ht =>
      readsDefinition_type (hs.types t (List.mem_of_mem_filter ht))

/-- The tokens of the document of a payload. -/
theorem exists_tokensFrom?_toSdl {s : Introspection} (hs : s.WellFormed alpha) :
    ∃ ts, tokensFrom? alpha s.toSdl.toList = some ts ∧ withoutCommas ts = s.tokens.flatten := by
  have hlexemes := spells_toSdl hs [] [] delimited_nil lexemes?_nil
  rwa [List.append_nil, List.append_nil, lexemes?, Option.map_eq_some_iff] at hlexemes

/-- **The document of a well-formed payload is read as the definitions that it describes**, in the
grammar of October 2021, exactly if there are any and the descriptions and reasons among them have
no characters that the grammar does not admit.  Else it is not read at all. -/
theorem parseAs?_toSdl {s : Introspection} (hs : s.WellFormed .published) :
    parseAs? .published s.toSdl =
      if s.definitions ≠ [] ∧ AreSource s.texts then some s.definitions else none := by
  obtain ⟨ts, hts, hflatten⟩ := exists_tokensFrom?_toSdl hs
  by_cases htexts : AreSource s.texts
  · have htokens : tokens? .published s.toSdl = some ts :=
      tokens?_eq_some_iff.mpr ⟨.inr ((isSource_toSdl_iff hs).mpr htexts), hts⟩
    have hdefinitions := forall₂_definitions hs
    have hsignificant : Dialect.published.significant ts = s.tokens.flatten := hflatten
    have hlength := length_le_flatten (starts_of_reads hdefinitions)
    have hcommas : afterCommas s.tokens.flatten = s.tokens.flatten :=
      afterCommas_of_avoids (ends_flatten hdefinitions).1 List.mem_cons_self
    have halphabet : Dialect.published.alphabet = .published := rfl
    have hblank : Dialect.published.blankDocuments = false := rfl
    rw [parseAs?, halphabet, htokens, Option.bind_some, hsignificant, hcommas,
      definitionsWithin?_of_reads hdefinitions hlength, hblank]
    cases s.definitions <;> simp [htexts]
  · have htokens : tokens? .published s.toSdl = none := by
      rw [Option.eq_none_iff_forall_ne_some]
      intro ts' hts'
      have hsource := (tokens?_eq_some_iff.mp hts').1.resolve_left Bool.false_ne_true
      exact htexts ((isSource_toSdl_iff hs).mp hsource)
    have halphabet : Dialect.published.alphabet = .published := rfl
    rw [parseAs?, halphabet, htokens, Option.bind_none, if_neg fun h => htexts h.2]

/-! ### Documents that are not read -/

/-- A payload with a description that has a character beyond the basic plane. -/
def smiling : Introspection :=
  ⟨some "Query", none, none,
    [⟨.object, "Query", some "😀",
        some [⟨"hero", none, [], .named .scalar "String", false, none⟩], none, none, none, none⟩],
    []⟩

/-- A payload of which nothing is written. -/
def wordless : Introspection :=
  ⟨some "Query", none, none, [⟨.scalar, "String", none, none, none, none, none, none⟩], []⟩

/-- A character that the grammar of October 2021 does not admit, and a document without definitions:
neither is read. -/
theorem parseAs?_smiling :
    smiling.WellFormed .published ∧ smiling.definitions ≠ [] ∧
      parseAs? .published smiling.toSdl = none ∧
      wordless.WellFormed .published ∧ parseAs? .published wordless.toSdl = none := by
  refine ⟨by decide +kernel, List.cons_ne_nil _ _, ?_, by decide +kernel, ?_⟩ <;>
  · rw [← Option.isNone_iff_eq_none]
    decide +kernel

/-! ### The payload of a library -/

/-- A library of books, with a root type of its own name, an empty type, and a directive. -/
def library : Introspection :=
  ⟨some "Library", none, none,
    [⟨.scalar, "String", none, none, none, none, none, none⟩,
      ⟨.enum, "Shelf", some "Where a \"book\" stands", none, none, none,
        some [⟨"FICTION", none, false, none⟩,
          ⟨"OTHER", some "All else", true, some "Use \\ or FICTION"⟩], none⟩,
      ⟨.inputObject, "Filter", some "Narrows a search:\n  by its shelf", none,
        some [⟨"shelves", some "Any of these", .list (.nonNull (.named .enum "Shelf")),
          some "[FICTION, OTHER]"⟩], none, none, none⟩,
      ⟨.object, "Book", none,
        some [⟨"title", none, [], .nonNull (.named .scalar "String"), true, none⟩], none,
        some ["Item"], none, none⟩,
      ⟨.interface, "Item", none, none, none, none, none, none⟩,
      ⟨.union, "Result", none, none, none, none, none, some ["Book", "Library"]⟩,
      ⟨.object, "Library", none,
        some [⟨"search", some "Finds books",
          [⟨"text", some "A part of the title", .named .scalar "String", some "\"\""⟩,
            ⟨"filter", none, .named .inputObject "Filter", none⟩],
          .nonNull (.list (.named .union "Result")), false, none⟩], none, none, none, none⟩],
    [⟨"skip", none, ["FIELD"], []⟩,
      ⟨"cached", none, ["OBJECT", "FIELD_DEFINITION"],
        [⟨"seconds", none, .named .scalar "Int", some "60"⟩]⟩]⟩

/-- What the payload of the library describes: its roots, the directive and the types. -/
def libraryDefinitions : List Definition :=
  [.schema ⟨none, [], [(.query, "Library")]⟩,
    .directive ⟨none, "cached",
      [⟨none, "seconds", .named "Int" false, some (.int "60"), []⟩], false,
      ["OBJECT", "FIELD_DEFINITION"]⟩,
    .type ⟨some "Where a \"book\" stands", "Shelf", [],
      .enum [⟨none, "FICTION", []⟩, ⟨some "All else", "OTHER",
        [⟨"deprecated", [("reason", .string "Use \\ or FICTION")]⟩]⟩]⟩,
    .type ⟨some "Narrows a search:\n  by its shelf", "Filter", [],
      .input [⟨some "Any of these", "shelves", .list (.named "Shelf" true) false,
        some (.list [.enum "FICTION", .enum "OTHER"]), []⟩]⟩,
    .type ⟨none, "Book", [],
      .object ["Item"] [⟨none, "title", [], .named "String" true, [⟨"deprecated", []⟩]⟩]⟩,
    .type ⟨none, "Item", [], .interface [] []⟩,
    .type ⟨none, "Result", [], .union ["Book", "Library"]⟩,
    .type ⟨none, "Library", [],
      .object [] [⟨some "Finds books", "search",
        [⟨none, "text", .named "String" false, some (.string ""), []⟩,
          ⟨none, "filter", .named "Filter" false, none, []⟩],
        .list (.named "Result" false) true, []⟩]⟩]

theorem definitions_library : library.definitions = libraryDefinitions := by
  have hdirectives : library.directives.filter isWrittenDirective = library.directives.drop 1 := by
    cbv
  have htypes : library.types.filter isWrittenType = library.types.drop 1 := by
    cbv
  have hseconds : literal? .all "60" = some (.int "60") :=
    literal?_eq_some_iff.mpr ⟨[.int "60"], by decide +kernel, by decide +kernel, rfl⟩
  have hshelves : literal? .all "[FICTION, OTHER]" =
      some (.list [.enum "FICTION", .enum "OTHER"]) :=
    literal?_eq_some_iff.mpr
      ⟨[.mark '[', .name "FICTION", .mark ',', .name "OTHER", .mark ']'], by decide +kernel,
        by decide +kernel, rfl⟩
  have htext : literal? .all "\"\"" = some (.string "") :=
    literal?_eq_some_iff.mpr ⟨[.string ""], by decide +kernel, by decide +kernel, rfl⟩
  have hdescriptions : ∀ text ∈ ["Where a \"book\" stands", "All else",
      "Narrows a search:\n  by its shelf", "Any of these", "Finds books"],
      descriptionText text = text := by
    decide +kernel
  simp only [List.forall_mem_cons] at hdescriptions
  rw [definitions, hdirectives, htypes]
  simp [library, libraryDefinitions, customRoots, hasCustomRoot, rootTypes,
    DirectiveInfo.definition, TypeInfo.definition?, TypeInfo.body?, InputInfo.argument,
    InputInfo.inputField, FieldInfo.definition, EnumValueInfo.member, deprecation, TypeRef.toType,
    TypeRef.named, TypeRef.list, TypeRef.nonNull, TypeExpr.required, hseconds, hshelves, htext,
    hdescriptions]

/-- The document of the library is read as these definitions. -/
theorem parseAs?_library :
    library.WellFormed .published ∧ library.definitions ≠ [] ∧ AreSource library.texts ∧
      parseAs? .published library.toSdl = some libraryDefinitions := by
  have hwf : library.WellFormed .published := by decide +kernel
  have htexts : AreSource library.texts := by decide +kernel
  have hne : library.definitions ≠ [] := List.cons_ne_nil _ _
  refine ⟨hwf, hne, htexts, (parseAs?_toSdl hwf).trans ?_⟩
  rw [if_pos ⟨hne, htexts⟩, definitions_library]

end GraphQLClient.Introspection
