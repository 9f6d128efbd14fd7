import GraphQLClient.Proofs.Introspection.Tokens
import GraphQLClient.Proofs.Sdl.Source

/-!
# The characters of an introspected schema

Besides names, types and constants, the document of an introspected schema holds texts that the
server has chosen: the descriptions and the reasons.  They are written with the characters that they
have.  So a document of a well-formed payload has no characters but source characters exactly if
that is so for each of these texts.

## Main definitions

* `Introspection.texts` : the descriptions and reasons in the document of a payload.

## Main results

* `Introspection.isSource_toSdl_iff` : the payloads whose documents consist of source characters.
-/

namespace GraphQLClient.Introspection

open Sdl (IsSource isSource_append isSource_cons isSource_nil isSource_joined isSource_of_isName
  isSourceCharacter)

/-! ### Texts -/

/-- The reason that is written of something deprecated, if there is one. -/
def deprecationTexts (isDeprecated : Bool) (reason : Option String) : List String :=
  if isDeprecated then reason.toList else []

/-- The texts of a field; its arguments are written without their descriptions. -/
def FieldInfo.texts (f : FieldInfo) : List String :=
  f.description.toList ++ deprecationTexts f.isDeprecated f.deprecationReason

/-- The texts of a member of an enumeration. -/
def EnumValueInfo.texts (v : EnumValueInfo) : List String :=
  v.description.toList ++ deprecationTexts v.isDeprecated v.deprecationReason

/-- The texts of a type; a kind that wraps a type is not written. -/
def TypeInfo.texts (t : TypeInfo) : List String :=
  match t.kind with
  | .scalar => t.description.toList
  | .object => t.description.toList ++ (t.fields.getD []).flatMap FieldInfo.texts
  | .interface => t.description.toList ++ (t.fields.getD []).flatMap FieldInfo.texts
  | .union => t.description.toList
  | .enum => t.description.toList ++ (t.enumValues.getD []).flatMap EnumValueInfo.texts
  | .inputObject => t.description.toList ++ (t.inputFields.getD []).flatMap (·.description.toList)
  | .list => []
  | .nonNull => []

/-- The texts of a payload that are written in its document. -/
def texts (s : Introspection) : List String :=
  (s.directives.filter isWrittenDirective).flatMap (·.description.toList) ++
    (s.types.filter isWrittenType).flatMap TypeInfo.texts

/-- Texts without other characters than source characters. -/
def AreSource (texts : List String) : Prop :=
  ∀ text ∈ texts, IsSource text.toList

instance (texts : List String) : Decidable (AreSource texts) :=
  inferInstanceAs (Decidable (∀ text ∈ texts, IsSource text.toList))

@[simp]
theorem areSource_nil : AreSource [] :=
  List.forall_mem_nil _

@[simp]
theorem areSource_append {texts texts' : List String} :
    AreSource (texts ++ texts') ↔ AreSource texts ∧ AreSource texts' :=
  List.forall_mem_append

@[simp]
theorem areSource_flatMap {α : Type} {l : List α} {f : α → List String} :
    AreSource (l.flatMap f) ↔ ∀ a ∈ l, AreSource (f a) := by
  simp only [AreSource, List.mem_flatMap, forall_exists_index, and_imp]
  exact forall_comm.trans (forall_congr' fun a => forall_comm)

/-! ### Texts between quotes -/

theorem isSource_description {indent : List Char} (hindent : IsSource indent)
    (d : Option String) : IsSource (descriptionChars indent d) ↔ AreSource d.toList := by
  cases d with
  | none => simp [descriptionChars]
  | some s =>
    rw [descriptionChars]
    split <;> simp [AreSource, hindent, isSourceCharacter]

theorem isSource_indent : IsSource [' ', ' '] := by
  decide

theorem isSource_deprecation (isDeprecated : Bool) (reason : Option String) :
    IsSource (deprecationChars isDeprecated reason) ↔
      AreSource (deprecationTexts isDeprecated reason) := by
  cases isDeprecated with
  | false => exact iff_of_true isSource_nil areSource_nil
  | true =>
    cases reason with
    | none =>
      have htext : deprecationChars true none = " @deprecated".toList := rfl
      rw [htext]
      simp [deprecationTexts, isSourceCharacter]
    | some s =>
      have htext : deprecationChars true (some s) =
          " @deprecated(reason: \"".toList ++ escapedChars s.toList ++ ['"', ')'] := rfl
      rw [htext]
      simp [deprecationTexts, AreSource, isSourceCharacter]

/-! ### Fields -/

theorem isSource_typeRef : (t : TypeRef) → t.isChain = true → IsSource t.toChars
  | .mk kind none none, h => by
      cases kind <;> cases h
  | .mk kind (some name) none, h => by
      have hname : Name.isName name = true := by
        cases kind <;> exact h
      have hsource := isSource_of_isName hname
      cases kind <;> exact hsource
  | .mk kind name (some inner), h => by
      cases kind with
      | nonNull =>
        rw [TypeRef.isChain, Bool.and_eq_true] at h
        have hinner := isSource_typeRef inner h.2
        change IsSource (inner.toChars ++ ['!'])
        simp [hinner, isSourceCharacter]
      | list =>
        have hinner := isSource_typeRef inner h
        change IsSource ('[' :: inner.toChars ++ [']'])
        simp [hinner, isSourceCharacter]
      | _ => cases name <;> cases h

theorem isSource_input {i : InputInfo} (hi : i.WellFormed .published) :
    IsSource (inputChars i) := by
  have hname := isSource_of_isName hi.name
  have htype := isSource_typeRef i.type hi.type
  have hdefault : IsSource (defaultChars i.defaultValue) := by
    cases hd : i.defaultValue with
    | none => exact isSource_nil
    | some s =>
      obtain ⟨l, hl⟩ := Option.isSome_iff_exists.mp (hi.default s hd)
      simp [defaultChars, Sdl.isSource_of_literal? hl, isSourceCharacter]
  simp [inputChars, hname, htype, hdefault, isSourceCharacter]

theorem isSource_arguments {args : List InputInfo} (hargs : ∀ i ∈ args, i.WellFormed .published) :
    IsSource (argumentsChars args) := by
  have hjoined : IsSource (joined [',', ' '] (args.map inputChars)) :=
    (isSource_joined (by decide)).mpr
      (List.forall_mem_map.mpr fun i hi => isSource_input (hargs i hi))
  rw [argumentsChars]
  split <;> simp [hjoined, isSourceCharacter]

theorem isSource_field {f : FieldInfo} (hf : f.WellFormed .published) :
    IsSource (fieldChars f) ↔ AreSource f.texts := by
  have hname := isSource_of_isName hf.name
  have htype := isSource_typeRef f.type hf.type
  have hargs := isSource_arguments hf.args
  simp [fieldChars, FieldInfo.texts, isSource_description isSource_indent, isSource_deprecation,
    hname, htype, hargs, isSourceCharacter]

theorem isSource_inputField {i : InputInfo} (hi : i.WellFormed .published) :
    IsSource (inputFieldChars i) ↔ AreSource i.description.toList := by
  have hinput := isSource_input hi
  simp [inputFieldChars, isSource_description isSource_indent, hinput, isSourceCharacter]

theorem isSource_enumValue {v : EnumValueInfo} (hv : v.WellFormed) :
    IsSource (enumValueChars v) ↔ AreSource v.texts := by
  have hname := isSource_of_isName hv.name
  simp [enumValueChars, EnumValueInfo.texts, isSource_description isSource_indent,
    isSource_deprecation, hname, isSourceCharacter]

/-! ### Definitions -/

theorem isSource_body {α : Type} {xs : List α} {chars : α → List Char} {texts : α → List String}
    (hxs : ∀ x ∈ xs, IsSource (chars x) ↔ AreSource (texts x)) :
    IsSource (bodyChars (xs.map chars)) ↔ AreSource (xs.flatMap texts) := by
  have hlines : IsSource (xs.map chars).flatten ↔ AreSource (xs.flatMap texts) := by
    simp only [Sdl.isSource_flatten, List.forall_mem_map, areSource_flatMap]
    exact forall₂_congr hxs
  rw [bodyChars, ← hlines]
  split
  · next hempty => rw [List.isEmpty_iff.mp hempty]
  · simp [isSourceCharacter]

/-- Names with a mark between blanks between each two of them. -/
theorem isSource_separated (separator : Char) (hseparator : isSourceCharacter separator = true)
    {names : List String} (hnames : ∀ n ∈ names, Name.isName n = true) :
    IsSource (joined [' ', separator, ' '] (names.map String.toList)) :=
  have hblanks : IsSource [' ', separator, ' '] :=
    isSource_cons.mpr ⟨rfl, isSource_cons.mpr ⟨hseparator, by decide⟩⟩
  (isSource_joined hblanks).mpr
    (List.forall_mem_map.mpr fun n hn => isSource_of_isName (hnames n hn))

theorem isSource_implements {interfaces : List String}
    (hinterfaces : ∀ n ∈ interfaces, Name.isName n = true) :
    IsSource (implementsChars interfaces) := by
  have hnames := isSource_separated '&' rfl hinterfaces
  rw [implementsChars]
  split <;> simp [hnames, isSourceCharacter]

theorem isSource_type {t : TypeInfo} (ht : t.WellFormed .published) :
    (∀ chars ∈ typeChars? t, IsSource chars) ↔ AreSource t.texts := by
  have hdescription := isSource_description isSource_nil t.description
  have hname := isSource_of_isName ht.name
  have hinterfaces := isSource_implements ht.interfaces
  have hmembers := isSource_separated '|' rfl ht.possibleTypes
  have hfields := isSource_body fun f hf => isSource_field (ht.fields f hf)
  have hvalues := isSource_body fun v hv => isSource_enumValue (ht.enumValues v hv)
  have hinputs := isSource_body fun i hi => isSource_inputField (ht.inputFields i hi)
  cases hkind : t.kind with
  | scalar => simp [typeChars?, TypeInfo.texts, hkind, hdescription, hname, isSourceCharacter]
  | object =>
    simp [typeChars?, TypeInfo.texts, hkind, hdescription, hname, hinterfaces, hfields,
      isSourceCharacter]
  | interface =>
    simp [typeChars?, TypeInfo.texts, hkind, hdescription, hname, hinterfaces, hfields,
      isSourceCharacter]
  | union =>
    simp [typeChars?, TypeInfo.texts, hkind, hdescription, hname, hmembers, isSourceCharacter]
  | enum =>
    simp [typeChars?, TypeInfo.texts, hkind, hdescription, hname, hvalues, isSourceCharacter]
  | inputObject =>
    simp [typeChars?, TypeInfo.texts, hkind, hdescription, hname, hinputs, isSourceCharacter]
  | list => simp [typeChars?, TypeInfo.texts, hkind]
  | nonNull => simp [typeChars?, TypeInfo.texts, hkind]

theorem isSource_directive {d : DirectiveInfo} (hd : d.WellFormed .published) :
    IsSource (directiveChars d) ↔ AreSource d.description.toList := by
  have hlocation : ∀ l ∈ Sdl.locations, Name.isName l = true := by decide
  have hname := isSource_of_isName hd.name
  have hargs := isSource_arguments hd.args
  have hlocations := isSource_separated '|' rfl
    fun l hl => hlocation l (hd.locations.2 l hl)
  simp [directiveChars, isSource_description isSource_nil, hname, hargs, hlocations,
    isSourceCharacter]

theorem isSource_roots {roots : List (String × Option String)}
    (hroots : ∀ r ∈ roots, Name.isName r.1 = true ∧ ∀ n ∈ r.2, Name.isName n = true) :
    IsSource (rootsChars roots) := by
  have hroot : IsSource (roots.flatMap rootChars) := by
    rw [List.flatMap, Sdl.isSource_flatten, List.forall_mem_map]
    intro r hr
    obtain ⟨operation, name⟩ := r
    obtain ⟨hoperation, hname⟩ := hroots _ hr
    cases name with
    | none => exact isSource_nil
    | some n =>
      have hn := isSource_of_isName (hname n rfl)
      have ho := isSource_of_isName hoperation
      simp [rootChars, hn, ho, isSourceCharacter]
  have htext : rootsChars roots = "schema \x7b\n".toList ++ roots.flatMap rootChars ++ ['\x7d'] :=
    rfl
  rw [htext]
  simp [hroot, isSourceCharacter]

/-! ### The document -/

/-- The blocks of a document: those of the roots, if they are written, of directives, of types. -/
theorem sdlBlocks_eq (s : Introspection) :
    s.sdlBlocks = (s.customRoots.map rootsChars).toList ++
      (s.directives.filter isWrittenDirective).map directiveChars ++
      (s.types.filter isWrittenType).filterMap typeChars? := by
  rw [sdlBlocks]
  cases s.customRoots <;> rfl

/-- **The document of a well-formed payload consists of source characters** exactly if the texts in
it do. -/
theorem isSource_toSdl_iff {s : Introspection} (hs : s.WellFormed .published) :
    IsSource s.toSdl.toList ↔ AreSource s.texts := by
  have hroots : ∀ chars ∈ (s.customRoots.map rootsChars).toList, IsSource chars := by
    rw [customRoots]
    cases s.hasCustomRoot with
    | false => exact List.forall_mem_nil _
    | true => exact List.forall_mem_singleton.mpr (isSource_roots (isName_roots hs))
  have hdirectives :
      (∀ chars ∈ (s.directives.filter isWrittenDirective).map directiveChars, IsSource chars) ↔
        AreSource ((s.directives.filter isWrittenDirective).flatMap (·.description.toList)) := by
    rw [List.forall_mem_map, areSource_flatMap]
    exact forall₂_congr fun d hd => isSource_directive (hs.directives d (List.mem_of_mem_filter hd))
  have htypes : (∀ chars ∈ (s.types.filter isWrittenType).filterMap typeChars?, IsSource chars) ↔
      AreSource ((s.types.filter isWrittenType).flatMap TypeInfo.texts) := by
    rw [List.forall_mem_filterMap, areSource_flatMap]
    exact forall₂_congr fun t ht => isSource_type (hs.types t (List.mem_of_mem_filter ht))
  rw [toSdl, String.toList_ofList, isSource_joined (by decide), sdlBlocks_eq, texts,
    areSource_append, List.forall_mem_append, List.forall_mem_append, hdirectives, htypes]
  exact and_congr_left fun _ => and_iff_right hroots

end GraphQLClient.Introspection
