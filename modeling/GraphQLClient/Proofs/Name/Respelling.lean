import GraphQLClient.Proofs.Name.Words

/-!
# Names respelled by their accessors

The accessor of a name has an underscore where a word starts, and from these the wire form of the
accessor gets its capitals back.  A capital that starts no word stays small: one at the front, and
one inside a run of capitals.  So a name without inner underscores is *respelled* character by
character.  The respelling keeps every letter up to its case, it has the same accessor, and all of
its capitals start words; a name is its own respelling exactly if all of its capitals do.

## Main definitions

* `Name.capitalsStartWords`, `Name.isSpelledOut` : the names whose capitals all start words.

## Main results

* `Name.toAccessor_toAccessor` : an accessor is its own accessor.
* `Name.toWire_toAccessor_eq_iff` : the names that are their own respelling.
* `Name.toWire_toAccessor_append_iff` : the same, in terms of the characters around a capital.
* `Name.toAccessor_respelled` : the respelling of a name.
-/

namespace GraphQLClient.Name

/-- Whether every capital starts a word, given the character before. -/
def capitalsStartWords (before : Option Char) : List Char → Bool
  | [] => true
  | c :: rest =>
    (!isCapital c || startsWord before c rest.head?) && capitalsStartWords (some c) rest

/-- Whether every capital of a name starts a word: none comes first, and of two next to each other
the second goes before a small letter.  In a reserved name it does not matter. -/
def isSpelledOut (s : String) : Bool :=
  isReserved s || capitalsStartWords none (s.toList.dropWhile (· = '_'))

/-! ### Characters -/

theorem toLower_eq_self_iff {c : Char} : c.toLower = c ↔ isCapital c = false :=
  ⟨fun h => h ▸ isCapital_toLower c, toLower_eq_self⟩

theorem toLower_eq_underscore_iff {c : Char} : c.toLower = '_' ↔ c = '_' :=
  ⟨fun h => by_contra fun hc => toLower_ne_underscore hc h, fun h => by rw [h]; rfl⟩

/-! ### Reserved names -/

theorem toWire_of_isReserved {s : String} (h : isReserved s = true) : toWire s = s := by
  rw [isReserved] at h
  rw [toWire, toWireChars, if_pos h, String.ofList_toList]

theorem toAccessor_of_isReserved {s : String} (h : isReserved s = true) : toAccessor s = s := by
  rw [isReserved] at h
  rw [toAccessor, toAccessorChars, if_pos h, String.ofList_toList]

/-! ### The respelling of characters of one word -/

theorem map_toLower_wireWords_accessorWords {s : List Char} (hs : '_' ∉ s)
    (before : Option Char) :
    (wireWords false (accessorWords before s)).map Char.toLower = s.map Char.toLower := by
  induction s generalizing before with
  | nil => rw [accessorWords, wireWords]
  | cons c rest ih =>
    rw [List.mem_cons, not_or] at hs
    rw [wireWords_accessorWords_cons (Ne.symm hs.1), List.map_cons, List.map_cons, ih hs.2]
    split
    · rfl
    · rw [toLower_eq_self (isCapital_toLower c)]

theorem underscore_notMem_wireWords_accessorWords {s : List Char} (hs : '_' ∉ s)
    (before : Option Char) : '_' ∉ wireWords false (accessorWords before s) := by
  intro hmem
  have hlower : '_' ∈ s.map Char.toLower :=
    map_toLower_wireWords_accessorWords hs before ▸ List.mem_map_of_mem (f := Char.toLower) hmem
  obtain ⟨c, hc, hunderscore⟩ := List.mem_map.mp hlower
  exact hs (toLower_eq_underscore_iff.mp hunderscore ▸ hc)

/-- Characters are respelled as they are exactly if every capital starts a word. -/
theorem wireWords_accessorWords_eq_iff {s : List Char} (hs : '_' ∉ s) (before : Option Char) :
    wireWords false (accessorWords before s) = s ↔ capitalsStartWords before s = true := by
  induction s generalizing before with
  | nil => simp [accessorWords, wireWords, capitalsStartWords]
  | cons c rest ih =>
    rw [List.mem_cons, not_or] at hs
    rw [wireWords_accessorWords_cons (Ne.symm hs.1), List.cons_eq_cons, ih hs.2,
      capitalsStartWords, Bool.and_eq_true]
    refine and_congr_left fun _ => ?_
    by_cases hstart : startsWord before c rest.head? = true
    · simp [hstart]
    · simp [hstart, toLower_eq_self_iff]

/-! ### Where capitals stand -/

theorem startsWord_some_iff {b c : Char} (hc : isCapital c = true) (after : Option Char) :
    startsWord (some b) c after = true ↔
      isSmall b = true ∨ isDigit b = true ∨
        isCapital b = true ∧ ∃ a ∈ after, isSmall a = true := by
  simp [startsWord, hc, Option.any_eq_true, or_assoc]

theorem capitalsStartWords_some_iff {b : Char} {s : List Char} :
    capitalsStartWords (some b) s = true ↔
      ∀ before d c after, b :: s = before ++ d :: c :: after → isCapital c = true →
        startsWord (some d) c after.head? = true := by
  induction s generalizing b with
  | nil =>
    refine iff_of_true rfl fun before d c after hsplit => ?_
    have hlength := congrArg List.length hsplit
    simp only [List.length_append, List.length_cons, List.length_nil] at hlength
    omega
  | cons e rest ih =>
    rw [capitalsStartWords, Bool.and_eq_true, ih]
    constructor
    · rintro ⟨hstart, hrest⟩ (_ | ⟨_, before⟩) d c after hsplit hc
      · obtain ⟨rfl, rfl, rfl⟩ : b = d ∧ e = c ∧ rest = after := by simpa using hsplit
        simpa [hc] using hstart
      · exact hrest before d c after (List.cons.inj hsplit).2 hc
    · intro h
      refine ⟨?_, fun before d c after hsplit =>
        h (b :: before) d c after (congrArg (b :: ·) hsplit)⟩
      by_cases hc : isCapital e = true
      · simp [h [] b e rest rfl hc]
      · simp [hc]

/-- Every capital starts a word exactly if none comes first, and each one behind another character
starts a word. -/
theorem capitalsStartWords_none_iff {s : List Char} :
    capitalsStartWords none s = true ↔
      (∀ c ∈ s.head?, isCapital c = false) ∧
        ∀ before b c after, s = before ++ b :: c :: after → isCapital c = true →
          startsWord (some b) c after.head? = true := by
  cases s with
  | nil => simp [capitalsStartWords]
  | cons c rest =>
    rw [capitalsStartWords, Bool.and_eq_true, capitalsStartWords_some_iff]
    simp [startsWord]

/-! ### Accessors of accessors -/

/-- Nothing is a capital in an accessor. -/
theorem isCapital_of_mem_accessorWords (s : List Char) (before : Option Char) :
    ∀ c ∈ accessorWords before s, isCapital c = false := by
  induction s generalizing before with
  | nil => simp [accessorWords]
  | cons c rest ih =>
    have hrest : ∀ d ∈ c.toLower :: accessorWords (some c) rest, isCapital d = false :=
      List.forall_mem_cons.mpr ⟨isCapital_toLower c, ih (some c)⟩
    rw [accessorWords]
    split
    · exact List.forall_mem_cons.mpr ⟨by decide, hrest⟩
    · exact hrest

/-- An accessor is its own accessor. -/
theorem toAccessor_toAccessor (s : String) : toAccessor (toAccessor s) = toAccessor s := by
  by_cases h : isReserved s = true
  · rw [toAccessor_of_isReserved h, toAccessor_of_isReserved h]
  · obtain ⟨leading, body, hsplit, hleading, hbody⟩ :=
      exists_eq_append_of_not_reserved (Bool.eq_false_iff.mpr h)
    have hwords := accessorWords_append (isCapital_of_mem_accessorWords body none) none []
    rw [List.append_nil, accessorWords, List.append_nil] at hwords
    rw [← String.toList_inj, toList_toAccessor, toList_toAccessor, hsplit,
      toAccessorChars_append hleading hbody,
      toAccessorChars_append hleading (head?_accessorWords hbody), hwords]

/-! ### The respelling of a name -/

theorem toWireChars_toAccessorChars_append {leading body : List Char}
    (hleading : leading = [] ∨ leading = ['_']) (hbody : body.head? ≠ some '_') :
    toWireChars (toAccessorChars (leading ++ body)) =
      leading ++ wireWords false (accessorWords none body) := by
  rw [toAccessorChars_append hleading hbody,
    toWireChars_append hleading (head?_accessorWords hbody)]

/-- A name is its own respelling exactly if all of its capitals start words. -/
theorem toWire_toAccessor_eq_iff {s : String} (hs : '_' ∉ s.toList.dropWhile (· = '_')) :
    toWire (toAccessor s) = s ↔ isSpelledOut s = true := by
  by_cases h : isReserved s = true
  · simp [toAccessor_of_isReserved h, toWire_of_isReserved h, isSpelledOut, h]
  · obtain ⟨leading, body, hsplit, hleading, hbody⟩ :=
      exists_eq_append_of_not_reserved (Bool.eq_false_iff.mpr h)
    rw [hsplit, dropWhile_append hleading hbody] at hs
    rw [isSpelledOut, Bool.eq_false_iff.mpr h, Bool.false_or, ← String.toList_inj, toList_toWire,
      toList_toAccessor, hsplit, toWireChars_toAccessorChars_append hleading hbody,
      dropWhile_append hleading hbody, List.append_cancel_left_eq,
      wireWords_accessorWords_eq_iff hs]

/-- **Names that are their own respelling.** A name without inner underscores comes back from its
accessor exactly if it does not start with a capital and every other capital stands behind a small
letter or a digit, or behind a capital and before a small letter. -/
theorem toWire_toAccessor_append_iff {leading body : String}
    (hleading : leading = "" ∨ leading = "_") (hbody : '_' ∉ body.toList) :
    toWire (toAccessor (leading ++ body)) = leading ++ body ↔
      (∀ c ∈ body.toList.head?, isCapital c = false) ∧
        ∀ before b c after, body.toList = before ++ b :: c :: after → isCapital c = true →
          isSmall b = true ∨ isDigit b = true ∨
            isCapital b = true ∧ ∃ a ∈ after.head?, isSmall a = true := by
  have hhead : body.toList.head? ≠ some '_' := fun h => hbody (List.mem_of_head? h)
  have hleading : leading.toList = [] ∨ leading.toList = ['_'] := by
    obtain rfl | rfl := hleading
    · exact .inl rfl
    · exact .inr rfl
  have hdrop : (leading ++ body).toList.dropWhile (· = '_') = body.toList := by
    rw [String.toList_append, dropWhile_append hleading hhead]
  have hreserved : isReserved (leading ++ body) = false := by
    rw [isReserved, String.toList_append, isReservedChars_append hleading hhead]
  rw [toWire_toAccessor_eq_iff (hdrop ▸ hbody), isSpelledOut, hreserved, Bool.false_or, hdrop,
    capitalsStartWords_none_iff]
  refine and_congr_right fun _ => ?_
  simp +contextual only [startsWord_some_iff]

/-- Each rule for capitals is met by one of these. -/
theorem toWire_toAccessor_pointXYz :
    '_' ∉ "pointXYz2A".toList ∧ toAccessor "_pointXYz2A" = "_point_x_yz2_a" ∧
      toWire (toAccessor ("_" ++ "pointXYz2A")) = "_" ++ "pointXYz2A" ∧
      ∀ before b c after, "pointXYz2A".toList = before ++ b :: c :: after → isCapital c = true →
        isSmall b = true ∨ isDigit b = true ∨
          isCapital b = true ∧ ∃ a ∈ after.head?, isSmall a = true := by
  have hbody : '_' ∉ "pointXYz2A".toList := by decide
  have hback : toWire (toAccessor ("_" ++ "pointXYz2A")) = "_" ++ "pointXYz2A" := by decide
  exact ⟨hbody, by decide, hback, ((toWire_toAccessor_append_iff (.inr rfl) hbody).mp hback).2⟩

/-- A name without inner underscores is in its wire form. -/
theorem toWire_of_notMem {s : String} (hs : '_' ∉ s.toList.dropWhile (· = '_')) : toWire s = s := by
  rw [← String.toList_inj, toList_toWire, toWireChars_of_notMem hs]

theorem toAccessor_toWire_toAccessor {s : String} (hs : '_' ∉ s.toList.dropWhile (· = '_')) :
    toAccessor (toWire (toAccessor s)) = toAccessor s := by
  rw [← String.toList_inj, toList_toAccessor, toList_toWire, toList_toAccessor,
    toAccessorChars_toWireChars_toAccessorChars hs]

/-- The respelling of a name has no inner underscores either, and the same letters up to case. -/
theorem respelled {s : String} (hs : '_' ∉ s.toList.dropWhile (· = '_')) :
    '_' ∉ (toWire (toAccessor s)).toList.dropWhile (· = '_') ∧
      (toWire (toAccessor s)).toList.map Char.toLower = s.toList.map Char.toLower := by
  by_cases h : isReserved s = true
  · rw [toAccessor_of_isReserved h, toWire_of_isReserved h]
    exact ⟨hs, rfl⟩
  · obtain ⟨leading, body, hsplit, hleading, hbody⟩ :=
      exists_eq_append_of_not_reserved (Bool.eq_false_iff.mpr h)
    rw [hsplit, dropWhile_append hleading hbody] at hs
    rw [toList_toWire, toList_toAccessor, hsplit,
      toWireChars_toAccessorChars_append hleading hbody,
      dropWhile_append hleading (head?_wireWords (head?_accessorWords hbody)),
      List.map_append, List.map_append, map_toLower_wireWords_accessorWords hs]
    exact ⟨underscore_notMem_wireWords_accessorWords hs none, rfl⟩

/-- **The respelling of a name.** A name without inner underscores has the same accessor as its
respelling, which has the same letters up to their case, and capitals only where words start. -/
theorem toAccessor_respelled {s : String} (hs : '_' ∉ s.toList.dropWhile (· = '_')) :
    toAccessor (toWire (toAccessor s)) = toAccessor s ∧
      (toWire (toAccessor s)).toList.map Char.toLower = s.toList.map Char.toLower ∧
      isSpelledOut (toWire (toAccessor s)) = true := by
  obtain ⟨hunderscore, hletters⟩ := respelled hs
  have hback := toAccessor_toWire_toAccessor hs
  exact ⟨hback, hletters, (toWire_toAccessor_eq_iff hunderscore).mp (congrArg toWire hback)⟩

theorem toAccessor_respelled_serverURL :
    '_' ∉ "_HTTPServer2URLéB".toList.dropWhile (· = '_') ∧
      toAccessor "_HTTPServer2URLéB" = "_http_server2_urléb" ∧
      toWire "_http_server2_urléb" = "_httpServer2Urléb" ∧
      toAccessor (toWire (toAccessor "_HTTPServer2URLéB")) = toAccessor "_HTTPServer2URLéB" := by
  have hs : '_' ∉ "_HTTPServer2URLéB".toList.dropWhile (· = '_') := by decide
  exact ⟨hs, by decide, by decide, (toAccessor_respelled hs).1⟩

end GraphQLClient.Name
